import Polyglot.Proofs.Loop.Twins

/-!
Pairs of blocks that take the same steps in two runs. What they hand on goes together, so that whatever
comes after them may be looked at by itself.
-/

namespace Polyglot.Loop.Block

variable {σ ε ρ α β : Type} {c : Likeness σ ρ} {go go₀ : α → α → Prop} {mid mid₀ : β → β → Prop}

def Alike (c : Likeness σ ρ) (b b' : Block σ ε ρ α) (go : α → α → Prop) : Prop :=
  ∀ bs q k k', (∀ bs', bs <+: bs' → ∀ a a', go a a' → Loop.Alike c bs' q (k a) (k' a')) →
    Loop.Alike c bs q (b k) (b' k')

def Straight (c : Likeness σ ρ) (b b' : Block σ ε ρ α) (go : α → α → Prop) : Prop :=
  ∀ q k k', (∀ a a', go a a' → Loop.Straight c q (k a) (k' a')) → Loop.Straight c q (b k) (b' k')

/--
Two blocks take the same steps. They hand on values that go together one way as long as no task has ended
whose results are not close, else they do so another way, and then nothing else may be waited for.
-/
def Leads (c : Likeness σ ρ) (b b' : Block σ ε ρ α) (go₀ go : α → α → Prop) : Prop :=
  ∀ bs q k k', ¬ c.Close q →
    (∀ bs', bs <+: bs' → ∀ a a', go₀ a a' → Loop.Alike c bs' q (k a) (k' a')) →
    (∀ a a', go a a' → Loop.Straight c q (k a) (k' a')) → Loop.Alike c bs q (b k) (b' k')

namespace Alike

theorem pure {a a' : α} (h : go a a') : Alike c (pure a : Block σ ε ρ α) (Pure.pure a') go :=
  fun bs _ _ _ hk => hk bs List.prefix_rfl a a' h

theorem bind {b b' : Block σ ε ρ β} {f f' : β → Block σ ε ρ α} (h : b.Alike c b' mid)
    (hf : ∀ v v', mid v v' → (f v).Alike c (f' v') go) : (b >>= f).Alike c (b' >>= f') go := by
  intro bs q k k' hk
  apply h bs q (fun v => f v k) fun v => f' v k'
  intro bs' hbs v v' hv
  exact hf v v' hv bs' q k k' fun bs'' hbs' => hk bs'' (hbs.trans hbs')

theorem weaken {b b' : Block σ ε ρ α} {go' : α → α → Prop} (h : b.Alike c b' go)
    (himp : ∀ a a', go a a' → go' a a') : b.Alike c b' go' :=
  fun bs q k k' hk => h bs q k k' fun bs' hbs a a' ha => hk bs' hbs a a' (himp a a' ha)

theorem stop (s : Stop ε) : Alike c (stop s : Block σ ε ρ α) (Block.stop s) go :=
  fun _ _ _ _ _ => .finish (.error s)

theorem fail (e : ε) : Alike c (fail e : Block σ ε ρ α) (Block.fail e) go :=
  fun _ _ _ _ _ => .finish (.error _)

theorem ofExcept (r : Except ε α) :
    (ofExcept r : Block σ ε ρ α).Alike c (Block.ofExcept r) fun a a' => r = .ok a ∧ a = a' := by
  cases r with
  | error e => exact .fail e
  | ok a => exact .pure ⟨rfl, rfl⟩

theorem look {f f' : σ → Block σ ε ρ α} (h : ∀ x x', c.state x x' → (f x).Alike c (f' x') go) :
    (look >>= f).Alike c (look >>= f') go :=
  fun bs q k k' hk => .look fun x x' hx => h x x' hx bs q k k' hk

theorem change {f f' : σ → σ} (h : Likeness.Keeps c.state f f') :
    (change f : Block σ ε ρ Unit).Alike c (Block.change f') fun _ _ => True :=
  fun bs _ _ _ hk => .change h (hk bs List.prefix_rfl () () trivial)

theorem left {f : σ → σ} (h : Likeness.Keeps c.state f id) :
    (Block.change f : Block σ ε ρ Unit).Alike c (Pure.pure ()) fun _ _ => True :=
  fun bs _ _ _ hk => .left h (hk bs List.prefix_rfl () () trivial)

theorem right {f : σ → σ} (h : Likeness.Keeps c.state id f) :
    (Pure.pure () : Block σ ε ρ Unit).Alike c (Block.change f) fun _ _ => True :=
  fun bs _ _ _ hk => .right h (hk bs List.prefix_rfl () () trivial)

theorem pause : (pause : Block σ ε ρ Unit).Alike c Block.pause fun _ _ => True :=
  fun _ _ _ _ hk => .pause fun bs' hbs => hk bs' hbs () () trivial

theorem follow {t : Nat} {g g' : Except (Stop ε) ρ → Block σ ε ρ α}
    (h : ∀ r r', Agrees c.near r r' → (g r).Alike c (g' r') go) :
    (follow t >>= g).Alike c (follow t >>= g') go :=
  fun _ q k k' hk => .follow fun bs' hbs r r' hr =>
    h r r' hr bs' q k k' fun bs'' hbs' => hk bs'' (hbs.trans hbs')

theorem call {q₀ : ρ → ρ → Prop} (hclose : c.Close q₀) {child child' : Routine σ ε ρ}
    {g g' : Except (Stop ε) ρ → Block σ ε ρ α} (hchild : ∀ bs, Loop.Alike c bs q₀ child child')
    (hg : ∀ r r', Agrees q₀ r r' → (g r).Alike c (g' r') go) :
    Alike c (spawn child >>= fun t => await t >>= g) (spawn child' >>= fun t => await t >>= g') go := by
  intro bs q k k' hk
  refine .spawn hclose (fun bs' _ => hchild bs') (.await List.getElem?_concat_length hclose ?_)
  intro bs' hbs r r' hr
  exact hg r r' hr bs' q k k' fun bs'' hbs' => hk bs'' (((List.prefix_append _ _).trans hbs).trans hbs')

theorem callNoted {q₀ : ρ → ρ → Prop} (hclose : c.Close q₀) {child child' : Routine σ ε ρ}
    {f f' : Nat → σ → σ} {g g' : Except (Stop ε) ρ → Block σ ε ρ α}
    (hchild : ∀ bs, Loop.Alike c bs q₀ child child') (hf : ∀ t, Likeness.Keeps c.state (f t) (f' t))
    (hg : ∀ r r', Agrees q₀ r r' → (g r).Alike c (g' r') go) :
    Alike c (spawn child >>= fun t => Block.change (f t) >>= fun _ => await t >>= g)
      (spawn child' >>= fun t => Block.change (f' t) >>= fun _ => await t >>= g') go := by
  intro bs q k k' hk
  refine .spawn hclose (fun bs' _ => hchild bs') (.change (hf _) (.await List.getElem?_concat_length hclose ?_))
  intro bs' hbs r r' hr
  exact hg r r' hr bs' q k k' fun bs'' hbs' => hk bs'' (((List.prefix_append _ _).trans hbs).trans hbs')

theorem spawnAll {q₀ : ρ → ρ → Prop} (hclose : c.Close q₀) {parts parts' : List (Routine σ ε ρ)}
    (hparts : List.Forall₂ (fun part part' => ∀ bs, Loop.Alike c bs q₀ part part') parts parts') {bs : Bonds ρ}
    {q : ρ → ρ → Prop} {k k' : List Nat → Routine σ ε ρ}
    (hk : ∀ bs', bs <+: bs' → ∀ ts, (∀ t ∈ ts, bs'[t]? = some q₀) → Loop.Alike c bs' q (k ts) (k' ts)) :
    Loop.Alike c bs q (spawnAll parts k) (spawnAll parts' k') := by
  induction hparts generalizing bs k k' with
  | nil => exact hk bs List.prefix_rfl [] (by simp)
  | cons hpart _ ih =>
    refine .spawn hclose (fun bs' _ => hpart bs') ?_
    apply ih
    intro bs' hbs ts hts
    apply hk bs' ((List.prefix_append _ _).trans hbs)
    intro t ht
    rcases List.mem_cons.mp ht with rfl | ht
    · exact getElem?_grown hbs List.getElem?_concat_length
    · exact hts t ht

theorem join {q₀ : ρ → ρ → Prop} (hclose : c.Close q₀) {parts parts' : List (Routine σ ε ρ)}
    (hparts : List.Forall₂ (fun part part' => ∀ bs, Loop.Alike c bs q₀ part part') parts parts') :
    (join parts).Alike c (Block.join parts') (List.Forall₂ q₀) := by
  intro bs q k k' hk
  apply spawnAll hclose hparts
  intro bs' hbs ts hts
  refine .gather hts hclose ?_
  intro bs'' hbs' r r' hr
  cases hr with
  | ok hvs => exact hk bs'' (hbs.trans hbs') _ _ hvs
  | error e =>
    refine .drain (fun t ht => ⟨q₀, getElem?_grown hbs' (hts t ht), hclose⟩) ?_
    intro bs''' _ r
    cases r with
    | ok v => exact .finish (.error e)
    | error e' => exact .finish (.error e')

end Alike

namespace Straight

theorem pure {a a' : α} (h : go a a') : Straight c (pure a : Block σ ε ρ α) (Pure.pure a') go :=
  fun _ _ _ hk => hk a a' h

theorem bind {b b' : Block σ ε ρ β} {f f' : β → Block σ ε ρ α} (h : b.Straight c b' mid)
    (hf : ∀ v v', mid v v' → (f v).Straight c (f' v') go) : (b >>= f).Straight c (b' >>= f') go :=
  fun q k k' hk => h q (fun v => f v k) (fun v => f' v k') fun v v' hv => hf v v' hv q k k' hk

theorem stop (s : Stop ε) : Straight c (stop s : Block σ ε ρ α) (Block.stop s) go :=
  fun _ _ _ _ => .finish (.error s)

theorem fail (e : ε) : Straight c (fail e : Block σ ε ρ α) (Block.fail e) go :=
  fun _ _ _ _ => .finish (.error _)

theorem ofExcept {r r' : Except ε α}
    (h : (∃ e, r = .error e ∧ r' = .error e) ∨ ∃ a a', r = .ok a ∧ r' = .ok a' ∧ go a a') :
    Straight c (ofExcept r : Block σ ε ρ α) (Block.ofExcept r') go := by
  rcases h with ⟨e, rfl, rfl⟩ | ⟨a, a', rfl, rfl, h⟩
  · exact .fail e
  · exact .pure h

theorem look {f f' : σ → Block σ ε ρ α} (h : ∀ x x', c.after x x' → (f x).Straight c (f' x') go) :
    (look >>= f).Straight c (look >>= f') go :=
  fun q k k' hk => .look fun x x' hx => h x x' hx q k k' hk

theorem change {f f' : σ → σ} (h : Likeness.Keeps c.after f f') :
    (change f : Block σ ε ρ Unit).Straight c (Block.change f') fun _ _ => True :=
  fun _ _ _ hk => .change h (hk () () trivial)

theorem left {f : σ → σ} (h : Likeness.Keeps c.after f id) :
    (Block.change f : Block σ ε ρ Unit).Straight c (Pure.pure ()) fun _ _ => True :=
  fun _ _ _ hk => .left h (hk () () trivial)

theorem right {f : σ → σ} (h : Likeness.Keeps c.after id f) :
    (Pure.pure () : Block σ ε ρ Unit).Straight c (Block.change f) fun _ _ => True :=
  fun _ _ _ hk => .right h (hk () () trivial)

end Straight

namespace Leads

theorem of_alike {b b' : Block σ ε ρ α} (h : b.Alike c b' go₀) : b.Leads c b' go₀ go :=
  fun bs q k k' _ hk _ => h bs q k k' hk

theorem look {f f' : σ → Block σ ε ρ α} (h : ∀ x x', c.state x x' → (f x).Leads c (f' x') go₀ go) :
    (look >>= f).Leads c (look >>= f') go₀ go :=
  fun bs q k k' hq hk hstraight => .look fun x x' hx => h x x' hx bs q k k' hq hk hstraight

theorem after {b b' : Block σ ε ρ β} {f f' : β → Block σ ε ρ α} (h : b.Alike c b' mid)
    (hf : ∀ v v', mid v v' → (f v).Leads c (f' v') go₀ go) : (b >>= f).Leads c (b' >>= f') go₀ go := by
  intro bs q k k' hq hk hstraight
  apply h bs q (fun v => f v k) fun v => f' v k'
  intro bs' hbs v v' hv
  exact hf v v' hv bs' q k k' hq (fun bs'' hbs' => hk bs'' (hbs.trans hbs')) hstraight

theorem bind {b b' : Block σ ε ρ β} {f f' : β → Block σ ε ρ α} (h : b.Leads c b' mid₀ mid)
    (hf₀ : ∀ v v', mid₀ v v' → (f v).Alike c (f' v') go₀)
    (hf : ∀ v v', mid v v' → (f v).Straight c (f' v') go) : (b >>= f).Leads c (b' >>= f') go₀ go := by
  intro bs q k k' hq hk hstraight
  apply h bs q (fun v => f v k) (fun v => f' v k') hq
  · intro bs' hbs v v' hv
    exact hf₀ v v' hv bs' q k k' fun bs'' hbs' => hk bs'' (hbs.trans hbs')
  · exact fun v v' hv => hf v v' hv q k k' hstraight

theorem call {q₀ : ρ → ρ → Prop} {child child' : Routine σ ε ρ}
    {g g' : Except (Stop ε) ρ → Block σ ε ρ α} (hchild : ∀ bs, Loop.Alike c bs q₀ child child')
    (hg : ∀ r r', Agrees q₀ r r' → (g r).Straight c (g' r') go) :
    Leads c (spawn child >>= fun t => await t >>= g) (spawn child' >>= fun t => await t >>= g') go₀ go := by
  intro bs q k k' hq _ hstraight
  refine .lead hq (fun bs' _ => hchild bs') (.await ?_)
  exact fun r r' hr => hg r r' hr q k k' hstraight

theorem callNoted {q₀ : ρ → ρ → Prop} {child child' : Routine σ ε ρ} {f f' : Nat → σ → σ}
    {g g' : Except (Stop ε) ρ → Block σ ε ρ α} (hchild : ∀ bs, Loop.Alike c bs q₀ child child')
    (hf : ∀ t, Likeness.Keeps c.state (f t) (f' t))
    (hg : ∀ r r', Agrees q₀ r r' → (g r).Straight c (g' r') go) :
    Leads c (spawn child >>= fun t => Block.change (f t) >>= fun _ => await t >>= g)
      (spawn child' >>= fun t => Block.change (f' t) >>= fun _ => await t >>= g') go₀ go := by
  intro bs q k k' hq _ hstraight
  refine .lead hq (fun bs' _ => hchild bs') (.change (hf _) (.await ?_))
  exact fun r r' hr => hg r r' hr q k k' hstraight

end Leads

end Polyglot.Loop.Block
