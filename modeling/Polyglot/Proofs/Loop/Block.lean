import Polyglot.Proofs.Loop.Upkeep

/-!
Contracts block by block: what a block hands on, where what comes after it may count on that.
-/

namespace Polyglot.Loop

variable {σ ε ρ α β : Type} {c : Contract σ ρ} {t : Nat} {ps : Promises ρ} {x : σ}

namespace Block

def Meets (c : Contract σ ρ) (t : Nat) (b : Block σ ε ρ α) (ps : Promises ρ) (x : σ)
    (post : α → Promises ρ → σ → Prop) : Prop :=
  ∀ p k, (∀ a ps' x', ps <+: ps' → post a ps' x' → (k a : Routine σ ε ρ).Keeps c t p ps' x') →
    (b k).Keeps c t p ps x

variable {post : α → Promises ρ → σ → Prop}

theorem Meets.pure {a : α} (h : post a ps x) :
    Meets c t (pure a : Block σ ε ρ α) ps x post :=
  fun _ _ hk => hk a ps x List.prefix_rfl h

theorem Meets.bind {b : Block σ ε ρ α} {f : α → Block σ ε ρ β} {mid : α → Promises ρ → σ → Prop}
    {post : β → Promises ρ → σ → Prop} (h : Meets c t b ps x mid)
    (hf : ∀ a ps' x', ps <+: ps' → mid a ps' x' → Meets c t (f a) ps' x' post) :
    Meets c t (b >>= f) ps x post := by
  intro p k hk
  apply h p fun a => f a k
  intro a ps' x' hps hmid
  apply hf a ps' x' hps hmid p k
  intro b ps'' x'' hps'
  exact hk b ps'' x'' (hps.trans hps')

theorem Meets.weaken {b : Block σ ε ρ α} {post' : α → Promises ρ → σ → Prop}
    (h : Meets c t b ps x post)
    (hpost : ∀ a ps' x', ps <+: ps' → post a ps' x' → post' a ps' x') : Meets c t b ps x post' :=
  fun p k hk => h p k fun a ps' x' hps ha => hk a ps' x' hps (hpost a ps' x' hps ha)

theorem Meets.fail {e : ε} (h : c.inv ps x) : Meets c t (fail e : Block σ ε ρ α) ps x post :=
  fun _ _ _ => ⟨h, by rintro v ⟨⟩⟩

theorem Meets.stop {e : Stop ε} (h : c.inv ps x) : Meets c t (stop e : Block σ ε ρ α) ps x post :=
  fun _ _ _ => ⟨h, by rintro v ⟨⟩⟩

theorem Meets.ofExcept {r : Except ε α} (hinv : c.inv ps x) (h : ∀ a, r = .ok a → post a ps x) :
    Meets c t (ofExcept r : Block σ ε ρ α) ps x post := by
  cases r with
  | ok a => exact .pure (h a rfl)
  | error e => exact .fail hinv

theorem Meets.look {f : σ → Block σ ε ρ α} (h : Meets c t (f x) ps x post) :
    Meets c t (look >>= f) ps x post :=
  h

theorem Meets.change {post : Unit → Promises ρ → σ → Prop} {f : σ → σ} (hstep : c.step x (f x))
    (h : post () ps (f x)) : Meets c t (change f : Block σ ε ρ Unit) ps x post :=
  fun _ _ hk => ⟨hstep, hk () ps (f x) List.prefix_rfl h⟩

theorem Meets.change_bind {g : σ → σ} {f : Unit → Block σ ε ρ α} (hstep : c.step x (g x))
    (h : Meets c t (f ()) ps (g x) post) : Meets c t (Block.change g >>= f) ps x post :=
  fun p k hk => ⟨hstep, h p k hk⟩

theorem Meets.pause {post : Unit → Promises ρ → σ → Prop} (hinv : c.inv ps x)
    (h : ∀ ps' x', ps <+: ps' → c.inv ps' x' → post () ps' x') :
    Meets c t (pause : Block σ ε ρ Unit) ps x post :=
  fun _ _ hk => ⟨hinv, fun ps' x' hps hinv' => hk () ps' x' hps (h ps' x' hps hinv')⟩

def Starts (c : Contract σ ρ) (ps : Promises ρ) (child : Routine σ ε ρ) (q : ρ → Prop) : Prop :=
  ∀ n ps' x, ps.length ≤ n → n < ps'.length → ps <+: ps' → c.inv ps' x → child.Keeps c n q ps' x

theorem Starts.mono {ps' : Promises ρ} {child : Routine σ ε ρ} {q : ρ → Prop}
    (h : Starts c ps child q) (hps : ps <+: ps') : Starts c ps' child q :=
  fun n ps'' x hn hlt hps' =>
    h n ps'' x (Nat.le_trans hps.length_le hn) hlt (hps.trans hps')

theorem Meets.spawn {post : Nat → Promises ρ → σ → Prop} {child : Routine σ ε ρ} {q : ρ → Prop}
    (hchild : Starts c ps child q) (h : post ps.length (ps ++ [q]) x) :
    Meets c t (spawn child : Block σ ε ρ Nat) ps x post := by
  intro p k hk
  refine ⟨q, ?_, hk ps.length (ps ++ [q]) x (List.prefix_append _ _) h⟩
  intro ps' x' hps hinv
  apply hchild ps.length ps' x' (Nat.le_refl _) _ ((List.prefix_append _ _).trans hps) hinv
  have := hps.length_le
  rw [List.length_append, List.length_singleton] at this
  omega

theorem Meets.await {post : Except (Stop ε) ρ → Promises ρ → σ → Prop} {u : Nat}
    (hinv : c.inv ps x) (hu : u < ps.length) (hwaits : c.waits t u)
    (h : ∀ ps' x' r, ps <+: ps' → c.inv ps' x' → (∀ v, r = .ok v → Fits ps' u v) → post r ps' x') :
    Meets c t (await u : Block σ ε ρ _) ps x post :=
  fun _ _ hk => ⟨hinv, hu, hwaits, fun ps' x' r hps hinv' hr => hk r ps' x' hps (h ps' x' r hps hinv' hr)⟩

theorem Meets.follow {post : Except (Stop ε) ρ → Promises ρ → σ → Prop} {u : Nat}
    (hinv : c.inv ps x) (hu : u < ps.length) (hwaits : c.waits t u)
    (h : ∀ ps' x' r, ps <+: ps' → c.inv ps' x' → (∀ v, r = .ok v → Fits ps' u v) → post r ps' x') :
    Meets c t (follow u : Block σ ε ρ _) ps x post :=
  fun _ _ hk => ⟨hinv, hu, hwaits, fun ps' x' r hps hinv' hr => hk r ps' x' hps (h ps' x' r hps hinv' hr)⟩

theorem Meets.spawnAll {parts : List (Routine σ ε ρ)} {qs : Promises ρ}
    (hparts : List.Forall₂ (Starts c ps) parts qs) :
    Meets c t (spawnAll parts : Block σ ε ρ _) ps x fun ts ps' x' =>
      ts = List.range' ps.length qs.length ∧ ps' = ps ++ qs ∧ x' = x := by
  induction parts generalizing ps qs with
  | nil =>
    cases hparts
    exact .pure ⟨rfl, by simp, rfl⟩
  | cons part parts ih =>
    obtain _ | ⟨hpart, hrest⟩ := hparts
    next q qs =>
    have hspawn : Meets c t (Block.spawn part : Block σ ε ρ Nat) ps x fun u ps' x' =>
        u = ps.length ∧ ps' = ps ++ [q] ∧ x' = x := .spawn hpart ⟨rfl, rfl, rfl⟩
    apply hspawn.bind
    rintro u _ _ hps ⟨rfl, rfl, rfl⟩
    apply Meets.bind (ih (hrest.imp fun _ _ h => h.mono hps))
    rintro ts _ _ _ ⟨rfl, rfl, rfl⟩
    apply Meets.pure
    refine ⟨?_, by simp, rfl⟩
    rw [List.length_append, List.length_singleton, List.length_cons, List.range'_succ]

theorem fits_range {ps qs ps' : Promises ρ} (hps : ps ++ qs <+: ps') {vs : List ρ}
    (h : List.Forall₂ (Fits ps') (List.range' ps.length qs.length) vs) :
    List.Forall₂ (fun q v => q v) qs vs := by
  induction qs generalizing ps vs with
  | nil =>
    cases h
    exact .nil
  | cons q qs ih =>
    rw [List.length_cons, List.range'_succ] at h
    obtain _ | ⟨hfit, hrest⟩ := h
    obtain ⟨q', hq', hv⟩ := hfit
    rw [List.append_cons] at hps
    have hq : ps'[ps.length]? = some q := by
      obtain ⟨more, rfl⟩ := hps
      simp
    obtain rfl := Option.some.inj (hq.symm.trans hq')
    refine .cons hv (ih hps ?_)
    rw [List.length_append, List.length_singleton]
    exact hrest

theorem Meets.join (qs : Promises ρ) (post : List ρ → Promises ρ → σ → Prop)
    {parts : List (Routine σ ε ρ)} (ht : t < ps.length) (hinv : c.inv ps x)
    (hparts : List.Forall₂ (Starts c ps) parts qs)
    (h : ∀ vs ps' x', ps <+: ps' → c.inv ps' x' → List.Forall₂ (fun q v => q v) qs vs →
      post vs ps' x') :
    Meets c t (join parts : Block σ ε ρ _) ps x post := by
  apply Meets.bind (Meets.spawnAll hparts)
  rintro ts _ _ hps ⟨rfl, rfl, rfl⟩
  have hnew : ∀ u ∈ List.range' ps.length qs.length, u < (ps ++ qs).length ∧ c.waits t u := by
    intro u hu
    obtain ⟨hle, hlt⟩ := List.mem_range'_1.mp hu
    rw [List.length_append]
    exact ⟨hlt, c.later (Nat.lt_of_lt_of_le ht hle)⟩
  intro p k hk
  refine ⟨c.mono hps hinv, hnew, ?_⟩
  intro ps' x' r hps' hinv' hr
  cases r with
  | ok vs => exact hk vs ps' x' hps' (h vs ps' x' (hps.trans hps') hinv' (fits_range hps' (hr vs rfl)))
  | error e =>
    refine ⟨hinv', ?_, ?_⟩
    · intro u hu
      exact ⟨Nat.lt_of_lt_of_le (hnew u hu).1 hps'.length_le, (hnew u hu).2⟩
    · intro ps'' x'' r' _ hinv''
      cases r' with
      | ok _ => exact ⟨hinv'', by rintro v ⟨⟩⟩
      | error _ => exact ⟨hinv'', by rintro v ⟨⟩⟩

end Block

end Polyglot.Loop
