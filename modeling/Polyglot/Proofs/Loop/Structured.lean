import Polyglot.Proofs.Loop.Parts

/-!
Structured routines wait for all that they start, whatever they find and whatever comes of it, and change the
state only as a frame allows. So they tend their wards on any terms that restrain them no further, and
from the moment on that terms restrain them no more.
-/

namespace Polyglot.Loop

variable {σ ε ρ κ π : Type}

def Routine.Drains : Routine σ ε ρ → Prop
  | .drain _ _ => True
  | _ => False

/--
What routines are held to besides leaving no wards behind: what holds of a state and the number of tasks
whenever they look, how they may change the state, and which results they hand on.
-/
structure Frame (σ ρ : Type) where
  knows : σ → Nat → Prop
  moves : σ → σ → Prop
  fine : ρ → Prop

/--
How a routine may end, and what may take its place as soon as it has no wards.
-/
structure Close (σ ε ρ : Type) where
  ends : Except (Stop ε) ρ → Prop
  exits : Routine σ ε ρ → Prop

namespace Frame

def Fine (f : Frame σ ρ) (r : Except (Stop ε) ρ) : Prop := ∀ v, r = .ok v → f.fine v

def close (f : Frame σ ρ) : Close σ ε ρ := ⟨f.Fine, fun _ => False⟩

theorem fine_error (f : Frame σ ρ) (e : Stop ε) : f.Fine (.error e) := by
  rintro _ ⟨⟩

def Allows (f : Frame σ ρ) (n : Nat) (x x' : σ) : Prop := f.knows x n → f.knows x' n ∧ f.moves x x'

end Frame

/--
A routine leaves no wards behind, keeps to a frame, and ends in certain ways. There are `n` tasks, and
those wards that have not ended are `us`.
-/
inductive Routine.Structured (f : Frame σ ρ) : Routine σ ε ρ → Close σ ε ρ → Nat → List Nat → Prop where
  | exit {r close n} (h : close.exits r) : Structured f r close n []
  | finish {r close n} (h : close.ends r) : Structured f (.finish r) close n []
  | pause {next close n} (h : ∀ n' ≥ n, Structured f next close n' []) : Structured f (.pause next) close n []
  | look {next close n us} (h : ∀ x, f.knows x n → Structured f (next x) close n us) :
    Structured f (.look next) close n us
  | change {g next close n us} (hg : ∀ x, f.Allows n x (g x)) (h : Structured f next close n us) :
    Structured f (.change g next) close n us
  | spawn {child next close n us} (hchild : ∀ n' > n, Structured f child f.close n' [])
    (h : Structured f (next n) close (n + 1) (us ++ [n])) : Structured f (.spawn child next) close n us
  | await {u next close n} (h : ∀ n' ≥ n, ∀ r, f.Fine r → Structured f (next r) close n' []) :
    Structured f (.await u next) close n [u]
  | follow {u next close n} (hu : u < n) (h : ∀ n' ≥ n, ∀ r, Structured f (next r) close n' []) :
    Structured f (.follow u next) close n []
  | gather {us next close n}
    (hok : ∀ n' ≥ n, ∀ rs, (∀ v ∈ rs, f.fine v) → Structured f (next (.ok rs)) close n' [])
    (hdrains : ∀ e, (next (.error e)).Drains)
    (herror : ∀ n' ≥ n, ∀ e, Structured f (next (.error e)) close n' us) :
    Structured f (.gather us next) close n us
  | drain {us next close n} (h : ∀ n' ≥ n, ∀ r, Structured f (next r) close n' []) :
    Structured f (.drain us next) close n us

def Block.Structured {α : Type} (f : Frame σ ρ) (b : Block σ ε ρ α) (meets : α → Prop) : Prop :=
  ∀ close n k, (∀ e, close.ends (.error e)) →
    (∀ a, meets a → ∀ n' ≥ n, (k a).Structured f close n' []) → (b k).Structured f close n []

namespace Block

variable {f : Frame σ ρ} {close : Close σ ε ρ} {α β : Type} {meets : α → Prop} {meets' : β → Prop}

theorem Structured.pure {a : α} (h : meets a) : Structured f (pure a : Block σ ε ρ α) meets :=
  fun _ n _ _ hk => hk a h n (Nat.le_refl n)

theorem Structured.bind {b : Block σ ε ρ α} {g : α → Block σ ε ρ β} (h : b.Structured f meets)
    (hg : ∀ a, meets a → (g a).Structured f meets') : (b >>= g).Structured f meets' := by
  intro close n k herror hk
  apply h close n (fun a => g a k) herror
  intro a ha n' hn'
  exact hg a ha close n' k herror fun b hb n'' hn'' => hk b hb n'' (Nat.le_trans hn' hn'')

theorem Structured.weaken {b : Block σ ε ρ α} {meets' : α → Prop} (h : b.Structured f meets)
    (himp : ∀ a, meets a → meets' a) : b.Structured f meets' :=
  fun close n k herror hk => h close n k herror fun a ha => hk a (himp a ha)

theorem Structured.stop (s : Stop ε) : Structured f (stop s : Block σ ε ρ α) meets :=
  fun _ _ _ herror _ => .finish (herror s)

theorem Structured.fail (e : ε) : Structured f (fail e : Block σ ε ρ α) meets :=
  fun _ _ _ herror _ => .finish (herror _)

theorem Structured.ofExcept (r : Except ε α) : Structured f (ofExcept r : Block σ ε ρ α) (r = .ok ·) := by
  cases r with
  | ok a => exact .pure rfl
  | error e => exact .fail e

theorem Structured.look {g : σ → Block σ ε ρ α} (h : ∀ x n, f.knows x n → (g x).Structured f meets) :
    (look >>= g).Structured f meets :=
  fun close n k herror hk => .look fun x hx => h x n hx close n k herror hk

theorem Structured.change {g : σ → σ} (h : ∀ x n, f.Allows n x (g x)) :
    (change g : Block σ ε ρ Unit).Structured f fun _ => True :=
  fun _ n _ _ hk => .change (fun x => h x n) (hk () trivial n (Nat.le_refl n))

theorem Structured.pause : (pause : Block σ ε ρ Unit).Structured f fun _ => True :=
  fun _ _ _ _ hk => .pause (hk () trivial)

theorem Structured.call {child : Routine σ ε ρ} {g : Except (Stop ε) ρ → Block σ ε ρ α}
    (hchild : ∀ n, child.Structured f f.close n []) (hg : ∀ r, f.Fine r → (g r).Structured f meets) :
    (spawn child >>= fun t => await t >>= g).Structured f meets := by
  intro close n k herror hk
  refine .spawn (fun n' _ => hchild n') (.await ?_)
  intro n' hn' r hr
  exact hg r hr close n' k herror fun a ha n'' hn'' => hk a ha n'' (by omega)

theorem structured_spawnAll {parts : List (Routine σ ε ρ)} {n : Nat} {us : List Nat}
    {k : List Nat → Routine σ ε ρ} (hparts : ∀ part ∈ parts, ∀ n, part.Structured f f.close n [])
    (hk : (k (List.range' n parts.length)).Structured f close (n + parts.length)
      (us ++ List.range' n parts.length)) : (spawnAll parts k).Structured f close n us := by
  induction parts generalizing n us k with
  | nil =>
    rw [List.length_nil, List.range'_zero, List.append_nil] at hk
    exact hk
  | cons part parts ih =>
    refine .spawn (fun n' _ => hparts part List.mem_cons_self n') ?_
    apply ih (k := fun ts => k (n :: ts)) fun part hpart => hparts part (List.mem_cons_of_mem _ hpart)
    rw [List.length_cons, List.range'_succ] at hk
    rw [List.append_assoc, Nat.add_assoc, Nat.add_comm 1]
    exact hk

theorem Structured.join {parts : List (Routine σ ε ρ)}
    (hparts : ∀ part ∈ parts, ∀ n, part.Structured f f.close n []) :
    (join parts : Block σ ε ρ _).Structured f fun rs => ∀ v ∈ rs, f.fine v := by
  intro close n k herror hk
  apply structured_spawnAll hparts
  refine .gather (fun n' hn' rs hrs => hk rs hrs n' (by omega)) (fun _ => trivial) ?_
  refine fun _ _ e => .drain ?_
  rintro _ _ (e' | _)
  · exact .finish (herror e')
  · exact .finish (herror e)

end Block

variable {c c₀ : Terms σ ε ρ κ π} {f : Frame σ ρ} {l : Ledger κ π ε ρ} {us : List Nat}
variable {x : σ} {t : Nat} {r : Routine σ ε ρ} {ends : Except (Stop ε) ρ → Prop}

/--
A task that stands at point `p` is restrained by nothing but its frame and how it may end. What it
starts plays a part of its own and stands at point `q`.
-/
structure Terms.Frees (c : Terms σ ε ρ κ π) (f : Frame σ ρ) (role : κ) (q : π) (t : Nat) (p : π)
    (ends : Except (Stop ε) ρ → Prop) : Prop where
  fits : ∀ {l x} (r : Routine σ ε ρ), l.stage t = .pending p → c.inv l x → c.Fits t l p r
  starts : ∀ r, c.fits role q r
  known : ∀ {l x}, l.stage t = .pending p → c.inv l x → f.knows x l.wards.length
  fine : ∀ {l x u r}, l.stage t = .pending p → c.inv l x → t < u → l.stage u = .ended r → f.Fine r
  change : ∀ {l x x'}, l.stage t = .pending p → c.inv l x → f.knows x' l.wards.length → f.moves x x' →
    c.inv l x'
  finish : ∀ {l x r}, l.stage t = .pending p → c.inv l x → ends r → c.inv (l.reach t (.ended r)) x
  cancelled : ∀ {l x}, l.stage t = .pending p → c.inv l x → l.Doomed t →
    c.inv (l.reach t (.ended (.error .cancelled))) x
  start : ∀ {l x}, l.stage t = .pending p → c.inv l x → c.inv (l.start ⟨some t, role⟩ q) x
  cutOff : ∀ {l x us}, l.stage t = .pending p → c.inv l x → c.inv (l.cutOff us) x
  older : ∀ {l x}, l.stage t = .pending p → c.inv l x → t < l.wards.length

theorem Terms.Stops.fit {p : π} (h : c.Stops t l p r x) : c.Fits t (l.reach t (.pending p)) p r := h.1

namespace Terms.Frees

variable {role : κ} {p q : π} (h : c.Frees f role q t p ends)
  (hinv : c.inv (l.reach t (.pending p)) x)
include h hinv

theorem fit (r : Routine σ ε ρ) : c.Fits t l p r := by
  obtain ⟨w, hw, hfits⟩ := h.fits r (l.stage_reach_self t _) hinv
  exact ⟨w, hw, hfits⟩

theorem lt : t < l.wards.length := by
  have hlt := h.older (l.stage_reach_self t _) hinv
  rwa [Ledger.wards_reach] at hlt

theorem knows_length : f.knows x l.wards.length := by
  have hknown := h.known (l.stage_reach_self t _) hinv
  rwa [Ledger.wards_reach] at hknown

omit hinv in
theorem fine_results {rs : List ρ} (ht : l.stage t = .pending p) (hinv : c.inv l x)
    (hus : ∀ u ∈ us, t < u) (hrs : List.Forall₂ (fun u v => l.stage u = .ended (.ok v)) us rs) :
    ∀ v ∈ rs, f.fine v := by
  induction hrs with
  | nil => simp
  | cons hv _ ih =>
    rw [List.forall_mem_cons] at hus ⊢
    exact ⟨h.fine ht hinv hus.1 hv _ rfl, ih hus.2⟩

section GoesOn

omit hinv
variable (hstage : l.stage t = .pending p)
include hstage

theorem ready {next : Ledger κ π ε ρ → σ → Prop}
    (hnext : ∀ l' x', l.wards.length ≤ l'.wards.length → c.inv (l'.reach t (.pending p)) x' →
      next l' x') : c.Ready t next l := by
  intro l' x' hl hinv
  have ht : l'.stage t = .pending p := hl.stage.trans hstage
  refine ⟨hnext l' x' hl.wards.length_le ?_, h.cancelled ht hinv⟩
  rwa [Ledger.reach_self _ _ _ ht]

theorem awaits {u : Nat} {next : Except (Stop ε) ρ → Ledger κ π ε ρ → σ → Prop} (hu : t < u)
    (hnext : ∀ l' x' r, l.wards.length ≤ l'.wards.length → f.Fine r →
      c.inv (l'.reach t (.pending p)) x' → next r l' x') : c.Awaits t u next l := by
  intro l' x' hl hinv
  have ht : l'.stage t = .pending p := hl.stage.trans hstage
  have hgo (r : Except (Stop ε) ρ) (hr : f.Fine r) : next r l' x' :=
    hnext l' x' r hl.wards.length_le hr (by rwa [Ledger.reach_self _ _ _ ht])
  exact ⟨fun r hr _ => hgo r (h.fine ht hinv hu hr), fun _ _ => hgo _ (f.fine_error _)⟩

theorem gathers {next : Except (Stop ε) (List ρ) → List Nat → Ledger κ π ε ρ → σ → Prop}
    (hus : ∀ u ∈ us, t < u)
    (hok : ∀ l' x' rs, l.wards.length ≤ l'.wards.length → (∀ v ∈ rs, f.fine v) →
      c.inv (l'.reach t (.pending p)) x' → next (.ok rs) [] l' x')
    (herror : ∀ l' x' e, l.wards.length ≤ l'.wards.length → c.inv (l'.reach t (.pending p)) x' →
      next (.error e) us l' x') : c.Gathers t us next l := by
  intro l' x' hl hinv
  have ht : l'.stage t = .pending p := hl.stage.trans hstage
  have hinv' : c.inv (l'.reach t (.pending p)) x' := by rwa [Ledger.reach_self _ _ _ ht]
  have hlen := hl.wards.length_le
  refine ⟨?_, fun _ e _ _ _ => herror l' x' e hlen hinv', fun _ => herror l' x' _ hlen hinv'⟩
  exact fun rs hrs => hok l' x' rs hlen (h.fine_results ht hinv hus hrs) hinv'

omit h

theorem follows {u : Nat} {next : Except (Stop ε) ρ → Ledger κ π ε ρ → σ → Prop}
    (hnext : ∀ l' x' r, l.wards.length ≤ l'.wards.length → c.inv (l'.reach t (.pending p)) x' →
      next r l' x') : c.Follows t u next l := by
  intro l' x' hl hinv
  have ht : l'.stage t = .pending p := hl.stage.trans hstage
  have hgo (r : Except (Stop ε) ρ) : next r l' x' :=
    hnext l' x' r hl.wards.length_le (by rwa [Ledger.reach_self _ _ _ ht])
  exact ⟨fun r _ => hgo r, fun _ => hgo _⟩

theorem drains {next : Except (Stop ε) Unit → Ledger κ π ε ρ → σ → Prop}
    (hnext : ∀ l' x' r, l.wards.length ≤ l'.wards.length → c.inv (l'.reach t (.pending p)) x' →
      next r l' x') : c.Drains t us next l := by
  intro l' x' hl hinv _
  have ht : l'.stage t = .pending p := hl.stage.trans hstage
  have hgo (r : Except (Stop ε) Unit) : next r l' x' :=
    hnext l' x' r hl.wards.length_le (by rwa [Ledger.reach_self _ _ _ ht])
  exact ⟨hgo _, fun _ => hgo _⟩

end GoesOn

end Terms.Frees

section Tends

variable {role : κ} {p q : π} {close : Close σ ε ρ}

/--
A structured routine tends its wards as a task that is restrained by nothing but its frame and how it may
end, if what takes its place does.
-/
theorem Routine.Structured.tends (h : r.Structured f close l.wards.length us)
    (hfree : ∀ u > t, c.Frees f role q u q f.Fine) (ht : c.Frees f role q t p close.ends)
    (hexit : ∀ r, close.exits r → ∀ l x, c.inv (l.reach t (.pending p)) x → r.Tends c t [] l x)
    (hus : r.Drains ∨ ∀ u ∈ us, t < u ∧ ¬ l.Ended u)
    (hinv : c.inv (l.reach t (.pending p)) x) : r.Tends c t us l x := by
  generalize hn : l.wards.length = n at h
  induction h generalizing t p l x with
  | exit hr => exact hexit _ hr l x hinv
  | finish hends =>
    have hfinish := ht.finish (l.stage_reach_self t _) hinv hends
    rw [Ledger.reach_reach] at hfinish
    exact ⟨rfl, hfinish⟩
  | pause _ ih =>
    subst hn
    refine ⟨rfl, p, ⟨ht.fit hinv _, hinv⟩, ht.ready (l.stage_reach_self t _) ?_⟩
    exact fun l' x' hlen hinv' => ih _ hlen hfree ht hexit (.inr (by simp)) hinv' rfl
  | look _ ih =>
    exact ih x (hn ▸ ht.knows_length hinv) hfree ht hexit (.inr (hus.resolve_left id)) hinv hn
  | change hg _ ih =>
    apply ih hfree ht hexit (.inr (hus.resolve_left id)) _ hn
    obtain ⟨hknows, hmoves⟩ := hg x (hn ▸ ht.knows_length hinv)
    exact ht.change (l.stage_reach_self t _) hinv (by rwa [Ledger.wards_reach, hn]) hmoves
  | spawn _ _ ihchild ih =>
    subst hn
    have hlt := ht.lt hinv
    refine ⟨role, q, ht.starts _, ?_, ?_⟩
    · have hfree' := hfree l.wards.length hlt
      refine hfree'.ready (l.stage_start_self _ q) ?_
      intro l' x' hlen hinv'
      rw [Ledger.wards_start, List.length_append, List.length_singleton] at hlen
      exact ihchild _ hlen (fun u hu => hfree u (by omega)) hfree' (by rintro _ ⟨⟩) (.inr (by simp))
        hinv' rfl
    · apply ih hfree ht hexit
      · refine .inr ?_
        intro u hu
        by_cases heq : u = l.wards.length
        · rw [heq]
          refine ⟨hlt, ?_⟩
          rintro ⟨e, he⟩
          cases (l.stage_start_self _ _).symm.trans he
        · have hold := hus.resolve_left id u
            ((List.mem_append.mp hu).resolve_right fun h => heq (List.mem_singleton.mp h))
          rwa [Ledger.Ended, Ledger.stage_start_of_ne _ _ _ heq]
      · rw [Ledger.start_reach _ _ _ _ _ (Nat.ne_of_lt hlt)]
        exact ht.start (l.stage_reach_self t _) hinv
      · rw [Ledger.wards_start, List.length_append, List.length_singleton]
  | @await u next close n _ ih =>
    subst hn
    obtain ⟨hlt, hrun⟩ := hus.resolve_left id u (List.mem_singleton_self u)
    refine ⟨rfl, hrun, p, ⟨ht.fit hinv _, hinv⟩, ht.awaits (l.stage_reach_self t _) hlt ?_⟩
    exact fun l' x' r hlen hr hinv' => ih _ hlen r hr hfree ht hexit (.inr (by simp)) hinv' rfl
  | @follow u next close n hu _ ih =>
    subst hn
    refine ⟨rfl, hu, ?_, ?_⟩
    · exact fun r _ => ih _ (Nat.le_refl _) r hfree ht hexit (.inr (by simp)) hinv rfl
    · intro _
      refine ⟨p, ⟨ht.fit hinv _, hinv⟩, Terms.Frees.follows (l.stage_reach_self t _) ?_⟩
      exact fun l' x' r hlen hinv' => ih _ hlen r hfree ht hexit (.inr (by simp)) hinv' rfl
  | @gather us next close n _ hdrains _ ihok iherror =>
    subst hn
    refine ⟨rfl, ?_, ?_⟩
    · rintro rfl
      exact ihok _ (Nat.le_refl _) [] (by simp) hfree ht hexit (.inr (by simp)) hinv rfl
    · intro _
      have hlater : ∀ u ∈ us, t < u := fun u hu => (hus.resolve_left id u hu).1
      refine ⟨p, ⟨ht.fit hinv _, hinv⟩, ht.gathers (l.stage_reach_self t _) hlater ?_ ?_⟩
      · exact fun l' x' rs hlen hrs hinv' =>
          ihok _ hlen rs hrs hfree ht hexit (.inr (by simp)) hinv' rfl
      · exact fun l' x' e hlen hinv' => iherror _ hlen e hfree ht hexit (.inl (hdrains e)) hinv' rfl
  | @drain us next close n _ ih =>
    subst hn
    refine ⟨rfl, ?_, ?_⟩
    · exact fun _ => ih _ (Nat.le_refl _) _ hfree ht hexit (.inr (by simp)) hinv rfl
    · intro _
      have hcut : c.inv ((l.cutOff us).reach t (.pending p)) x :=
        ht.cutOff (l.stage_reach_self t _) hinv
      refine ⟨p, ⟨ht.fit hcut _, hcut⟩, Terms.Frees.drains (Ledger.stage_reach_self _ t _) ?_⟩
      exact fun l' x' r hlen hinv' => ih _ hlen r hfree ht hexit (.inr (by simp)) hinv' rfl

end Tends

section Relax

/--
Terms that tasks after the first `base` ones keep for as long as they have to, while some task may
free them all. All results will do.
-/
structure Terms.Relaxes (c c₀ : Terms σ ε ρ κ π) (f : Frame σ ρ) (role : κ) (q : π) (base : Nat) :
    Prop where
  inv : ∀ {l x}, c₀.inv l x → c.inv l x
  fits : ∀ {role p r}, c₀.fits role p r → c.fits role p r
  frees : ∀ t > base, c.Frees f role q t q f.Fine
  free : ∀ {t l x p r}, base < t → l.stage t = .pending p → c₀.Fits t l p r → c.inv l x →
    c₀.inv l x ∨ c.inv (l.reach t (.pending q)) x
  known : ∀ {l x}, c.inv l x → f.knows x l.wards.length
  mono : ∀ {x n}, f.knows x n → f.knows x (n + 1)
  fine : ∀ v, f.fine v

variable {role : κ} {q : π} {base : Nat}

namespace Terms.Relaxes

variable {l' : Ledger κ π ε ρ} {x' : σ} {p : π} {r₀ : Routine σ ε ρ}
variable (hc : c.Relaxes c₀ f role q base)
include hc

theorem fit (h : c₀.Fits t l p r) : c.Fits t l p r := by
  obtain ⟨w, hw, hr⟩ := h
  exact ⟨w, hw, hc.fits hr⟩

theorem stops (h : c₀.Stops t l p r x) : c.Stops t l p r x := ⟨hc.fit h.1, hc.inv h.2⟩

theorem fineAll (r : Except (Stop ε) ρ) : f.Fine r := fun v _ => hc.fine v

section Later

variable (hbase : base < t) (hfit : c₀.Fits t l p r₀) (hstage : l.stage t = .pending p)
  (hl : l.Later t l') (hinv : c.inv l' x')
include hbase hfit hstage hl hinv

theorem goes_on (hstructured : r.Structured f f.close l'.wards.length us) (hus : r.Drains ∨ us = [])
    (hkeep : c₀.inv l' x' → r.Tends c t us l' x') : r.Tends c t us l' x' := by
  rcases hc.free hbase (hl.stage.trans hstage) (hfit.mono hl.toExtends) hinv with hinv' | hinv'
  · exact hkeep hinv'
  · apply hstructured.tends (fun u hu => hc.frees u (Nat.lt_trans hbase hu)) (hc.frees t hbase)
      (by rintro _ ⟨⟩) _ hinv'
    exact hus.imp_right fun h => by simp [h]

theorem cancels (hkeep : c₀.inv l' x' → c₀.inv (l'.reach t (.ended (.error .cancelled))) x') :
    c.inv (l'.reach t (.ended (.error .cancelled))) x' := by
  rcases hc.free hbase (hl.stage.trans hstage) (hfit.mono hl.toExtends) hinv with hinv' | hinv'
  · exact hc.inv (hkeep hinv')
  · have hfinish := (hc.frees t hbase).finish (r := .error .cancelled) (l'.stage_reach_self t _)
      hinv' (f.fine_error _)
    rwa [Ledger.reach_reach] at hfinish

end Later

section Resumes

variable (hbase : base < t) (hfit : c₀.Fits t l p r₀) (hstage : l.stage t = .pending p)
  (hstructured : ∀ n ≥ l.wards.length, r.Structured f f.close n [])
  (hkeep : ∀ l' x', l.wards.length ≤ l'.wards.length → c.inv l' x' → r.Tends c₀ t [] l' x' →
    r.Tends c t [] l' x')
include hbase hfit hstage hstructured hkeep

theorem resumes (hl : l.Later t l') (hinv : c.inv l' x') (h : c₀.inv l' x' → r.Tends c₀ t [] l' x') :
    r.Tends c t [] l' x' :=
  hc.goes_on hbase hfit hstage hl hinv (hstructured _ hl.wards.length_le) (.inr rfl) fun hinv' =>
    hkeep l' x' hl.wards.length_le hinv (h hinv')

theorem ready (h : c₀.Ready t (r.Tends c₀ t []) l) : c.Ready t (r.Tends c t []) l := by
  intro l' x' hl hinv
  refine ⟨?_, ?_⟩
  · exact hc.resumes hbase hfit hstage hstructured hkeep hl hinv fun hinv' => (h l' x' hl hinv').1
  · intro hdoom
    exact hc.cancels hbase hfit hstage hl hinv fun hinv' => (h l' x' hl hinv').2 hdoom

end Resumes

section Waits

variable {next : Except (Stop ε) ρ → Routine σ ε ρ} {u : Nat}
variable (hbase : base < t) (hfit : c₀.Fits t l p r₀) (hstage : l.stage t = .pending p)
  (hstructured : ∀ n ≥ l.wards.length, ∀ r, (next r).Structured f f.close n [])
  (hkeep : ∀ l' x' r, l.wards.length ≤ l'.wards.length → c.inv l' x' →
    (next r).Tends c₀ t [] l' x' → (next r).Tends c t [] l' x')
include hbase hfit hstage hstructured hkeep

theorem awaits (h : c₀.Awaits t u (fun r => (next r).Tends c₀ t []) l) :
    c.Awaits t u (fun r => (next r).Tends c t []) l := by
  intro l' x' hl hinv
  have hgo (r : Except (Stop ε) ρ) := hc.resumes hbase hfit hstage (fun n hn => hstructured n hn r)
    (fun l' x' => hkeep l' x' r) hl hinv
  refine ⟨?_, ?_⟩
  · exact fun r hr hdoom => hgo r fun hinv' => (h l' x' hl hinv').1 r hr hdoom
  · exact fun hdoom hended => hgo _ fun hinv' => (h l' x' hl hinv').2 hdoom hended

theorem follows (h : c₀.Follows t u (fun r => (next r).Tends c₀ t []) l) :
    c.Follows t u (fun r => (next r).Tends c t []) l := by
  intro l' x' hl hinv
  have hgo (r : Except (Stop ε) ρ) := hc.resumes hbase hfit hstage (fun n hn => hstructured n hn r)
    (fun l' x' => hkeep l' x' r) hl hinv
  refine ⟨?_, ?_⟩
  · exact fun r hr => hgo r fun hinv' => (h l' x' hl hinv').1 r hr
  · exact fun hdoom => hgo _ fun hinv' => (h l' x' hl hinv').2 hdoom

end Waits

section Joins

variable (hbase : base < t) (hfit : c₀.Fits t l p r₀) (hstage : l.stage t = .pending p)
include hbase hfit hstage

theorem drains {next : Except (Stop ε) Unit → Routine σ ε ρ}
    (hstructured : ∀ n ≥ l.wards.length, ∀ r, (next r).Structured f f.close n [])
    (hkeep : ∀ l' x' r, l.wards.length ≤ l'.wards.length → c.inv l' x' →
      (next r).Tends c₀ t [] l' x' → (next r).Tends c t [] l' x')
    (h : c₀.Drains t us (fun r => (next r).Tends c₀ t []) l) :
    c.Drains t us (fun r => (next r).Tends c t []) l := by
  intro l' x' hl hinv hended
  have hgo (r : Except (Stop ε) Unit) := hc.resumes hbase hfit hstage
    (fun n hn => hstructured n hn r) (fun l' x' => hkeep l' x' r) hl hinv
  refine ⟨?_, ?_⟩
  · exact hgo _ fun hinv' => (h l' x' hl hinv' hended).1
  · exact fun hdoom => hgo _ fun hinv' => (h l' x' hl hinv' hended).2 hdoom

theorem gathers {next : Except (Stop ε) (List ρ) → Routine σ ε ρ}
    (hok : ∀ n ≥ l.wards.length, ∀ rs, (next (.ok rs)).Structured f f.close n [])
    (hdrains : ∀ e, (next (.error e)).Drains)
    (herror : ∀ n ≥ l.wards.length, ∀ e, (next (.error e)).Structured f f.close n us)
    (hkeep : ∀ l' x' rs, l.wards.length ≤ l'.wards.length → c.inv l' x' →
      (next (.ok rs)).Tends c₀ t [] l' x' → (next (.ok rs)).Tends c t [] l' x')
    (hkeepError : ∀ l' x' e, l.wards.length ≤ l'.wards.length → c.inv l' x' →
      (next (.error e)).Tends c₀ t us l' x' → (next (.error e)).Tends c t us l' x')
    (h : c₀.Gathers t us (fun r us => (next r).Tends c₀ t us) l) :
    c.Gathers t us (fun r us => (next r).Tends c t us) l := by
  intro l' x' hl hinv
  have hlen := hl.wards.length_le
  have hfail (e : Stop ε) (h : c₀.inv l' x' → (next (.error e)).Tends c₀ t us l' x') :
      (next (.error e)).Tends c t us l' x' :=
    hc.goes_on hbase hfit hstage hl hinv (herror _ hlen e) (.inl (hdrains e)) fun hinv' =>
      hkeepError l' x' e hlen hinv (h hinv')
  refine ⟨?_, ?_, ?_⟩
  · intro rs hrs
    exact hc.goes_on hbase hfit hstage hl hinv (hok _ hlen rs) (.inr rfl) fun hinv' =>
      hkeep l' x' rs hlen hinv ((h l' x' hl hinv').1 rs hrs)
  · exact fun u e hu he hdoom => hfail e fun hinv' => (h l' x' hl hinv').2.1 u e hu he hdoom
  · exact fun hdoom => hfail _ fun hinv' => (h l' x' hl hinv').2.2 hdoom

end Joins

/--
A structured routine that tends its wards on certain terms does so on the terms that free it, too.
-/
theorem tends (hstructured : r.Structured f f.close l.wards.length us) (hbase : base < t)
    (hlt : t < l.wards.length) (hknows : f.knows x l.wards.length) (h : r.Tends c₀ t us l x) :
    r.Tends c t us l x := by
  generalize hclose : f.close = close at hstructured
  generalize hn : l.wards.length = n at hstructured
  induction hstructured generalizing t l x with
  | exit hr =>
    subst hclose
    exact hr.elim
  | finish => exact ⟨h.1, hc.inv h.2⟩
  | pause hstructured ih =>
    subst hclose hn
    obtain ⟨_, p, hstop, hready⟩ := h
    refine ⟨rfl, p, hc.stops hstop, ?_⟩
    refine hc.ready hbase hstop.fit (l.stage_reach_self t _) hstructured ?_ hready
    exact fun l' x' hlen hinv hnext =>
      ih _ hlen hbase (Nat.lt_of_lt_of_le hlt hlen) (hc.known hinv) hnext rfl rfl
  | look _ ih => exact ih x (hn ▸ hknows) hbase hlt hknows h hclose hn
  | change hg _ ih =>
    exact ih hbase hlt (hn ▸ (hg x (hn ▸ hknows)).1) h hclose hn
  | spawn hchild _ ihchild ih =>
    subst hn
    obtain ⟨role', p, hfits, hready, hnext⟩ := h
    have hlen : (l.start ⟨some t, role'⟩ p).wards.length = l.wards.length + 1 := by simp
    refine ⟨role', p, hc.fits hfits, ?_, ?_⟩
    · have hbase' : base < l.wards.length := Nat.lt_trans hbase hlt
      have hfit : c₀.Fits l.wards.length (l.start ⟨some t, role'⟩ p) p (.pause _) :=
        ⟨_, List.getElem?_concat_length, hfits⟩
      rw [← Nat.succ_eq_add_one] at hlen
      refine hc.ready hbase' hfit (l.stage_start_self _ p) ?_ ?_ hready
      · rw [hlen]
        exact hchild
      · rw [hlen]
        exact fun l' x' hlen' hinv hnext => ihchild _ hlen' hbase' hlen' (hc.known hinv) hnext rfl rfl
    · apply ih hbase _ _ hnext hclose hlen
      · rw [hlen]
        exact Nat.lt_succ_of_lt hlt
      · rw [hlen]
        exact hc.mono hknows
  | @await u next _ _ hstructured ih =>
    subst hclose hn
    obtain ⟨_, hrun, p, hstop, hawaits⟩ := h
    refine ⟨rfl, hrun, p, hc.stops hstop, ?_⟩
    refine hc.awaits hbase hstop.fit (l.stage_reach_self t _)
      (fun n hn r => hstructured n hn r (hc.fineAll r)) ?_ hawaits
    exact fun l' x' r hlen hinv hnext => ih _ hlen r (hc.fineAll r) hbase
      (Nat.lt_of_lt_of_le hlt hlen) (hc.known hinv) hnext rfl rfl
  | @follow u next _ _ hu hstructured ih =>
    subst hclose hn
    obtain ⟨_, hu, hnow, hlater⟩ := h
    refine ⟨rfl, hu, ?_, ?_⟩
    · exact fun r hr => ih _ (Nat.le_refl _) r hbase hlt hknows (hnow r hr) rfl rfl
    · intro hrun
      obtain ⟨p, hstop, hfollows⟩ := hlater hrun
      refine ⟨p, hc.stops hstop, ?_⟩
      refine hc.follows hbase hstop.fit (l.stage_reach_self t _) hstructured ?_ hfollows
      exact fun l' x' r hlen hinv hnext => ih _ hlen r hbase (Nat.lt_of_lt_of_le hlt hlen)
        (hc.known hinv) hnext rfl rfl
  | @gather us next _ _ hok hdrains herror ihok iherror =>
    subst hclose hn
    obtain ⟨_, hnow, hlater⟩ := h
    have hfine (rs : List ρ) : ∀ v ∈ rs, f.fine v := fun v _ => hc.fine v
    refine ⟨rfl, ?_, ?_⟩
    · rintro rfl
      exact ihok _ (Nat.le_refl _) [] (hfine []) hbase hlt hknows (hnow rfl) rfl rfl
    · intro hne
      obtain ⟨p, hstop, hgathers⟩ := hlater hne
      refine ⟨p, hc.stops hstop, ?_⟩
      refine hc.gathers hbase hstop.fit (l.stage_reach_self t _) (fun n hn rs => hok n hn rs (hfine rs))
        hdrains herror ?_ ?_ hgathers
      · exact fun l' x' rs hlen hinv hnext => ihok _ hlen rs (hfine rs) hbase
          (Nat.lt_of_lt_of_le hlt hlen) (hc.known hinv) hnext rfl rfl
      · exact fun l' x' e hlen hinv hnext => iherror _ hlen e hbase (Nat.lt_of_lt_of_le hlt hlen)
          (hc.known hinv) hnext rfl rfl
  | @drain us next _ _ hstructured ih =>
    subst hclose hn
    obtain ⟨_, hnow, hlater⟩ := h
    refine ⟨rfl, ?_, ?_⟩
    · rintro rfl
      exact ih _ (Nat.le_refl _) _ hbase hlt hknows (hnow rfl) rfl rfl
    · intro hne
      obtain ⟨p, hstop, hdrains⟩ := hlater hne
      refine ⟨p, hc.stops hstop, ?_⟩
      refine hc.drains hbase hstop.fit (Ledger.stage_reach_self _ t _) hstructured ?_ hdrains
      exact fun l' x' r hlen hinv hnext => ih _ hlen r hbase (Nat.lt_of_lt_of_le hlt hlen)
        (hc.known hinv) hnext rfl rfl

end Terms.Relaxes

end Relax

end Polyglot.Loop
