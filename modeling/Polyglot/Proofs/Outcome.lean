import Mathlib.Data.List.Defs

/-!
When a computation that may fail has a result.
-/

namespace Polyglot

variable {ε ε' α β : Type}

theorem bind_eq_ok {x : Except ε α} {f : α → Except ε β} {b : β} :
    x >>= f = .ok b ↔ ∃ a, x = .ok a ∧ f a = .ok b := by
  cases x with
  | ok a => exact ⟨fun h => ⟨a, rfl, h⟩, by rintro ⟨a', ⟨⟩, h⟩; exact h⟩
  | error e => exact ⟨by rintro ⟨⟩, by rintro ⟨_, ⟨⟩, _⟩⟩

theorem map_eq_ok {x : Except ε α} {f : α → β} {b : β} :
    x.map f = .ok b ↔ ∃ a, x = .ok a ∧ f a = b := by
  cases x with
  | ok a => simp [Except.map]
  | error e => simp [Except.map]

theorem mapError_eq_ok {x : Except ε α} {f : ε → ε'} {a : α} :
    x.mapError f = .ok a ↔ x = .ok a := by
  cases x with
  | ok b => exact ⟨by rintro ⟨⟩; rfl, by rintro ⟨⟩; rfl⟩
  | error e => exact ⟨by rintro ⟨⟩, by rintro ⟨⟩⟩

theorem eq_ok_of_toOption {x : Except ε α} {a : α} (h : x.toOption = some a) : x = .ok a := by
  cases x with
  | ok b => rw [Option.some.inj h]
  | error e => cases h

/--
Either it is done and has such a result, or it has failed for such a reason.
-/
def Gives (failed : ε → Prop) (done : α → Prop) : Except ε α → Prop
  | .ok a => done a
  | .error e => failed e

variable {failed : ε → Prop}

theorem Gives.map {x : Except ε α} {f : α → β} {done : α → Prop} {done' : β → Prop}
    (h : Gives failed done x) (hf : ∀ a, done a → done' (f a)) : Gives failed done' (x.map f) := by
  cases x with
  | ok a => exact hf a h
  | error e => exact h

theorem Gives.imp {failed' : ε → Prop} {x : Except ε α} {done done' : α → Prop} (h : Gives failed done x)
    (hfailed : ∀ e, failed e → failed' e) (hdone : ∀ a, done a → done' a) : Gives failed' done' x := by
  cases x with
  | ok a => exact hdone a h
  | error e => exact hfailed e h

theorem Gives.orFailed {failed' : ε → Prop} {x : Except ε α} {done : α → Prop} (h : Gives failed done x) :
    Gives (fun e => failed e ∨ failed' e) done x :=
  h.imp (fun _ => .inl) fun _ h => h

theorem Gives.bind {x : Except ε α} {f : α → Except ε β} {done : α → Prop} {done' : β → Prop}
    (h : Gives failed done x) (hf : ∀ a, x = .ok a → done a → Gives failed done' (f a)) :
    Gives failed done' (x >>= f) := by
  cases x with
  | ok a => exact hf a rfl h
  | error e => exact h

/--
Steps that are taken in order give the results of all of them, or fail as one of them does.
-/
theorem gives_mapM {f : α → Except ε β} {R : α → β → Prop} (h : ∀ a, Gives failed (R a) (f a)) (as : List α) :
    Gives failed (List.Forall₂ R as) (as.mapM f) := by
  induction as with
  | nil => exact List.Forall₂.nil
  | cons a as ih =>
    have ha := h a
    rw [List.mapM_cons]
    cases hfirst : f a with
    | error e =>
      rw [hfirst] at ha
      exact ha
    | ok b =>
      rw [hfirst] at ha
      exact ih.map fun bs hbs => .cons ha hbs

end Polyglot
