import Polyglot.Proofs.Hub.Kept
import Polyglot.Proofs.Hub.Options

/-!
Getting ready with any loader: what a request needs of it, and that nothing else is changed.
-/

namespace Polyglot.Hub

open Loop

variable {K X : Type}

/--
Within a tick a part of a task goes on like another one, and until then only records and the history have
changed.
-/
def LeadsTo (x : State K X) (part next : Routine K X) : Prop :=
  ∃ records history, ∀ (s : Loop K X) t, s.shared = x →
    s.exec t part = { s with shared := { x with records, history } }.exec t next

section LeadsTo

variable {x : State K X} {part next : Routine K X} {α : Type}

theorem LeadsTo.refl (x : State K X) (part : Routine K X) : LeadsTo x part part :=
  ⟨x.records, x.history, by rintro s t rfl; rfl⟩

theorem LeadsTo.look {f : State K X → Block K X α} {k : α → Routine K X} (h : LeadsTo x (f x k) next) :
    LeadsTo x ((Block.look >>= f) k) next := by
  obtain ⟨records, history, h⟩ := h
  refine ⟨records, history, fun s t hs => ?_⟩
  rw [exec_look_bind, hs]
  exact h s t hs

theorem LeadsTo.note {event : Event} {f : Unit → Block K X α} {k : α → Routine K X}
    (h : LeadsTo (x.note event) (f () k) next) : LeadsTo x ((Block.change (·.note event) >>= f) k) next := by
  obtain ⟨records, history, h⟩ := h
  refine ⟨records, history, fun s t hs => ?_⟩
  rw [exec_change_bind, hs]
  exact h _ t rfl

end LeadsTo

section Ready

variable {load : String → Block K X (Except Failure String)} {h : Settings} {a : Ask}
  {parent : Option Request} {x : State K X} {k : Prepared → Routine K X} {r : Request}

end Ready

end Polyglot.Hub
