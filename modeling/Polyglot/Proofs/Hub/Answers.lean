import Polyglot.Proofs.Hub.Inflight

/-!
What requests are answered with, over a life in which nobody cancels a task: where their results come
from, and when it is the same result for all requests with a key.
-/

namespace Polyglot.Hub

open Loop

variable {K X : Type} {m : Machine K X} {old : State K X} {tasks : List Nat} {s : Loop K X}

theorem Fresh.memo {x : State K X} (h : Fresh x) (mode : Mode) : x.memo mode = {} := by
  cases mode with
  | transpile => exact h.transpiled
  | interpret => exact h.interpreted

theorem Fresh.since_iff {x : State K X} (h : Fresh old) {event : Event} :
    Since old x event ↔ event ∈ x.history := by
  unfold Since
  rw [h.history]
  simp

theorem Reached.history_runs (h : Reached m tasks s) {s' : Loop K X} (hruns : Runs m s s') :
    s.shared.history <:+ s'.shared.history := by
  suffices hboth : (∃ tasks', Reached m tasks' s') ∧ s.shared.history <:+ s'.shared.history from hboth.2
  induction hruns with
  | refl => exact ⟨⟨tasks, h⟩, List.suffix_rfl⟩
  | step _ move _ ih =>
    obtain ⟨⟨_, h'⟩, hsuffix⟩ := ih
    obtain ⟨_, horderly⟩ := h'.orderly
    obtain ⟨mode, hmode⟩ : ∃ mode, move ≠ .clear mode := by
      by_cases hclear : move = .clear .transpile
      · exact ⟨.interpret, by simp [hclear]⟩
      · exact ⟨.transpile, hclear⟩
    obtain ⟨new, heq, _⟩ := horderly.adds hmode
    exact ⟨h'.next move, hsuffix.trans ⟨new, heq.symm⟩⟩

/--
A result was handed back by a compiler that has been called for a request.
-/
def Returned (m : Machine K X) (x : State K X) (r : Request) (p : Payload) : Prop :=
  .called r ∈ x.history ∧ ∃ v compilerOptions executerOptions,
    Hands m r v compilerOptions executerOptions ∧ Payload.ofValue r.mode v = .ok p

/--
Whatever a request is answered with was handed back by a compiler that was called for a request with
the same languages and location. If one of the two has its text inline and the other one reads it from
a location, that location is where the inline text is put: else neither shadows the other.
-/
theorem returned_of_uncancelled (hold : Fresh old) (h : Uncancelled m old tasks s) :
    (∀ t ∈ tasks, ∀ o, s.outcome? t = some (.ok o) →
      ∃ e, o = some e ∧ .finished e ∈ s.shared.history) ∧
    ∀ e, .finished e ∈ s.shared.history → ∃ r, Returned m s.shared r e.payload ∧
      r.mode = e.request.mode ∧ r.inputLang = e.request.inputLang ∧
      r.outputLang = e.request.outputLang ∧ r.location = e.request.location ∧
      (r.fromLocation ≠ e.request.fromLocation → e.request.allowCache ∧ ∃ source,
        (if e.request.fromLocation then r else e.request).source = some source ∧
        e.request.location = inlineLocation m.settings.inlineStart source) := by
  obtain ⟨l, hacc⟩ := h.accounts hold.inflight
  have horigins := hacc.book.origins
  constructor
  · intro t ht o ho
    rw [hacc.tended.outcomes] at ho
    obtain ⟨e, rfl, he⟩ := horigins.answered t none o (hacc.outside t ht) ho
    exact ⟨e, rfl, hold.since_iff.mp he⟩
  · intro e he
    obtain ⟨hsound, hkept | ⟨r, ⟨hcalled, hsound', hreturned⟩, hserves⟩⟩ :=
      horigins.finished e (hold.since_iff.mpr he)
    · rw [hold.memo] at hkept
      cases hkept.2
    · obtain ⟨hinput, houtput, hlocation⟩ :=
        hsound'.named.of_key_eq hsound.named hserves.mode hserves.key
      refine ⟨r, ⟨hold.since_iff.mp hcalled, hreturned⟩, hserves.mode, hinput, houtput, hlocation, ?_⟩
      intro hne
      constructor
      · by_contra hcache
        exact hne (hserves.fromLocation (Bool.eq_false_iff.mpr hcache))
      · cases hloc : e.request.fromLocation with
        | true =>
          rw [hloc] at hne
          obtain ⟨source, hsource, hplace⟩ := hsound'.placed (Bool.eq_false_iff.mpr hne)
          exact ⟨source, hsource, hlocation ▸ hplace⟩
        | false => exact hsound.placed hloc

section Shadow

def shadowed : Loop Unit Unit :=
  (Move.apply mute ((Schedule.start muteStart [requestRoutine mute muteAsk]).run 4)
    (.request ⟨.interpret, .ofFields [("location", .str "/source/d41d8cd98f00b204e9800998ecf8427e"),
      ("lang", .str "x")]⟩)).run 1

theorem uncancelled_shadowed : Uncancelled mute muteStart [0, 2] shadowed := by
  have hfirst :
      Uncancelled mute muteStart [0] ((Schedule.start muteStart [requestRoutine mute muteAsk]).run 4) :=
    (Uncancelled.new.request muteAsk).run 4
  have hlength : ((Schedule.start muteStart [requestRoutine mute muteAsk]).run 4).tasks.length = 2 := by
    decide +kernel
  have hboth := (hfirst.request ⟨.interpret, .ofFields
    [("location", .str "/source/d41d8cd98f00b204e9800998ecf8427e"), ("lang", .str "x")]⟩).run 1
  rw [hlength] at hboth
  exact hboth

def isMisread : Event → Bool
  | .finished e => e.request.fromLocation && isNull e.payload
  | _ => false

def isRead : Event → Bool
  | .called r => r.fromLocation
  | _ => false

/--
The later request is answered with the result of the inline one, and its location is that of the
inline text.
-/
theorem shadowed_answered : Uncancelled mute muteStart [0, 2] shadowed ∧ ∃ e r,
    .finished e ∈ shadowed.shared.history ∧ e.request.fromLocation ∧
    Returned mute shadowed.shared r e.payload ∧ r.fromLocation = false ∧ ∃ source,
      r.source = some source ∧ e.request.location = inlineLocation inlineStart source := by
  refine ⟨uncancelled_shadowed, ?_⟩
  have hmisread : shadowed.shared.history.any isMisread := by decide +kernel
  have hread : shadowed.shared.history.any isRead = false := by decide +kernel
  obtain ⟨event, hevent, hmis⟩ := List.any_eq_true.mp hmisread
  unfold isMisread at hmis
  split at hmis
  · next e =>
    have hloc : e.request.fromLocation = true := (Bool.and_eq_true_iff.mp hmis).1
    obtain ⟨r, hreturned, _, _, _, _, hshadow⟩ :=
      (returned_of_uncancelled ⟨rfl, rfl, rfl, rfl⟩ uncancelled_shadowed).2 e hevent
    have hinline : r.fromLocation = false := by
      rw [List.any_eq_false] at hread
      exact Bool.eq_false_iff.mpr (hread _ hreturned.1)
    obtain ⟨_, source, hsource, hplace⟩ := hshadow (by rw [hinline, hloc]; simp)
    rw [if_pos hloc] at hsource
    exact ⟨e, r, hevent, hloc, hreturned, hinline, source, hsource, hplace⟩
  · cases hmis

end Shadow

/--
Where requests wait for what is being worked out and compilers ask only for what is not shared, and as
long as the results of a mode are not dropped: all requests with an inline text and the same key that
end well, and may be kept, have the result that is kept; and work for the same key succeeds twice only
if a compiler is called for a text that is read from a location.
-/
theorem once_of_uncancelled (hold : Fresh old) (hsole : Sole m) (h : Uncancelled m old tasks s)
    {s' s'' : Loop K X}
    (hruns : Runs m s s') (hruns' : Runs m s' s'') {mode : Mode}
    (hclear : .cleared mode ∉ s''.shared.history) :
    (∀ e, .finished e ∈ s''.shared.history → e.request.mode = mode → e.request.allowCache →
      e.request.fromLocation = false →
      (s''.shared.memo mode).get? e.request.key = some e.payload) ∧
    ∀ key t t' u u' o o', LeadsWork s t (mode, key) u → LeadsWork s' t' (mode, key) u' →
      s''.outcome? u = some (.ok o) → s''.outcome? u' = some (.ok o') → u ≠ u' →
      ∃ r, .called r ∈ s''.shared.history ∧ r.mode = mode ∧ r.key = key ∧ r.allowCache ∧
        r.fromLocation := by
  obtain ⟨l, hacc⟩ := h.accounts hold.inflight
  obtain ⟨l', tasks', hl, _, hacc'⟩ := hacc.runs hruns
  obtain ⟨l'', tasks'', hl', _, hacc''⟩ := hacc'.runs hruns'
  have hsingle := hacc''.book.single hsole mode fun hcleared => hclear (hold.since_iff.mp hcleared)
  constructor
  · exact fun e he => hsingle.finished e (hold.since_iff.mpr he)
  · intro key t t' u u' o o' hleads hleads' ho ho' hne
    obtain ⟨r, hstage, hkey⟩ := hacc.leads_iff.mp hleads
    obtain ⟨r', hstage', hkey'⟩ := hacc'.leads_iff.mp hleads'
    obtain ⟨rfl, rfl⟩ := Prod.mk.inj hkey'
    obtain ⟨hmode, hkey⟩ := Prod.mk.inj hkey
    obtain ⟨hu, _⟩ := hacc.book.entries.leads t r u hstage
    obtain ⟨hu', hentry⟩ := hacc'.book.entries.leads t' r' u' hstage'
    obtain ⟨tasks₁, _, hcalm'⟩ := h.runs hruns
    have hsingle' := hacc'.book.single hsole r'.mode fun hcleared => hclear
      ((hcalm'.reached hold).history_runs hruns' |>.subset (hold.since_iff.mp hcleared))
    -- the earlier work has ended when the later one begins, or the entry would still be its own
    have hended : l'.stage u = .ended (.ok o) := by
      by_contra hnot
      have hrun : ¬ l'.Ended u := by
        rintro ⟨result, hresult⟩
        have hend := hl'.ended u result hresult
        rw [(hacc''.tended.outcomes u (.ok o)).mp ho] at hend
        cases hend
        exact hnot hresult
      have hentry' := hsingle'.running u (some t) r (hl.ward hu) hmode hrun
      rw [hkey, hentry] at hentry'
      exact hne (Option.some.inj hentry').symm
    have hread : r'.fromLocation = true := by
      by_contra hinline
      exact hne (hsingle'.alone t' r' u' _ u r o hstage' rfl (Bool.eq_false_iff.mpr hinline)
        (hl.ward hu) hmode hkey hended)
    obtain ⟨_, _, _, hcalled, _⟩ := hacc''.book.origins.worked u' _ r' o' (hl'.ward hu')
      ((hacc''.tended.outcomes u' _).mp ho')
    exact ⟨r', hold.since_iff.mp hcalled, rfl, rfl, hacc'.book.entries.shared u' _ r' hu', hread⟩

theorem sole_sharing : Sole sharing := ⟨rfl, fun _ _ => trivial⟩

/--
Both of two requests for the same text are answered with what is kept for it.
-/
theorem twins_once : Sole sharing ∧ Uncancelled sharing muteStart [0, 1] twins ∧
    ∀ e, .finished e ∈ (twins.run 6).shared.history → e.request.mode = .interpret →
      e.request.allowCache → e.request.fromLocation = false →
      ((twins.run 6).shared.memo .interpret).get? e.request.key = some e.payload := by
  refine ⟨sole_sharing, uncancelled_twins, ?_⟩
  have hclear : (twins.run 6).shared.history.all fun
      | .cleared _ => false
      | _ => true := by decide +kernel
  apply (once_of_uncancelled ⟨rfl, rfl, rfl, rfl⟩ sole_sharing (uncancelled_twins.run 6) .refl .refl _).1
  intro hcleared
  have := List.all_eq_true.mp hclear _ hcleared
  cases this

end Polyglot.Hub
