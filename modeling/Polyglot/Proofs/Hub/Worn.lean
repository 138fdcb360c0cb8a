import Polyglot.Proofs.Hub.Wardrobe

/-!
The styles of a component after it has been asked for: they are in the head that the request has chosen,
and stay there until it is cleared, if the component has been worked out. A result that was there already
comes without its styles.
-/

namespace Polyglot.Hub

open Loop
open Component (styleTarget)

variable {K X : Type}

def growing : Habit K X where
  sees x := ∀ id, (x.head id).Sound
  moves x x' := ∀ id, (x.head id).styles ⊆ (x'.head id).styles
  right _ := True
  report _ _ _ _ hsees := ⟨hsees, fun _ _ h => h⟩
  keep _ _ _ hsees := by
    refine ⟨fun id => ?_, fun id => ?_⟩
    · rw [head_setMemo]
      exact hsees id
    · rw [head_setMemo]
      exact fun _ h => h
  like _ _ _ _ := id

theorem growing_adds : (growing : Habit K X).Adds where
  refl _ _ _ h := h
  trans h h' id _ hmem := h' id (h id hmem)

theorem sees_appendStyles {x : State K X} (id : Nat) (sheets : List String) (hsees : growing.sees x) :
    growing.sees (x.appendStyles id sheets) := by
  intro id'
  rw [head_appendStyles]
  split
  · exact (hsees id).appendAll sheets
  · exact hsees id'

theorem growing_allows (effect : Effect X) : (growing : Habit K X).Allows (·.apply effect) := by
  intro x hsees
  cases effect with
  | appendStyles id sheets =>
    refine ⟨sees_appendStyles id sheets hsees, fun id' css hmem => ?_⟩
    change css ∈ ((x.appendStyles id sheets).head id').styles
    rw [head_appendStyles]
    split
    · next hid =>
      rw [Style.Head.mem_styles_appendAll (hsees id)]
      exact .inl (hid ▸ hmem)
    · exact hmem
  | _ => exact ⟨hsees, fun _ _ h => h⟩

theorem growing_binds (m : Machine K X) : (growing : Habit K X).Binds m := by
  intro x r k _ _ _
  have hcall : (m.perform k r).AsksOnly fun _ => True := Call.asksOnly_of_forall (fun _ => trivial) _
  exact hcall.heeds (fun _ _ _ _ _ => trivial) growing_allows fun _ _ => trivial

def resting : Habit K X where
  sees _ := True
  moves := SameHeads
  right _ := False
  report _ _ _ _ _ := ⟨trivial, fun _ => rfl⟩
  keep _ := False.elim
  like _ _ _ _ := id

def recalling (m : Machine K X) (a : Ask) (old : State K X) : Account K X where
  toHabit := resting
  tells
    | .going, x => SameHeads old x
    | .called o, x => SameHeads old x ∧ ∀ e, o ≠ .ok (some e)
    | .closed o, x => SameHeads old x ∧ ∀ e, o = .ok (some e) →
      outset m old a = .ok (.hit e)
  stable := by
    intro p x x' hsame
    have htrans (h : SameHeads old x) : SameHeads old x' := fun id => (hsame id).trans (h id)
    cases p with
    | going => exact htrans
    | called o => exact And.imp_left htrans
    | closed o => exact And.imp_left htrans

variable {m : Machine K X} {x₀ x x' : State K X} {a : Ask} {s : Loop K X} {o : Outcome} {e : Envelope}
variable {id : Nat}

theorem recalling_covers (hidle : x.inflight = {})
    (hhit : outset m x a = .ok (.hit e)) :
    (recalling m a x).Covers m x a where
  idle := hidle
  sees := trivial
  going _ := rfl
  binds _ := False.elim
  heeds r k hready _ := by cases hhit.symm.trans hready
  cancelled _ _ hx := ⟨hx, by simp⟩
  fails hx := ⟨hx, by simp⟩
  hits hready hx := ⟨hx, by
    rintro _ ⟨⟩
    exact hready⟩
  refuses _ hx := ⟨hx.1, by simp⟩
  returns hreceived _ hx := by
    obtain ⟨e', ho, _⟩ := request_of_received hreceived
    exact absurd ho (hx.2 e')

/--
What happens to a hub from outside: a request that ends, or the clear of a head.
-/
inductive Visit (m : Machine K X) : Option Nat → State K X → State K X → Prop where
  | request {x : State K X} {a : Ask} {s : Loop K X} {o : Outcome}
    (hs : Relation.ReflTransGen Schedule.Fires (Schedule.start x [requestRoutine m a]) s)
    (ho : s.outcome? 0 = some o) : Visit m none x s.shared
  | clear (x : State K X) (id : Nat) : Visit m (some id) x (x.clearHead id)

/--
A row of requests and of clears of some heads.
-/
def Visits (m : Machine K X) (clears : Nat → Prop) : State K X → State K X → Prop :=
  Relation.ReflTransGen fun x x' => ∃ cleared, (∀ id, cleared = some id → clears id) ∧ Visit m cleared x x'

/--
A hub at rest whose heads are in order.
-/
structure AtRest (x : State K X) : Prop where
  idle : x.inflight = {}
  sound : ∀ id, (x.head id).Sound

theorem Visit.ready {cleared : Option Nat} (h : Visit m cleared x x') (hx : AtRest x) :
    AtRest x' ∧ ∀ id, cleared ≠ some id → (x.head id).styles ⊆ (x'.head id).styles := by
  cases h with
  | @request _ a s o hs ho =>
    have hcovers : (keeping growing_adds x).Covers m x a :=
      keeping_covers growing_adds hx.idle hx.sound (growing_binds m) fun _ _ => trivial
    exact ⟨⟨inflight_of_ended hx.idle hs ho, hcovers.sees_of_fires hs⟩,
      fun id _ => (hcovers.told hs).1 o ho id⟩
  | clear id =>
    refine ⟨⟨hx.idle, fun id' => ?_⟩, fun id' hne => ?_⟩
    · rw [State.clearHead, head_setHead]
      split
      · exact Style.Head.sound_empty
      · exact hx.sound id'
    · rw [State.clearHead, head_setHead, if_neg fun heq => hne (congrArg some heq.symm)]
      exact fun _ h => h

theorem Visits.atRest {clears : Nat → Prop} (h : Visits m clears x x') (hx : AtRest x) : AtRest x' := by
  induction h with
  | refl => exact hx
  | tail _ hvisit ih =>
    obtain ⟨_, _, hvisit⟩ := hvisit
    exact (hvisit.ready ih).1

theorem Visits.subset (h : Visits m (· ≠ id) x x') (hx : AtRest x) :
    (x.head id).styles ⊆ (x'.head id).styles := by
  induction h with
  | refl => exact fun _ h => h
  | tail hvisits hvisit ih =>
    obtain ⟨cleared, hclears, hvisit⟩ := hvisit
    have hkept := (hvisit.ready (Visits.atRest hvisits hx)).2 id fun heq => hclears id heq rfl
    exact fun css hmem => hkept (ih hmem)

theorem dressed_of_ended (hx : AtRest x) (ha : AsksComponent m x a)
    (hs : Relation.ReflTransGen Schedule.Fires (Schedule.start x [requestRoutine m a]) s)
    (ho : s.outcome? 0 = some (.ok (some e))) :
    (outset m x a = .ok (.hit e) ∧
      SameHeads x s.shared) ∨
    WorkedOut m a e ∧ ∃ exports name parts, e.payload = .value (.component exports name parts) ∧
      ∀ id, styleTarget e.request.executerOptions = .ok (.head id) →
        parts.styles ⊆ (s.shared.head id).styles := by
  by_cases hhit : ∃ e, outset m x a = .ok (.hit e)
  · obtain ⟨e', hhit⟩ := hhit
    obtain ⟨hsame, hends⟩ := ((recalling_covers hx.idle hhit).told hs).1 _ ho
    exact .inl ⟨hends e rfl, hsame⟩
  · have hwants : Wants growing m x a :=
      { asks := ha, idle := hx.idle, sees := hx.sound, adds := growing_adds, binds := growing_binds m
        append := sees_appendStyles, fresh := fun e he => hhit ⟨e, he⟩, right := fun _ _ _ => trivial
        regions := fun _ _ _ _ _ _ _ => trivial, script := fun _ _ _ _ _ => trivial }
    obtain ⟨hworked, x₁, x₂, hsound, _, hdressed, hgrows⟩ := (hwants.covers.told hs).1 _ ho
    obtain ⟨exports, name, parts, hpayload, hhead⟩ := hdressed
    refine .inr ⟨hworked, exports, name, parts, hpayload, fun id htarget css hmem => hgrows id ?_⟩
    rw [htarget] at hhead
    rw [hhead.2.1, Style.Head.mem_styles_appendAll (hsound id)]
    exact .inr hmem

/--
In the life of a hub in which requests are made of any kind and heads are cleared: a request for the
value of a component that succeeds is answered with what has been kept for it, and then touches no head;
or it has been worked out, and then the head that the request has chosen contains all styles of the
component when the request has ended, and from then on until it is cleared.
-/
theorem worn_of_visits (hx₀ : AtRest x₀) (hx : Visits m (fun _ => True) x₀ x) (ha : AsksComponent m x a)
    (hs : Relation.ReflTransGen Schedule.Fires (Schedule.start x [requestRoutine m a]) s)
    (ho : s.outcome? 0 = some (.ok (some e))) :
    (∃ r p, requestOf a.mode a.options m.settings.inlineStart 0 = .ok r ∧ r.allowCache ∧
      (x.memo r.mode).get? r.key = some p ∧ e = ⟨{ r with cacheHit := true }, p⟩ ∧ SameHeads x s.shared) ∨
    ∃ r exports name parts, requestOf a.mode a.options m.settings.inlineStart 0 = .ok r ∧
      e.request.cacheHit = false ∧ e.payload = .value (.component exports name parts) ∧
      ∀ id, styleTarget r.executerOptions = .ok (.head id) →
        ∀ x', Visits m (· ≠ id) s.shared x' → parts.styles ⊆ (x'.head id).styles := by
  have hrest := Visits.atRest hx hx₀
  rcases dressed_of_ended hrest ha hs ho with
    ⟨hhit, hsame⟩ | ⟨hworked, exports, name, parts, hpayload, hworn⟩
  · obtain ⟨r, p, hr, hcache, hmemo, heq⟩ := hit_of_ready hhit
    exact .inl ⟨r, p, hr, hcache, hmemo, heq, hsame⟩
  · obtain ⟨r, source, hr, hrequest⟩ := hworked
    refine .inr ⟨r, exports, name, parts, hr, ?_, hpayload, fun id htarget x' hvisits css hmem => ?_⟩
    · rw [hrequest]
      exact (made_of_requestOf hr).fresh
    · have hended := ((Visit.request hs ho).ready hrest).1
      apply Visits.subset hvisits hended
      exact hworn id (by rw [hrequest]; exact htarget) hmem

def redText : String := "<style>.a\x7bcolor:red\x7d</style>"

def redAsk : Ask :=
  ⟨.interpret, .ofFields [("source", .str redText), ("lang", .str "vue")]⟩

def redRequest : Request where
  mode := .interpret
  location := inlineLocation inlineStart redText
  inputLang := "vue"
  source := some redText
  fromLocation := false
  depth := 0

theorem requestOf_red :
    requestOf redAsk.mode redAsk.options house.settings.inlineStart 0 = .ok redRequest := by
  rfl

theorem atRest_house : AtRest houseStart := ⟨rfl, fun _ => Style.Head.sound_empty⟩

def reddened : Loop Builtin Unit := (Schedule.start houseStart [requestRoutine house redAsk]).run 60

theorem reddened_ends : ∃ e, reddened.outcome? 0 = some (.ok (some e)) ∧
    brought (.ok (some e)) 0 = [".a\x7bcolor:red\x7d"] := by
  have hbrought : (reddened.outcome? 0).map (brought · 0) = some [".a\x7bcolor:red\x7d"] := by decide +kernel
  obtain ⟨o, ho, hstyles⟩ := Option.map_eq_some_iff.mp hbrought
  rcases o with _ | _ | e
  · cases hstyles
  · cases hstyles
  · exact ⟨e, ho, hstyles⟩

/--
The styles of the component are in the head of the hub.
-/
theorem red_worn : AtRest houseStart ∧ AsksComponent house houseStart redAsk ∧ ∃ e exports name parts,
    reddened.outcome? 0 = some (.ok (some e)) ∧ e.payload = .value (.component exports name parts) ∧
      parts.styles ⊆ (reddened.shared.head 0).styles := by
  have hasks : AsksComponent house houseStart redAsk := .of_found rfl requestOf_red rfl fun _ => rfl
  obtain ⟨e, ho, _⟩ := reddened_ends
  refine ⟨atRest_house, hasks, e, ?_⟩
  rcases worn_of_visits atRest_house .refl hasks (Schedule.fires_run _ 60) ho with
    ⟨r, p, hr, _, hmemo, _⟩ | ⟨r, exports, name, parts, hr, _, hpayload, hworn⟩
  · cases requestOf_red.symm.trans hr
    cases hmemo
  · cases requestOf_red.symm.trans hr
    exact ⟨exports, name, parts, ho, hpayload, hworn 0 rfl _ .refl⟩

/--
When the head has been cleared, the component is answered with what has been kept, and the head stays
empty.
-/
theorem red_lost : AtRest houseStart ∧ ∃ x s e, Visits house (fun _ => True) houseStart x ∧
    AsksComponent house x redAsk ∧
    Relation.ReflTransGen Schedule.Fires (Schedule.start x [requestRoutine house redAsk]) s ∧
    s.outcome? 0 = some (.ok (some e)) ∧ brought (.ok (some e)) 0 = [".a\x7bcolor:red\x7d"] ∧
    (s.shared.head 0).styles = [] := by
  have hfound : compiler? (reddened.shared.clearHead 0).registry redRequest = some .componentValue := by
    decide +kernel
  have hbrought :
      (((Schedule.start (reddened.shared.clearHead 0) [requestRoutine house redAsk]).run 60).outcome? 0).map
        (brought · 0) = some [".a\x7bcolor:red\x7d"] := by decide +kernel
  have hvisits : Visits house (fun _ => True) houseStart (reddened.shared.clearHead 0) := by
    obtain ⟨e, ho, _⟩ := reddened_ends
    exact .tail (.single ⟨none, fun _ _ => trivial, .request (Schedule.fires_run _ 60) ho⟩)
      ⟨some 0, fun _ _ => trivial, .clear _ 0⟩
  obtain ⟨o, ho, hstyles⟩ := Option.map_eq_some_iff.mp hbrought
  rcases o with _ | _ | e
  · cases hstyles
  · cases hstyles
  · exact ⟨atRest_house, _, _, e, hvisits, .of_found rfl requestOf_red hfound fun _ => rfl,
      Schedule.fires_run _ 60, ho, hstyles, by decide +kernel⟩

end Polyglot.Hub
