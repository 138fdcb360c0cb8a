import Polyglot.Proofs.Hub.Outcomes
import Polyglot.Proofs.Hub.Structured

/-!
An account of a request from outside to a hub at rest: what is told of the hub until the compiler of the
request has ended, until the request has ended itself, and from then on. All that the compiler asks for
keeps to some habit, which may change nothing that is told.
-/

namespace Polyglot.Hub

open Loop

variable {K X : Type}

abbrev Outcome := Except (Stop Failure) (Option Envelope)

/--
How far a request has come: its compiler goes on, has ended, or the request has.
-/
inductive Progress where
  | going
  | called (o : Outcome)
  | closed (o : Outcome)

/--
What is told of a hub as a request to it makes progress. That is no matter of what others change.
-/
structure Account (K X : Type) extends Habit K X where
  tells : Progress → State K X → Prop
  stable : ∀ {p x x'}, moves x x' → tells p x → tells p x'

def received (mode : Mode) : Outcome → Except (Stop Failure) Envelope
  | .error e => .error e
  | .ok none => .error .cancelled
  | .ok (some e) =>
    match e.payload with
    | .value v => ((Payload.ofValue mode v).mapError fun e => .failed (.contract e)).map (⟨e.request, ·⟩)
    | .output _ => .ok e

def State.keep (x : State K X) (e : Envelope) : State K X :=
  if e.request.allowCache && !(x.memo e.request.mode).has e.request.key then
    x.setMemo e.request.mode ((x.memo e.request.mode).set e.request.key e.payload)
  else x

abbrev outset (m : Machine K X) (x : State K X) (a : Ask) : Except Failure Prepared :=
  (requestOf a.mode a.options m.settings.inlineStart 0).bind (readied m x)

namespace Account

variable (acc : Account K X)

def Rests (o : Outcome) : Prop := ∀ x, acc.sees x → acc.tells .going x → acc.tells (.called o) x

/--
How the call of a compiler may end: it rests, or has one last effect.
-/
def tail (r : Request) : Call.Tail X where
  ends c := acc.Rests (handed r c)
  lasts e next := ∃ v compilerOptions executerOptions,
    next = .answer v compilerOptions executerOptions ∧ ∀ x, acc.sees x → acc.tells .going x →
      acc.sees (x.apply e) ∧
        acc.tells (.called (handed r (.ok (v, compilerOptions, executerOptions)))) (x.apply e)

/--
The account of a request to a hub at rest: the compiler of the request ends as it is told, what it asks
for keeps to the habit, and the request ends as it is told.
-/
structure Covers (m : Machine K X) (old : State K X) (a : Ask) : Prop where
  idle : old.inflight = {}
  sees : acc.sees old
  going : acc.tells .going old
  binds : acc.toHabit.Binds m
  heeds : ∀ r k, outset m old a = .ok (.fresh r) →
    compiler? old.registry r = some k → (m.perform k r).Heeds acc.toHabit m.settings (acc.tail r)
  cancelled : acc.Rests (.error .cancelled)
  fails : ∀ {e x}, acc.tells .going x → acc.tells (.closed (.error e)) x
  hits : ∀ {e x}, outset m old a = .ok (.hit e) →
    acc.tells .going x → acc.tells (.closed (.ok (some e))) x
  refuses : ∀ {o e x}, received a.mode o = .error e → acc.tells (.called o) x →
    acc.tells (.closed (.error e)) x
  returns : ∀ {o e x}, received a.mode o = .ok e → acc.sees x → acc.tells (.called o) x →
    acc.sees (x.keep e) ∧ acc.tells (.closed (.ok (some e))) (x.keep e)

end Account

/--
Where a task is: it has started nothing yet, it waits for the one that it has started, it is the
compiler of the request, or it is below that.
-/
inductive Errand.Place where
  | ahead
  | front
  | head
  | below

open Errand

abbrev Roster := Ledger Unit Place Failure (Option Envelope)

namespace Progress

def of (root head : Stage Place Failure (Option Envelope)) : Progress :=
  match root, head with
  | .ended o, _ => closed o
  | _, .ended o => called o
  | _, _ => going

variable {root head : Stage Place Failure (Option Envelope)} {p q : Place}

theorem of_pending_root : of (.pending p) head = of (.pending q) head := by cases head <;> rfl

theorem of_pending_head : of root (.pending p) = of root (.pending q) := by cases root <;> rfl

theorem of_started : of root (.pending p) = of root .new := by cases root <;> rfl

theorem of_open (h : ∀ o, root ≠ .ended o) : of root head = of .new head := by
  cases root with
  | ended o => exact absurd rfl (h o)
  | _ => cases head <;> rfl

end Progress

def progress (head : Nat) (l : Roster) : Progress := .of (l.stage 0) (l.stage head)

section Progress

variable {l : Roster} {head t : Nat} {p q : Place}

theorem progress_reach (hzero : t ≠ 0) (hhead : t ≠ head) (stage : Stage Place Failure (Option Envelope)) :
    progress head (l.reach t stage) = progress head l := by
  rw [progress, Ledger.stage_reach_of_ne _ _ _ hzero.symm, Ledger.stage_reach_of_ne _ _ _ hhead.symm]
  rfl

theorem progress_pending (ht : l.stage t = .pending p) (q : Place) :
    progress head (l.reach t (.pending q)) = progress head l := by
  have hstage (u : Nat) : (l.reach t (.pending q)).stage u = l.stage u ∨
      l.stage u = .pending p ∧ (l.reach t (.pending q)).stage u = .pending q := by
    by_cases hu : u = t
    · subst hu
      exact .inr ⟨ht, l.stage_reach_self _ _⟩
    · exact .inl (l.stage_reach_of_ne _ _ hu)
  rw [progress, progress]
  rcases hstage 0 with h₀ | ⟨h₀, h₀'⟩ <;> rcases hstage head with h₁ | ⟨h₁, h₁'⟩
  · rw [h₀, h₁]
  · rw [h₀, h₁, h₁', Progress.of_pending_head]
  · rw [h₁, h₀, h₀', Progress.of_pending_root]
  · rw [h₀, h₀', h₁, h₁', Progress.of_pending_root, Progress.of_pending_head]

theorem progress_start (hnew : l.stage l.wards.length = .new) (hpos : 0 < l.wards.length) (w : Ward Unit)
    (p : Place) : progress head (l.start w p) = progress head l := by
  rw [progress, progress, Ledger.stage_start_of_ne _ _ _ (Nat.ne_of_lt hpos)]
  by_cases hhead : head = l.wards.length
  · rw [hhead, Ledger.stage_start_self, hnew, Progress.of_started]
  · rw [Ledger.stage_start_of_ne _ _ _ hhead]

end Progress

/--
What holds of the tasks of a request at any time. Task `head` is its compiler; those before it lead to
it, and those after it are below it.
-/
structure Errand (acc : Account K X) (old : State K X) (mode : Mode) (head : Nat) (l : Roster)
    (x : State K X) : Prop where
  fresh : ∀ t, l.wards.length ≤ t → l.stage t = .new
  knows : Knows x l.wards.length
  sees : acc.sees x
  ahead : ∀ t, l.stage t = .pending .ahead →
    l.wards.length = t + 1 ∧ t < head ∧ ¬ l.Ended 0 ∧ (t = 0 → Intact old x ∧ x.inflight = {})
  past : l.Ended 0 → head < l.wards.length → l.Ended head
  below : ∀ t, l.stage t = .pending .below → head < t
  fine : ∀ t o, head < t → l.stage t = .ended o → acc.frame.Fine o
  led : ∀ t o, 0 < t → t < head → l.stage t = .ended o →
    l.Doomed t ∨ ∃ o', l.stage head = .ended o' ∧ o = (received mode o').map some
  told : acc.tells (progress head l) x

def errandTerms (acc : Account K X) (old : State K X) (mode : Mode) (head : Nat) :
    Terms (State K X) Failure (Option Envelope) Unit Place where
  inv := Errand acc old mode head
  fits _ _ _ := True

variable {acc : Account K X} {old x x' : State K X} {mode : Mode} {head t : Nat} {l l' : Roster}
variable {w : Ward Unit} {stage : Stage Place Failure (Option Envelope)} {place : Place} {o : Outcome}

namespace Errand

theorem new (h : Errand acc old mode head l x) : l.stage l.wards.length = .new :=
  h.fresh _ (Nat.le_refl _)

theorem lt (h : Errand acc old mode head l x) (ht : l.stage t = .pending place) : t < l.wards.length := by
  by_contra hge
  cases (h.fresh t (Nat.le_of_not_lt hge)).symm.trans ht

theorem not_ahead (h : Errand acc old mode head l x) (hhead : head < l.wards.length) (t : Nat) :
    l.stage t ≠ .pending .ahead := by
  intro ht
  have := h.ahead t ht
  omega

theorem reach (h : Errand acc old mode head l x) (hlt : t < l.wards.length) (hrun : ¬ l.Ended t)
    (hknows : Knows x' l.wards.length) (hsees : acc.sees x') (hahead : stage ≠ .pending .ahead)
    (hbelow : stage = .pending .below → head < t)
    (hpast : t = 0 → (∃ o, stage = .ended o) → l.Ended head ∨ l.wards.length = 1 ∧ 0 < head)
    (hfine : ∀ o, head < t → stage = .ended o → acc.frame.Fine o)
    (hled : ∀ o, 0 < t → t < head → stage = .ended o →
      l.Doomed t ∨ ∃ o', l.stage head = .ended o' ∧ o = (received mode o').map some)
    (htold : acc.tells (progress head (l.reach t stage)) x') :
    Errand acc old mode head (l.reach t stage) x' where
  fresh := by
    intro u hu
    rw [Ledger.wards_reach] at hu
    rw [Ledger.stage_reach_of_ne _ _ _ (by omega)]
    exact h.fresh u hu
  knows := hknows
  sees := hsees
  ahead := by
    intro u hu
    rcases (Ledger.stage_reach_eq_iff ..).mp hu with ⟨_, heq⟩ | ⟨hne, hu⟩
    · exact absurd heq hahead
    · obtain ⟨hlen, hlt', hopen, _⟩ := h.ahead u hu
      refine ⟨hlen, hlt', ?_, by omega⟩
      rintro ⟨o, ho⟩
      rcases (Ledger.stage_reach_eq_iff ..).mp ho with ⟨rfl, heq⟩ | ⟨_, ho⟩
      · rcases hpast rfl ⟨o, heq⟩ with ⟨o', ho'⟩ | ⟨hone, _⟩
        · cases (h.fresh head (by omega)).symm.trans ho'
        · omega
      · exact hopen ⟨o, ho⟩
  past := by
    rintro ⟨o, ho⟩ hlt'
    rw [Ledger.wards_reach] at hlt'
    have hended : l.Ended head := by
      rcases (Ledger.stage_reach_eq_iff ..).mp ho with ⟨rfl, heq⟩ | ⟨_, ho⟩
      · exact (hpast rfl ⟨o, heq⟩).resolve_right (by omega)
      · exact h.past ⟨o, ho⟩ hlt'
    obtain ⟨o', ho'⟩ := hended
    exact ⟨o', by rw [Ledger.stage_reach_of_ne _ _ _ (by rintro rfl; exact hrun ⟨_, ho'⟩), ho']⟩
  below := by
    intro u hu
    rcases (Ledger.stage_reach_eq_iff ..).mp hu with ⟨rfl, heq⟩ | ⟨_, hu⟩
    · exact hbelow heq
    · exact h.below u hu
  fine := by
    intro u o hu ho
    rcases (Ledger.stage_reach_eq_iff ..).mp ho with ⟨rfl, heq⟩ | ⟨_, ho⟩
    · exact hfine o hu heq
    · exact h.fine u o hu ho
  led := by
    intro u o hpos hlt' ho
    have hled' : l.Doomed u ∨ ∃ o', l.stage head = .ended o' ∧ o = (received mode o').map some := by
      rcases (Ledger.stage_reach_eq_iff ..).mp ho with ⟨rfl, heq⟩ | ⟨_, ho⟩
      · exact hled o hpos hlt' heq
      · exact h.led u o hpos hlt' ho
    refine hled'.imp id fun ⟨o', ho', heq⟩ => ⟨o', ?_, heq⟩
    rw [Ledger.stage_reach_of_ne _ _ _ (by rintro rfl; exact hrun ⟨_, ho'⟩), ho']
  told := htold

theorem ends (h : Errand acc old mode head l x) (hstage : l.stage t = .pending place)
    (hknows : Knows x' l.wards.length) (hsees : acc.sees x')
    (hzero : t = 0 → l.Ended head ∨ l.wards.length = 1 ∧ 0 < head)
    (hfine : head < t → acc.frame.Fine o)
    (hled : 0 < t → t < head →
      l.Doomed t ∨ ∃ o', l.stage head = .ended o' ∧ o = (received mode o').map some)
    (htold : acc.tells (progress head (l.reach t (.ended o))) x') :
    Errand acc old mode head (l.reach t (.ended o)) x' := by
  apply h.reach (h.lt hstage) _ hknows hsees (by simp) (by simp) (fun hzero' _ => hzero hzero') _ _ htold
  · rintro ⟨_, ho⟩
    cases hstage.symm.trans ho
  · rintro _ hlt ⟨⟩
    exact hfine hlt
  · rintro _ hpos hlt ⟨⟩
    exact hled hpos hlt

theorem start (h : Errand acc old mode head l x) (hnone : ∀ t, l.stage t ≠ .pending .ahead)
    (hpos : 0 < l.wards.length) (hopen : l.wards.length ≤ head → ¬ l.Ended 0)
    (hahead : place = .ahead → l.wards.length < head)
    (hbelow : place = .below → head < l.wards.length) (w : Ward Unit) :
    Errand acc old mode head (l.start w place) x where
  fresh := by
    intro u hu
    rw [Ledger.wards_start, List.length_append, List.length_singleton] at hu
    rw [Ledger.stage_start_of_ne _ _ _ (by omega)]
    exact h.fresh u (by omega)
  knows := by
    rw [Ledger.wards_start, List.length_append]
    exact h.knows.mono (Nat.le_add_right _ _)
  sees := h.sees
  ahead := by
    intro u hu
    rcases (Ledger.stage_start_eq_iff ..).mp hu with ⟨rfl, heq⟩ | ⟨_, hu⟩
    · cases heq
      refine ⟨by simp, hahead rfl, ?_, by omega⟩
      rintro ⟨o, ho⟩
      rw [Ledger.stage_start_of_ne _ _ _ (Nat.ne_of_lt hpos)] at ho
      exact hopen (Nat.le_of_lt (hahead rfl)) ⟨o, ho⟩
    · exact absurd hu (hnone u)
  past := by
    rintro ⟨o, ho⟩ _
    rw [Ledger.stage_start_of_ne _ _ _ (Nat.ne_of_lt hpos)] at ho
    by_cases hlt : head < l.wards.length
    · obtain ⟨o', ho'⟩ := h.past ⟨o, ho⟩ hlt
      exact ⟨o', by rw [Ledger.stage_start_of_ne _ _ _ (Nat.ne_of_lt hlt), ho']⟩
    · exact absurd ⟨o, ho⟩ (hopen (Nat.not_lt.mp hlt))
  below := by
    intro u hu
    rcases (Ledger.stage_start_eq_iff ..).mp hu with ⟨rfl, heq⟩ | ⟨_, hu⟩
    · cases heq
      exact hbelow rfl
    · exact h.below u hu
  fine := by
    intro u o hlt ho
    rcases (Ledger.stage_start_eq_iff ..).mp ho with ⟨_, heq⟩ | ⟨_, ho⟩
    · cases heq
    · exact h.fine u o hlt ho
  led := by
    intro u o hpos' hlt ho
    rcases (Ledger.stage_start_eq_iff ..).mp ho with ⟨_, heq⟩ | ⟨_, ho⟩
    · cases heq
    · refine (h.led u o hpos' hlt ho).imp (fun hdoom => hdoom.mono (List.prefix_append _ _) fun _ => id) ?_
      rintro ⟨o', ho', heq⟩
      refine ⟨o', ?_, heq⟩
      rw [Ledger.stage_start_of_ne, ho']
      rintro rfl
      cases h.new.symm.trans ho'
  told := by
    rw [progress_start h.new hpos]
    exact h.told

theorem cutOff (h : Errand acc old mode head l x) (us : List Nat) :
    Errand acc old mode head (l.cutOff us) x where
  fresh := h.fresh
  knows := h.knows
  sees := h.sees
  ahead := h.ahead
  past := h.past
  below := h.below
  fine := h.fine
  led := fun t o hpos hlt ho => (h.led t o hpos hlt ho).imp_left fun hdoom =>
    hdoom.mono List.prefix_rfl (List.subset_append_left _ _)
  told := h.told

theorem frame (h : Errand acc old mode head l x) (hknows : Knows x' l.wards.length) (hsees : acc.sees x')
    (hmoves : acc.moves x x')
    (hahead : l.stage 0 = .pending .ahead → Intact old x → x.inflight = {} →
      Intact old x' ∧ x'.inflight = {}) :
    Errand acc old mode head l x' where
  fresh := h.fresh
  knows := hknows
  sees := hsees
  ahead := by
    intro t ht
    obtain ⟨hlen, hlt, hopen, hzero⟩ := h.ahead t ht
    refine ⟨hlen, hlt, hopen, ?_⟩
    rintro rfl
    obtain ⟨hintact, hempty⟩ := hzero rfl
    exact hahead ht hintact hempty
  past := h.past
  below := h.below
  fine := h.fine
  led := h.led
  told := acc.stable hmoves h.told

end Errand

theorem Errand.ends_below (h : Errand acc old mode head l x) (hpos : 0 < head) (ht : head < t)
    (hstage : l.stage t = .pending place) (hfine : acc.frame.Fine o) :
    Errand acc old mode head (l.reach t (.ended o)) x := by
  apply h.ends hstage h.knows h.sees
  · omega
  · exact fun _ => hfine
  · omega
  · rw [progress_reach (by omega) (by omega)]
    exact h.told

theorem frees_below (hpos : 0 < head) (ht : head < t) : (errandTerms acc old mode head).Frees acc.frame ()
    .below t .below acc.frame.Fine where
  fits := fun _ hstage hinv => ⟨_, List.getElem?_eq_getElem (hinv.lt hstage), trivial⟩
  starts := fun _ => trivial
  known := fun _ hinv => ⟨hinv.knows, hinv.sees⟩
  fine := fun _ hinv hlt => hinv.fine _ _ (Nat.lt_trans ht hlt)
  change := by
    intro l x x' hstage hinv hknows hmoves
    have hlt := hinv.lt hstage
    exact hinv.frame hknows.1 hknows.2 hmoves fun hahead => absurd hahead (hinv.not_ahead (by omega) 0)
  finish := fun hstage hinv hfine => hinv.ends_below hpos ht hstage hfine
  cancelled := fun hstage hinv _ => hinv.ends_below hpos ht hstage (acc.frame.fine_error _)
  start := by
    intro l x hstage hinv
    have hlt := hinv.lt hstage
    exact hinv.start (hinv.not_ahead (by omega)) (by omega) (by omega) (by simp) (fun _ => by omega) _
  cutOff := fun _ hinv => hinv.cutOff _
  older := fun hstage hinv => hinv.lt hstage

theorem Errand.ends_head (hpos : 0 < head) (h : Errand acc old mode head l x)
    (hstage : l.stage head = .pending place) (hinflight : x'.inflight = x.inflight)
    (htold : acc.tells .going x → acc.sees x' ∧ acc.tells (.called o) x') :
    Errand acc old mode head (l.reach head (.ended o)) x' := by
  have hopen (o : Outcome) : l.stage 0 ≠ .ended o := by
    intro ho
    obtain ⟨o', ho'⟩ := h.past ⟨o, ho⟩ (h.lt hstage)
    cases hstage.symm.trans ho'
  have hgoing := h.told
  rw [progress, hstage, Progress.of_open hopen] at hgoing
  obtain ⟨hsees, hcalled⟩ := htold hgoing
  apply h.ends hstage (h.knows.frame hinflight) hsees
  · omega
  · omega
  · omega
  · rw [progress, Ledger.stage_reach_self, Ledger.stage_reach_of_ne _ _ _ (by omega),
      Progress.of_open hopen]
    exact hcalled

theorem Errand.rest (hpos : 0 < head) (h : Errand acc old mode head l x)
    (hstage : l.stage head = .pending place) (ho : acc.Rests o) :
    Errand acc old mode head (l.reach head (.ended o)) x :=
  h.ends_head hpos hstage rfl fun hgoing => ⟨h.sees, ho x h.sees hgoing⟩

theorem frees_compiler (hpos : 0 < head) (hcancelled : acc.Rests (.error .cancelled)) :
    (errandTerms acc old mode head).Frees acc.frame () .below head .head acc.Rests where
  fits := fun _ hstage hinv => ⟨_, List.getElem?_eq_getElem (hinv.lt hstage), trivial⟩
  starts := fun _ => trivial
  known := fun _ hinv => ⟨hinv.knows, hinv.sees⟩
  fine := fun _ hinv hlt => hinv.fine _ _ hlt
  change := fun hstage hinv hknows hmoves => hinv.frame hknows.1 hknows.2 hmoves fun hahead =>
    absurd hahead (hinv.not_ahead (hinv.lt hstage) 0)
  finish := fun hstage hinv ho => hinv.rest hpos hstage ho
  cancelled := fun hstage hinv _ => hinv.rest hpos hstage hcancelled
  start := by
    intro l x hstage hinv
    have hlt := hinv.lt hstage
    exact hinv.start (hinv.not_ahead hlt) (by omega) (by omega) (by simp) (fun _ => hlt) _
  cutOff := fun _ hinv => hinv.cutOff _
  older := fun hstage hinv => hinv.lt hstage

end Polyglot.Hub
