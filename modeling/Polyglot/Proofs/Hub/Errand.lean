import Polyglot.Proofs.Hub.Account
import Polyglot.Proofs.Hub.Entries
import Polyglot.Proofs.Hub.Life
import Polyglot.Proofs.Loop.Rest
import Polyglot.Proofs.Loop.Solo

/-!
A request from outside to a hub at rest keeps to its account, whatever the order of ticks: its own task
and the ones that lead to its compiler change nothing on the way, the compiler ends as is told, and what
comes back is checked and kept.
-/

namespace Polyglot.Hub

open Loop Errand

variable {K X : Type} {acc : Account K X} {old x x' : State K X} {mode : Mode} {head t : Nat}
variable {l l' : Roster} {w : Ward Unit} {place : Place} {o : Outcome}

/--
A task that leads to the compiler may go on, and has started nothing yet.
-/
structure Ahead (acc : Account K X) (old : State K X) (mode : Mode) (head t : Nat) (w : Ward Unit)
    (l : Roster) (x : State K X) : Prop where
  lt : t < head
  ward : l.wards[t]? = some w
  inv : Errand acc old mode head (l.reach t (.pending .ahead)) x

/--
A task that leads to the compiler may go on, and has started the next one.
-/
structure Front (acc : Account K X) (old : State K X) (mode : Mode) (head t : Nat) (w : Ward Unit)
    (l : Roster) (x : State K X) : Prop where
  lt : t < head
  ward : l.wards[t]? = some w
  inv : Errand acc old mode head (l.reach t (.pending .front)) x

variable {m : Machine K X} {a : Ask} {r : Request} {k : K}

namespace Ahead

theorem length (h : Ahead acc old mode head t w l x) : l.wards.length = t + 1 :=
  (h.inv.ahead t (l.stage_reach_self t _)).1

theorem of_pending (hlt : t < head) (hw : l.wards[t]? = some w) (ht : l.stage t = .pending .ahead)
    (hinv : Errand acc old mode head l x) : Ahead acc old mode head t w l x :=
  ⟨hlt, hw, by rwa [Ledger.reach_self _ _ _ ht]⟩

theorem new_head (h : Ahead acc old mode head t w l x) : l.stage head = .new := by
  have hfresh := h.inv.fresh head (by rw [Ledger.wards_reach, h.length]; exact h.lt)
  rwa [Ledger.stage_reach_of_ne _ _ _ (Nat.ne_of_gt h.lt)] at hfresh

theorem ends (h : Ahead acc old mode head t w l x) (hdoom : 0 < t → l.Doomed t)
    (htold : t = 0 → acc.tells .going x → acc.tells (.closed o) x) :
    Errand acc old mode head (l.reach t (.ended o)) x := by
  have hlt := h.lt
  rw [← Ledger.reach_reach l t (.pending .ahead)]
  apply h.inv.ends (l.stage_reach_self t _) h.inv.knows h.inv.sees
  · rintro rfl
    exact .inr ⟨h.length, hlt⟩
  · omega
  · exact fun hpos _ => .inl (hdoom hpos)
  · have htold' := h.inv.told
    rw [Ledger.reach_reach]
    by_cases hzero : t = 0
    · subst hzero
      rw [progress, Ledger.stage_reach_self, Ledger.stage_reach_of_ne _ _ _ (Nat.ne_of_gt hlt),
        h.new_head] at htold'
      rw [progress, Ledger.stage_reach_self]
      exact htold rfl htold'
    · rw [progress_reach hzero (Nat.ne_of_lt hlt)] at htold' ⊢
      exact htold'

theorem call (h : Ahead acc old mode head t w l x)
    (hplace : place = .ahead ∧ t + 1 < head ∨ place = .head ∧ t + 1 = head) :
    Front acc old mode head t w (l.start ⟨some t, ()⟩ place) x where
  lt := h.lt
  ward := by rw [Ledger.wards_start, List.getElem?_append_left (by rw [h.length]; omega), h.ward]
  inv := by
    have hlength := h.length
    have hopen : ¬ l.Ended 0 ∨ t = 0 := by
      by_cases hzero : t = 0
      · exact .inr hzero
      · refine .inl fun ⟨o, ho⟩ => (h.inv.ahead t (l.stage_reach_self t _)).2.2.1 ⟨o, ?_⟩
        rw [Ledger.stage_reach_of_ne _ _ _ (Ne.symm hzero), ho]
    have hfront : Errand acc old mode head ((l.reach t (.pending .ahead)).reach t (.pending .front)) x := by
      apply h.inv.reach _ _ h.inv.knows h.inv.sees (by simp) (by simp) (by simp) (by simp) (by simp)
      · rw [progress_pending (l.stage_reach_self t _)]
        exact h.inv.told
      · rw [Ledger.wards_reach]
        omega
      · rintro ⟨_, ho⟩
        cases (l.stage_reach_self t _).symm.trans ho
    rw [Ledger.reach_reach] at hfront
    rw [Ledger.start_reach _ _ _ _ _ (by omega)]
    apply hfront.start
    · intro u hu
      rcases (Ledger.stage_reach_eq_iff ..).mp hu with ⟨_, heq⟩ | ⟨hne, hu⟩
      · cases heq
      · have := (h.inv.ahead u (by rwa [Ledger.stage_reach_of_ne _ _ _ hne])).1
        rw [Ledger.wards_reach] at this
        omega
    · rw [Ledger.wards_reach]
      omega
    · rintro _ ⟨o, ho⟩
      rcases (Ledger.stage_reach_eq_iff ..).mp ho with ⟨_, heq⟩ | ⟨hne, ho⟩
      · cases heq
      · exact hopen.elim (· ⟨o, ho⟩) (hne ∘ Eq.symm)
    · rw [Ledger.wards_reach, hlength]
      rintro rfl
      simpa using hplace
    · rintro rfl
      simp at hplace

end Ahead

theorem setting_ahead (acc : Account K X) (old : State K X) (mode : Mode) (head : Nat) :
    Setting (errandTerms acc old mode head) old 0 (Ahead acc old mode head 0 ⟨none, ()⟩) where
  intact := fun h => ((h.inv.ahead 0 (Ledger.stage_reach_self _ 0 _)).2.2.2 rfl).1
  report := by
    intro l x h records calls history
    obtain ⟨hsees, hmoves⟩ := acc.report x.inflight records calls history h.inv.sees
    exact ⟨h.lt, h.ward, h.inv.frame (h.inv.knows.frame rfl) hsees hmoves fun _ hintact hempty =>
      ⟨hintact.report records calls history, hempty⟩⟩
  pause := by
    intro l x next h hnext
    refine ⟨rfl, .ahead, ⟨⟨_, h.ward, trivial⟩, h.inv⟩, ?_⟩
    intro l' x' hl hinv
    have hw := hl.ward h.ward
    have ht : l'.stage 0 = .pending .ahead := hl.stage.trans (l.stage_reach_self 0 _)
    exact ⟨hnext l' x' (.of_pending h.lt hw ht hinv),
      fun hdoom => absurd hdoom (Ledger.not_doomed hw rfl)⟩

namespace Front

theorem frame (h : Front acc old mode head t w l x) (hlt : t + 1 < l.wards.length)
    (hknows : Knows x' l.wards.length) (hsees : acc.sees x') (hmoves : acc.moves x x') :
    Front acc old mode head t w l x' := by
  refine ⟨h.lt, h.ward, h.inv.frame hknows hsees hmoves fun hahead => ?_⟩
  have : l.wards.length = 0 + 1 := (h.inv.ahead 0 hahead).1
  omega

theorem ends (h : Front acc old mode head t w l x) (hpos : 0 < t)
    (ho : l.Doomed t ∨ ∃ o', l.stage head = .ended o' ∧ o = (received mode o').map some) :
    Errand acc old mode head (l.reach t (.ended o)) x := by
  have hlt := h.lt
  rw [← Ledger.reach_reach l t (.pending .front)]
  apply h.inv.ends (l.stage_reach_self t _) h.inv.knows h.inv.sees
  · omega
  · omega
  · rw [Ledger.stage_reach_of_ne _ _ _ (Nat.ne_of_gt hlt)]
    exact fun _ _ => ho
  · have htold := h.inv.told
    rw [progress_reach (by omega) (by omega)]
    exact htold

theorem closes (h : Front acc old mode head 0 w l x) (hended : l.Ended head)
    (hinflight : x'.inflight = x.inflight) (hsees : acc.sees x') (htold : acc.tells (.closed o) x') :
    Errand acc old mode head (l.reach 0 (.ended o)) x' := by
  obtain ⟨o', ho'⟩ := hended
  rw [← Ledger.reach_reach l 0 (.pending .front)]
  apply h.inv.ends (l.stage_reach_self 0 _) (h.inv.knows.frame hinflight) hsees
  · refine fun _ => .inl ⟨o', ?_⟩
    rw [Ledger.stage_reach_of_ne _ _ _ (Nat.ne_of_gt h.lt), ho']
  · exact fun hlt => absurd hlt (Nat.not_lt_zero head)
  · exact fun hpos => absurd hpos (Nat.lt_irrefl 0)
  · rw [progress, Ledger.stage_reach_self]
    exact htold

theorem tends_await (h : Front acc old mode head t w l x) (hrun : ¬ l.Ended (t + 1))
    {next : Outcome → Routine K X}
    (hended : ∀ o l' x', Front acc old mode head t w l' x' → l.wards.length ≤ l'.wards.length →
      l'.stage (t + 1) = .ended o → (l'.Doomed (t + 1) → l'.Doomed t) →
      (next o).Tends (errandTerms acc old mode head) t [] l' x')
    (hdoomed : ∀ l' x', Front acc old mode head t w l' x' → l.wards.length ≤ l'.wards.length →
      l'.Doomed t → (next (.error .cancelled)).Tends (errandTerms acc old mode head) t [] l' x') :
    (Routine.await (t + 1) next).Tends (errandTerms acc old mode head) t [t + 1] l x := by
  refine ⟨rfl, hrun, .front, ⟨⟨w, h.ward, trivial⟩, h.inv⟩, ?_⟩
  intro l' x' hl hinv
  have ht : l'.stage t = .pending .front := hl.stage.trans (l.stage_reach_self t _)
  have h' : Front acc old mode head t w l' x' :=
    ⟨h.lt, hl.ward h.ward, by rwa [Ledger.reach_self _ _ _ ht]⟩
  have hlen := hl.wards.length_le
  exact ⟨fun o ho hdoom => hended o l' x' h' hlen ho hdoom, fun hdoom _ => hdoomed l' x' h' hlen hdoom⟩

end Front

theorem Ahead.tends_spawn (h : Ahead acc old mode head t w l x)
    (hplace : place = .ahead ∧ t + 1 < head ∨ place = .head ∧ t + 1 = head) {child : Routine K X}
    (hchild : ∀ l' x', Errand acc old mode head l' x' → l'.wards[t + 1]? = some ⟨some t, ()⟩ →
      l'.stage (t + 1) = .pending place →
      child.Tends (errandTerms acc old mode head) (t + 1) [] l' x' ∧ (l'.Doomed (t + 1) →
        Errand acc old mode head (l'.reach (t + 1) (.ended (.error .cancelled))) x'))
    {next : Nat → Routine K X}
    (hnext : ∀ l', Front acc old mode head t w l' x → l'.wards.length = t + 2 → ¬ l'.Ended (t + 1) →
      (next (t + 1)).Tends (errandTerms acc old mode head) t [t + 1] l' x) :
    (Block.spawn child next).Tends (errandTerms acc old mode head) t [] l x := by
  have hward : (l.start ⟨some t, ()⟩ place).wards[t + 1]? = some ⟨some t, ()⟩ := by
    rw [← h.length]
    exact List.getElem?_concat_length
  have hstage : (l.start ⟨some t, ()⟩ place).stage (t + 1) = .pending place := by
    rw [← h.length]
    exact l.stage_start_self _ _
  refine ⟨(), place, trivial, ?_, ?_⟩
  · rw [h.length]
    exact fun l' x' hl hinv => hchild l' x' hinv (hl.ward hward) (hl.stage.trans hstage)
  · rw [h.length]
    apply hnext _ (h.call hplace)
    · rw [Ledger.wards_start, List.length_append, h.length]
      rfl
    · rintro ⟨_, ho⟩
      cases hstage.symm.trans ho

theorem ending_eq (o : Outcome) (result : Except (Stop Failure) Envelope) (ho : o = result.map some)
    (next : Envelope → Routine K X) : ending o next = Block.goOn next result := by
  subst ho
  cases result <;> rfl

theorem receive_eq (r : Request) (o : Outcome) (next : Envelope → Routine K X) : (do
      let e ← ending o
      match e.payload with
      | .value v =>
        let payload ← Block.ofExcept ((Payload.ofValue r.mode v).mapError .contract)
        return ⟨e.request, payload⟩
      | .output _ => return e : Block K X Envelope) next = Block.goOn next (received r.mode o) := by
  rcases o with e | _ | ⟨request, v | v⟩
  · rfl
  · rfl
  · rfl
  · change Block.ofExcept ((Payload.ofValue r.mode v).mapError .contract)
      (fun payload => next ⟨request, payload⟩) = _
    rw [received]
    dsimp only
    cases Payload.ofValue r.mode v <;> rfl

/--
What is received from a compiler is the result of the request that it has handed back.
-/
theorem request_of_received {mode : Mode} (h : received mode o = .ok e) :
    ∃ e', o = .ok (some e') ∧ e.request = e'.request := by
  rcases o with _ | _ | e'
  · cases h
  · cases h
  · refine ⟨e', rfl, ?_⟩
    rw [received] at h
    split at h
    · obtain ⟨p, _, rfl⟩ := map_eq_ok.mp h
      rfl
    · cases h
      rfl

theorem Front.tends_close (hcovers : acc.Covers m old a) (h : Front acc old a.mode head 0 w l x)
    (ho : l.stage head = .ended o) :
    (Block.goOn closing (received a.mode o)).Tends (errandTerms acc old a.mode head) 0 [] l x := by
  have hcalled : acc.tells (.called o) x := by
    have htold := h.inv.told
    rwa [progress, Ledger.stage_reach_self, Ledger.stage_reach_of_ne _ _ _ (Nat.ne_of_gt h.lt), ho]
      at htold
  cases hreceived : received a.mode o with
  | error e => exact ⟨rfl, h.closes ⟨o, ho⟩ rfl h.inv.sees (hcovers.refuses hreceived hcalled)⟩
  | ok e =>
    have hfinish (x' : State K X) (hinflight : x'.inflight = x.inflight)
        (hkept : acc.sees x' ∧ acc.tells (.closed (.ok (some e))) x') :
        (request.finish e fun e => .finish (.ok (some e))).Tends (errandTerms acc old a.mode head) 0 []
          l x' := by
      obtain ⟨hsees, hmoves⟩ :=
        acc.report x'.inflight x'.records x'.calls (.finished e :: x'.history) hkept.1
      exact ⟨rfl, h.closes ⟨o, ho⟩ hinflight hsees (acc.stable hmoves hkept.2)⟩
    apply tends_look
    split
    · next hcache =>
      apply tends_trace
      intro records
      obtain ⟨hsees, hmoves⟩ := acc.report x.inflight records x.calls x.history h.inv.sees
      have hkept := hcovers.returns hreceived hsees (acc.stable hmoves hcalled)
      rw [State.keep, if_pos (by rwa [memo_eq rfl rfl])] at hkept
      exact hfinish _ (inflight_setMemo _ _ _) hkept
    · next hcache =>
      have hkept := hcovers.returns hreceived h.inv.sees hcalled
      rw [State.keep, if_neg hcache] at hkept
      exact hfinish x rfl hkept

theorem fresh_of_ready {start : String} {depth : Nat}
    (h : (requestOf a.mode a.options start depth).bind (readied m old) = .ok (.fresh r)) :
    ∃ r₀ source, requestOf a.mode a.options start depth = .ok r₀ ∧ r = { r₀ with source } ∧
      (r₀.allowCache → (old.memo r₀.mode).get? r₀.key = none) := by
  obtain ⟨r₀, hr₀, h⟩ := bind_eq_ok.mp h
  refine ⟨r₀, r.source, hr₀, ?_⟩
  rw [readied] at h
  split at h
  · cases h
  · next hnone =>
    refine ⟨?_, fun hcache => by rwa [if_pos hcache] at hnone⟩
    obtain ⟨r', hr', heq⟩ := map_eq_ok.mp h
    cases heq
    rw [loaded] at hr'
    split at hr'
    · obtain ⟨_, _, rfl⟩ := map_eq_ok.mp hr'
      rfl
    · cases hr'
      rfl

theorem hit_of_ready {start : String} {depth : Nat} {e : Envelope}
    (h : (requestOf a.mode a.options start depth).bind (readied m old) = .ok (.hit e)) :
    ∃ r p, requestOf a.mode a.options start depth = .ok r ∧ r.allowCache ∧
      (old.memo r.mode).get? r.key = some p ∧ e = ⟨{ r with cacheHit := true }, p⟩ := by
  obtain ⟨r, hr, h⟩ := bind_eq_ok.mp h
  rw [readied] at h
  split at h
  · next p hmemo =>
    cases h
    split at hmemo
    · next hcache => exact ⟨r, p, hr, hcache, hmemo, rfl⟩
    · cases hmemo
  · obtain ⟨_, _, h⟩ := map_eq_ok.mp h
    cases h

section Covers

variable (hcovers : acc.Covers m old a) (hpos : 0 < head)
include hcovers hpos

theorem tends_compiler {left : Nat} (hready : outset m old a = .ok (.fresh r))
    (hk : compiler? old.registry r = some k)
    (hinv : Errand acc old mode head l x) (hstage : l.stage head = .pending .head) :
    (callRoutine m.settings (request m left (some r)) r (m.perform k r)).Tends
      (errandTerms acc old mode head) head [] l x := by
  have hhead : Errand acc old mode head (l.reach head (.pending .head)) x := by
    rwa [Ledger.reach_self _ _ _ hstage]
  have hstructured : (callRoutine m.settings (request m left (some r)) r (m.perform k r)).Structured acc.frame
      ⟨acc.Rests, fun next => ∃ e c, next = callRoutine m.settings (request m left (some r)) r (.effect e c) ∧
        (acc.tail r).lasts e c⟩ l.wards.length [] := by
    apply structured_callRoutine (fun a ha => structured_request hcovers.binds left (some r) ha)
      (hcovers.heeds r k hready hk) (fun _ ho => ho)
    exact fun e c hlast => ⟨e, c, rfl, hlast⟩
  apply hstructured.tends (fun u hu => frees_below hpos hu) (frees_compiler hpos hcovers.cancelled) _
    (.inr (by simp)) hhead
  rintro _ ⟨e, _, rfl, v, compilerOptions, executerOptions, rfl, hlast⟩ l x hinv
  refine ⟨rfl, ?_⟩
  rw [← Ledger.reach_reach l head (.pending .head)]
  exact hinv.ends_head hpos (l.stage_reach_self head _) (by cases e <;> rfl) (hlast x hinv.sees)

theorem Ahead.tends_compute {left : Nat} (hready : outset m old a = .ok (.fresh r))
    (hk : compiler? old.registry r = some k)
    (h : Ahead acc old mode head t w l x) (hhead : t + 1 = head) {next : Envelope → Routine K X}
    (hended : ∀ o l' x', Front acc old mode head t w l' x' → l'.stage head = .ended o →
      (Block.goOn next (received r.mode o)).Tends (errandTerms acc old mode head) t [] l' x')
    (hdoomed : ∀ l' x', Front acc old mode head t w l' x' → l'.Doomed t →
      Errand acc old mode head (l'.reach t (.ended (.error .cancelled))) x') :
    (compute m (request m left (some r)) k r next).Tends (errandTerms acc old mode head) t [] l x := by
  subst hhead
  apply h.tends_spawn (.inr ⟨rfl, rfl⟩)
  · intro l' x' hinv _ hstage
    have hlt := hinv.lt hstage
    obtain ⟨hsees, hmoves⟩ :=
      acc.report x'.inflight x'.records x'.calls (.called r :: x'.history) hinv.sees
    have hnoted : Errand acc old mode (t + 1) l' (x'.note (.called r)) :=
      hinv.frame (hinv.knows.frame rfl) hsees hmoves fun hahead => absurd hahead (hinv.not_ahead hlt 0)
    exact ⟨tends_compiler hcovers hpos hready hk hnoted hstage,
      fun _ => hinv.rest hpos hstage hcovers.cancelled⟩
  · intro l₁ h₁ _ hrun
    apply h₁.tends_await hrun
    · intro o l' x' h' _ ho _
      have hkeeps := hended o l' x' h' ho
      rwa [← receive_eq] at hkeeps
    · exact fun l' x' h' _ hdoom => ⟨rfl, hdoomed l' x' h' hdoom⟩

end Covers

theorem Ahead.tends_share {work : Block K X Envelope} {next : Envelope → Routine K X}
    (h : Ahead acc old mode head 0 ⟨none, ()⟩ l x) (hhead : 1 < head)
    (hwork : ∀ l' x', Ahead acc old mode head 1 ⟨some 0, ()⟩ l' x' →
      (work fun e => .finish (.ok (some e))).Tends (errandTerms acc old mode head) 1 [] l' x')
    (hended : ∀ o l' x', Front acc old mode head 0 ⟨none, ()⟩ l' x' → l'.stage head = .ended o →
      (Block.goOn next (received mode o)).Tends (errandTerms acc old mode head) 0 [] l' x') :
    (share work r next).Tends (errandTerms acc old mode head) 0 [] l x := by
  have hempty : x.inflight = {} := ((h.inv.ahead 0 (l.stage_reach_self 0 _)).2.2.2 rfl).2
  apply tends_look
  rw [hempty]
  apply h.tends_spawn (.inl ⟨rfl, hhead⟩)
  · intro l' x' hinv hw hstage
    have h' : Ahead acc old mode head 1 ⟨some 0, ()⟩ l' x' := .of_pending hhead hw hstage hinv
    exact ⟨hwork l' x' h', fun hdoom => h'.ends (fun _ => hdoom) (by simp)⟩
  · intro l₁ h₁ hlength hrun
    obtain ⟨hsees, hmoves⟩ :=
      acc.report (x.inflight.set (r.mode, r.key) 1) x.records x.calls x.history h₁.inv.sees
    have hentered : Front acc old mode head 0 ⟨none, ()⟩ l₁
        { x with inflight := x.inflight.set (r.mode, r.key) 1 } :=
      h₁.frame (by omega) (h₁.inv.knows.enter _ (by rw [Ledger.wards_reach]; omega)) hsees hmoves
    apply hentered.tends_await hrun
    · intro o₁ l' x' h' hlen ho₁ hdoom
      obtain ⟨hsees, hmoves⟩ :=
        acc.report (x'.inflight.erase (r.mode, r.key)) x'.records x'.calls x'.history h'.inv.sees
      have hleft : Front acc old mode head 0 ⟨none, ()⟩ l'
          { x' with inflight := x'.inflight.erase (r.mode, r.key) } :=
        h'.frame (by omega) (h'.inv.knows.leave _) hsees hmoves
      have hled := h'.inv.led 1 o₁ Nat.one_pos hhead
      rw [Ledger.stage_reach_of_ne _ _ _ (by omega), Ledger.stage_reach_of_ne _ _ _ (by omega)] at hled
      obtain ⟨o, ho, heq⟩ := (hled ho₁).resolve_left fun h => Ledger.not_doomed h'.ward rfl (hdoom h)
      change (ending o₁ next).Tends _ _ _ _ _
      rw [ending_eq o₁ _ heq]
      exact hended o l' _ hleft ho
    · exact fun l' x' h' _ hdoom => absurd hdoom (Ledger.not_doomed h'.ward rfl)

def headOf (m : Machine K X) (a : Ask) : Nat :=
  match requestOf a.mode a.options m.settings.inlineStart 0 with
  | .ok r => if m.settings.coalesce && r.allowCache then 2 else 1
  | .error _ => 1

theorem headOf_pos (m : Machine K X) (a : Ask) : 0 < headOf m a := by
  rw [headOf]
  split
  · split <;> simp
  · exact Nat.one_pos

section Errand

variable (hcovers : acc.Covers m old a) (h : Ahead acc old a.mode (headOf m a) 0 ⟨none, ()⟩ l x)
include hcovers h

theorem Ahead.tends_failed (e : Failure) :
    (Routine.finish (.error (.failed e))).Tends (errandTerms acc old a.mode (headOf m a)) 0 [] l x :=
  ⟨rfl, h.ends (by simp) fun _ => hcovers.fails⟩

theorem Ahead.tends_hit {e : Envelope}
    (hhit : outset m old a = .ok (.hit e)) :
    (request.finish e fun e => .finish (.ok (some e))).Tends (errandTerms acc old a.mode (headOf m a)) 0 []
      l x := by
  have hnoted :=
    (setting_ahead acc old a.mode (headOf m a)).report h x.records x.calls (.finished e :: x.history)
  exact ⟨rfl, hnoted.ends (by simp) fun _ => hcovers.hits hhit⟩

theorem Ahead.tends_fresh {left : Nat} (hready : outset m old a = .ok (.fresh r)) :
    (dispatch m (request m left (some r)) r fun e =>
      request.finish e fun e => .finish (.ok (some e))).Tends (errandTerms acc old a.mode (headOf m a)) 0 []
        l x := by
  obtain ⟨r₀, source, hr₀, rfl, _⟩ := fresh_of_ready hready
  have hhead : headOf m a = if m.settings.coalesce && r₀.allowCache then 2 else 1 := by rw [headOf, hr₀]
  have hmode : r₀.mode = a.mode := (made_of_requestOf hr₀).mode
  have hpos := headOf_pos m a
  apply gives_lookUp (setting_ahead acc old a.mode (headOf m a)) _ l x _ h
  · intro k l x h hk
    have hk : compiler? old.registry { r₀ with source } = some k := by
      cases hfound : compiler? old.registry { r₀ with source } with
      | none =>
        rw [hfound] at hk
        cases hk
      | some k' =>
        rw [hfound] at hk
        cases hk
        rfl
    have hclose (o : Outcome) (l' : Roster) (x' : State K X)
        (h' : Front acc old a.mode (headOf m a) 0 ⟨none, ()⟩ l' x')
        (ho : l'.stage (headOf m a) = .ended o) :
        (Block.goOn closing (received a.mode o)).Tends (errandTerms acc old a.mode (headOf m a)) 0 []
          l' x' :=
      Front.tends_close hcovers h' ho
    dsimp only
    split
    · next hshare =>
      rw [if_pos hshare] at hhead
      apply Ahead.tends_share h (by omega) _ hclose
      intro l' x' h'
      apply Ahead.tends_compute hcovers hpos hready hk h' hhead.symm
      · intro o l'' x'' h'' ho
        have hended := h''.ends Nat.one_pos (.inr ⟨o, ho, rfl⟩)
        rw [hmode]
        cases hreceived : received a.mode o with
        | error e => exact ⟨rfl, by rwa [hreceived] at hended⟩
        | ok e => exact ⟨rfl, by rwa [hreceived] at hended⟩
      · exact fun l'' x'' h'' hdoom => h''.ends Nat.one_pos (.inl hdoom)
    · next hshare =>
      rw [if_neg hshare] at hhead
      apply Ahead.tends_compute hcovers hpos hready hk h hhead.symm
      · rw [hmode]
        exact hclose
      · exact fun l' x' h' hdoom => absurd hdoom (Ledger.not_doomed h'.ward rfl)
  · exact fun e l x h _ => h.ends (by simp) fun _ => hcovers.fails

theorem Ahead.tends_errand :
    (requestRoutine m a).Tends (errandTerms acc old a.mode (headOf m a)) 0 [] l x := by
  have hs := setting_ahead acc old a.mode (headOf m a)
  rw [requestRoutine]
  cases levels m.settings with
  | zero =>
    rw [request]
    apply gives_prepare hs a none l x _ h
    · rintro (e | r) l x h hprepared
      · exact Ahead.tends_hit hcovers h hprepared.symm
      · exact Ahead.tends_failed hcovers h _
    · exact fun e l x h _ => h.ends (by simp) fun _ => hcovers.fails
  | succ left =>
    rw [request]
    apply gives_prepare hs a none l x _ h
    · rintro (e | r) l x h hprepared
      · exact Ahead.tends_hit hcovers h hprepared.symm
      · exact Ahead.tends_fresh hcovers h hprepared.symm
    · exact fun e l x h _ => h.ends (by simp) fun _ => hcovers.fails

end Errand

/--
A loop that does nothing but answer a request to a hub at rest.
-/
structure Underway (acc : Account K X) (old : State K X) (m : Machine K X) (a : Ask) (l : Roster)
    (s : Loop K X) : Prop where
  tended : s.Tended (errandTerms acc old a.mode (headOf m a)) none l
  inv : Errand acc old a.mode (headOf m a) l s.shared

variable {s s' : Loop K X}

theorem underway_start (hcovers : acc.Covers m old a) :
    ∃ l, Underway acc old m a l (Schedule.start old [requestRoutine m a]) := by
  have hpos := headOf_pos m a
  have hinv : Errand acc old a.mode (headOf m a) (({} : Roster).start ⟨none, ()⟩ .ahead) old := by
    refine ⟨?_, ?_, hcovers.sees, ?_, ?_, ?_, ?_, ?_, ?_⟩
    · intro t ht
      rw [Ledger.stage_start_of_ne _ _ _ (by exact Nat.ne_of_gt ht)]
    · intro key u hu
      rw [hcovers.idle] at hu
      cases hu
    · intro t ht
      rcases (Ledger.stage_start_eq_iff ..).mp ht with ⟨rfl, _⟩ | ⟨_, ⟨⟩⟩
      exact ⟨rfl, hpos, by rintro ⟨_, ⟨⟩⟩, fun _ => ⟨.refl old, hcovers.idle⟩⟩
    · rintro ⟨_, ⟨⟩⟩
    · intro t ht
      rcases (Ledger.stage_start_eq_iff ..).mp ht with ⟨_, ⟨⟩⟩ | ⟨_, ⟨⟩⟩
    · intro t o _ ho
      rcases (Ledger.stage_start_eq_iff ..).mp ho with ⟨_, ⟨⟩⟩ | ⟨_, ⟨⟩⟩
    · intro t o _ _ ho
      rcases (Ledger.stage_start_eq_iff ..).mp ho with ⟨_, ⟨⟩⟩ | ⟨_, ⟨⟩⟩
    · have hgoing : progress (headOf m a) (({} : Roster).start ⟨none, ()⟩ .ahead) = .going := by
        have hnew : (({} : Roster).start ⟨none, ()⟩ .ahead).stage (headOf m a) = .new :=
          Ledger.stage_start_of_ne _ _ _ (Nat.ne_of_gt hpos)
        rw [progress, hnew]
        rfl
      rw [hgoing]
      exact hcovers.going
  refine ⟨_, (Schedule.tended_of_empty (errandTerms acc old a.mode (headOf m a)) old).start ⟨none, ()⟩
    (by rintro _ ⟨⟩) trivial ?_, hinv⟩
  intro l x hl hinv
  have hw : l.wards[0]? = some ⟨none, ()⟩ := hl.ward rfl
  exact ⟨Ahead.tends_errand hcovers (.of_pending hpos hw hl.stage hinv),
    fun hdoom => absurd hdoom (Ledger.not_doomed hw rfl)⟩

theorem Underway.fires (h : Underway acc old m a l s) (hfires : s.Fires s') :
    ∃ l', Underway acc old m a l' s' := by
  obtain ⟨i, _, rfl⟩ := hfires
  obtain ⟨l', _, htended, hinv⟩ := h.tended.fireAt h.inv i
  exact ⟨l', htended, hinv⟩

section Covers

variable (hcovers : acc.Covers m old a)
variable (h : Relation.ReflTransGen Schedule.Fires (Schedule.start old [requestRoutine m a]) s)
include hcovers h

theorem Account.Covers.underway : ∃ l, Underway acc old m a l s := by
  induction h with
  | refl => exact underway_start hcovers
  | tail _ hfires ih =>
    obtain ⟨l, hunder⟩ := ih
    exact hunder.fires hfires

theorem Account.Covers.sees_of_fires : acc.sees s.shared := by
  obtain ⟨l, hunder⟩ := hcovers.underway h
  exact hunder.inv.sees

/--
At all times of a request to a hub at rest, whatever the order of ticks, what is told of the hub is told
of as much as the request has come to.
-/
theorem Account.Covers.told :
    (∀ o, s.outcome? 0 = some o → acc.tells (.closed o) s.shared) ∧
      (s.outcome? 0 = none → acc.tells .going s.shared ∨ ∃ o, acc.tells (.called o) s.shared) := by
  obtain ⟨l, hunder⟩ := hcovers.underway h
  have htold := hunder.inv.told
  rw [progress] at htold
  constructor
  · intro o ho
    rw [hunder.tended.outcomes] at ho
    rwa [ho] at htold
  · intro hnone
    have hopen (o : Outcome) : l.stage 0 ≠ .ended o := by
      intro ho
      rw [(hunder.tended.outcomes 0 o).mpr ho] at hnone
      cases hnone
    rw [Progress.of_open hopen] at htold
    cases hhead : l.stage (headOf m a) with
    | ended o =>
      rw [hhead] at htold
      exact .inr ⟨o, htold⟩
    | _ =>
      rw [hhead] at htold
      exact .inl htold

end Covers

end Polyglot.Hub
