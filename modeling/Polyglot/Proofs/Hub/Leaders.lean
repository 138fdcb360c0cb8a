import Polyglot.Proofs.Hub.Head
import Polyglot.Proofs.Hub.Life
import Polyglot.Proofs.Loop.Rest

/-!
The tasks that stand in front of a document's compiler: each starts the next one and waits for it. They
keep the result, and are done with it, only when the compiler has had all parts.
-/

namespace Polyglot.Hub

open Loop

variable {K X : Type}

def delivered (r : Request) (c : Except (Stop Failure) (Value × Fields × Fields)) :
    Except (Stop Failure) Envelope :=
  c.bind fun c => (checked r (.ok c)).mapError .failed

theorem delivered_ok (r : Request) (v : Value) (compilerOptions executerOptions : Fields) :
    delivered r (.ok (v, compilerOptions, executerOptions)) =
      ((Payload.ofValue r.mode v).mapError fun e => .failed (.contract e)).map
        fun payload => ⟨{ r with compilerOptions, executerOptions }, payload⟩ := by
  simp only [delivered, checked, bind, Except.bind]
  cases Payload.ofValue r.mode v <;> rfl

def Job.lead (r : Request) (comes : Except (Stop Failure) (Value × Fields × Fields) → Prop) : Job :=
  ⟨fun o => ∃ c, comes c ∧ o = (delivered r c).map some, false⟩

/--
A task in front of the document's compiler may go on, and has started nothing yet.
-/
structure Fore (old : State K X) (doc : Outline) (t : Nat) (w : Ward Job) (l : Plot) (x : State K X) :
    Prop where
  lt : t < doc.head
  ward : l.wards[t]? = some w
  inv : (courseTerms old doc).inv (l.reach t (.pending .before)) x

/--
A task in front of the document's compiler may go on, and has started the next one.
-/
structure Aft (old : State K X) (doc : Outline) (t : Nat) (w : Ward Job) (l : Plot) (x : State K X) :
    Prop where
  lt : t < doc.head
  ward : l.wards[t]? = some w
  inv : (courseTerms old doc).inv (l.reach t (.pending .here)) x

variable {m : Machine K X} {old x x' : State K X} {doc : Outline} {w : Ward Job} {l l' : Plot}
variable {t : Nat} {r : Request} {k : K} {ask : Ask → Block K X Envelope}
variable {comes : Except (Stop Failure) (Value × Fields × Fields) → Prop}

theorem ended_of_lead {spot : Spot} (hlt : t < doc.head) (hw : l.wards[t]? = some w)
    (hinv : (courseTerms old doc).inv (l.reach t (.pending spot)) x)
    {o : Except (Stop Failure) (Option Envelope)} (ho : Ends l t w.role o)
    (hpassed : ∀ v, o = .ok v → Passed doc l) :
    (courseTerms old doc).inv (l.reach t (.ended o)) x := by
  have hne : doc.head ≠ t := Nat.ne_of_gt hlt
  have hends (w' : Ward Job) (hw' : l.wards[t]? = some w') : Ends l t w'.role o := by
    rwa [Option.some.inj (hw'.symm.trans hw)]
  obtain ⟨hcourse, huntouched⟩ := hinv
  have hcourse' : Course doc ((l.reach t (.pending spot)).reach t (.ended o)) x := by
    apply hcourse.reach (hcourse.lt (l.stage_reach_self t _))
    · rintro _ w' _ hw' ⟨⟩
      exact hends w' hw'
    · simp
    · simp
    · simp
    · rintro _ v ⟨⟩
      rw [Ledger.reach_reach]
      exact (hpassed v rfl).reach hne _
    · exact fun h => h.reach hne _
  rw [Ledger.reach_reach] at hcourse'
  refine ⟨hcourse', huntouched.imp ?_ (And.imp_right fun hkeeps u => .reach ?_ ?_)⟩
  · intro h
    rw [← Ledger.reach_reach l t (.pending spot)]
    exact h.reach hne _
  · intro hut w' o' hw' ho'
    exact (hkeeps u w' o' hw' (by rwa [Ledger.stage_reach_of_ne _ _ _ hut])).mono id
  · rintro _ w' _ hw' ⟨⟩
    exact hends w' hw'

namespace Fore

theorem length (h : Fore old doc t w l x) : l.wards.length = t + 1 :=
  (h.inv.1.before t (l.stage_reach_self t _)).1

theorem untouched (h : Fore old doc t w l x) :
    Intact old x ∧ ∀ u, Keeps (l.reach t (.pending .before)) u := by
  refine h.inv.2.resolve_left ?_
  have hnew := h.inv.1.fresh doc.head (h.length ▸ h.lt)
  rintro ⟨_, hstage | ⟨o, hstage⟩⟩
  · cases hnew.symm.trans hstage
  · cases hnew.symm.trans hstage

theorem of_pending (hlt : t < doc.head) (hw : l.wards[t]? = some w) (ht : l.stage t = .pending .before)
    (hinv : (courseTerms old doc).inv l x) : Fore old doc t w l x :=
  ⟨hlt, hw, by rwa [Ledger.reach_self _ _ _ ht]⟩

theorem cancel (h : Fore old doc t w l x) (hdoom : l.Doomed t) :
    (courseTerms old doc).inv (l.reach t (.ended (.error .cancelled))) x :=
  ended_of_lead h.lt h.ward h.inv (.inr ⟨rfl, hdoom⟩) (by simp)

theorem call (h : Fore old doc t w l x) {job : Job} {spot : Spot} (hjob : ¬ job.inner)
    (hhead : t + 1 = doc.head → job.allows = doc.ends)
    (hspot : spot = .before ∧ t + 1 < doc.head ∨ spot = .here) :
    Aft old doc t w (l.start ⟨some t, job⟩ spot) x where
  lt := h.lt
  ward := by
    rw [Ledger.wards_start, List.getElem?_append_left (by rw [h.length]; omega), h.ward]
  inv := by
    obtain ⟨hintact, hkeeps⟩ := h.untouched
    have hlength := h.length
    have hlt := h.lt
    have hcourse : Course doc ((l.reach t (.pending .before)).reach t (.pending .here)) x := by
      apply h.inv.1.reach (by rw [Ledger.wards_reach]; omega)
      · rintro _ _ _ _ ⟨⟩
      · simp
      · simp
      · simp
      · simp
      · exact fun hpassed => hpassed.reach (Nat.ne_of_gt hlt) _
    rw [Ledger.reach_reach] at hcourse
    rw [Ledger.start_reach _ _ _ _ _ (by rw [hlength]; exact Nat.ne_of_lt (Nat.lt_succ_self t))]
    refine ⟨hcourse.start ?_ ?_ ?_ ?_ ?_ ?_ ?_, .inr ⟨hintact, fun u => .start ?_ _ _⟩⟩
    · intro u hu
      rcases (Ledger.stage_reach_eq_iff ..).mp hu with ⟨_, heq⟩ | ⟨hne, hu⟩
      · cases heq
      · have hbefore := h.inv.1.before u (by rwa [Ledger.stage_reach_of_ne _ _ _ hne])
        have hlength' : l.wards.length = u + 1 := hbefore.1
        omega
    · exact iff_of_false hjob (by rw [Ledger.wards_reach]; omega)
    · rw [Ledger.wards_reach]
      omega
    · rw [Ledger.wards_reach, hlength]
      exact hhead
    · rintro rfl
      obtain ⟨_, hlt⟩ | hspot := hspot
      · rw [Ledger.wards_reach]
        omega
      · cases hspot
    · rcases hspot with ⟨rfl, _⟩ | rfl <;> simp
    · rcases hspot with ⟨rfl, _⟩ | rfl <;> simp
    · rw [← Ledger.reach_reach l t (.pending .before)]
      exact .reach (fun _ => hkeeps u) (by rintro _ _ _ _ ⟨⟩)

end Fore

theorem setting_fore (old : State K X) (doc : Outline) (t : Nat) (w : Ward Job) :
    Setting (courseTerms old doc) old t (Fore old doc t w) where
  intact := fun h => h.untouched.1
  report := by
    intro l x h records calls history
    obtain ⟨hintact, hkeeps⟩ := h.untouched
    exact ⟨h.lt, h.ward, h.inv.1.frame (h.inv.1.knows.frame rfl) fun _ => rfl,
      .inr ⟨hintact.report records calls history, hkeeps⟩⟩
  pause := by
    intro l x next h hnext
    refine ⟨rfl, .before, ⟨⟨w, h.ward, by rintro _ _ _ ⟨⟩⟩, h.inv⟩, ?_⟩
    intro l' x' hl hinv
    have ht : l'.stage t = .pending .before := hl.stage.trans (l.stage_reach_self t _)
    have h' : Fore old doc t w l' x' := .of_pending h.lt (hl.ward h.ward) ht hinv
    exact ⟨hnext l' x' h', h'.cancel⟩

namespace Aft

theorem finish (h : Aft old doc t w l x) {o : Except (Stop Failure) (Option Envelope)}
    (ho : w.role.allows o ∨ (o = .error .cancelled ∧ l.Doomed t))
    (hpassed : ∀ v, o = .ok v → Passed doc l) : (courseTerms old doc).inv (l.reach t (.ended o)) x :=
  ended_of_lead h.lt h.ward h.inv ho hpassed

/--
The state may change, in what requests go by only when the compiler has had all parts.
-/
theorem frame (h : Aft old doc t w l x) (hknows : Knows x l.wards.length → Knows x' l.wards.length)
    (hintact : Passed doc l ∨ (Intact old x → Intact old x')) : Aft old doc t w l x' := by
  obtain ⟨hcourse, huntouched⟩ := h.inv
  refine ⟨h.lt, h.ward, hcourse.frame (hknows hcourse.knows) ?_, ?_⟩
  · intro hzero
    have hlength : l.wards.length = 1 := (hcourse.before 0 hzero).1
    have hlt := (List.getElem?_eq_some_iff.mp h.ward).1
    obtain rfl : t = 0 := by omega
    rw [Ledger.stage_reach_self] at hzero
    cases hzero
  · rcases hintact with hpassed | hintact
    · exact .inl (hpassed.reach (Nat.ne_of_gt h.lt) _)
    · exact huntouched.imp_right (And.imp_left hintact)

theorem tends_await (h : Aft old doc t w l x) {job : Job} (hu : l.wards[t + 1]? = some ⟨some t, job⟩)
    (hrun : ¬ l.Ended (t + 1)) {next : Except (Stop Failure) (Option Envelope) → Routine K X}
    (hnext : ∀ o l' x', Aft old doc t w l' x' → (∀ v, o = .ok v → Passed doc l') →
      job.allows o ∨ (o = .error .cancelled ∧ l'.Doomed t) →
      (next o).Tends (courseTerms old doc) t [] l' x') :
    (Routine.await (t + 1) next).Tends (courseTerms old doc) t [t + 1] l x := by
  refine ⟨rfl, hrun, .here, ⟨⟨w, h.ward, by rintro _ _ _ ⟨⟩⟩, h.inv⟩, ?_⟩
  intro l' x' hl hinv
  have ht : l'.stage t = .pending .here := hl.stage.trans (l.stage_reach_self t _)
  have h' : Aft old doc t w l' x' :=
    ⟨h.lt, hl.ward h.ward, by rwa [Ledger.reach_self _ _ _ ht]⟩
  refine ⟨?_, fun hdoom _ => hnext _ l' x' h' (by simp) (.inr ⟨rfl, hdoom⟩)⟩
  intro o ho hdoom
  apply hnext o l' x' h'
  · rintro v rfl
    exact hinv.1.done (t + 1) h.lt v ho
  · exact (hinv.1.keeps (t + 1) h.lt _ o (hl.ward hu) ho).imp_right (And.imp_right hdoom)

end Aft

theorem Fore.tends_spawn (h : Fore old doc t w l x) (job : Job) (spot : Spot) (hjob : ¬ job.inner)
    (hhead : t + 1 = doc.head → job.allows = doc.ends)
    (hspot : spot = .before ∧ t + 1 < doc.head ∨ spot = .here) {child : Routine K X}
    (hchild : ∀ l' x', (courseTerms old doc).inv l' x' → l'.wards[t + 1]? = some ⟨some t, job⟩ →
      l'.stage (t + 1) = .pending spot → child.Tends (courseTerms old doc) (t + 1) [] l' x' ∧
        (l'.Doomed (t + 1) →
          (courseTerms old doc).inv (l'.reach (t + 1) (.ended (.error .cancelled))) x'))
    {next : Nat → Routine K X}
    (hnext : ∀ l', Aft old doc t w l' x → l'.wards[t + 1]? = some ⟨some t, job⟩ → ¬ l'.Ended (t + 1) →
      (next (t + 1)).Tends (courseTerms old doc) t [t + 1] l' x) :
    (Block.spawn child next).Tends (courseTerms old doc) t [] l x := by
  have hward : (l.start ⟨some t, job⟩ spot).wards[t + 1]? = some ⟨some t, job⟩ := by
    rw [← h.length]
    exact List.getElem?_concat_length
  have hstage : (l.start ⟨some t, job⟩ spot).stage (t + 1) = .pending spot := by
    rw [← h.length]
    exact l.stage_start_self _ _
  refine ⟨job, spot, by rintro _ _ _ ⟨⟩, ?_, ?_⟩
  · rw [h.length]
    exact fun l' x' hl hinv => hchild l' x' hinv (hl.ward hward) (hl.stage.trans hstage)
  · rw [h.length]
    apply hnext _ (h.call hjob hhead hspot) hward
    rintro ⟨_, ho⟩
    cases hstage.symm.trans ho

section Steps

variable {g : Option Nat} {next : Envelope → Routine K X}

theorem tends_ending (h : Aft old doc t ⟨g, .lead r comes⟩ l x)
    {o : Except (Stop Failure) (Option Envelope)} (hpassed : ∀ v, o = .ok v → Passed doc l)
    (ho : (Job.lead r comes).allows o ∨ (o = .error .cancelled ∧ l.Doomed t))
    (hnext : ∀ e, Passed doc l → (Job.lead r comes).allows (.ok (some e)) →
      (next e).Tends (courseTerms old doc) t [] l x) :
    (ending o next).Tends (courseTerms old doc) t [] l x := by
  cases o with
  | error e => exact ⟨rfl, h.finish ho (by simp)⟩
  | ok v =>
    obtain ⟨c, hc, hv⟩ := ho.resolve_right (by simp)
    obtain ⟨e, he, rfl⟩ := map_eq_ok.mp hv.symm
    exact hnext e (hpassed _ rfl) ⟨c, hc, hv⟩

theorem tends_compute (h : Fore old doc t ⟨g, .lead r comes⟩ l x) (hhead : t + 1 = doc.head)
    (hends : ∀ o, doc.ends o → ∃ c, comes c ∧ o = handed r c)
    (hdocument : ∀ w l' x', Heads old doc w l' x' →
      (callRoutine m.settings ask r (m.perform k r)).Tends (courseTerms old doc) doc.head [] l' x')
    (hnext : ∀ e l' x', Aft old doc t ⟨g, .lead r comes⟩ l' x' → Passed doc l' →
      (Job.lead r comes).allows (.ok (some e)) → (next e).Tends (courseTerms old doc) t [] l' x') :
    (compute m ask k r next).Tends (courseTerms old doc) t [] l x := by
  apply h.tends_spawn ⟨doc.ends, false⟩ .here (by simp) (fun _ => rfl) (.inr rfl)
  · intro l' x' hinv hw ht
    rw [hhead] at hw ht ⊢
    have hheads : Heads old doc _ l' x' := .of_pending hw ht hinv
    exact ⟨hdocument _ l' _ (hheads.report x'.records x'.calls _),
      fun hdoom => hheads.finish (.inr ⟨rfl, hdoom⟩)⟩
  · intro l₁ h₁ hw hrun
    apply h₁.tends_await hw hrun
    intro o l' x' h' hpassed ho
    cases o with
    | error e =>
      refine ⟨rfl, h'.finish (ho.imp_left fun hallows => ?_) (by simp)⟩
      obtain ⟨c, hc, heq⟩ := hends _ hallows
      cases c with
      | ok c => cases heq
      | error e' =>
        cases heq
        exact ⟨_, hc, rfl⟩
    | ok v =>
      obtain ⟨c, hc, heq⟩ := hends _ (ho.resolve_right (by simp))
      cases c with
      | error e => cases heq
      | ok c =>
        obtain ⟨v, compilerOptions, executerOptions⟩ := c
        cases heq
        have hkeeps : (Block.ofExcept ((Payload.ofValue r.mode v).mapError .contract) fun payload =>
            next ⟨{ r with compilerOptions, executerOptions }, payload⟩).Tends (courseTerms old doc)
              t [] l' x' := by
          cases hpayload : Payload.ofValue r.mode v with
          | error e =>
            refine ⟨rfl, h'.finish (.inl ⟨_, hc, ?_⟩) (by simp)⟩
            rw [delivered_ok, hpayload]
            rfl
          | ok payload =>
            refine hnext _ l' x' h' (hpassed _ rfl) ⟨_, hc, ?_⟩
            rw [delivered_ok, hpayload]
            rfl
        exact hkeeps

theorem tends_kept (h : Aft old doc t ⟨g, .lead r comes⟩ l x) (hpassed : Passed doc l) {e : Envelope}
    (he : (Job.lead r comes).allows (.ok (some e))) :
    (keep e fun _ => request.finish e fun e => .finish (.ok (some e))).Tends (courseTerms old doc) t []
      l x := by
  have hfinish (x' : State K X) (hinflight : x'.inflight = x.inflight) :
      (request.finish e fun e => .finish (.ok (some e))).Tends (courseTerms old doc) t [] l x' := by
    have hnoted : Aft old doc t ⟨g, .lead r comes⟩ l (x'.note (.finished e)) :=
      h.frame (·.frame hinflight) (.inl hpassed)
    exact ⟨rfl, hnoted.finish (.inl he) fun _ _ => hpassed⟩
  apply tends_look
  split
  · exact tends_trace fun records => hfinish _ (inflight_setMemo _ _ _)
  · exact hfinish x rfl

theorem tends_share {work : Block K X Envelope} (h : Fore old doc 0 ⟨g, .lead r comes⟩ l x)
    (hhead : 1 < doc.head)
    (hwork : ∀ w l' x', w.role = .lead r comes → Fore old doc 1 w l' x' →
      (work fun e => .finish (.ok (some e))).Tends (courseTerms old doc) 1 [] l' x')
    (hnext : ∀ e l' x', Aft old doc 0 ⟨g, .lead r comes⟩ l' x' → Passed doc l' →
      (Job.lead r comes).allows (.ok (some e)) → (next e).Tends (courseTerms old doc) 0 [] l' x') :
    (share work r next).Tends (courseTerms old doc) 0 [] l x := by
  have hempty : x.inflight = {} := (h.inv.1.before 0 (l.stage_reach_self 0 _)).2.2 rfl
  apply tends_look
  rw [hempty]
  apply h.tends_spawn (.lead r comes) .before (by simp [Job.lead]) (fun heq => absurd heq (by omega))
    (.inl ⟨rfl, hhead⟩)
  · intro l' x' hinv hw ht
    have h' : Fore old doc 1 ⟨some 0, .lead r comes⟩ l' x' := .of_pending hhead hw ht hinv
    exact ⟨hwork _ l' x' rfl h', h'.cancel⟩
  · intro l₁ h₁ hw hrun
    have hlt : 1 < l₁.wards.length := (List.getElem?_eq_some_iff.mp hw).1
    have hentered : Aft old doc 0 ⟨g, .lead r comes⟩ l₁
        { x with inflight := x.inflight.set (r.mode, r.key) 1 } :=
      h₁.frame (·.enter _ hlt) (.inr fun hintact => hintact.setInflight _)
    apply hentered.tends_await hw hrun
    intro o l' x' h' hpassed ho
    have hleft : Aft old doc 0 ⟨g, .lead r comes⟩ l'
        { x' with inflight := x'.inflight.erase (r.mode, r.key) } :=
      h'.frame (·.leave _) (.inr fun hintact => hintact.setInflight _)
    exact tends_ending hleft hpassed ho fun e hpassed' he => hnext e l' _ hleft hpassed' he

end Steps

/--
The first task makes the request, hands it to its compiler and keeps what that comes to.
-/
theorem tends_documentRequest {a : Ask} {left : Nat} {g : Option Nat}
    (hready : (requestOf a.mode a.options m.settings.inlineStart 0).bind (readied m old) =
      .ok (.fresh r))
    (hk : compiler? old.registry r = some k) (hlevels : levels m.settings = left + 1)
    (hhead : doc.head = if m.settings.coalesce && r.allowCache then 2 else 1)
    (hends : ∀ o, doc.ends o → ∃ c, comes c ∧ o = handed r c)
    (hdocument : ∀ w l' x', Heads old doc w l' x' →
      (callRoutine m.settings (request m left (some r)) r (m.perform k r)).Tends (courseTerms old doc)
        doc.head [] l' x')
    (h : Fore old doc 0 ⟨g, .lead r comes⟩ l x) :
    (requestRoutine m a).Tends (courseTerms old doc) 0 [] l x := by
  rw [requestRoutine, hlevels, request]
  have hs := setting_fore old doc 0 ⟨g, .lead r comes⟩
  apply gives_prepare hs a none l x _ h
  · rintro prepared l x h hprepared
    cases hprepared.trans hready
    apply gives_lookUp hs r l x _ h
    · rintro c l x h hc
      rw [hk] at hc
      cases hc
      have hkept (e : Envelope) (l' : Plot) (x' : State K X)
          (h' : Aft old doc 0 ⟨g, .lead r comes⟩ l' x') (hpassed : Passed doc l')
          (he : (Job.lead r comes).allows (.ok (some e))) :
          (keep e fun _ => request.finish e fun e => .finish (.ok (some e))).Tends (courseTerms old doc)
            0 [] l' x' :=
        tends_kept h' hpassed he
      dsimp only
      split at hhead
      · next hshare =>
        rw [if_pos hshare]
        apply tends_share h (by omega) _ hkept
        rintro ⟨g', role⟩ l' x' rfl h'
        apply tends_compute h' (by omega) hends hdocument
        exact fun e l'' x'' h'' hpassed he => ⟨rfl, h''.finish (.inl he) fun _ _ => hpassed⟩
      · next hshare =>
        rw [if_neg hshare]
        exact tends_compute h (by omega) hends hdocument hkept
    · rintro e l x _ he
      rw [hk] at he
      cases he
  · rintro e l x _ he
    cases he.trans hready

end Polyglot.Hub

/-!
A loop that does nothing but answer a request for a document, whatever the order of its ticks.
-/

namespace Polyglot.Hub

open Loop

variable {K X : Type}

/--
All tasks keep to the course of the request; there are no others than the first one and those below it.
-/
structure Composing (old : State K X) (doc : Outline) (job : Job) (l : Plot) (s : Loop K X) : Prop where
  tended : s.Tended (courseTerms old doc) none l
  inv : (courseTerms old doc).inv l s.shared
  root : l.wards[0]? = some ⟨none, job⟩
  below : ∀ t w, l.wards[t]? = some w → t ≠ 0 → w.guardian.isSome

variable {old : State K X} {doc : Outline} {job : Job} {l : Plot} {s s' : Loop K X} {t : Nat}

theorem composing_start (hhead : 0 < doc.head) (hjob : ¬ job.inner) (hinflight : old.inflight = {})
    {routine : Routine K X}
    (hroutine : ∀ l x, Fore old doc 0 ⟨none, job⟩ l x → routine.Tends (courseTerms old doc) 0 [] l x) :
    ∃ l, Composing old doc job l (Schedule.start old [routine]) := by
  have hknows : Knows old 0 := by
    intro key u hu
    rw [hinflight] at hu
    cases hu
  have hempty : Course doc {} old := by
    refine ⟨fun _ _ => rfl, hknows, ?_, ?_, ?_, ?_, ?_, ?_, ?_, ?_⟩
    · rintro t w ⟨⟩
    · rintro t w ⟨⟩
    · rintro w ⟨⟩
    · rintro t _ w o ⟨⟩
    · rintro t ⟨⟩
    · rintro t ⟨⟩
    · rintro t ⟨⟩
    · rintro t _ v ⟨⟩
  have htended : (Schedule.start old [routine]).Tended (courseTerms old doc) none
      (({} : Plot).start ⟨none, job⟩ .before) := by
    apply (Schedule.tended_of_empty (courseTerms old doc) old).start ⟨none, job⟩ (by rintro _ ⟨⟩)
    · rintro _ _ _ ⟨⟩
    · intro l x hl hinv
      have hw : l.wards[0]? = some ⟨none, job⟩ := hl.ward rfl
      have hfore : Fore old doc 0 ⟨none, job⟩ l x := .of_pending hhead hw hl.stage hinv
      exact ⟨hroutine l x hfore, hfore.cancel⟩
  have hcourse : Course doc (({} : Plot).start ⟨none, job⟩ .before) old := by
    apply hempty.start
    · rintro t ⟨⟩
    · exact iff_of_false hjob (Nat.not_lt_zero _)
    · exact fun hlt => absurd hlt (Nat.not_lt_zero _)
    · exact fun hzero => absurd hhead (hzero ▸ Nat.lt_irrefl _)
    · exact fun _ => ⟨hhead, fun _ => hinflight⟩
    · simp
    · simp
  refine ⟨_, htended, ⟨hcourse, .inr ⟨.refl old, fun u => .start ?_ _ _⟩⟩, rfl, ?_⟩
  · rintro w o ⟨⟩
  · intro t w hw hne
    rcases ward_of_concat hw with hw | ⟨ht, _⟩
    · cases hw
    · exact absurd ht hne

namespace Composing

theorem fires (h : Composing old doc job l s) (hfires : s.Fires s') :
    ∃ l', Composing old doc job l' s' := by
  obtain ⟨i, _, rfl⟩ := hfires
  obtain ⟨l', hgrows, htended, hinv⟩ := h.tended.fireAt h.inv i
  refine ⟨l', htended, hinv, hgrows.ward h.root, ?_⟩
  intro t w hw hne
  rcases hgrows.raised t w hw with hold | hsome
  · exact h.below t w hold hne
  · exact hsome

theorem allows (h : Composing old doc job l s) {o : Except (Stop Failure) (Option Envelope)}
    (ho : s.outcome? 0 = some o) : job.allows o := by
  rw [h.tended.outcomes] at ho
  rcases h.inv.1.keeps 0 (Nat.zero_le _) _ o h.root ho with hallows | ⟨_, hdoom⟩
  · exact hallows
  · exact absurd hdoom (Ledger.not_doomed h.root rfl)

theorem ended_below {base : Nat} (h : Composing old doc job l s) (hbase : l.Ended base)
    (hbelow : ∀ t w, l.wards[t]? = some w → base < t → ∃ g, w.guardian = some g ∧ base ≤ g)
    (ht : base ≤ t) (hlt : t < l.wards.length) : l.Ended t := by
  induction t using Nat.strongRecOn with
  | ind t ih =>
    rcases Nat.eq_or_lt_of_le ht with rfl | hgt
    · exact hbase
    · have hw := List.getElem?_eq_getElem hlt
      obtain ⟨g, hguardian, hg⟩ := hbelow t _ hw hgt
      have hraise : l.Raise g t := ⟨_, hw, hguardian⟩
      have hlt' := h.tended.older g t hraise
      exact h.tended.ended_of_guardian hraise (ih g hlt' hg (Nat.lt_trans hlt' hlt))

theorem all_ended (h : Composing old doc job l s) (hroot : (s.outcome? 0).isSome)
    (ht : t < s.tasks.length) : (s.outcome? t).isSome := by
  obtain ⟨o, ho⟩ := Option.isSome_iff_exists.mp hroot
  rw [h.tended.outcomes] at ho
  have hlt : t < l.wards.length := by rwa [h.tended.length, Schedule.length_phases]
  obtain ⟨o', ho'⟩ := h.ended_below ⟨o, ho⟩ (fun t w hw hpos => by
    obtain ⟨g, hg⟩ := Option.isSome_iff_exists.mp (h.below t w hw (Nat.ne_of_gt hpos))
    exact ⟨g, hg, Nat.zero_le g⟩) (Nat.zero_le t) hlt
  exact Option.isSome_of_eq_some ((h.tended.outcomes t o').mpr ho')

theorem intact (h : Composing old doc job l s) (hpart : ¬ doc.whole) : Intact old s.shared :=
  (h.inv.2.resolve_left fun hpassed => hpart hpassed.1).1

/--
At rest the request has ended, unless its compiler has all parts and goes on to do something else.
-/
theorem rest (h : Composing old doc job l s) (hrest : s.queue = []) (hmore : ¬ doc.whole ∨ ¬ doc.more) :
    (s.outcome? 0).isSome := by
  have hzero : 0 < l.wards.length := (List.getElem?_eq_some_iff.mp h.root).1
  obtain ⟨o, ho⟩ : l.Ended 0 := by
    apply h.tended.ended hrest _ hzero
    intro t n next hrun hp
    obtain ⟨spot, hspot, w, hw, hfits⟩ := (h.tended.tasks t _ (by simp) hp).point rfl
    cases spot with
    | before => exact hfits (.inl rfl) _ _ rfl
    | here => exact hfits (.inr rfl) _ _ rfl
    | beyond =>
      obtain ⟨_, hwhole, hmore'⟩ := h.inv.1.beyond t hspot
      exact hmore.elim (· hwhole) (· hmore')
    | astray =>
      obtain ⟨hlt, hwhole, hstage | hended⟩ := h.inv.1.astray t hspot
      · obtain ⟨_, _, hmore'⟩ := h.inv.1.beyond _ hstage
        exact hmore.elim (· hwhole) (· hmore')
      · exact hrun (h.ended_below hended (fun t w hw => h.inv.1.raised t w hw) (Nat.le_of_lt hlt)
          (h.inv.1.lt hspot))
  exact Option.isSome_of_eq_some ((h.tended.outcomes 0 o).mpr ho)

end Composing

end Polyglot.Hub
