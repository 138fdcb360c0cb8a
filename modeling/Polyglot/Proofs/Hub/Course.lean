import Polyglot.Proofs.Hub.Outcomes
import Polyglot.Proofs.Hub.Structured

/-!
The course of a request for a document, the parts of which are worked out by tasks of their own. Until
all of these have their results, nothing changes in the hub that requests go by; from then on anything
may happen.
-/

namespace Polyglot.Hub

open Loop

variable {K X : Type}

/--
What a task may end with, and whether it works on a part of the document.
-/
structure Job where
  allows : Except (Stop Failure) (Option Envelope) → Prop
  inner : Bool

/--
A task stands in front of the document's compiler, does its job, is the compiler that has all parts, or
does anything else from then on.
-/
inductive Spot where
  | before
  | here
  | beyond
  | astray

abbrev Plot := Ledger Job Spot Failure (Option Envelope)

/--
What is known of a request for a document before it is made: the task of the compiler and what that may
end with, whether all parts may have results, and whether the compiler does anything else with them.
-/
structure Outline where
  head : Nat
  ends : Except (Stop Failure) (Option Envelope) → Prop
  whole : Prop
  more : Prop
  sound : ∀ v, ends (.ok v) → whole

/--
A task may end so: as its job allows, or because it is cancelled together with others.
-/
def Ends (l : Plot) (t : Nat) (job : Job) (o : Except (Stop Failure) (Option Envelope)) : Prop :=
  job.allows o ∨ (o = .error .cancelled ∧ l.Doomed t)

def Keeps (l : Plot) (t : Nat) : Prop :=
  ∀ w o, l.wards[t]? = some w → l.stage t = .ended o → Ends l t w.role o

def Passed (doc : Outline) (l : Plot) : Prop :=
  doc.whole ∧ (l.stage doc.head = .pending .beyond ∨ l.Ended doc.head)

/--
What holds of the tasks at any time. The first tasks wait for the compiler of the document, and the
ones after it work on the parts.
-/
structure Course (doc : Outline) (l : Plot) (x : State K X) : Prop where
  fresh : ∀ t, l.wards.length ≤ t → l.stage t = .new
  knows : Knows x l.wards.length
  ranks : ∀ t w, l.wards[t]? = some w → (w.role.inner ↔ doc.head < t)
  raised : ∀ t w, l.wards[t]? = some w → doc.head < t → ∃ g, w.guardian = some g ∧ doc.head ≤ g
  head : ∀ w, l.wards[doc.head]? = some w → w.role.allows = doc.ends
  keeps : ∀ t ≤ doc.head, Keeps l t
  before : ∀ t, l.stage t = .pending .before →
    l.wards.length = t + 1 ∧ t < doc.head ∧ (t = 0 → x.inflight = {})
  beyond : ∀ t, l.stage t = .pending .beyond → t = doc.head ∧ doc.whole ∧ doc.more
  astray : ∀ t, l.stage t = .pending .astray → doc.head < t ∧ Passed doc l
  done : ∀ t ≤ doc.head, ∀ v, l.stage t = .ended (.ok v) → Passed doc l

variable {l l' : Plot} {t u : Nat} {x x' old : State K X} {doc : Outline} {w : Ward Job}
variable {stage : Stage Spot Failure (Option Envelope)}

theorem Ends.mono {job : Job} {o : Except (Stop Failure) (Option Envelope)} (h : Ends l t job o)
    (hl : l.Doomed t → l'.Doomed t) : Ends l' t job o :=
  h.imp_right fun ⟨ho, hdoom⟩ => ⟨ho, hl hdoom⟩

namespace Keeps

theorem reach (h : u ≠ t → Keeps l u)
    (ht : u = t → ∀ w o, l.wards[t]? = some w → stage = .ended o → Ends l t w.role o) :
    Keeps (l.reach t stage) u := by
  intro w o hw ho
  rcases (Ledger.stage_reach_eq_iff ..).mp ho with ⟨rfl, heq⟩ | ⟨hne, ho⟩
  · exact (ht rfl w o hw heq).mono id
  · exact (h hne w o hw ho).mono id

theorem start (h : Keeps l u) (w : Ward Job) (spot : Spot) : Keeps (l.start w spot) u := by
  intro w' o hw ho
  rcases (Ledger.stage_start_eq_iff ..).mp ho with ⟨_, heq⟩ | ⟨hne, ho⟩
  · cases heq
  · rcases ward_of_concat hw with hw | ⟨heq, _⟩
    · exact (h w' o hw ho).mono fun hdoom => hdoom.mono (List.prefix_append _ _) fun _ => id
    · exact absurd heq hne

theorem cutOff (h : Keeps l u) (us : List Nat) : Keeps (l.cutOff us) u :=
  fun w o hw ho => (h w o hw ho).mono fun hdoom =>
    hdoom.mono List.prefix_rfl (List.subset_append_left _ _)

end Keeps

namespace Passed

theorem reach (h : Passed doc l) (hne : doc.head ≠ t) (stage : Stage Spot Failure (Option Envelope)) :
    Passed doc (l.reach t stage) := by
  refine h.imp_right ?_
  rintro (h | ⟨o, h⟩)
  · exact .inl (by rw [Ledger.stage_reach_of_ne _ _ _ hne, h])
  · exact .inr ⟨o, by rw [Ledger.stage_reach_of_ne _ _ _ hne, h]⟩

theorem ended (hwhole : doc.whole) (o : Except (Stop Failure) (Option Envelope)) :
    Passed doc (l.reach doc.head (.ended o)) :=
  ⟨hwhole, .inr ⟨o, l.stage_reach_self _ _⟩⟩

theorem start (h : Passed doc l) (hnew : l.stage l.wards.length = .new) (w : Ward Job) (spot : Spot) :
    Passed doc (l.start w spot) := by
  have hne : doc.head ≠ l.wards.length := by
    rintro heq
    rw [← heq] at hnew
    rcases h.2 with hstage | ⟨o, hstage⟩
    · cases hnew.symm.trans hstage
    · cases hnew.symm.trans hstage
  refine h.imp_right ?_
  rintro (h | ⟨o, h⟩)
  · exact .inl (by rw [Ledger.stage_start_of_ne _ _ _ hne, h])
  · exact .inr ⟨o, by rw [Ledger.stage_start_of_ne _ _ _ hne, h]⟩

end Passed

namespace Course

theorem new (h : Course doc l x) : l.stage l.wards.length = .new := h.fresh _ (Nat.le_refl _)

theorem lt (h : Course doc l x) {spot : Spot} (ht : l.stage t = .pending spot) :
    t < l.wards.length := by
  by_contra hge
  rw [h.fresh t (Nat.le_of_not_lt hge)] at ht
  cases ht

theorem reach (h : Course doc l x) (hlt : t < l.wards.length)
    (hkeeps : t ≤ doc.head → ∀ w o, l.wards[t]? = some w → stage = .ended o → Ends l t w.role o)
    (hbefore : stage ≠ .pending .before)
    (hbeyond : stage = .pending .beyond → t = doc.head ∧ doc.whole ∧ doc.more)
    (hastray : stage = .pending .astray → doc.head < t ∧ Passed doc l)
    (hdone : t ≤ doc.head → ∀ v, stage = .ended (.ok v) → Passed doc (l.reach t stage))
    (hpassed : Passed doc l → Passed doc (l.reach t stage)) : Course doc (l.reach t stage) x where
  fresh := by
    intro u hu
    rw [Ledger.wards_reach] at hu
    rw [Ledger.stage_reach_of_ne _ _ _ (by omega)]
    exact h.fresh u hu
  knows := h.knows
  ranks := h.ranks
  raised := h.raised
  head := h.head
  keeps := fun u hu => .reach (fun _ => h.keeps u hu) (by rintro rfl; exact hkeeps hu)
  before := by
    intro u hu
    rcases (Ledger.stage_reach_eq_iff ..).mp hu with ⟨_, heq⟩ | ⟨_, hu⟩
    · exact absurd heq hbefore
    · exact h.before u hu
  beyond := by
    intro u hu
    rcases (Ledger.stage_reach_eq_iff ..).mp hu with ⟨rfl, heq⟩ | ⟨_, hu⟩
    · exact hbeyond heq
    · exact h.beyond u hu
  astray := by
    intro u hu
    rcases (Ledger.stage_reach_eq_iff ..).mp hu with ⟨rfl, heq⟩ | ⟨_, hu⟩
    · exact (hastray heq).imp_right hpassed
    · exact (h.astray u hu).imp_right hpassed
  done := by
    intro u hu v hv
    rcases (Ledger.stage_reach_eq_iff ..).mp hv with ⟨rfl, heq⟩ | ⟨_, hv⟩
    · exact hdone hu v heq
    · exact hpassed (h.done u hu v hv)

theorem reach_inner (h : Course doc l x) (ht : doc.head < t) (hlt : t < l.wards.length)
    (hbefore : stage ≠ .pending .before) (hbeyond : stage ≠ .pending .beyond)
    (hastray : stage = .pending .astray → Passed doc l) : Course doc (l.reach t stage) x :=
  h.reach hlt (fun hle => absurd ht (Nat.not_lt.mpr hle)) hbefore (fun heq => absurd heq hbeyond)
    (fun heq => ⟨ht, hastray heq⟩) (fun hle => absurd ht (Nat.not_lt.mpr hle))
    fun hpassed => hpassed.reach (Nat.ne_of_lt ht) _

theorem start (h : Course doc l x) (hnone : ∀ t, l.stage t ≠ .pending .before)
    (hrank : w.role.inner ↔ doc.head < l.wards.length)
    (hraised : doc.head < l.wards.length → ∃ g, w.guardian = some g ∧ doc.head ≤ g)
    (hhead : l.wards.length = doc.head → w.role.allows = doc.ends) {spot : Spot}
    (hbefore : spot = .before → l.wards.length < doc.head ∧ (l.wards.length = 0 → x.inflight = {}))
    (hbeyond : spot ≠ .beyond)
    (hastray : spot = .astray → doc.head < l.wards.length ∧ Passed doc l) :
    Course doc (l.start w spot) x where
  fresh := by
    intro u hu
    rw [Ledger.wards_start, List.length_append, List.length_singleton] at hu
    rw [Ledger.stage_start_of_ne _ _ _ (by omega)]
    exact h.fresh u (by omega)
  knows := by
    rw [Ledger.wards_start, List.length_append]
    exact h.knows.mono (Nat.le_add_right _ _)
  ranks := by
    intro u w' hw'
    rcases ward_of_concat hw' with hw' | ⟨rfl, rfl⟩
    · exact h.ranks u w' hw'
    · exact hrank
  raised := by
    intro u w' hw' hu
    rcases ward_of_concat hw' with hw' | ⟨rfl, rfl⟩
    · exact h.raised u w' hw' hu
    · exact hraised hu
  head := by
    intro w' hw'
    rcases ward_of_concat hw' with hw' | ⟨heq, rfl⟩
    · exact h.head w' hw'
    · exact hhead heq.symm
  keeps := fun u hu => (h.keeps u hu).start w spot
  before := by
    intro u hu
    rcases (Ledger.stage_start_eq_iff ..).mp hu with ⟨rfl, heq⟩ | ⟨_, hu⟩
    · cases heq
      exact ⟨by simp, hbefore rfl⟩
    · exact absurd hu (hnone u)
  beyond := by
    intro u hu
    rcases (Ledger.stage_start_eq_iff ..).mp hu with ⟨_, heq⟩ | ⟨_, hu⟩
    · cases heq
      exact absurd rfl hbeyond
    · exact h.beyond u hu
  astray := by
    intro u hu
    rcases (Ledger.stage_start_eq_iff ..).mp hu with ⟨rfl, heq⟩ | ⟨_, hu⟩
    · cases heq
      exact (hastray rfl).imp_right fun hpassed => hpassed.start h.new w _
    · exact (h.astray u hu).imp_right fun hpassed => hpassed.start h.new w spot
  done := by
    intro u hu v hv
    rcases (Ledger.stage_start_eq_iff ..).mp hv with ⟨_, heq⟩ | ⟨_, hv⟩
    · cases heq
    · exact (h.done u hu v hv).start h.new w spot

theorem start_inner (h : Course doc l x) (ht : doc.head ≤ t) (hlt : t < l.wards.length) {role : Job}
    (hrole : role.inner) {spot : Spot} (hbefore : spot ≠ .before) (hbeyond : spot ≠ .beyond)
    (hastray : spot = .astray → Passed doc l) : Course doc (l.start ⟨some t, role⟩ spot) x := by
  have hlen : doc.head < l.wards.length := Nat.lt_of_le_of_lt ht hlt
  apply h.start
  · intro u hu
    have := h.before u hu
    omega
  · exact iff_of_true hrole hlen
  · exact fun _ => ⟨t, rfl, ht⟩
  · exact fun heq => absurd heq (Nat.ne_of_gt hlen)
  · exact fun heq => absurd heq hbefore
  · exact hbeyond
  · exact fun heq => ⟨hlen, hastray heq⟩

theorem cutOff (h : Course doc l x) (us : List Nat) : Course doc (l.cutOff us) x where
  fresh := h.fresh
  knows := h.knows
  ranks := h.ranks
  raised := h.raised
  head := h.head
  keeps := fun u hu => (h.keeps u hu).cutOff us
  before := h.before
  beyond := h.beyond
  astray := h.astray
  done := h.done

theorem frame (h : Course doc l x) (hknows : Knows x' l.wards.length)
    (hbefore : l.stage 0 = .pending .before → x'.inflight = x.inflight) : Course doc l x' where
  fresh := h.fresh
  knows := hknows
  ranks := h.ranks
  raised := h.raised
  head := h.head
  keeps := h.keeps
  before := by
    intro t ht
    obtain ⟨hlen, hlt, hempty⟩ := h.before t ht
    refine ⟨hlen, hlt, ?_⟩
    rintro rfl
    rw [hbefore ht, hempty rfl]
  beyond := h.beyond
  astray := h.astray
  done := h.done

end Course

section Terms

variable (old : State K X) (doc : Outline)

def courseTerms : Terms (State K X) Failure (Option Envelope) Job Spot where
  inv l x := Course doc l x ∧ (Passed doc l ∨ Intact old x ∧ ∀ t, Keeps l t)
  fits _ spot r := spot = .before ∨ spot = .here → ∀ u next, r ≠ .follow u next

def partTerms : Terms (State K X) Failure (Option Envelope) Job Spot where
  inv l x := Course doc l x ∧ Intact old x ∧ ∀ t, Keeps l t
  fits job spot r := job.inner ∧ spot = .here ∧ ∀ u next, r ≠ .follow u next

variable {old doc}

theorem frees_courseTerms (ht : doc.head < t) :
    (courseTerms old doc).Frees Habit.any.frame ⟨fun _ => True, true⟩ .astray t .astray
      (Habit.any : Habit K X).frame.Fine where
  fits := fun r hstage hinv =>
    ⟨_, List.getElem?_eq_getElem (hinv.1.lt hstage), by simp [courseTerms]⟩
  starts := by simp [courseTerms]
  known := fun _ hinv => ⟨hinv.1.knows, trivial⟩
  fine := fun _ _ _ _ _ _ _ _ => trivial
  change := by
    intro l x x' hstage hinv hknows _
    refine ⟨hinv.1.frame hknows.1 ?_, .inl (hinv.1.astray t hstage).2⟩
    intro hzero
    have := (hinv.1.before 0 hzero).1
    have := hinv.1.lt hstage
    omega
  finish := by
    intro l x r hstage hinv _
    have hlt := hinv.1.lt hstage
    exact ⟨hinv.1.reach_inner ht hlt (by simp) (by simp) (by simp),
      .inl ((hinv.1.astray t hstage).2.reach (Nat.ne_of_lt ht) _)⟩
  cancelled := by
    intro l x hstage hinv _
    have hlt := hinv.1.lt hstage
    exact ⟨hinv.1.reach_inner ht hlt (by simp) (by simp) (by simp),
      .inl ((hinv.1.astray t hstage).2.reach (Nat.ne_of_lt ht) _)⟩
  start := by
    intro l x hstage hinv
    have hpassed := (hinv.1.astray t hstage).2
    exact ⟨hinv.1.start_inner (Nat.le_of_lt ht) (hinv.1.lt hstage) rfl (by simp) (by simp)
      fun _ => hpassed, .inl (hpassed.start hinv.1.new _ _)⟩
  cutOff := fun hstage hinv => ⟨hinv.1.cutOff _, .inl (hinv.1.astray t hstage).2⟩
  older := fun hstage hinv => hinv.1.lt hstage

/--
The compiler of the document is as free when it has all parts, but for what it ends with.
-/
theorem frees_head : (courseTerms old doc).Frees Habit.any.frame ⟨fun _ => True, true⟩ .astray
    doc.head .beyond doc.ends where
  fits := fun r hstage hinv =>
    ⟨_, List.getElem?_eq_getElem (hinv.1.lt hstage), by simp [courseTerms]⟩
  starts := by simp [courseTerms]
  known := fun _ hinv => ⟨hinv.1.knows, trivial⟩
  fine := fun _ _ _ _ _ _ _ _ => trivial
  change := by
    intro l x x' hstage hinv hknows _
    obtain ⟨_, hwhole, _⟩ := hinv.1.beyond _ hstage
    refine ⟨hinv.1.frame hknows.1 ?_, .inl ⟨hwhole, .inl hstage⟩⟩
    intro hzero
    have := hinv.1.before 0 hzero
    have := hinv.1.lt hstage
    omega
  finish := by
    intro l x r hstage hinv hends
    obtain ⟨_, hwhole, _⟩ := hinv.1.beyond _ hstage
    have hpassed := Passed.ended (l := l) hwhole r
    refine ⟨hinv.1.reach (hinv.1.lt hstage) ?_ (by simp) (by simp) (by simp) (fun _ _ _ => hpassed)
      fun _ => hpassed, .inl hpassed⟩
    rintro _ w _ hw ⟨⟩
    rw [← hinv.1.head w hw] at hends
    exact .inl hends
  cancelled := by
    intro l x hstage hinv hdoom
    obtain ⟨_, hwhole, _⟩ := hinv.1.beyond _ hstage
    have hpassed := Passed.ended (l := l) hwhole (.error .cancelled)
    refine ⟨hinv.1.reach (hinv.1.lt hstage) ?_ (by simp) (by simp) (by simp) (fun _ _ _ => hpassed)
      fun _ => hpassed, .inl hpassed⟩
    rintro _ w _ hw ⟨⟩
    exact .inr ⟨rfl, hdoom⟩
  start := by
    intro l x hstage hinv
    obtain ⟨_, hwhole, _⟩ := hinv.1.beyond _ hstage
    have hpassed : Passed doc l := ⟨hwhole, .inl hstage⟩
    exact ⟨hinv.1.start_inner (Nat.le_refl _) (hinv.1.lt hstage) rfl (by simp) (by simp)
      fun _ => hpassed, .inl (hpassed.start hinv.1.new _ _)⟩
  cutOff := by
    intro l x us hstage hinv
    obtain ⟨_, hwhole, _⟩ := hinv.1.beyond _ hstage
    exact ⟨hinv.1.cutOff us, .inl ⟨hwhole, .inl hstage⟩⟩
  older := fun hstage hinv => hinv.1.lt hstage

theorem relaxes_courseTerms : (courseTerms old doc).Relaxes (partTerms old doc) Habit.any.frame
    ⟨fun _ => True, true⟩ .astray doc.head where
  inv := fun hinv => ⟨hinv.1, .inr hinv.2⟩
  fits := fun hfits _ => hfits.2.2
  frees := fun _ ht => frees_courseTerms ht
  free := by
    intro t l x p r ht hstage _ hinv
    obtain ⟨hcourse, hpassed | hintact⟩ := hinv
    · right
      exact ⟨hcourse.reach_inner ht (hcourse.lt hstage) (by simp) (by simp) fun _ => hpassed,
        .inl (hpassed.reach (Nat.ne_of_lt ht) _)⟩
    · exact .inl ⟨hcourse, hintact⟩
  known := fun hinv => ⟨hinv.1.knows, trivial⟩
  mono := fun hknows => ⟨hknows.1.mono (Nat.le_succ _), trivial⟩
  fine := fun _ _ _ => trivial

end Terms

end Polyglot.Hub
