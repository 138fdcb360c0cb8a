import Polyglot.Component.Pipeline
import Polyglot.Proofs.Hub.Steady

/-!
The task of a document's compiler: it starts tasks for all parts, and goes on only when each of them
has its result.
-/

namespace Polyglot

/--
What may come of a call that may begin with a request. If the answers to that are known, the call goes on
with one of them or fails with one.
-/
def Call.Opens {X : Type} (may : Ask → Prop) (answers : Ask → Except Failure Envelope → Prop) (call : Call X)
    (o : Except (Loop.Stop Failure) (Value × Fields × Fields)) : Prop :=
  match call with
  | .ask a next => (∃ e, (may a → answers a (.ok e)) ∧ (next e).May o) ∨
      ∃ e, (may a → ∃ f, answers a (.error f) ∧ e = .failed f) ∧ o = .error e
  | call => call.May o

theorem Call.Opens.may {X : Type} {may : Ask → Prop} {answers : Ask → Except Failure Envelope → Prop}
    {call : Call X} {o : Except (Loop.Stop Failure) (Value × Fields × Fields)}
    (h : call.Opens may answers o) : call.May o := by
  cases call with
  | ask a next => exact h.imp (fun ⟨e, _, he⟩ => ⟨e, he⟩) fun ⟨e, _, he⟩ => ⟨e, he⟩
  | _ => exact h

def Call.Settled {X : Type} : Call X → Prop
  | answer .. => True
  | fail _ => True
  | _ => False

namespace Hub

open Loop

variable {K X : Type}

/--
The compiler of a document does not have all parts yet.
-/
structure Heads (old : State K X) (doc : Outline) (w : Ward Job) (l : Plot) (x : State K X) : Prop where
  ward : l.wards[doc.head]? = some w
  inv : (courseTerms old doc).inv (l.reach doc.head (.pending .here)) x

variable {m : Machine K X} {old x x' : State K X} {doc : Outline} {w : Ward Job} {l l' : Plot} {t : Nat}
variable {answers : Ask → Except Failure Envelope → Prop} {may : Ask → Prop} {r : Request}

namespace Heads

theorem lt (h : Heads old doc w l x) : doc.head < l.wards.length :=
  (List.getElem?_eq_some_iff.mp h.ward).1

theorem untouched (h : Heads old doc w l x) :
    Intact old x ∧ ∀ t, Keeps (l.reach doc.head (.pending .here)) t := by
  rcases h.inv.2 with ⟨_, hstage | ⟨o, hstage⟩⟩ | huntouched
  · rw [Ledger.stage_reach_self] at hstage
    cases hstage
  · rw [Ledger.stage_reach_self] at hstage
    cases hstage
  · exact huntouched

theorem keeps (h : Heads old doc w l x) (hne : t ≠ doc.head) : Keeps l t := by
  intro w' o hw ho
  refine (h.untouched.2 t w' o hw ?_).mono id
  rwa [Ledger.stage_reach_of_ne _ _ _ hne]

theorem finish (h : Heads old doc w l x) {o : Except (Stop Failure) (Option Envelope)}
    (ho : doc.ends o ∨ (o = .error .cancelled ∧ l.Doomed doc.head)) :
    (courseTerms old doc).inv (l.reach doc.head (.ended o)) x := by
  obtain ⟨hintact, hkeeps⟩ := h.untouched
  have hends : Ends l doc.head w.role o := by
    rwa [Ends, h.inv.1.head w h.ward]
  have hward {w' : Ward Job} (hw : l.wards[doc.head]? = some w') : w' = w :=
    Option.some.inj (hw.symm.trans h.ward)
  have hcourse : Course doc ((l.reach doc.head (.pending .here)).reach doc.head (.ended o)) x := by
    apply h.inv.1.reach h.lt
    · rintro _ w' _ hw ⟨⟩
      rw [hward hw]
      exact hends
    · simp
    · simp
    · simp
    · rintro _ v ⟨⟩
      exact .ended (doc.sound v (ho.resolve_right (by simp))) _
    · exact fun hpassed => .ended hpassed.1 _
  rw [Ledger.reach_reach] at hcourse
  refine ⟨hcourse, .inr ⟨hintact, fun u => .reach (fun hne => h.keeps hne) ?_⟩⟩
  rintro _ w' _ hw ⟨⟩
  rw [hward hw]
  exact hends

theorem of_pending (hw : l.wards[doc.head]? = some w) (ht : l.stage doc.head = .pending .here)
    (hinv : (courseTerms old doc).inv l x) : Heads old doc w l x :=
  ⟨hw, by rwa [Ledger.reach_self _ _ _ ht]⟩

theorem start (h : Heads old doc w l x) {role : Job} (hrole : role.inner) :
    Heads old doc w (l.start ⟨some doc.head, role⟩ .here) x where
  ward := by rw [Ledger.wards_start, List.getElem?_append_left h.lt, h.ward]
  inv := by
    obtain ⟨hintact, hkeeps⟩ := h.untouched
    rw [Ledger.start_reach _ _ _ _ _ (Nat.ne_of_lt h.lt)]
    exact ⟨h.inv.1.start_inner (Nat.le_refl _) h.lt hrole (by simp) (by simp) (by simp),
      .inr ⟨hintact, fun u => (hkeeps u).start _ _⟩⟩

theorem cutOff (h : Heads old doc w l x) (us : List Nat) : Heads old doc w (l.cutOff us) x := by
  obtain ⟨hintact, hkeeps⟩ := h.untouched
  exact ⟨h.ward, h.inv.1.cutOff us, .inr ⟨hintact, fun u => (hkeeps u).cutOff us⟩⟩

theorem report (h : Heads old doc w l x) (records : List Log.Record) (calls : List Source.WebCall)
    (history : List Event) : Heads old doc w l { x with records, calls, history } := by
  obtain ⟨hintact, hkeeps⟩ := h.untouched
  exact ⟨h.ward, h.inv.1.frame (h.inv.1.knows.frame rfl) fun _ => rfl,
    .inr ⟨hintact.report records calls history, hkeeps⟩⟩

end Heads

theorem parks_head (old : State K X) (doc : Outline) (w : Ward Job) :
    Block.Parks (courseTerms old doc) doc.head w .here (Heads old doc w) where
  ward := Heads.ward
  stop := Heads.inv
  go := .of_pending

theorem starts_freely {role : Job} {child : Routine K X} (hrole : role.inner)
    (hstructured : ∀ n, child.Structured Habit.any.frame Habit.any.frame.close n [])
    (h : (partTerms old doc).Starts .here child role) :
    (courseTerms old doc).Starts .here child role := by
  have hrelaxes : (courseTerms old doc).Relaxes (partTerms old doc) Habit.any.frame
      ⟨fun _ => True, true⟩ .astray doc.head := relaxes_courseTerms
  refine ⟨hrelaxes.fits h.fits, ?_, ?_⟩
  · intro u g l x hw hu hinv
    have hbase : doc.head < u := (hinv.1.ranks u _ hw).mp hrole
    apply hrelaxes.goes_on hbase ⟨_, hw, h.fits⟩ hu (.refl u l) hinv (hstructured _) (.inr rfl)
    intro hinv'
    exact hrelaxes.tends (hstructured _) hbase (hinv.1.lt hu) (hrelaxes.known hinv)
      (h.tends u g l x hw hu hinv')
  · intro u g l x hw hu hinv hdoom
    have hbase : doc.head < u := (hinv.1.ranks u _ hw).mp hrole
    apply hrelaxes.cancels hbase ⟨_, hw, h.fits⟩ hu (.refl u l) hinv
    exact fun hinv' => h.stops u g l x hw hu hinv' hdoom

theorem hosts_head (old : State K X) (doc : Outline) (w : Ward Job) :
    Hosts (courseTerms old doc) old doc doc.head w (Heads old doc w) where
  intact := fun h => h.untouched.1
  report := Heads.report
  pause := by
    intro l x next h hnext
    refine ⟨rfl, .here, ⟨⟨w, h.ward, by rintro _ _ _ ⟨⟩⟩, h.inv⟩, ?_⟩
    intro l' x' hl hinv
    have h' := (parks_head old doc w).later h.ward hl hinv
    exact ⟨hnext l' x' h', fun hdoom => h'.finish (.inr ⟨rfl, hdoom⟩)⟩
  parks := parks_head old doc w
  awaits := fun _ _ _ => by rintro _ _ _ ⟨⟩
  starts := fun hrole hstructured h => starts_freely hrole hstructured h
  start := fun h hrole => h.start hrole
  stop := fun h hdoom => h.finish (.inr ⟨rfl, hdoom⟩)
  keeps := fun h hne => h.keeps hne.symm

section Document

variable {ask : Ask → Block K X Envelope} (hask : Serving old doc may answers ask)
  (hstructured : ∀ a, Rightly Habit.any (ask a))
include hask hstructured

/--
The compiler of a document goes on with the results of the parts, or ends with a failure of one.
-/
theorem tends_parts {parts : List Part} {next : List (Option Envelope) → Call X}
    (hmay : ∀ a, .ask a ∈ parts → may a) (h : Heads old doc w l x)
    (hok : ∀ results, List.Forall₂ (fun part result => part.Comes answers (.ok result)) parts results →
      ∀ l' x', Heads old doc w l' x' →
        (callRoutine m.settings ask r (next results)).Tends (courseTerms old doc) doc.head [] l' x')
    (herror : ∀ part ∈ parts, ∀ e, part.Comes answers (.error e) → doc.ends (.error (.failed e))) :
    (callRoutine m.settings ask r (.join parts next)).Tends (courseTerms old doc) doc.head [] l x := by
  rw [callRoutine]
  apply Block.tends_join (parts.map fun part => Job.of (part.Comes answers))
    (fun l e => doc.ends (.error e) ∨ (e = .cancelled ∧ l.Doomed doc.head)) (parks_head old doc w)
  · rintro _ _ _ _ _ ⟨⟩
  · rintro _ _ _ _ _ ⟨⟩
  · rw [List.forall₂_map_left_iff, List.forall₂_map_right_iff, List.forall₂_same]
    intro part hpart
    apply starts_freely rfl fun n =>
      structured_part (h := m.settings) (fun a _ => hstructured a) part n fun _ _ _ _ _ => trivial
    apply starts_aside hask
    rintro a rfl
    exact hmay a hpart
  · intro l x role hrole h
    obtain ⟨part, _, rfl⟩ := List.mem_map.mp hrole
    exact h.start rfl
  · exact fun l x us h => h.cutOff us
  · exact h
  · intro l' x' results h' hwards hresults
    have hkeeps (u : Nat) (hu : l.wards.length ≤ u) : Keeps l' u := h'.keeps (by have := h.lt; omega)
    exact hok results (comes_of_started hkeeps hwards hresults) l' x' h'
  · intro l' x' u e h' hwards hu he hdoom
    have hkeeps : Keeps l' u :=
      h'.keeps (by have := h.lt; have := (List.mem_range'_1.mp hu).1; omega)
    rcases fails_of_started hkeeps hwards hu he with ⟨part, hpart, e', hcomes, rfl⟩ | ⟨rfl, hdoomed⟩
    · exact .inl (herror part hpart e' hcomes)
    · exact .inr ⟨rfl, hdoom hdoomed⟩
  · exact fun l' hdoom => .inr ⟨rfl, hdoom⟩
  · exact fun l' l'' e hl he => he.imp_right fun ⟨heq, hdoom⟩ => ⟨heq, hl.doomed hdoom⟩
  · intro l' x' e h' he
    apply h'.finish
    exact he.imp_right fun ⟨heq, hdoom⟩ => ⟨by rw [heq], hdoom⟩

omit hask in
theorem tends_beyond {call : Call X} (h : Heads old doc w l x) (hwhole : doc.whole)
    (hmore : doc.more ∨ call.Settled) (hends : ∀ c, call.May c → doc.ends (handed r c)) :
    (callRoutine m.settings ask r call).Tends (courseTerms old doc) doc.head [] l x := by
  have hfree (hmore : doc.more) :
      (callRoutine m.settings ask r call).Tends (courseTerms old doc) doc.head [] l x := by
    have hheeds : call.Heeds (Habit.any : Habit K X) m.settings ⟨call.May, fun _ _ => False⟩ :=
      call.heeds_any fun _ ho => ho
    have hcall : (callRoutine m.settings ask r call).Structured Habit.any.frame ⟨doc.ends, fun _ => False⟩
        l.wards.length [] :=
      structured_callRoutine (fun a _ => hstructured a) hheeds hends (by rintro _ _ ⟨⟩) _
    apply hcall.tends (fun u hu => frees_courseTerms hu) frees_head (by rintro _ ⟨⟩) (.inr (by simp))
    have hpassed : Passed doc ((l.reach doc.head (.pending .here)).reach doc.head (.pending .beyond)) :=
      ⟨hwhole, .inl (Ledger.stage_reach_self _ _ _)⟩
    rw [← Ledger.reach_reach _ _ (.pending .here)]
    refine ⟨h.inv.1.reach h.lt ?_ (by simp) (fun _ => ⟨rfl, hwhole, hmore⟩) (by simp) (by simp)
      fun _ => hpassed, .inl hpassed⟩
    rintro _ _ _ _ ⟨⟩
  rcases hmore with hmore | hsettled
  · exact hfree hmore
  · cases call with
    | answer v compilerOptions executerOptions => exact ⟨rfl, h.finish (.inl (hends _ rfl))⟩
    | fail e => exact ⟨rfl, h.finish (.inl (hends _ rfl))⟩
    | pause next => exact hsettled.elim
    | observe next => exact hsettled.elim
    | effect e next => exact hsettled.elim
    | ask a next => exact hsettled.elim
    | join parts next => exact hsettled.elim

omit hask in
/--
When all parts are there, the compiler may ask for something of which it is known what comes.
-/
theorem tends_opening (hhost : ∀ a, may a → Gives (courseTerms old doc) doc.head (Heads old doc w) (ask a)
      (answers a)) {call : Call X} (h : Heads old doc w l x) (hwhole : doc.whole)
    (hmore : doc.more ∨ call.Settled) (hends : ∀ c, call.Opens may answers c → doc.ends (handed r c)) :
    (callRoutine m.settings ask r call).Tends (courseTerms old doc) doc.head [] l x := by
  cases call with
  | ask a next =>
    have hmore : doc.more := hmore.resolve_right id
    by_cases ha : may a
    · apply hhost a ha l x _ h
      · intro e l' x' h' he
        exact tends_beyond hstructured h' hwhole (.inl hmore) fun c hc => hends c (.inl ⟨e, fun _ => he, hc⟩)
      · intro e l' x' h' he
        exact h'.finish (.inl (hends _ (.inr ⟨_, fun _ => ⟨e, he, rfl⟩, rfl⟩)))
    · apply tends_beyond hstructured h hwhole (.inl hmore)
      rintro c (⟨e, hc⟩ | ⟨e, rfl⟩)
      · exact hends c (.inl ⟨e, fun hmay => absurd hmay ha, hc⟩)
      · exact hends _ (.inr ⟨e, fun hmay => absurd hmay ha, rfl⟩)
  | answer v compilerOptions executerOptions => exact tends_beyond hstructured h hwhole hmore hends
  | fail e => exact tends_beyond hstructured h hwhole hmore hends
  | pause next => exact tends_beyond hstructured h hwhole hmore hends
  | observe next => exact tends_beyond hstructured h hwhole hmore hends
  | effect e next => exact tends_beyond hstructured h hwhole hmore hends
  | join parts next => exact tends_beyond hstructured h hwhole hmore hends

end Document

end Hub

end Polyglot
