import Polyglot.Proofs.Hub.Course

/-!
Requests for the parts of a document, to compilers that are functions of their requests: whatever the
order in which tasks go on, each comes to what it may come to by itself.
-/

namespace Polyglot.Hub

open Loop

variable {K X : Type}

def Job.of (comes : Except Failure (Option Envelope) → Prop) : Job :=
  ⟨fun o => ∃ o', comes o' ∧ o = o'.mapError .failed, true⟩

def Job.calls (view : View X) (answers : Ask → Except Failure Envelope → Prop) (r : Request)
    (call : Call X) : Job :=
  .of fun o => ∃ c, call.Comes view answers c ∧ o = handed r c

/--
A task that works on a part may go on, and finds the hub as it was.
-/
structure Within (old : State K X) (doc : Outline) (t : Nat) (w : Ward Job) (l : Plot)
    (x : State K X) : Prop where
  deep : doc.head < t
  ward : l.wards[t]? = some w
  inv : (partTerms old doc).inv (l.reach t (.pending .here)) x

variable {m : Machine K X} {old x x' : State K X} {t u : Nat} {doc : Outline} {w : Ward Job}
variable {l l' : Plot} {answers : Ask → Except Failure Envelope → Prop} {may : Ask → Prop} {r : Request}

namespace Within

theorem lt (h : Within old doc t w l x) : t < l.wards.length :=
  (List.getElem?_eq_some_iff.mp h.ward).1

theorem inner (h : Within old doc t w l x) : w.role.inner :=
  (h.inv.1.ranks t w h.ward).mpr h.deep

theorem finish (h : Within old doc t w l x) {o : Except (Stop Failure) (Option Envelope)}
    (ho : Ends l t w.role o) : (partTerms old doc).inv (l.reach t (.ended o)) x := by
  obtain ⟨hcourse, hintact, hkeeps⟩ := h.inv
  have hcourse' : Course doc ((l.reach t (.pending .here)).reach t (.ended o)) x :=
    hcourse.reach_inner h.deep h.lt (by simp) (by simp) (by simp)
  rw [Ledger.reach_reach] at hcourse'
  refine ⟨hcourse', hintact, fun u => .reach ?_ ?_⟩
  · intro hne w' o' hw ho'
    exact (hkeeps u w' o' hw (by rwa [Ledger.stage_reach_of_ne _ _ _ hne])).mono id
  · rintro _ w' o' hw heq
    cases heq
    obtain rfl := Option.some.inj (hw.symm.trans h.ward)
    exact ho

theorem of_pending (hdeep : doc.head < t) (hw : l.wards[t]? = some w) (ht : l.stage t = .pending .here)
    (hinv : (partTerms old doc).inv l x) : Within old doc t w l x :=
  ⟨hdeep, hw, by rwa [Ledger.reach_self _ _ _ ht]⟩

theorem start (h : Within old doc t w l x) {role : Job} (hrole : role.inner) :
    Within old doc t w (l.start ⟨some t, role⟩ .here) x where
  deep := h.deep
  ward := by rw [Ledger.wards_start, List.getElem?_append_left h.lt, h.ward]
  inv := by
    obtain ⟨hcourse, hintact, hkeeps⟩ := h.inv
    rw [Ledger.start_reach _ _ _ _ _ (Nat.ne_of_lt h.lt)]
    exact ⟨hcourse.start_inner (Nat.le_of_lt h.deep) h.lt hrole (by simp) (by simp) (by simp), hintact,
      fun u => (hkeeps u).start _ _⟩

theorem cutOff (h : Within old doc t w l x) (us : List Nat) :
    Within old doc t w (l.cutOff us) x :=
  ⟨h.deep, h.ward, h.inv.1.cutOff us, h.inv.2.1, fun u => (h.inv.2.2 u).cutOff us⟩

theorem report (h : Within old doc t w l x) (records : List Log.Record)
    (calls : List Source.WebCall) (history : List Event) :
    Within old doc t w l { x with records, calls, history } := by
  obtain ⟨hcourse, hintact, hkeeps⟩ := h.inv
  exact ⟨h.deep, h.ward, hcourse.frame (hcourse.knows.frame rfl) fun _ => rfl,
    hintact.report records calls history, hkeeps⟩

theorem keeps (h : Within old doc t w l x) (hne : t ≠ u) : Keeps l u := by
  intro w' o hw ho
  refine (h.inv.2.2 u w' o hw ?_).mono id
  rwa [Ledger.stage_reach_of_ne _ _ _ hne.symm]

end Within

section Started

variable {ws : List (Ward Job)} {parts : List Part}

/--
The results of parts that have been started one after the other are what may come of them.
-/
theorem comes_of_started {results : List (Option Envelope)} (hkeeps : ∀ u, ws.length ≤ u → Keeps l u)
    (hws : ws ++ (parts.map fun part => Job.of (part.Comes answers)).map (⟨some t, ·⟩) <+: l.wards)
    (hresults : List.Forall₂ (fun u v => l.stage u = .ended (.ok v))
      (List.range' ws.length (parts.map fun part => Job.of (part.Comes answers)).length) results) :
    List.Forall₂ (fun part result => part.Comes answers (.ok result)) parts results := by
  have h : List.Forall₂ (fun (role : Job) result => role.allows (.ok result))
      (parts.map fun part => Job.of (part.Comes answers)) results := by
    apply Block.forall₂_of_started hws hresults
    intro u role v hu hw hv
    rcases hkeeps u hu _ _ hw hv with hallows | ⟨⟨⟩, _⟩
    exact hallows
  rw [List.forall₂_map_left_iff] at h
  refine h.imp ?_
  rintro part result ⟨o, ho, hresult⟩
  rw [eq_comm, mapError_eq_ok] at hresult
  rwa [← hresult]

/--
A part that has failed has done so as it may, or has been cancelled together with others.
-/
theorem fails_of_started {e : Stop Failure} (hkeeps : Keeps l u)
    (hws : ws ++ (parts.map fun part => Job.of (part.Comes answers)).map (⟨some t, ·⟩) <+: l.wards)
    (hu : u ∈ List.range' ws.length (parts.map fun part => Job.of (part.Comes answers)).length)
    (he : l.stage u = .ended (.error e)) :
    (∃ part ∈ parts, ∃ e', part.Comes answers (.error e') ∧ e = .failed e') ∨
      e = .cancelled ∧ l.Doomed u := by
  obtain ⟨role, hrole, hw⟩ := Block.exists_role_of_started hws hu
  obtain ⟨part, hpart, rfl⟩ := List.mem_map.mp hrole
  rcases hkeeps _ _ hw he with ⟨o, ho, heq⟩ | ⟨heq, hdoom⟩
  · cases o with
    | ok result => cases heq
    | error e' =>
      cases heq
      exact .inl ⟨part, hpart, e', ho, rfl⟩
  · cases heq
    exact .inr ⟨rfl, hdoom⟩

end Started

theorem parks_part (old : State K X) (doc : Outline) (t : Nat) (w : Ward Job) (hdeep : doc.head < t) :
    Block.Parks (partTerms old doc) t w .here (Within old doc t w) where
  ward := Within.ward
  stop := Within.inv
  go := .of_pending hdeep

theorem setting_part (old : State K X) (doc : Outline) (t : Nat) (w : Ward Job) :
    Setting (partTerms old doc) old t (Within old doc t w) where
  intact := fun h => h.inv.2.1
  report := Within.report
  pause := by
    intro l x next h hnext
    refine ⟨rfl, .here, ⟨⟨w, h.ward, h.inner, rfl, by rintro _ _ ⟨⟩⟩, h.inv⟩, ?_⟩
    intro l' x' hl hinv
    have h' := (parks_part old doc t w h.deep).later h.ward hl hinv
    exact ⟨hnext l' x' h', fun hdoom => h'.finish (.inr ⟨rfl, hdoom⟩)⟩

theorem gives_checked {κ π : Type} {c : Terms (State K X) Failure (Option Envelope) κ π}
    {Good : Ledger κ π Failure (Option Envelope) → State K X → Prop} (r : Request) (v : Value)
    (compilerOptions executerOptions : Fields) : Gives c t Good (do
      let payload ← Block.ofExcept ((Payload.ofValue r.mode v).mapError .contract)
      return (⟨{ r with compilerOptions, executerOptions }, payload⟩ : Envelope))
      (· = checked r (.ok (v, compilerOptions, executerOptions))) := by
  apply (Gives.ofExcept _).bind
  · intro payload hpayload
    apply Gives.pure
    simp only [checked, bind, Except.bind, ← hpayload]
    rfl
  · intro e he
    simp only [checked, bind, Except.bind, ← he]

def Serving (old : State K X) (doc : Outline) (may : Ask → Prop)
    (answers : Ask → Except Failure Envelope → Prop) (ask : Ask → Block K X Envelope) : Prop :=
  ∀ a, may a → ∀ t w, Gives (partTerms old doc) t (Within old doc t w) (ask a) (answers a)

theorem starts_of_within {role : Job} {child : Routine K X} (hrole : role.inner)
    (h : ∀ u g l x, Within old doc u ⟨g, role⟩ l x →
      child.Tends (partTerms old doc) u [] l x) :
    (partTerms old doc).Starts .here child role where
  fits := ⟨hrole, rfl, by rintro _ _ ⟨⟩⟩
  tends := fun u g l x hw hu hinv =>
    h u g l x (.of_pending ((hinv.1.ranks u _ hw).mp hrole) hw hu hinv)
  stops := fun u g l x hw hu hinv hdoom =>
    Within.finish (.of_pending ((hinv.1.ranks u _ hw).mp hrole) hw hu hinv) (.inr ⟨rfl, hdoom⟩)

/--
A task that may ask the hub, and finds it as it was whenever it goes on. What it starts works on a part.
-/
structure Hosts (c : Terms (State K X) Failure (Option Envelope) Job Spot) (old : State K X) (doc : Outline)
    (t : Nat) (w : Ward Job) (Good : Plot → State K X → Prop) : Prop extends Setting c old t Good where
  parks : Block.Parks c t w .here Good
  awaits : ∀ {l x}, Good l x → ∀ u next, c.fits w.role .here (.await u next)
  starts : ∀ {role child}, role.inner →
    (∀ n, child.Structured (Habit.any : Habit K X).frame (Habit.any : Habit K X).frame.close n []) →
    (partTerms old doc).Starts .here child role → c.Starts .here child role
  start : ∀ {l x role}, Good l x → role.inner → Good (l.start ⟨some t, role⟩ .here) x
  stop : ∀ {l x}, Good l x → l.Doomed t → c.inv (l.reach t (.ended (.error .cancelled))) x
  keeps : ∀ {l x u}, Good l x → t ≠ u → Keeps l u

theorem hosts_part (hdeep : doc.head < t) (w : Ward Job) :
    Hosts (partTerms old doc) old doc t w (Within old doc t w) where
  toSetting := setting_part old doc t w
  parks := parks_part old doc t w hdeep
  awaits := fun h _ _ => ⟨h.inner, rfl, by rintro _ _ ⟨⟩⟩
  starts := fun _ _ => id
  start := fun h hrole => h.start hrole
  stop := fun h hdoom => h.finish (.inr ⟨rfl, hdoom⟩)
  keeps := fun h hne => h.keeps hne

section Call

variable {ask : Ask → Block K X Envelope} (hask : Serving old doc may answers ask)
include hask

theorem starts_aside (part : Part) : (∀ a, part = .ask a → may a) →
    (partTerms old doc).Starts .here
      (match part with
        | .ask a => ask a fun e => .finish (.ok (some e))
        | .done => .finish (.ok none)
        | .failed e => .finish (.error (.failed e))) (.of (part.Comes answers)) := by
  intro hmay
  apply starts_of_within rfl
  intro u g l x h
  cases part with
  | ask a =>
    apply hask a (hmay a rfl) u _ l x _ h
    · exact fun e l' x' h' he => ⟨rfl, h'.finish (.inl ⟨_, ⟨_, he, rfl⟩, rfl⟩)⟩
    · exact fun e l' x' h' he => h'.finish (.inl ⟨_, ⟨_, he, rfl⟩, rfl⟩)
  | done => exact ⟨rfl, h.finish (.inl ⟨_, rfl, rfl⟩)⟩
  | failed e => exact ⟨rfl, h.finish (.inl ⟨_, rfl, rfl⟩)⟩

theorem tends_aside (call : Call X) (hregular : call.Regular (old.view m.settings) may)
    (h : Within old doc t w l x)
    (hallows : ∀ c, call.Comes (old.view m.settings) answers c →
      w.role.allows ((handed r c).mapError .failed)) :
    (callRoutine m.settings ask r call).Tends (partTerms old doc) t [] l x := by
  induction call generalizing l x with
  | answer v compilerOptions executerOptions => exact ⟨rfl, h.finish (.inl (hallows _ rfl))⟩
  | fail e => exact ⟨rfl, h.finish (.inl (hallows _ rfl))⟩
  | pause next ih =>
    exact (setting_part old doc t w).pause h fun l' x' h' => ih hregular h' hallows
  | observe next ih =>
    have hview := h.inv.2.1.view_eq m.settings
    apply ih (x.view m.settings) _ h
    · rwa [hview]
    · rwa [hview]
  | effect e next ih =>
    obtain ⟨⟨record, rfl⟩, hregular⟩ := hregular
    exact ih hregular (h.report _ x.calls x.history) hallows
  | ask a next ih =>
    apply hask a hregular.1 t w l x _ h
    · exact fun e l' x' h' he => ih e (hregular.2 e) h' fun c hc => hallows c (.inl ⟨e, he, hc⟩)
    · exact fun e l' x' h' he => h'.finish (.inl (hallows (.error e) (.inr ⟨e, he, rfl⟩)))
  | join parts next ih =>
    obtain ⟨hmay, hnext⟩ := hregular
    apply Block.tends_join (parts.map fun part => Job.of (part.Comes answers))
      (fun l e => Ends l t w.role (.error e)) (parks_part old doc t w h.deep)
    · exact fun _ _ => ⟨h.inner, rfl, by rintro _ _ ⟨⟩⟩
    · exact fun _ _ => ⟨h.inner, rfl, by rintro _ _ ⟨⟩⟩
    · rw [List.forall₂_map_left_iff, List.forall₂_map_right_iff, List.forall₂_same]
      intro part hpart
      apply starts_aside hask
      rintro a rfl
      exact hmay a hpart
    · intro l x role hrole h
      obtain ⟨part, _, rfl⟩ := List.mem_map.mp hrole
      exact h.start rfl
    · exact fun l x us h => h.cutOff us
    · exact h
    · intro l' x' results h' hwards hresults
      apply ih results (hnext results) h'
      intro c hc
      have hkeeps (u : Nat) (hu : l.wards.length ≤ u) : Keeps l' u := h'.keeps (by have := h.lt; omega)
      exact hallows c (.inl ⟨results, comes_of_started hkeeps hwards hresults, hc⟩)
    · intro l' x' u e h' hwards hu he hdoom
      have hkeeps : Keeps l' u :=
        h'.keeps (by have := h.lt; have := (List.mem_range'_1.mp hu).1; omega)
      rcases fails_of_started hkeeps hwards hu he with ⟨part, hpart, e', hcomes, rfl⟩ | ⟨rfl, hdoomed⟩
      · exact .inl (hallows (.error e') (.inr ⟨part, hpart, e', hcomes, rfl⟩))
      · exact .inr ⟨rfl, hdoom hdoomed⟩
    · exact fun l' hdoom => .inr ⟨rfl, hdoom⟩
    · exact fun l' l'' e hl he => he.mono hl.doomed
    · exact fun l' x' e h' he => h'.finish he

variable {c : Terms (State K X) Failure (Option Envelope) Job Spot} {Good : Plot → State K X → Prop}

theorem gives_compute (hhosts : Hosts c old doc t w Good)
    (hstructured : ∀ a, Rightly Habit.any (ask a)) (k : K)
    (hregular : (m.perform k r).Regular (old.view m.settings) may) :
    Gives c t Good (compute m ask k r)
      fun o => ∃ c, (m.perform k r).Comes (old.view m.settings) answers c ∧ o = checked r c := by
  intro l x next h hnext herror
  have hlt : t < l.wards.length := (List.getElem?_eq_some_iff.mp (hhosts.parks.ward h)).1
  have hchild : c.Starts .here
      (.look fun _ => .change (·.note (.called r)) (callRoutine m.settings ask r (m.perform k r)))
      (.calls (old.view m.settings) answers r (m.perform k r)) := by
    refine hhosts.starts rfl (fun n => ?_) (starts_of_within rfl fun u g l x h => ?_)
    · refine .look fun x _ => .change (fun x => Habit.any.reports n x x.records x.calls _) ?_
      have hheeds : (m.perform k r).Heeds (Habit.any : Habit K X) m.settings .any :=
        Call.heeds_any _ fun _ _ => trivial
      exact structured_callRoutine (fun a _ => hstructured a) hheeds (fun o _ _ _ _ _ => trivial)
        (by rintro _ _ ⟨⟩) n
    · exact tends_aside hask _ hregular (h.report x.records x.calls _) fun c hc => ⟨_, ⟨c, hc, rfl⟩, rfl⟩
  have hstart : Good (l.start ⟨some t, .calls (old.view m.settings) answers r (m.perform k r)⟩ .here) x :=
    hhosts.start h rfl
  apply Block.tends_spawn _ .here hchild
  refine ⟨rfl, l.running_start _ _, .here,
    ⟨⟨w, hhosts.parks.ward hstart, hhosts.awaits h _ _⟩, hhosts.parks.stop hstart⟩, ?_⟩
  intro l' x' hl hinv
  have h' := hhosts.parks.later (hhosts.parks.ward hstart) hl hinv
  refine ⟨?_, fun hdoom _ => ⟨rfl, hhosts.stop h' hdoom⟩⟩
  intro o ho hdoom
  have hu := hl.ward List.getElem?_concat_length
  have hkeeps : Keeps l' l.wards.length := hhosts.keeps h' (Nat.ne_of_lt hlt)
  rcases hkeeps _ o hu ho with ⟨_, ⟨c, hc, rfl⟩, rfl⟩ | ⟨rfl, hdoomed⟩
  · cases c with
    | error e => exact ⟨rfl, herror e l' x' h' ⟨_, hc, rfl⟩⟩
    | ok c =>
      obtain ⟨v, compilerOptions, executerOptions⟩ := c
      apply gives_checked r v compilerOptions executerOptions l' x' next h'
      · exact fun e l' x' h' he => hnext e l' x' h' ⟨_, hc, he⟩
      · exact fun e l' x' h' he => herror e l' x' h' ⟨_, hc, he⟩
  · exact ⟨rfl, hhosts.stop h' (hdoom hdoomed)⟩

end Call

theorem allowCache_of_checked {c : Except Failure (Value × Fields × Fields)} {e : Envelope}
    (h : checked r c = .ok e) : e.request.allowCache = r.allowCache := by
  obtain ⟨_, _, h⟩ := bind_eq_ok.mp h
  obtain ⟨_, _, h⟩ := bind_eq_ok.mp h
  cases h
  rfl

section Parts

variable {κ π : Type} {c : Terms (State K X) Failure (Option Envelope) κ π}
variable {Good : Ledger κ π Failure (Option Envelope) → State K X → Prop} (hs : Setting c old t Good)
include hs

theorem gives_finish (e : Envelope) : Gives c t Good (request.finish e) (· = .ok e) :=
  gives_after (.note hs _) (.pure rfl)

theorem gives_keep {e : Envelope} (he : e.request.allowCache = false) :
    Gives c t Good (keep e) (· = .ok ()) := by
  apply Gives.look hs
  intro x _
  rw [he, Bool.false_and]
  exact .pure rfl

end Parts

theorem readied_of_uncached (ha : Uncached a) (depth : Nat) :
    (requestOf a.mode a.options m.settings.inlineStart depth).bind (readied m old) =
      ((requestOf a.mode a.options m.settings.inlineStart depth).bind (loaded m.settings old)).map
        .fresh := by
  cases h : requestOf a.mode a.options m.settings.inlineStart depth with
  | error e => rfl
  | ok r =>
    rw [Except.bind, readied, ha _ _ r h]
    rfl

theorem allowCache_of_uncached (ha : Uncached a) {depth : Nat}
    (h : (requestOf a.mode a.options m.settings.inlineStart depth).bind (loaded m.settings old) = .ok r) :
    r.allowCache = false := by
  obtain ⟨r₀, hr₀, hloaded⟩ := bind_eq_ok.mp h
  obtain ⟨source, heq⟩ := exists_source_of_loaded hloaded
  rw [heq]
  exact ha _ _ r₀ hr₀

theorem gives_passes {κ π : Type} {c : Terms (State K X) Failure (Option Envelope) κ π}
    {Good : Ledger κ π Failure (Option Envelope) → State K X → Prop} (hs : Setting c old t Good)
    (ha : Uncached a) (parent : Option Request) {work : Request → Except Failure Envelope → Prop}
    {f : Prepared → Block K X Envelope}
    (hwork : ∀ r, r.allowCache = false →
      (requestOf a.mode a.options m.settings.inlineStart (Request.depthBelow parent)).bind
        (loaded m.settings old) = .ok r → Gives c t Good (f (.fresh r)) (work r)) :
    Gives c t Good (prepare m.settings a parent >>= f) (Passes m old work parent a) := by
  have hprepare := gives_prepare (m := m) hs a parent
  rw [readied_of_uncached ha] at hprepare
  change Gives c t Good _ fun o => Passes m old work parent a o
  simp only [Passes]
  cases h : (requestOf a.mode a.options m.settings.inlineStart (Request.depthBelow parent)).bind
    (loaded m.settings old) with
  | error e =>
    rw [h] at hprepare
    exact hprepare.bind (by rintro prepared ⟨⟩) (by rintro e' ⟨⟩; rfl)
  | ok r =>
    rw [h] at hprepare
    apply hprepare.bind
    · rintro prepared ⟨⟩
      exact hwork r (allowCache_of_uncached ha h) h
    · rintro e ⟨⟩

section Request

variable {ask : Ask → Block K X Envelope} {c : Terms (State K X) Failure (Option Envelope) Job Spot}
variable {Good : Plot → State K X → Prop}

theorem gives_dispatch (hhosts : Hosts c old doc t w Good) (hask : Serving old doc may answers ask)
    (hstructured : ∀ a, Rightly Habit.any (ask a)) (hcache : r.allowCache = false)
    (hregular : ∀ k, compiler? old.registry r = some k →
      (m.perform k r).Regular (old.view m.settings) may) :
    Gives c t Good (dispatch m ask r) (Crafts m old answers r) := by
  have hlook := gives_lookUp hhosts.toSetting r
  change Gives _ _ _ _ fun o => Crafts m old answers r o
  simp only [Crafts]
  cases hk : compiler? old.registry r with
  | none =>
    rw [hk] at hlook
    exact hlook.bind (by rintro k ⟨⟩) (by rintro e ⟨⟩; rfl)
  | some k =>
    rw [hk] at hlook
    apply hlook.bind
    · rintro _ ⟨⟩
      simp only [hcache, Bool.and_false, Bool.false_eq_true, if_false]
      apply (gives_compute hask hhosts hstructured k (hregular k hk)).bind
      · rintro e ⟨c, hc, he⟩
        have hkeep := allowCache_of_checked he.symm
        exact gives_after (gives_keep hhosts.toSetting (hkeep.trans hcache)) (.pure ⟨c, hc, he⟩)
      · exact fun e he => he
    · rintro e ⟨⟩

/--
A request that shares nothing comes to what it may come to by itself, if all requests below it do.
-/
theorem gives_hosted (hhosts : Hosts c old doc t w Good) (hsteady : Steady m old may) (left : Nat)
    (parent : Option Request) {a : Ask} (ha : may a)
    (hbelow : ∀ below r, left = below + 1 →
      Serving old doc may (Brings m old below (some r)) (request m below (some r))) :
    Gives c t Good (request m left parent a) (Brings m old left parent a) := by
  have hs := hhosts.toSetting
  cases left with
  | zero =>
    rw [request, Brings]
    exact gives_passes hs (hsteady.uncached a ha) parent fun r _ _ => .fail rfl
  | succ left =>
    rw [request, Brings]
    apply gives_passes hs (hsteady.uncached a ha) parent
    intro r hcache hr
    have hstructured (a : Ask) : Rightly Habit.any (request m left (some r) a) :=
      structured_request (Habit.any_binds m) _ _ fun _ _ _ => trivial
    apply (gives_dispatch hhosts (hbelow left r rfl) hstructured hcache fun k =>
      hsteady.regular a _ r k ha hr).bind
    · intro e he l x next hgood hk herror
      exact gives_finish hs e l x next hgood (by rintro _ l' x' hgood' ⟨⟩; exact hk e l' x' hgood' he)
        (by rintro _ _ _ _ ⟨⟩)
    · exact fun e he => he

/--
What is asked for on the side comes to what it may come to, by induction on how many levels are left.
-/
theorem serving_request (hsteady : Steady m old may) (left : Nat) (parent : Option Request) :
    Serving old doc may (Brings m old left parent) (request m left parent) := by
  induction left generalizing parent with
  | zero =>
    intro a ha t w l x k hgood
    exact gives_hosted (hosts_part hgood.deep w) hsteady 0 parent ha (by rintro _ _ ⟨⟩) l x k hgood
  | succ left ih =>
    intro a ha t w l x k hgood
    refine gives_hosted (hosts_part hgood.deep w) hsteady (left + 1) parent ha ?_ l x k hgood
    rintro _ r ⟨⟩
    exact ih (some r)

end Request

end Polyglot.Hub
