import Polyglot.Proofs.Hub.Books
import Polyglot.Proofs.Hub.Outcomes

/-!
Requests keep the books of a hub: leaders enter and remove their own work, those who join it hand on
what it comes to, and what is kept is the result of work or of a call.
-/

namespace Polyglot.Hub

open Loop

variable {K X : Type} {m : Machine K X} {old : State K X} {owed : Option Nat} {l l' : Book}
variable {x x' : State K X} {t u : Nat} {w : Ward Role} {r : Request} {e : Envelope}

def Tending (m : Machine K X) (old : State K X) (may : Ask → Prop) (ask : Ask → Block K X Envelope) :
    Prop :=
  ∀ t w a l x, w.role ≠ .outside → (∀ r, w.role ≠ .work r) → may a → Live m old t w l x →
    KeepsBook m old t w (ask a) l x fun _ _ _ => True

theorem starts_of_live {role : Role} {child : Routine K X} (hcall : ∀ r, role ≠ .call r)
    (h : ∀ u g l x, Live m old u ⟨g, role⟩ l x → child.Tends (terms m old) u [] l x) :
    (terms m old).Starts .start child role where
  fits := ⟨by rintro _ _ _ ⟨⟩, by rintro _ _ ⟨⟩⟩
  tends := fun u g l x hw hu hbook =>
    h u g l x (live_of_pending hw hu hbook (by simp) fun r hr => absurd hr (hcall r))
  stops := fun u g l x hw hu hbook _ => stop_of_pending hw hu hbook (by simp) _

section Call

variable {ask : Ask → Block K X Envelope} {may : Ask → Prop}

theorem starts_part (hask : Tending m old may ask) (part : Part) : (∀ a, part = .ask a → may a) →
    (terms m old).Starts .start
      (match part with
        | .ask a => ask a fun e => .finish (.ok (some e))
        | .done => .finish (.ok none)
        | .failed e => .finish (.error (.failed e))) (.part part) := by
  intro hmay
  apply starts_of_live (by simp)
  intro u g l x hlive
  cases part with
  | ask a =>
    apply hask u _ a l x (by simp) (by simp) (hmay a rfl) hlive
    intro e l' x' hlive' _
    refine ⟨rfl, hlive'.finish _ ?_⟩
    rintro _ ⟨⟩
    exact ⟨e, rfl, trivial⟩
  | done =>
    refine ⟨rfl, hlive.finish _ ?_⟩
    rintro _ ⟨⟩
    rfl
  | failed e => exact ⟨rfl, hlive.stop _⟩

theorem tends_callRoutine (hask : Tending m old may ask) {g : Option Nat} (call : Call X)
    (hmay : call.AsksOnly may) (hlive : Live m old t ⟨g, .call r⟩ l x)
    (hhands : ∀ v compilerOptions executerOptions,
      call.Yields (fun view => view.hub = some m.settings) (fun _ _ => True) v compilerOptions
        executerOptions → Hands m r v compilerOptions executerOptions) :
    (callRoutine m.settings ask r call).Tends (terms m old) t [] l x := by
  induction call generalizing l x with
  | answer v compilerOptions executerOptions =>
    refine ⟨rfl, hlive.finish _ ?_⟩
    rintro _ ⟨⟩
    have hcalled := hlive.book.origins.called t g r .free hlive.ward (l.stage_reach_self t _) (by simp)
    exact ⟨hcalled, v, compilerOptions, executerOptions, rfl, hhands _ _ _ ⟨rfl, rfl, rfl⟩⟩
  | fail e => exact ⟨rfl, hlive.stop _⟩
  | pause next ih =>
    have hpause : KeepsBook m old t ⟨g, .call r⟩ Block.pause l x fun _ _ _ => True :=
      .pause hlive fun _ _ _ => trivial
    exact hpause (fun _ => callRoutine m.settings ask r next) fun _ l' x' hlive' _ =>
      ih hmay hlive' hhands
  | observe next ih =>
    apply ih _ (hmay _) hlive
    intro v compilerOptions executerOptions hy
    exact hhands _ _ _ ⟨_, rfl, hy⟩
  | effect e next ih => exact ih hmay (hlive.apply e) hhands
  | ask a next ih =>
    apply hask t _ a l x (by simp) (by simp) hmay.1 hlive
    intro e l' x' hlive' _
    apply ih e (hmay.2 e) hlive'
    intro v compilerOptions executerOptions hy
    exact hhands _ _ _ ⟨e, trivial, hy⟩
  | join parts next ih =>
    obtain ⟨hparts, hnext⟩ := hmay
    apply Block.tends_join (parts.map Role.part) (fun _ _ => True) (parks m old t ⟨g, .call r⟩)
    · exact fun _ _ => ⟨by rintro _ _ _ ⟨⟩, by rintro _ _ ⟨⟩⟩
    · exact fun _ _ => ⟨by rintro _ _ _ ⟨⟩, by rintro _ _ ⟨⟩⟩
    · rw [List.forall₂_map_left_iff, List.forall₂_map_right_iff, List.forall₂_same]
      intro part hpart
      apply starts_part hask
      rintro a rfl
      exact hparts a hpart
    · intro l x role hrole hlive
      obtain ⟨part, _, rfl⟩ := List.mem_map.mp hrole
      exact hlive.start (by simp) (by simp)
    · exact fun l x us hlive => hlive.cutOff us
    · exact hlive
    · intro l' x' vs hlive' hwards hvs
      have hresults : List.Forall₂ (fun role v => ∀ part, role = .part part →
          part.Yields (fun _ _ => True) v) (parts.map Role.part) vs := by
        apply Block.forall₂_of_started hwards hvs
        rintro u _ v _ hu hv part rfl
        apply hlive'.book.origins.parted u (some t) part v hu
        rw [Ledger.stage_reach_of_ne, hv]
        rintro rfl
        cases hu.symm.trans hlive'.ward
      apply ih vs (hnext vs) hlive'
      intro v compilerOptions executerOptions hy
      refine hhands _ _ _ ⟨vs, ?_, hy⟩
      rw [List.forall₂_map_left_iff] at hresults
      exact hresults.imp fun part v h => h part rfl
    · exact fun _ _ _ _ _ _ _ _ _ => trivial
    · exact fun _ _ => trivial
    · exact fun _ _ _ _ _ => trivial
    · exact fun l' x' e hlive' _ => hlive'.stop e

theorem starts_call (hask : Tending m old may ask) (k : K) (hmay : (m.perform k r).AsksOnly may) :
    (terms m old).Starts .start (.look fun _ => .change (·.note (.called r))
      (callRoutine m.settings ask r (m.perform k r))) (.call r) where
  fits := ⟨by rintro _ _ _ ⟨⟩, by rintro _ _ ⟨⟩⟩
  tends := by
    intro u g l x hw hu hbook
    have hlive : Live m old u ⟨g, .call r⟩ l (x.note (.called r)) := by
      apply live_of_pending hw hu (hbook.note (by simp)) (by simp)
      rintro _ ⟨⟩ _
      exact since_note hbook.origins.history
    apply tends_callRoutine hask _ hmay hlive
    exact fun v compilerOptions executerOptions hy => ⟨k, hy⟩
  stops := fun u g l x hw hu hbook _ => stop_of_pending hw hu hbook (by simp) _

theorem keepsBook_compute (hask : Tending m old may ask) (k : K) (hmay : (m.perform k r).AsksOnly may)
    (hsound : r.Sound m.settings.inlineStart) (hlive : Live m old t w l x) :
    KeepsBook m old t w (compute m ask k r) l x fun e _ x' =>
      r.Like e.request ∧ Stems m old x' r e.payload := by
  intro next hnext
  have hstart : Live m old t w (l.start ⟨some t, .call r⟩ .start) x := hlive.start (by simp) (by simp)
  apply Block.tends_spawn (.call r) .start (starts_call hask k hmay)
  refine ⟨rfl, l.running_start _ _, .free, ⟨⟨w, hstart.ward, ?_, ?_⟩, hstart.book⟩, ?_⟩
  · intro u key k' heq
    injection heq with _ heq
    cases congrFun heq (.error .cancelled)
  · rintro _ _ ⟨⟩
  · intro l' x' hl hbook
    have hlive' := (parks m old t w).later hstart.ward hl hbook
    have hu : l'.wards[l.wards.length]? = some ⟨some t, .call r⟩ :=
      hl.ward List.getElem?_concat_length
    refine ⟨?_, fun _ _ => ⟨rfl, hlive'.stop _⟩⟩
    intro result hresult _
    cases result with
    | error e => exact ⟨rfl, hlive'.stop e⟩
    | ok o =>
      have hstage : (l'.reach t (.pending .free)).stage l.wards.length = .ended (.ok o) := by
        rw [Ledger.stage_reach_of_ne _ _ _ (Nat.ne_of_lt hlive.lt).symm, hresult]
      obtain ⟨hcalled, v, compilerOptions, executerOptions, rfl, hhands⟩ :=
        hlive'.book.origins.handed _ _ _ _ hu hstage
      have hchecked : KeepsBook m old t w (do
          let payload ← Block.ofExcept ((Payload.ofValue r.mode v).mapError .contract)
          return (⟨{ r with compilerOptions, executerOptions }, payload⟩ : Envelope)) l' x' fun e _ x' =>
            r.Like e.request ∧ Stems m old x' r e.payload := by
        apply KeepsBook.bind (fun p _ x'' => x'' = x' ∧ Payload.ofValue r.mode v = .ok p)
        · apply KeepsBook.ofExcept hlive'
          intro p hp
          rw [mapError_eq_ok] at hp
          exact ⟨rfl, hp⟩
        · rintro p l'' _ hlive'' ⟨rfl, hp⟩
          exact .pure hlive'' ⟨⟨_, _, rfl⟩, hcalled, hsound, v, _, _, hhands, hp⟩
      exact hchecked next hnext

end Call

namespace SoundBook

theorem lead (h : SoundBook m old none (l.reach t (.pending .free)) x) (hlt : t < l.wards.length)
    (hcache : r.allowCache) (hnone : x.inflight.get? (r.mode, r.key) = none)
    (hfresh : r.fromLocation = false → (x.memo r.mode).get? r.key = none) :
    SoundBook m old none ((l.start ⟨some t, .work r⟩ .start).reach t (.pending (.leads r l.wards.length)))
      { x with inflight := x.inflight.set (r.mode, r.key) l.wards.length } := by
  have hne : t ≠ l.wards.length := Nat.ne_of_lt hlt
  have hledger : (l.start ⟨some t, .work r⟩ .start).reach t (.pending (.leads r l.wards.length)) =
      ((l.reach t (.pending .free)).start ⟨some t, .work r⟩ .start).reach t
        (.pending (.leads r (l.reach t (.pending .free)).wards.length)) := by
    rw [← Ledger.start_reach _ _ _ _ _ hne, Ledger.reach_reach, Ledger.wards_reach]
  rw [hledger]
  generalize hl' : l.reach t (.pending .free) = l' at h ⊢
  have hlt' : t < l'.wards.length := by rwa [← hl']
  have hfree : l'.stage t = .pending .free := by rw [← hl', Ledger.stage_reach_self]
  have hwards : l.wards.length = l'.wards.length := by rw [← hl', Ledger.wards_reach]
  have hrun : ¬ l'.Ended t := by
    rintro ⟨_, hr⟩
    cases hfree.symm.trans hr
  have hnew : l'.stage l'.wards.length = .new := h.fresh _ (Nat.le_refl _)
  rw [hwards]
  refine ⟨?_, ?_, ?_, ?_⟩
  · intro u hu
    rw [Ledger.wards_reach, Ledger.wards_start, List.length_append, List.length_singleton] at hu
    rw [Ledger.stage_reach_of_ne _ _ _ (by omega), Ledger.stage_start_of_ne _ _ _ (by omega)]
    exact h.fresh u (by omega)
  · exact h.entries.lead (by simp [hfree]) hlt' hnew hcache hnone
  · have horigins : Origins m old
        ((l'.start ⟨some t, .work r⟩ .start).reach t (.pending (.leads r l'.wards.length))) x := by
      apply (h.origins.start _).reach
      · intro g r' p hw _ _
        rw [Ledger.wards_start, List.getElem?_append_left hlt'] at hw
        exact h.origins.called t g r' .free hw hfree (by simp)
      · simp
    exact horigins.frame (memo_eq rfl rfl) rfl
  · intro hsole mode hclear
    exact (h.single hsole mode fun hold => hclear (hold.of_eq rfl)).lead hrun hlt' hnew hnone hfresh

theorem resume (h : SoundBook m old none l x) (ht : l.stage t = .pending (.leads r u)) (hu : l.Ended u)
    (howed : Sole m → ∀ o, l.stage u = .ended (.ok o) → owed = some u) :
    SoundBook m old owed (l.reach t (.pending .free))
      { x with inflight := x.inflight.erase (r.mode, r.key) } where
  fresh := by
    intro u' hu'
    rw [Ledger.stage_reach_of_ne]
    · exact h.fresh u' hu'
    · rintro rfl
      cases (h.fresh u' hu').symm.trans ht
  entries := h.entries.resume ht
  origins := by
    have horigins : Origins m old (l.reach t (.pending .free)) x := by
      apply h.origins.reach
      · intro g r' p hw _ _
        exact h.origins.called t g r' _ hw ht (by simp)
      · simp
    exact horigins.frame (memo_eq rfl rfl) rfl
  single := fun hsole mode hclear =>
    (h.single hsole mode fun hold => hclear (hold.of_eq rfl)).resume h.entries ht hu (howed hsole)

end SoundBook

/--
A task has a result that is to be kept. It stems from a call, and where requests share all they can it
is that of the work for its key.
-/
structure Due (m : Machine K X) (old : State K X) (t : Nat) (w : Ward Role) (owed : Option Nat)
    (e : Envelope) (l : Book) (x : State K X) : Prop where
  ward : l.wards[t]? = some w
  book : SoundBook m old owed (l.reach t (.pending .free)) x
  sound : e.request.Sound m.settings.inlineStart
  stems : ∃ r, Stems m old x r e.payload ∧ r.Serves e.request
  alone : Sole m → e.request.allowCache = false → owed = none
  shared : Sole m → e.request.allowCache → ∃ u g r e', l.wards[u]? = some ⟨g, .work r⟩ ∧
    r.mode = e.request.mode ∧ r.key = e.request.key ∧
    (l.reach t (.pending .free)).stage u = .ended (.ok (some e')) ∧ e'.payload = e.payload ∧
    (owed = none ∨ owed = some u ∧ x.inflight.get? (e.request.mode, e.request.key) = none)
  agrees : Sole m → e.request.allowCache → e.request.fromLocation = false →
    ¬ Since old x (.cleared e.request.mode) →
    ∀ p, (x.memo e.request.mode).get? e.request.key = some p → p = e.payload

namespace Due

theorem report (h : Due m old t w owed e l x) (records : List Log.Record) :
    Due m old t w owed e l { x with records } := by
  have hsince (event : Event) (hevent : Since old x event) : Since old { x with records } event :=
    hevent.of_eq rfl
  refine ⟨h.ward, h.book.frame rfl (memo_eq rfl rfl) rfl, h.sound, ?_, h.alone, h.shared, ?_⟩
  · obtain ⟨r, hstems, hserves⟩ := h.stems
    exact ⟨r, hstems.mono hsince, hserves⟩
  · intro hsole hcache hloc hclear
    have hmemo : ({ x with records } : State K X).memo e.request.mode = x.memo e.request.mode :=
      memo_eq rfl rfl _
    rw [hmemo]
    exact h.agrees hsole hcache hloc fun hold => hclear (hsince _ hold)

theorem settled (h : Due m old t w owed e l x)
    (hmemo : e.request.allowCache → ((x.memo e.request.mode).get? e.request.key).isSome) :
    Live m old t w l x where
  ward := h.ward
  book := by
    refine { h.book with single := ?_ }
    intro hsole mode hclear
    have hsingle := h.book.single hsole mode hclear
    by_cases hcache : e.request.allowCache
    · obtain ⟨u, g, r, e', hu, hmode, hkey, _, _, howed⟩ := h.shared hsole hcache
      apply hsingle.paid (l := l.reach t (.pending .free)) hu (howed.imp_right fun h => h.1)
      rintro rfl
      rw [hmode, hkey]
      exact hmemo hcache
    · rw [h.alone hsole (Bool.eq_false_iff.mpr hcache)] at hsingle
      exact hsingle

theorem kept (h : Due m old t w owed e l x) (hcache : e.request.allowCache)
    (hnone : (x.memo e.request.mode).get? e.request.key = none) :
    Live m old t w l (x.setMemo e.request.mode
      ((x.memo e.request.mode).set e.request.key e.payload)) where
  ward := h.ward
  book := by
    have hhistory := history_setMemo x e.request.mode
      ((x.memo e.request.mode).set e.request.key e.payload)
    obtain ⟨r₀, hstems, hserves⟩ := h.stems
    refine ⟨h.book.fresh, ?_, ?_, ?_⟩
    · exact h.book.entries.frame (inflight_setMemo x _ _)
    · exact h.book.origins.setMemo hstems hserves.mode hserves.key (hserves.allowCache.trans hcache)
    · intro hsole mode hclear
      have hsingle := h.book.single hsole mode fun hold => hclear (hold.of_eq hhistory)
      obtain ⟨u, g, r, e', hu, hmode, hkey, hended, hpayload, howed⟩ := h.shared hsole hcache
      rw [← hmode, ← hkey] at hnone howed ⊢
      rw [← hpayload]
      exact hsingle.setMemo (l := l.reach t (.pending .free)) h.book.entries hu hended howed hnone

end Due

structure Finishes (m : Machine K X) (old : State K X) (e : Envelope) (x : State K X) : Prop where
  sound : e.request.Sound m.settings.inlineStart
  origin : e.request.allowCache ∧ (old.memo e.request.mode).get? e.request.key = some e.payload ∨
    ∃ r, Stems m old x r e.payload ∧ r.Serves e.request
  agrees : Sole m → e.request.allowCache → e.request.fromLocation = false →
    ¬ Since old x (.cleared e.request.mode) →
    (x.memo e.request.mode).get? e.request.key = some e.payload

theorem Live.finished (h : Live m old t w l x) (he : Finishes m old e x) :
    Live m old t w l (x.note (.finished e)) := by
  apply h.map
  intro hbook
  refine ⟨hbook.fresh, hbook.entries.frame rfl, hbook.origins.finish he.sound he.origin, ?_⟩
  intro hsole mode hclear
  have hclear' : ¬ Since old x (.cleared mode) := fun hold => hclear hold.note
  apply (hbook.single hsole mode hclear').finish hbook.origins.history
  rintro rfl hcache hloc
  exact he.agrees hsole hcache hloc hclear'

theorem finishes_of_kept (h : Live m old t w l x) (hsound : e.request.Sound m.settings.inlineStart)
    (hcache : e.request.allowCache)
    (hmemo : (x.memo e.request.mode).get? e.request.key = some e.payload) : Finishes m old e x where
  sound := hsound
  origin := by
    rcases h.book.origins.memo _ _ _ hmemo with hold | ⟨r, hstems, hmode, hkey, hallow⟩
    · exact .inl ⟨hcache, hold⟩
    · exact .inr ⟨r, hstems, Request.serves_of_shared hmode hkey hallow hcache⟩
  agrees := fun _ _ _ _ => hmemo

theorem tends_keep (h : Due m old t w owed e l x) {k : Unit → Routine K X}
    (hk : ∀ l' x', Live m old t w l' x' → Finishes m old e x' →
      (k ()).Tends (terms m old) t [] l' x') :
    (keep e k).Tends (terms m old) t [] l x := by
  apply tends_look
  split
  · next hset =>
    simp only [Bool.and_eq_true, Bool.not_eq_true'] at hset
    obtain ⟨hcache, hnew⟩ := hset
    apply tends_trace
    intro records
    have hdue := h.report records
    have hmemo : ({ x with records } : State K X).memo e.request.mode = x.memo e.request.mode :=
      memo_eq rfl rfl _
    have hlive := hdue.kept hcache (by rw [hmemo, Table.get?_eq_none_of_has hnew])
    refine hk _ _ hlive ⟨hdue.sound, ?_, ?_⟩
    · obtain ⟨r, hstems, hserves⟩ := hdue.stems
      refine .inr ⟨r, hstems.mono fun event hevent => hevent.of_eq ?_, hserves⟩
      exact history_setMemo _ _ _
    · intro _ _ _ _
      rw [memo_setMemo, if_pos rfl, Table.get?_set_self]
  · next hset =>
    have hsome (hcache : e.request.allowCache) :
        ((x.memo e.request.mode).get? e.request.key).isSome := by
      simpa [hcache, Table.has, Option.isSome_iff_ne_none] using hset
    refine hk _ _ (h.settled hsome) ⟨h.sound, .inr h.stems, ?_⟩
    intro hsole hcache hloc hclear
    obtain ⟨p, hp⟩ := Option.isSome_iff_exists.mp (hsome hcache)
    rw [hp, h.agrees hsole hcache hloc hclear p hp]

section Share

variable {k : Envelope → Routine K X}

theorem due_of_worked {r' : Request} {e' : Envelope} {g : Option Nat} (hw : l.wards[t]? = some w)
    (hbook : SoundBook m old owed (l.reach t (.pending .free)) x) (hne : u ≠ t)
    (hu : l.wards[u]? = some ⟨g, .work r'⟩) (hended : l.stage u = .ended (.ok (some e')))
    (hpayload : e'.payload = e.payload) (hsound : e.request.Sound m.settings.inlineStart)
    (hcache : e.request.allowCache) (hmode : r'.mode = e.request.mode)
    (hkey : r'.key = e.request.key)
    (howed : owed = none ∨
      owed = some u ∧ x.inflight.get? (e.request.mode, e.request.key) = none)
    (hagrees : Sole m → e.request.fromLocation = false →
      ¬ Since old x (.cleared e.request.mode) →
      ∀ p, (x.memo e.request.mode).get? e.request.key = some p → p = e.payload) :
    Due m old t w owed e l x where
  ward := hw
  book := hbook
  sound := hsound
  stems := by
    have hstage : (l.reach t (.pending .free)).stage u = .ended (.ok (some e')) := by
      rw [Ledger.stage_reach_of_ne _ _ _ hne, hended]
    obtain ⟨_, ⟨⟩, _, hstems⟩ := hbook.origins.worked u g r' _ hu hstage
    rw [← hpayload]
    exact ⟨r', hstems, Request.serves_of_shared hmode hkey (hbook.entries.shared u g r' hu) hcache⟩
  alone := by
    intro _ hbad
    rw [hcache] at hbad
    cases hbad
  shared := fun _ _ => ⟨u, g, r', e', hu, hmode, hkey,
    by rw [Ledger.stage_reach_of_ne _ _ _ hne, hended], hpayload, howed⟩
  agrees := fun hsole _ => hagrees hsole

theorem tends_join {work : Block K X Envelope} (hlive : Live m old t w l x)
    (hrole : ∀ r, w.role ≠ .work r) (hclose : Closes w.role k) (hcache : r.allowCache)
    (hsound : r.Sound m.settings.inlineStart)
    (hfresh : r.fromLocation = false → (x.memo r.mode).get? r.key = none)
    (hentry : x.inflight.get? (r.mode, r.key) = some u)
    (hk : ∀ e owed l' x', Due m old t w owed e l' x' → (k e).Tends (terms m old) t [] l' x') :
    (share work r k).Tends (terms m old) t [] l x := by
  obtain ⟨t', r', ht', hmode, hkey⟩ := hlive.book.entries.entry _ _ u hentry
  obtain ⟨hu, _⟩ := hlive.book.entries.leads t' r' u ht'
  have hne : u ≠ t := by
    rintro rfl
    cases hu.symm.trans hlive.ward
    exact hrole r' rfl
  rw [share]
  apply tends_look
  rw [hentry]
  apply tends_trace
  intro records
  have hmemo : ({ x with records } : State K X).memo r.mode = x.memo r.mode := memo_eq rfl rfl _
  rw [← hmemo] at hfresh
  have hlive : Live m old t w l { x with records } := hlive.report records x.calls
  generalize ({ x with records } : State K X) = x at hlive hfresh
  -- what the work comes to is handed on, now or later
  have hjoined (l' : Book) (x' : State K X) (result : Except (Stop Failure) (Option Envelope))
      (hlive' : Live m old t w l' x') (hu : l'.wards[u]? = some ⟨some t', .work r'⟩)
      (hended : l'.stage u = .ended result)
      (hagrees : Sole m → r.fromLocation = false → ¬ Since old x' (.cleared r.mode) →
        ∀ p e, (x'.memo r.mode).get? r.key = some p → result = .ok (some e) → p = e.payload) :
      (joined r k result).Tends (terms m old) t [] l' x' := by
    cases result with
    | error e => exact ⟨rfl, hlive'.stop e⟩
    | ok o =>
      have hstage : (l'.reach t (.pending .free)).stage u = .ended (.ok o) := by
        rw [Ledger.stage_reach_of_ne _ _ _ hne, hended]
      obtain ⟨e, rfl, _, _⟩ := hlive'.book.origins.worked u _ r' o hu hstage
      apply hk ⟨r, e.payload⟩ none
      apply due_of_worked (e := ⟨r, e.payload⟩) hlive'.ward hlive'.book hne hu hended rfl hsound hcache
        hmode hkey (.inl rfl)
      exact fun hsole hloc hclear p hp => hagrees hsole hloc hclear p e hp rfl
  refine ⟨rfl, (List.getElem?_eq_some_iff.mp hu).1, ?_, ?_⟩
  · intro result hended
    apply hjoined l x result hlive hu hended
    intro _ hloc _ p _ hp
    rw [hfresh hloc] at hp
    cases hp
  · intro _
    have hstop : SoundBook m old none (l.reach t (.pending (.joins r u))) x := by
      have hbook : SoundBook m old none
          ((l.reach t (.pending .free)).reach t (.pending (.joins r u))) x := by
        apply hlive.book.reach hlive.lt
        · rintro ⟨_, hr⟩
          simp at hr
        · simp
        · simp
        · rintro _ _ ⟨⟩
          exact ⟨⟨_, r', hu, hmode, hkey⟩, hfresh⟩
        · intro g r p hw _ _
          exact hlive.book.origins.called t g r .free hw (l.stage_reach_self t _) (by simp)
        · simp
      rwa [Ledger.reach_reach] at hbook
    refine ⟨.joins r u, ⟨⟨w, hlive.ward, k, hclose, rfl⟩, hstop⟩, ?_⟩
    intro l' x' hl hbook
    have ht : l'.stage t = .pending (.joins r u) := hl.stage.trans (l.stage_reach_self t _)
    have hlive' : Live m old t w l' x' :=
      live_of_pending (hl.ward hlive.ward) ht hbook (by simp) (by simp)
    refine ⟨?_, fun _ => ⟨rfl, hlive'.stop _⟩⟩
    intro result hended
    apply hjoined l' x' result hlive' (hl.ward hu) hended
    rintro hsole hloc hclear p e hp rfl
    obtain ⟨result, hresult, hpayload⟩ :=
      (hbook.single hsole r.mode hclear).waits t r u p (.inr ht) rfl hloc hp
    rw [hended] at hresult
    cases hresult
    exact (hpayload e rfl).symm

theorem tends_lead {work : Block K X Envelope} (hlive : Live m old t w l x)
    (hclose : Closes w.role k) (hguard : Sole m → w.guardian = none) (hcache : r.allowCache)
    (hsound : r.Sound m.settings.inlineStart)
    (hfresh : r.fromLocation = false → (x.memo r.mode).get? r.key = none)
    (hnone : x.inflight.get? (r.mode, r.key) = none)
    (hwork : ∀ u g l x, Live m old u ⟨g, .work r⟩ l x →
      KeepsBook m old u ⟨g, .work r⟩ work l x fun e _ x' => r.Like e.request ∧ Stems m old x' r e.payload)
    (hk : ∀ e owed l' x', Due m old t w owed e l' x' → (k e).Tends (terms m old) t [] l' x') :
    (share work r k).Tends (terms m old) t [] l x := by
  rw [share]
  apply tends_look
  rw [hnone]
  have hchild : (terms m old).Starts .start (work fun e => .finish (.ok (some e))) (.work r) := by
    apply starts_of_live (by simp)
    intro u g l x hlive
    apply hwork u g l x hlive
    rintro e l' x' hlive' ⟨hlike, hstems⟩
    refine ⟨rfl, hlive'.finish _ ?_⟩
    rintro _ ⟨⟩
    exact ⟨e, rfl, hlike, hstems⟩
  have hlt := hlive.lt
  have hward : (l.start ⟨some t, .work r⟩ .start).wards[t]? = some w := by
    rw [Ledger.wards_start, List.getElem?_append_left hlt, hlive.ward]
  apply Block.tends_spawn (.work r) .start hchild
  refine ⟨rfl, l.running_start _ _, .leads r l.wards.length, ⟨⟨w, hward, k, hclose, rfl⟩,
    hlive.book.lead hlt hcache hnone hfresh⟩, ?_⟩
  intro l' x' hl hbook
  generalize hu : l.wards.length = u at hl
  have hne : u ≠ t := by omega
  have hw : l'.wards[t]? = some w := hl.ward hward
  have hwork : l'.wards[u]? = some ⟨some t, .work r⟩ := by
    apply hl.ward
    rw [← hu]
    exact List.getElem?_concat_length
  have ht : l'.stage t = .pending (.leads r u) := hl.stage.trans (Ledger.stage_reach_self _ _ _)
  have hstop (e : Stop Failure) (hended : l'.Ended u)
      (howed : Sole m → ∀ o, l'.stage u ≠ .ended (.ok o)) :
      (resume (r.mode, r.key) k (.error e)).Tends (terms m old) t [] l' x' := by
    have hlive' : Live m old t w l' { x' with inflight := x'.inflight.erase (r.mode, r.key) } :=
      ⟨hw, hbook.resume ht hended fun hsole o ho => absurd ho (howed hsole o)⟩
    exact ⟨rfl, hlive'.stop e⟩
  refine ⟨?_, ?_⟩
  · intro result hresult _
    cases result with
    | error e =>
      apply hstop e ⟨_, hresult⟩
      intro _ o ho
      cases hresult.symm.trans ho
    | ok o =>
      obtain ⟨e, rfl, hlike, hstems⟩ := hbook.origins.worked u _ r o hwork hresult
      have hserves := hlike.serves
      have hbooks' : SoundBook m old (some u) (l'.reach t (.pending .free))
          { x' with inflight := x'.inflight.erase (r.mode, r.key) } :=
        hbook.resume ht ⟨_, hresult⟩ fun _ _ _ => rfl
      apply hk e (some u)
      apply due_of_worked hw hbooks' hne hwork hresult rfl (hlike.sound hsound)
        (hserves.allowCache ▸ hcache) hserves.mode hserves.key
      · rw [← hserves.mode, ← hserves.key, Table.get?_erase_self]
        exact .inr ⟨rfl, rfl⟩
      · intro hsole hloc hclear p hp
        rw [hlike.fromLocation] at hloc
        rw [← hserves.mode] at hclear hp
        rw [← hserves.key] at hp
        obtain ⟨result, hresult', hpayload⟩ := (hbook.single hsole r.mode fun hold =>
          hclear (hold.of_eq rfl)).waits t r u p (.inl ht) rfl hloc
            ((congrArg (·.get? r.key) (memo_eq rfl rfl r.mode)).symm.trans hp)
        rw [hresult] at hresult'
        cases hresult'
        exact (hpayload e rfl).symm
  · intro hdoom hended
    apply hstop _ hended
    intro hsole
    obtain ⟨_, _, hw', hguardian⟩ := hdoom.raised
    obtain rfl := Option.some.inj (hw.symm.trans hw')
    rw [hguard hsole] at hguardian
    cases hguardian

theorem due_of_computed (hlive : Live m old t w l x) (hlike : r.Like e.request)
    (hstems : Stems m old x r e.payload) (hsound : r.Sound m.settings.inlineStart)
    (halone : Sole m → r.allowCache = false) : Due m old t w none e l x := by
  have hserves := hlike.serves
  refine ⟨hlive.ward, hlive.book, hlike.sound hsound, ⟨r, hstems, hserves⟩, fun _ _ => rfl, ?_, ?_⟩
  · intro hsole hcache
    rw [← hserves.allowCache, halone hsole] at hcache
    cases hcache
  · intro hsole hcache
    rw [← hserves.allowCache, halone hsole] at hcache
    cases hcache

theorem tends_dispatch {ask : Ask → Block K X Envelope} {may : Ask → Prop}
    (hask : Tending m old may ask) (hmay : ∀ c, (m.perform c r).AsksOnly may)
    (hlive : Live m old t w l x) (hrole : ∀ r, w.role ≠ .work r)
    (houtside : w.role = .outside → k = fun e => request.finish e fun e => .finish (.ok (some e)))
    (hguard : Sole m → r.allowCache → w.guardian = none) (hsound : r.Sound m.settings.inlineStart)
    (hfresh : r.fromLocation = false → r.allowCache → (x.memo r.mode).get? r.key = none)
    (hk : ∀ e l' x', Live m old t w l' x' → Finishes m old e x' →
      (k e).Tends (terms m old) t [] l' x') :
    (dispatch m ask r k).Tends (terms m old) t [] l x := by
  have hdue (e : Envelope) (owed : Option Nat) (l' : Book) (x' : State K X)
      (hdue : Due m old t w owed e l' x') :
      (keep e fun _ => k e).Tends (terms m old) t [] l' x' :=
    tends_keep hdue (hk e)
  rw [dispatch]
  apply keepsBook_lookUp hlive r
  rintro c l x hlive ⟨rfl, rfl⟩
  split
  · next hshare =>
    obtain ⟨_, hcache⟩ := Bool.and_eq_true_iff.mp hshare
    have hclose : Closes w.role fun e => keep e fun _ => k e := by
      intro hout
      rw [houtside hout]
      rfl
    have hfresh' (hloc : r.fromLocation = false) : (x.memo r.mode).get? r.key = none :=
      hfresh hloc hcache
    cases hentry : x.inflight.get? (r.mode, r.key) with
    | some u => exact tends_join hlive hrole hclose hcache hsound hfresh' hentry hdue
    | none =>
      apply tends_lead hlive hclose (fun hsole => hguard hsole hcache) hcache hsound hfresh' hentry _ hdue
      exact fun u g l x hlive => keepsBook_compute hask c (hmay c) hsound hlive
  · next hshare =>
    apply keepsBook_compute hask c (hmay c) hsound hlive
    rintro e l' x' hlive' ⟨hlike, hstems⟩
    apply hdue e none l' x'
    apply due_of_computed hlive' hlike hstems hsound
    intro hsole
    simpa [hsole.1] using hshare

end Share

theorem asksOnly_of_sole (m : Machine K X) (k : K) (r : Request) :
    (m.perform k r).AsksOnly fun a => Sole m → Uncached a := by
  by_cases hsole : Sole m
  · exact (hsole.2 k r).mono fun a ha _ => ha
  · exact Call.asksOnly_of_forall (fun a h => absurd h hsole) _

theorem tends_request {left : Nat} {parent : Option Request} {a : Ask} {k : Envelope → Routine K X}
    (hlive : Live m old t w l x) (hrole : ∀ r, w.role ≠ .work r)
    (houtside : w.role = .outside → k = fun e => .finish (.ok (some e)))
    (hguard : Sole m → w.guardian = none ∨ Uncached a)
    (hk : ∀ e l' x', Live m old t w l' x' → Since old x' (.finished e) →
      (k e).Tends (terms m old) t [] l' x') :
    (request m left parent a k).Tends (terms m old) t [] l x := by
  have hfinish (e : Envelope) (l' : Book) (x' : State K X) (hlive' : Live m old t w l' x')
      (he : Finishes m old e x') : (request.finish e k).Tends (terms m old) t [] l' x' :=
    hk e _ _ (hlive'.finished he) (since_note hlive'.book.origins.history)
  induction left generalizing t w l x parent a k with
  | zero =>
    rw [request]
    apply keepsBook_prepare hlive a parent
    rintro prepared l' x' hlive' ⟨hprompt, _⟩
    cases prepared with
    | hit e =>
      obtain ⟨hsound, hcache, hmemo⟩ := hprompt
      exact hfinish e l' x' hlive' (finishes_of_kept hlive' hsound hcache hmemo)
    | fresh r => exact ⟨rfl, hlive'.stop _⟩
  | succ left ih =>
    rw [request]
    apply keepsBook_prepare hlive a parent
    rintro prepared l' x' hlive' ⟨hprompt, hmade⟩
    cases prepared with
    | hit e =>
      obtain ⟨hsound, hcache, hmemo⟩ := hprompt
      exact hfinish e l' x' hlive' (finishes_of_kept hlive' hsound hcache hmemo)
    | fresh r =>
      obtain ⟨hsound, hfresh⟩ := hprompt
      obtain ⟨r₀, hr₀, hcache⟩ := hmade r rfl
      have hask : Tending m old (fun a => Sole m → Uncached a) (request m left (some r)) := by
        intro t w a l x hinner hrole ha hlive k hk
        apply ih hlive hrole (fun hout => absurd hout hinner) (fun hsole => .inr (ha hsole))
        · exact fun e l' x' hlive' _ => hk e l' x' hlive' trivial
        · exact fun e l' x' hlive' he => hk e _ _ (hlive'.finished he) trivial
      apply tends_dispatch hask (fun c => asksOnly_of_sole m c r) hlive' hrole _ _ hsound hfresh hfinish
      · intro hout
        rw [houtside hout]
      · intro hsole hallow
        rcases hguard hsole with hnone | huncached
        · exact hnone
        · rw [hcache, huncached _ _ r₀ hr₀] at hallow
          cases hallow

theorem tends_requestRoutine (a : Ask) {u : Nat} (hbook : SoundBook m old none l x)
    (hw : l.wards[u]? = some ⟨none, .outside⟩) (hu : l.stage u = .pending .start) :
    (requestRoutine m a).Tends (terms m old) u [] l x := by
  have hlive : Live m old u ⟨none, .outside⟩ l x :=
    live_of_pending hw hu hbook (by simp) (by simp)
  apply tends_request hlive (by simp) (fun _ => rfl) fun _ => .inl rfl
  intro e l' x' hlive' he
  refine ⟨rfl, hlive'.finish _ ?_⟩
  rintro _ ⟨⟩
  exact ⟨e, rfl, he⟩

end Polyglot.Hub
