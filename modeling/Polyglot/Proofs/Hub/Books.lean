import Polyglot.Proofs.Hub.Single

/-!
The books that the tasks of a hub keep of what they do for each other, and the parts of a request that
keep them in order.
-/

namespace Polyglot.Hub

open Loop

variable {K X : Type}

/--
What holds of a hub: entries belong to their leaders, results have their origins, and where requests
share all they can nothing is computed twice but for requests that are read from a location. The
result of some work may just be about to be kept.
-/
structure SoundBook (m : Machine K X) (old : State K X) (owed : Option Nat) (l : Book) (x : State K X) :
    Prop where
  fresh : ∀ t, l.wards.length ≤ t → l.stage t = .new
  entries : Entries l x
  origins : Origins m old l x
  single : Sole m → ∀ mode, ¬ Since old x (.cleared mode) → Single old l x mode owed

def terms (m : Machine K X) (old : State K X) :
    Terms (State K X) Failure (Option Envelope) Role Point where
  inv := SoundBook m old none
  fits := FitsPoint

variable {m : Machine K X} {old : State K X} {owed : Option Nat} {l l' : Book} {x x' : State K X}
variable {t : Nat} {w : Ward Role}

namespace SoundBook

theorem frame (h : SoundBook m old owed l x) (hinflight : x'.inflight = x.inflight)
    (hmemo : ∀ mode, x'.memo mode = x.memo mode) (hhistory : x'.history = x.history) :
    SoundBook m old owed l x' where
  fresh := h.fresh
  entries := h.entries.frame hinflight
  origins := h.origins.frame hmemo hhistory
  single := by
    intro hsole mode hclear
    apply (h.single hsole mode fun hold => hclear (hold.of_eq hhistory)).frame hinflight (hmemo mode)
    exact fun e he => he.of_eq hhistory.symm

theorem note (h : SoundBook m old owed l x) {event : Event} (hevent : ∀ e, event ≠ .finished e) :
    SoundBook m old owed l (x.note event) where
  fresh := h.fresh
  entries := h.entries.frame rfl
  origins := h.origins.note hevent
  single := by
    intro hsole mode hclear
    have hinflight : (x.note event).inflight = x.inflight := rfl
    apply (h.single hsole mode fun hold => hclear hold.note).frame hinflight (memo_note x event mode)
    intro e he
    rcases he.of_note h.origins.history with heq | he
    · exact absurd heq.symm (hevent e)
    · exact he

theorem cutOff (h : SoundBook m old owed l x) (us : List Nat) : SoundBook m old owed (l.cutOff us) x :=
  ⟨h.fresh, h.entries.cutOff us, h.origins.cutOff us,
    fun hsole mode hclear => (h.single hsole mode hclear).cutOff us⟩

theorem start (h : SoundBook m old owed l x) (hwork : ∀ r, w.role ≠ .work r)
    (hw : w.role = .outside → w.guardian = none) : SoundBook m old owed (l.start w .start) x where
  fresh := by
    intro t ht
    rw [Ledger.wards_start, List.length_append, List.length_singleton] at ht
    rw [Ledger.stage_start_of_ne _ _ _ (by omega)]
    exact h.fresh t (by omega)
  entries := h.entries.start (h.fresh _ (Nat.le_refl _)) (fun r hr => absurd hr (hwork r)) hw
  origins := h.origins.start w
  single := fun hsole mode hclear =>
    (h.single hsole mode hclear).start (h.fresh _ (Nat.le_refl _)) hwork

theorem reach (h : SoundBook m old owed l x) (hlt : t < l.wards.length) (ht : ¬ l.Ended t)
    (hfree : ∀ r u, l.stage t ≠ .pending (.leads r u))
    {stage : Stage Point Failure (Option Envelope)} (hleads : ∀ r u, stage ≠ .pending (.leads r u))
    (hjoins : ∀ r u, stage = .pending (.joins r u) →
      (∃ g r', l.wards[u]? = some ⟨g, .work r'⟩ ∧ r'.mode = r.mode ∧ r'.key = r.key) ∧
        (r.fromLocation = false → (x.memo r.mode).get? r.key = none))
    (hcalled : ∀ g r p, l.wards[t]? = some ⟨g, .call r⟩ → stage = .pending p → p ≠ .start →
      Since old x (.called r))
    (hok : ∀ o, stage = .ended (.ok o) → ∃ w, l.wards[t]? = some w ∧ Allows m old x w.role o) :
    SoundBook m old owed (l.reach t stage) x where
  fresh := by
    intro u hu
    rw [Ledger.wards_reach] at hu
    rw [Ledger.stage_reach_of_ne _ _ _ (by omega)]
    exact h.fresh u hu
  entries := h.entries.reach hfree hleads fun r u hstage => (hjoins r u hstage).1
  origins := h.origins.reach hcalled hok
  single := by
    intro hsole mode hclear
    apply (h.single hsole mode hclear).reach h.entries ht hleads
    rintro r u hstage rfl
    exact (hjoins r u hstage).2

theorem settled (h : SoundBook m old owed l x) (howed : Sole m → owed = none) :
    SoundBook m old none l x :=
  { h with single := fun hsole mode hclear => howed hsole ▸ h.single hsole mode hclear }

end SoundBook

/--
The state in which a hub's task may stop wherever it is, or finds the hub when it goes on.
-/
structure Live (m : Machine K X) (old : State K X) (t : Nat) (w : Ward Role) (l : Book)
    (x : State K X) : Prop where
  ward : l.wards[t]? = some w
  book : SoundBook m old none (l.reach t (.pending .free)) x

namespace Live

theorem lt (h : Live m old t w l x) : t < l.wards.length := (List.getElem?_eq_some_iff.mp h.ward).1

theorem map (h : Live m old t w l x)
    (hbook : SoundBook m old none (l.reach t (.pending .free)) x →
      SoundBook m old none (l.reach t (.pending .free)) x') : Live m old t w l x' :=
  ⟨h.ward, hbook h.book⟩

theorem report (h : Live m old t w l x) (records : List Log.Record) (calls : List Source.WebCall) :
    Live m old t w l { x with records, calls } :=
  h.map fun hbook => hbook.frame rfl (memo_eq rfl rfl) rfl

theorem apply (h : Live m old t w l x) (e : Effect X) : Live m old t w l (x.apply e) := by
  apply h.map
  cases e <;> exact fun hbook => hbook.frame rfl (memo_eq rfl rfl) rfl

theorem note (h : Live m old t w l x) {event : Event} (hevent : ∀ e, event ≠ .finished e) :
    Live m old t w l (x.note event) :=
  h.map fun hbook => hbook.note hevent

theorem start (h : Live m old t w l x) {role : Role} (hwork : ∀ r, role ≠ .work r)
    (houtside : role ≠ .outside) : Live m old t w (l.start ⟨some t, role⟩ .start) x where
  ward := by rw [Ledger.wards_start, List.getElem?_append_left h.lt, h.ward]
  book := by
    rw [Ledger.start_reach _ _ _ _ _ (Nat.ne_of_lt h.lt)]
    exact h.book.start hwork fun heq => absurd heq houtside

theorem cutOff (h : Live m old t w l x) (us : List Nat) : Live m old t w (l.cutOff us) x :=
  ⟨h.ward, h.book.cutOff us⟩

theorem finish (h : Live m old t w l x) (result : Except (Stop Failure) (Option Envelope))
    (hresult : ∀ o, result = .ok o → Allows m old x w.role o) :
    SoundBook m old none (l.reach t (.ended result)) x := by
  have hbook : SoundBook m old none ((l.reach t (.pending .free)).reach t (.ended result)) x := by
    apply h.book.reach h.lt
    · rintro ⟨_, hr⟩
      simp at hr
    · simp
    · simp
    · simp
    · simp
    · rintro o ⟨⟩
      exact ⟨w, h.ward, hresult o rfl⟩
  rwa [Ledger.reach_reach] at hbook

theorem stop (h : Live m old t w l x) (e : Stop Failure) :
    SoundBook m old none (l.reach t (.ended (.error e))) x :=
  h.finish (.error e) (by rintro _ ⟨⟩)

end Live

section Pending

variable {point : Point} (hw : l.wards[t]? = some w) (ht : l.stage t = .pending point)
  (hbook : SoundBook m old none l x) (hleads : ∀ r u, point ≠ .leads r u)
include hw ht hbook hleads

/--
A task that is let go on finds the hub in order, unless it is a leader or a compiler's task that has
not begun.
-/
theorem live_of_pending (hcall : ∀ r, w.role = .call r → point = .start → Since old x (.called r)) :
    Live m old t w l x where
  ward := hw
  book := by
    apply hbook.reach (List.getElem?_eq_some_iff.mp hw).1
    · rintro ⟨_, hr⟩
      cases ht.symm.trans hr
    · rw [ht]
      rintro r u ⟨⟩
      exact hleads r u rfl
    · simp
    · simp
    · intro g r p hw' _ _
      obtain rfl := Option.some.inj (hw.symm.trans hw')
      by_cases hstart : point = .start
      · exact hcall r rfl hstart
      · exact hbook.origins.called t g r point hw' ht hstart
    · simp

theorem stop_of_pending (e : Stop Failure) : SoundBook m old none (l.reach t (.ended (.error e))) x := by
  apply hbook.reach (List.getElem?_eq_some_iff.mp hw).1
  · rintro ⟨_, hr⟩
    cases ht.symm.trans hr
  · rw [ht]
    rintro r u ⟨⟩
    exact hleads r u rfl
  · simp
  · simp
  · simp
  · simp

end Pending

theorem parks (m : Machine K X) (old : State K X) (t : Nat) (w : Ward Role) :
    Block.Parks (terms m old) t w .free (Live m old t w) where
  ward := Live.ward
  stop := Live.book
  go := fun hw ht hbook => live_of_pending hw ht hbook (by simp) (by simp)

def KeepsBook {α : Type} (m : Machine K X) (old : State K X) (t : Nat) (w : Ward Role) (b : Block K X α)
    (l : Book) (x : State K X) (post : α → Book → State K X → Prop) : Prop :=
  ∀ k, (∀ a l' x', Live m old t w l' x' → post a l' x' → (k a).Tends (terms m old) t [] l' x') →
    (b k).Tends (terms m old) t [] l x

namespace KeepsBook

variable {α β : Type} {post : α → Book → State K X → Prop}

theorem pure {a : α} (h : Live m old t w l x) (ha : post a l x) :
    KeepsBook m old t w (pure a) l x post :=
  fun _ hk => hk a l x h ha

theorem bind {b : Block K X α} {f : α → Block K X β} {post : β → Book → State K X → Prop}
    (mid : α → Book → State K X → Prop) (h : KeepsBook m old t w b l x mid)
    (hf : ∀ a l' x', Live m old t w l' x' → mid a l' x' → KeepsBook m old t w (f a) l' x' post) :
    KeepsBook m old t w (b >>= f) l x post :=
  fun k hk => h (fun a => f a k) fun a l' x' hl ha => hf a l' x' hl ha k hk

theorem weaken {b : Block K X α} {post' : α → Book → State K X → Prop}
    (h : KeepsBook m old t w b l x post) (himp : ∀ a l' x', post a l' x' → post' a l' x') :
    KeepsBook m old t w b l x post' :=
  fun k hk => h k fun a l' x' hl ha => hk a l' x' hl (himp a l' x' ha)

theorem fail (h : Live m old t w l x) (e : Failure) : KeepsBook m old t w (Block.fail e) l x post :=
  fun _ _ => ⟨rfl, h.stop _⟩

theorem ofExcept (h : Live m old t w l x) {r : Except Failure α}
    (hr : ∀ a, r = .ok a → post a l x) : KeepsBook m old t w (Block.ofExcept r) l x post := by
  cases r with
  | ok a => exact .pure h (hr a rfl)
  | error e => exact .fail h e

theorem look {f : State K X → Block K X α} (h : KeepsBook m old t w (f x) l x post) :
    KeepsBook m old t w (Block.look >>= f) l x post :=
  h

theorem change {f : State K X → State K X} {post : Unit → Book → State K X → Prop}
    (h : Live m old t w l (f x)) (hpost : post () l (f x)) :
    KeepsBook m old t w (Block.change f) l x post :=
  fun _ hk => hk () l (f x) h hpost

theorem pause {post : Unit → Book → State K X → Prop} (h : Live m old t w l x)
    (hpost : ∀ l' x', Live m old t w l' x' → post () l' x') :
    KeepsBook m old t w Block.pause l x post := by
  intro k hk
  refine ⟨rfl, .free, ⟨⟨w, h.ward, ?_⟩, h.book⟩, ?_⟩
  · exact ⟨by rintro _ _ _ ⟨⟩, by rintro _ _ ⟨⟩⟩
  · intro l' x' hl hbook
    have hlive := (parks m old t w).later h.ward hl hbook
    exact ⟨hk () l' x' hlive (hpost l' x' hlive), fun _ => hlive.stop _⟩

theorem trace {post : Unit → Book → State K X → Prop} (h : Live m old t w l x) (debug : Bool)
    (logger text : String) (hpost : ∀ records, post () l { x with records }) :
    KeepsBook m old t w (trace debug logger text) l x post := by
  rw [Hub.trace]
  split
  · exact .change (h.report _ _) (hpost _)
  · exact .pure h (hpost x.records)

theorem warn {post : Unit → Book → State K X → Prop} (h : Live m old t w l x) (debug : Bool)
    (logger text : String) (hpost : ∀ records, post () l { x with records }) :
    KeepsBook m old t w (warn debug logger text) l x post := by
  rw [Hub.warn]
  split
  · exact .change (h.report _ _) (hpost _)
  · exact .pure h (hpost x.records)

end KeepsBook

/--
What a request is when it is ready: a result that is kept, or a request with its text, for which an
inline one has found no result.
-/
def Prompt (m : Machine K X) (x : State K X) : Prepared → Prop
  | .hit e => e.request.Sound m.settings.inlineStart ∧ e.request.allowCache ∧
      (x.memo e.request.mode).get? e.request.key = some e.payload
  | .fresh r => r.Sound m.settings.inlineStart ∧
      (r.fromLocation = false → r.allowCache → (x.memo r.mode).get? r.key = none)

theorem keepsBook_readSource (h : Live m old t w l x) (r : Request) :
    KeepsBook m old t w (readSource m.settings r) l x fun r' _ _ =>
      ∃ source, r' = { r with source := some source } := by
  apply KeepsBook.bind (fun _ _ _ => True) (.trace h _ _ _ fun _ => trivial)
  intro _ l' x' hl _
  apply KeepsBook.look
  apply KeepsBook.bind (fun _ _ _ => True) (.ofExcept hl fun _ _ => trivial)
  intro plan l' x' hl _
  apply KeepsBook.bind (fun _ _ _ => True) (.pause hl fun _ _ _ => trivial)
  intro _ l' x' hl _
  apply KeepsBook.look
  apply KeepsBook.bind (fun _ _ _ => True) (.change (hl.report _ _) trivial)
  intro _ l' x' hl _
  apply KeepsBook.bind (fun _ _ _ => True) (.ofExcept hl fun _ _ => trivial)
  intro loaded l' x' hl _
  exact .pure hl ⟨_, rfl⟩

theorem keepsBook_prepare (h : Live m old t w l x) (a : Ask) (parent : Option Request) :
    KeepsBook m old t w (prepare m.settings a parent) l x fun prepared _ x' => Prompt m x' prepared ∧
      ∀ r, prepared = .fresh r → ∃ r₀,
        requestOf a.mode a.options m.settings.inlineStart (Request.depthBelow parent) = .ok r₀ ∧
        r.allowCache = r₀.allowCache := by
  rw [prepare]
  split
  · next e _ =>
    dsimp only
    split
    · apply KeepsBook.bind (fun _ _ _ => True) (.warn h _ _ _ fun _ => trivial)
      exact fun _ l' x' hl _ => .fail hl _
    · exact .fail h _
  · next r hr =>
    have hsound := sound_of_requestOf hr
    have hnoted : Live m old t w l (x.note (.asked parent r)) := h.note (by simp)
    apply KeepsBook.bind (fun _ l' x' => x' = x.note (.asked parent r)) (.change hnoted rfl)
    rintro _ l' _ hl rfl
    apply KeepsBook.look
    split
    · next payload hhit =>
      split at hhit
      · next hcache =>
        have hmemo (x' : State K X) (hx' : ∀ mode, x'.memo mode = (x.note (.asked parent r)).memo mode) :
            (x'.memo r.mode).get? r.key = some payload := by rw [hx', hhit]
        apply KeepsBook.bind (fun _ l' x' => ∀ mode, x'.memo mode = (x.note (.asked parent r)).memo mode)
          (.trace hl _ _ _ fun _ => memo_eq rfl rfl)
        intro _ l' x' hl hx'
        apply KeepsBook.bind (fun _ l' x' => ∀ mode, x'.memo mode = (x.note (.asked parent r)).memo mode)
          (.trace hl _ _ _ fun _ mode => (memo_eq rfl rfl mode).trans (hx' mode))
        intro _ l' x' hl hx'
        refine .pure hl ⟨⟨⟨⟨hsound.named.input, hsound.named.output⟩, hsound.placed⟩, hcache, ?_⟩, by simp⟩
        exact hmemo x' hx'
      · cases hhit
    · next hmiss =>
      have hrest (b : Block K X Request) (l : Book) (x : State K X)
          (hb : KeepsBook m old t w b l x fun r' _ x' => ∃ source, r' = { r with source } ∧
            (r.fromLocation = false → source = r.source ∧
              (r.allowCache → (x'.memo r.mode).get? r.key = none))) :
          KeepsBook m old t w (b >>= fun r => do
            traceRequest r
            return Prepared.fresh r) l x fun prepared _ x' => Prompt m x' prepared ∧
              ∀ r, prepared = .fresh r → ∃ r₀,
                requestOf a.mode a.options m.settings.inlineStart (Request.depthBelow parent) = .ok r₀ ∧
                r.allowCache = r₀.allowCache := by
        apply KeepsBook.bind _ hb
        rintro _ l' x' hl ⟨source, rfl, hsource⟩
        apply KeepsBook.bind (fun _ _ x'' => ∀ mode, x''.memo mode = x'.memo mode)
          (.trace hl _ _ _ fun _ => memo_eq rfl rfl)
        intro _ l'' x'' hl' hx''
        refine .pure hl' ⟨⟨⟨⟨hsound.named.input, hsound.named.output⟩, ?_⟩, ?_⟩, ?_⟩
        · intro hloc
          obtain ⟨rfl, _⟩ := hsource hloc
          exact hsound.placed hloc
        · intro hloc hcache
          rw [hx'']
          exact (hsource hloc).2 hcache
        · rintro _ ⟨⟩
          exact ⟨r, hr, rfl⟩
      dsimp only
      split
      · next hloc =>
        apply hrest
        apply (keepsBook_readSource hl r).weaken
        rintro _ _ _ ⟨source, rfl⟩
        exact ⟨_, rfl, fun hinline => by rw [hloc] at hinline; cases hinline⟩
      · next hloc =>
        apply hrest
        refine .pure hl ⟨r.source, rfl, fun _ => ⟨rfl, ?_⟩⟩
        intro hcache
        rwa [if_pos hcache] at hmiss

theorem keepsBook_lookUp (h : Live m old t w l x) (r : Request) :
    KeepsBook m old t w (lookUp r) l x fun _ l' x' => l' = l ∧ x' = x := by
  have hfail (e : Failure) : KeepsBook m old t w (do
      warn r.debug dispatcherLog e.message
      Block.fail e) l x fun (_ : K) l' x' => l' = l ∧ x' = x := by
    apply KeepsBook.bind (fun _ _ _ => True) (.warn h _ _ _ fun _ => trivial)
    exact fun _ l' x' hl _ => .fail hl e
  rw [Hub.lookUp]
  apply KeepsBook.look
  cases r.mode with
  | transpile =>
    dsimp only
    split
    · exact .pure h ⟨rfl, rfl⟩
    · exact hfail _
  | interpret =>
    dsimp only
    split
    · exact .pure h ⟨rfl, rfl⟩
    · exact hfail _

end Polyglot.Hub
