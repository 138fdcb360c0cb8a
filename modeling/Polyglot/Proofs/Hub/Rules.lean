import Polyglot.Proofs.Hub.Terms

/-!
The parts that a request is put together from keep the contract of a hub, and hand on only what they
may come to.
-/

namespace Polyglot.Hub

open Loop

variable {K X α : Type} {m : Machine K X} {c : Scene K} {base : Mode → Memo Payload} {order : Order}
variable {t : Nat} {ps : Pledges} {x : State K X}

/--
A block of a hub's task keeps the contract from any state between ticks on, and what it hands on meets
a condition in a state where the task might pause.
-/
def KeepsContract (m : Machine K X) (c : Scene K) (base : Mode → Memo Payload) (order : Order) (t : Nat)
    (b : Block K X α) (meets : α → Prop) : Prop :=
  ∀ ps x, t < ps.length → Inv m c base ps x →
    Block.Meets (contract m c base order) t b ps x fun a ps' x' => Inv m c base ps' x' ∧ meets a

theorem KeepsContract.pure {a : α} {meets : α → Prop} (h : meets a) :
    KeepsContract m c base order t (pure a) meets :=
  fun _ _ _ hinv => .pure ⟨hinv, h⟩

theorem KeepsContract.bind {β : Type} {b : Block K X α} {f : α → Block K X β} {mid : α → Prop}
    {meets : β → Prop} (h : KeepsContract m c base order t b mid)
    (hf : ∀ a, mid a → KeepsContract m c base order t (f a) meets) :
    KeepsContract m c base order t (b >>= f) meets := by
  intro ps x ht hinv
  apply (h ps x ht hinv).bind
  rintro a ps' x' hps ⟨hinv', hmid⟩
  exact hf a hmid ps' x' (Nat.lt_of_lt_of_le ht hps.length_le) hinv'

theorem KeepsContract.fail {e : Failure} {meets : α → Prop} :
    KeepsContract m c base order t (Block.fail e) meets :=
  fun _ _ _ hinv => .fail hinv

theorem KeepsContract.ofExcept {r : Except Failure α} :
    KeepsContract m c base order t (Block.ofExcept r) (r = .ok ·) :=
  fun _ _ _ hinv => .ofExcept hinv fun _ ha => ⟨hinv, ha⟩

theorem KeepsContract.pause : KeepsContract m c base order t (Block.pause : Block K X Unit) fun _ => True :=
  fun _ _ _ hinv => .pause hinv fun _ _ _ hinv' => ⟨hinv', trivial⟩

theorem KeepsContract.weaken {b : Block K X α} {meets meets' : α → Prop}
    (h : KeepsContract m c base order t b meets) (himp : ∀ a, meets a → meets' a) :
    KeepsContract m c base order t b meets' := by
  intro ps x ht hinv
  apply (h ps x ht hinv).weaken
  rintro a ps' x' _ ⟨hinv', ha⟩
  exact ⟨hinv', himp a ha⟩

theorem KeepsContract.look {f : State K X → Block K X α} {meets : α → Prop}
    (h : ∀ ps x, t < ps.length → Inv m c base ps x →
      Block.Meets (contract m c base order) t (f x) ps x fun a ps' x' =>
        Inv m c base ps' x' ∧ meets a) :
    KeepsContract m c base order t (Block.look >>= f) meets :=
  fun ps x ht hinv => .look (h ps x ht hinv)

theorem KeepsContract.change {f : State K X → State K X} (hstep : ∀ x, Adds x (f x))
    (hinv : ∀ ps x, Inv m c base ps x → Inv m c base ps (f x)) :
    KeepsContract m c base order t (Block.change f) fun _ => True :=
  fun ps x _ h => .change (hstep x) ⟨hinv ps x h, trivial⟩

theorem meets_trace (debug : Bool) (logger text : String) (post : Unit → Pledges → State K X → Prop)
    (h : ∀ records, post () ps { x with records }) :
    Block.Meets (contract m c base order) t (trace debug logger text) ps x post := by
  rw [Hub.trace]
  split
  · exact .change (.of_eq rfl) (h _)
  · exact .pure (h x.records)

theorem KeepsContract.trace (debug : Bool) (logger text : String) :
    KeepsContract m c base order t (trace debug logger text) fun _ => True :=
  fun _ _ _ hinv => meets_trace _ _ _ _ fun _ => ⟨hinv.report _ _, trivial⟩

theorem KeepsContract.warn (debug : Bool) (logger text : String) :
    KeepsContract m c base order t (warn debug logger text) fun _ => True := by
  rw [Hub.warn]
  split
  · exact .change (fun _ => .of_eq rfl) fun _ _ h => h.report _ _
  · exact .pure trivial

theorem KeepsContract.readSource {r : Request} (hr : r.fromLocation) :
    KeepsContract m c base order t (readSource m.settings r) (Loads m c r) := by
  apply KeepsContract.bind (.trace _ _ _)
  intro _ _
  apply KeepsContract.look
  intro ps x ht hinv
  have hplan : KeepsContract m c base order t (Block.ofExcept (Source.plan x.world x.root r.location)) _ :=
    .ofExcept
  apply (KeepsContract.bind hplan _) ps x ht hinv
  intro plan hplan
  apply KeepsContract.bind .pause
  intro _ _
  apply KeepsContract.look
  intro ps' x' ht' hinv'
  refine (KeepsContract.change ?_ ?_).bind ?_ ps' x' ht' hinv'
  · exact fun _ => .of_eq rfl
  · exact fun _ _ h => h.report _ _
  · intro _ _
    apply KeepsContract.bind .ofExcept
    intro loaded hloaded
    apply KeepsContract.pure
    rw [Loads, if_pos hr]
    exact ⟨x.world, x.root, x.registry, x'.world, x'.root, x'.registry, plan, loaded, hinv.fits, hplan,
      hinv'.fits, hloaded, rfl⟩

def Ready (m : Machine K X) (c : Scene K) (a : Ask) (parent : Option Request) (x : State K X) :
    Prepared → Prop
  | .hit e => ∃ r, requestOf a.mode a.options m.settings.inlineStart (Request.depthBelow parent) = .ok r ∧
      r.allowCache ∧ e.request = { r with cacheHit := true } ∧
      (x.memo r.mode).get? r.key = some e.payload
  | .fresh r' => ∃ r,
      requestOf a.mode a.options m.settings.inlineStart (Request.depthBelow parent) = .ok r ∧
      Loads m c r r'

theorem meets_prepare (a : Ask) (parent : Option Request) (ht : t < ps.length)
    (hinv : Inv m c base ps x) :
    Block.Meets (contract m c base order) t (prepare m.settings a parent) ps x fun prepared ps' x' =>
      Inv m c base ps' x' ∧ Ready m c a parent x' prepared := by
  rw [prepare]
  split
  · next e _ =>
    have hfail (b : Block K X Unit) (hb : KeepsContract m c base order t b fun _ => True) :
        KeepsContract m c base order t (b >>= fun _ => (Block.fail e : Block K X Prepared)) fun _ => False :=
      .bind hb fun _ _ => .fail
    dsimp only
    split
    · apply (hfail _ (.warn _ _ _) ps x ht hinv).weaken
      rintro _ _ _ _ ⟨_, ⟨⟩⟩
    · exact .fail hinv
  · next r hr =>
    have hmade := made_of_requestOf hr
    have hnoted : Inv m c base ps (x.note (.asked parent r)) :=
      hinv.note ⟨hmade.named, hmade.depth⟩ (.inl ⟨parent, r, rfl⟩)
    apply Block.Meets.change_bind (Adds.note x (by simp))
    apply Block.Meets.look
    split
    · next payload hhit =>
      split at hhit
      · next hcache =>
        apply Block.Meets.bind (meets_trace _ _ _ (fun _ ps' x' => Inv m c base ps' x' ∧
          (x'.memo r.mode).get? r.key = some payload) fun _ => ⟨hnoted.report _ _, hhit⟩)
        rintro _ ps' x' _ ⟨hinv', hhit'⟩
        apply Block.Meets.bind (meets_trace _ _ _ (fun _ ps' x' => Inv m c base ps' x' ∧
          (x'.memo r.mode).get? r.key = some payload) fun _ => ⟨hinv'.report _ _, hhit'⟩)
        rintro _ ps'' x'' _ ⟨hinv'', hhit''⟩
        exact .pure ⟨hinv'', r, hr, hcache, rfl, hhit''⟩
      · cases hhit
    · have hfresh (b : Block K X Request) (hb : KeepsContract m c base order t b (Loads m c r)) :
          KeepsContract m c base order t (b >>= fun r => do
            traceRequest r
            return Prepared.fresh r) fun prepared => ∃ r', prepared = .fresh r' ∧ Loads m c r r' := by
        apply KeepsContract.bind hb
        intro r' hr'
        apply KeepsContract.bind (.trace _ _ _)
        intro _ _
        exact .pure ⟨r', rfl, hr'⟩
      have hready : ∀ prepared ps' x', ps <+: ps' →
          (Inv m c base ps' x' ∧ ∃ r', prepared = Prepared.fresh r' ∧ Loads m c r r') →
          Inv m c base ps' x' ∧ Ready m c a parent x' prepared := by
        rintro _ ps' x' _ ⟨hinv', r', rfl, hloads⟩
        exact ⟨hinv', r, hr, hloads⟩
      dsimp only
      split
      · next hloc => exact (hfresh _ (.readSource hloc) ps _ ht hnoted).weaken hready
      · next hloc =>
        have hloads : Loads m c r r := by rw [Loads, if_neg hloc]
        exact (hfresh _ (.pure hloads) ps _ ht hnoted).weaken hready

theorem KeepsContract.lookUp (r : Request) : KeepsContract m c base order t (lookUp r) (Finds c r) := by
  rw [Hub.lookUp]
  apply KeepsContract.look
  intro ps x ht hinv
  cases hmode : r.mode with
  | transpile =>
    dsimp only
    split
    · next k hk => exact .pure ⟨hinv, x.world, x.root, x.registry, hinv.fits, by rw [compiler?, hmode, hk]⟩
    · exact KeepsContract.bind (.warn _ _ _) (fun _ _ => .fail) ps x ht hinv
  | interpret =>
    dsimp only
    split
    · next k hk => exact .pure ⟨hinv, x.world, x.root, x.registry, hinv.fits, by rw [compiler?, hmode, hk]⟩
    · exact KeepsContract.bind (.warn _ _ _) (fun _ _ => .fail) ps x ht hinv

theorem adds_apply (x : State K X) (e : Effect X) : Adds x (x.apply e) := by
  cases e <;> exact .of_eq rfl

theorem keeps_callRoutine {ask : Ask → Block K X Envelope} {answers : Ask → Envelope → Prop}
    {may : Ask → Prop} (hask : ∀ n a, may a → KeepsContract m c base order n (ask a) (answers a))
    (r : Request)
    {q : Option Envelope → Prop} (call : Call X) (hmay : call.AsksOnly may) (ht : t < ps.length)
    (hinv : Inv m c base ps x)
    (hq : ∀ v compilerOptions executerOptions,
      call.Yields (Sees m c) answers v compilerOptions executerOptions →
      q (some ⟨{ r with compilerOptions, executerOptions }, .value v⟩)) :
    (callRoutine m.settings ask r call).Keeps (contract m c base order) t q ps x := by
  induction call generalizing ps x with
  | answer v compilerOptions executerOptions =>
    refine ⟨hinv, ?_⟩
    rintro _ ⟨⟩
    exact hq _ _ _ ⟨rfl, rfl, rfl⟩
  | fail e => exact ⟨hinv, by rintro v ⟨⟩⟩
  | pause next ih =>
    refine ⟨hinv, ?_⟩
    intro ps' x' hps hinv'
    exact ih hmay (Nat.lt_of_lt_of_le ht hps.length_le) hinv' hq
  | observe next ih =>
    apply ih _ (hmay _) ht hinv
    intro v compilerOptions executerOptions hy
    exact hq _ _ _ ⟨_, ⟨rfl, x.registry, hinv.fits⟩, hy⟩
  | effect e next ih => exact ⟨adds_apply x e, ih hmay ht (hinv.apply e) hq⟩
  | ask a next ih =>
    apply hask t a hmay.1 ps x ht hinv
    rintro e ps' x' hps ⟨hinv', he⟩
    apply ih e (hmay.2 e) (Nat.lt_of_lt_of_le ht hps.length_le) hinv'
    intro v compilerOptions executerOptions hy
    exact hq _ _ _ ⟨e, he, hy⟩
  | join parts next ih =>
    obtain ⟨hparts, hnext⟩ := hmay
    apply Block.Meets.join (parts.map fun part result => part.Yields answers result)
      (fun results ps' x' => Inv m c base ps' x' ∧
        List.Forall₂ (Part.Yields answers) parts results) ht hinv
    · rw [List.forall₂_map_left_iff, List.forall₂_map_right_iff, List.forall₂_same]
      intro part hpart n ps' x' _ hn _ hinv'
      cases part with
      | ask a =>
        apply hask n a (hparts a hpart) ps' x' hn hinv'
        rintro e ps'' x'' _ ⟨hinv'', he⟩
        refine ⟨hinv'', ?_⟩
        rintro _ ⟨⟩
        exact ⟨e, rfl, he⟩
      | done =>
        refine ⟨hinv', ?_⟩
        rintro _ ⟨⟩
        rfl
      | failed e => exact ⟨hinv', by rintro v ⟨⟩⟩
    · intro results ps' x' _ hinv' hresults
      rw [List.forall₂_map_left_iff] at hresults
      exact ⟨hinv', hresults⟩
    · rintro results ps' x' hps ⟨hinv', hresults⟩
      apply ih results (hnext results) (Nat.lt_of_lt_of_le ht hps.length_le) hinv'
      intro v compilerOptions executerOptions hy
      exact hq _ _ _ ⟨results, hresults, hy⟩

theorem KeepsContract.ending {r : Except (Stop Failure) (Option Envelope)} {meets : Envelope → Prop}
    (h : ∀ e, r = .ok (some e) → meets e) : KeepsContract m c base order t (ending r) meets := by
  intro ps x _ hinv
  rw [Hub.ending.eq_def]
  split
  · next e => exact .pure ⟨hinv, h e rfl⟩
  · exact .stop hinv
  · exact .stop hinv

theorem KeepsContract.awaitNew {child : Routine K X} {q : Option Envelope → Prop} {f : Nat → Block K X Unit}
    {meets : Except (Stop Failure) (Option Envelope) → Prop}
    (hchild : ∀ n ps x, n < ps.length → Inv m c base ps x →
      child.Keeps (contract m c base order) n q ps x)
    (hf : ∀ u ps x, 0 < u → ps[u]? = some q → Inv m c base ps x →
      Block.Meets (contract m c base order) t (f u) ps x fun _ ps' x' => Inv m c base ps' x')
    (hmeets : ∀ r, (∀ v, r = .ok v → q v) → meets r) :
    KeepsContract m c base order t (do
      let u ← Block.spawn child
      f u
      Block.await u) meets := by
  intro ps x ht hinv
  have hspawn : Block.Meets (contract m c base order) t (Block.spawn child) ps x fun u ps' x' =>
      u = ps.length ∧ ps' = ps ++ [q] ∧ x' = x := by
    apply Block.Meets.spawn _ ⟨rfl, rfl, rfl⟩
    intro n ps' x' _ hn _ hinv'
    exact hchild n ps' x' hn hinv'
  apply hspawn.bind
  · rintro _ _ _ hps ⟨rfl, rfl, rfl⟩
    have hu : (ps ++ [q])[ps.length]? = some q := List.getElem?_concat_length
    apply Block.Meets.bind (hf _ _ _ (Nat.zero_lt_of_lt ht) hu (hinv.mono hps))
    intro _ ps' x' hps' hinv'
    have hu' : ps'[ps.length]? = some q := by
      obtain ⟨more, rfl⟩ := hps'
      rw [List.getElem?_append_left (List.getElem?_eq_some_iff.mp hu).1, hu]
    apply Block.Meets.await hinv' (List.getElem?_eq_some_iff.mp hu').1 (order.later ht)
    intro ps'' x'' r hps'' hinv'' hr
    refine ⟨hinv'', hmeets r ?_⟩
    intro v hv
    obtain ⟨q', hq', hfit⟩ := hr v hv
    obtain ⟨more, rfl⟩ := hps''
    rw [List.getElem?_append_left (List.getElem?_eq_some_iff.mp hu').1, hu'] at hq'
    obtain rfl := Option.some.inj hq'
    exact hfit

theorem KeepsContract.compute {ask : Ask → Block K X Envelope} {answers : Ask → Envelope → Prop}
    {may : Ask → Prop} (hask : ∀ n a, may a → KeepsContract m c base order n (ask a) (answers a)) (k : K)
    {r : Request} (hmay : (m.perform k r).AsksOnly may) (hdepth : r.depth ≤ m.settings.maxDepth) :
    KeepsContract m c base order t (compute m ask k r) (Computes m c answers k r) := by
  have hwait : KeepsContract m c base order t (do
      let u ← Block.spawn (.look fun _ => .change (·.note (.called r))
        (callRoutine m.settings ask r (m.perform k r)))
      Block.await u) fun result => ∀ o, result = .ok o → ∃ v compilerOptions executerOptions,
        (m.perform k r).Yields (Sees m c) answers v compilerOptions executerOptions ∧
        o = some ⟨{ r with compilerOptions, executerOptions }, .value v⟩ := by
    refine KeepsContract.awaitNew (f := fun _ => Pure.pure ())
      (q := fun o => ∃ v compilerOptions executerOptions,
      (m.perform k r).Yields (Sees m c) answers v compilerOptions executerOptions ∧
      o = some ⟨{ r with compilerOptions, executerOptions }, .value v⟩) ?_ ?_ ?_
    · intro n ps x hn hinv
      refine ⟨Adds.note x (by simp), ?_⟩
      have hnoted : Inv m c base ps (x.note (.called r)) := hinv.note hdepth (.inr ⟨r, rfl⟩)
      apply keeps_callRoutine hask r _ hmay hn hnoted
      intro v compilerOptions executerOptions hy
      exact ⟨v, compilerOptions, executerOptions, hy, rfl⟩
    · intro _ _ _ _ _ hinv
      exact .pure hinv
    · exact fun _ => id
  apply KeepsContract.bind (b := do
    let u ← Block.spawn _
    Block.await u) hwait
  intro result hresult
  have hending : KeepsContract m c base order t (Hub.ending result) fun e =>
      ∃ v compilerOptions executerOptions,
      (m.perform k r).Yields (Sees m c) answers v compilerOptions executerOptions ∧
      e = ⟨{ r with compilerOptions, executerOptions }, .value v⟩ := by
    apply KeepsContract.ending
    intro e he
    obtain ⟨v, compilerOptions, executerOptions, hy, heq⟩ := hresult _ he
    exact ⟨v, compilerOptions, executerOptions, hy, Option.some.inj heq⟩
  apply hending.bind
  rintro _ ⟨v, compilerOptions, executerOptions, hy, rfl⟩
  apply KeepsContract.bind .ofExcept
  intro p hp
  rw [mapError_eq_ok] at hp
  exact .pure ⟨v, compilerOptions, executerOptions, p, hy, hp, rfl⟩

theorem KeepsContract.share {work : Block K X Envelope} {r : Request} {meets : Envelope → Prop}
    (hwork : ∀ n, KeepsContract m c base order n work meets)
    (hkept : ∀ e, meets e → c.kept r.mode r.key e.payload) (hwaits : ∀ u, 0 < u → order.waits t u) :
    KeepsContract m c base order t (share work r) fun e =>
      meets e ∨ e.request = r ∧ c.kept r.mode r.key e.payload := by
  rw [Hub.share]
  apply KeepsContract.look
  intro ps x ht hinv
  split
  · next u hu =>
    obtain ⟨hpos, q, hq, hfits⟩ := hinv.inflight r.mode r.key u hu
    apply Block.Meets.bind (KeepsContract.trace _ _ _ ps x ht hinv)
    rintro _ ps' x' hps ⟨hinv', _⟩
    have hq' : ps'[u]? = some q := by
      obtain ⟨more, rfl⟩ := hps
      rw [List.getElem?_append_left (List.getElem?_eq_some_iff.mp hq).1, hq]
    have hfollow : Block.Meets (contract m c base order) t (Block.follow u) ps' x'
        fun (result : Except (Stop Failure) _) ps' x' => Inv m c base ps' x' ∧ t < ps'.length ∧
          ∀ o, result = .ok o → ∃ e, o = some e ∧ c.kept r.mode r.key e.payload := by
      apply Block.Meets.follow hinv' (List.getElem?_eq_some_iff.mp hq').1 (hwaits u hpos)
      intro ps'' x'' result hps' hinv'' hresult
      refine ⟨hinv'', Nat.lt_of_lt_of_le ht (hps.trans hps').length_le, ?_⟩
      intro o ho
      obtain ⟨q'', hq'', hfit⟩ := hresult o ho
      obtain ⟨more, rfl⟩ := hps'
      rw [List.getElem?_append_left (List.getElem?_eq_some_iff.mp hq').1, hq'] at hq''
      obtain rfl := Option.some.inj hq''
      exact hfits o hfit
    apply hfollow.bind
    rintro result ps'' x'' _ ⟨hinv'', ht'', hresult⟩
    have hending : KeepsContract m c base order t (Hub.ending result) fun e =>
        c.kept r.mode r.key e.payload := by
      apply KeepsContract.ending
      intro e he
      obtain ⟨_, heq, hkept⟩ := hresult _ he
      cases heq
      exact hkept
    apply hending.bind _ ps'' x'' ht'' hinv''
    intro e he
    exact .pure (.inr ⟨rfl, he⟩)
  · have hwait : KeepsContract m c base order t (do
        let u ← Block.spawn (work fun e => .finish (.ok (some e)))
        Block.change fun s => { s with inflight := s.inflight.set (r.mode, r.key) u }
        Block.await u) fun result => ∀ o, result = .ok o → ∃ e, o = some e ∧ meets e := by
      apply KeepsContract.awaitNew (q := fun o => ∃ e, o = some e ∧ meets e)
      · intro n ps x hn hinv
        apply hwork n ps x hn hinv
        rintro e ps' x' _ ⟨hinv', he⟩
        refine ⟨hinv', ?_⟩
        rintro _ ⟨⟩
        exact ⟨e, rfl, he⟩
      · intro u ps x hpos hu hinv
        refine Block.Meets.change (Adds.of_eq rfl) (hinv.setInflight ⟨hpos, _, hu, ?_⟩)
        rintro _ ⟨e, rfl, he⟩
        exact ⟨e, rfl, hkept e he⟩
      · exact fun _ => id
    refine KeepsContract.bind hwait ?_ ps x ht hinv
    intro result hresult
    refine KeepsContract.bind (KeepsContract.change (fun _ => .of_eq rfl) fun _ _ h => ?_) ?_
    · exact h.eraseInflight _ _
    intro _ _
    apply KeepsContract.ending
    intro e he
    obtain ⟨_, heq, hmeets⟩ := hresult _ he
    cases heq
    exact .inl hmeets

section Request

variable {e : Envelope}

theorem meets_keep (hinv : Inv m c base ps x) (hnamed : e.request.Named)
    (hgood : c.good e.request.mode e.payload)
    (hkept : e.request.allowCache → c.kept e.request.mode e.request.key e.payload) :
    Block.Meets (contract m c base order) t (keep e) ps x fun _ ps' x' =>
      Inv m c base ps' (x'.note (.finished e)) := by
  apply Block.Meets.look
  split
  · next hset =>
    simp only [Bool.and_eq_true, Bool.not_eq_true'] at hset
    obtain ⟨hcache, hnew⟩ := hset
    apply Block.Meets.bind (meets_trace _ _ _ (fun _ ps' x' => Inv m c base ps' x' ∧
      (x'.memo e.request.mode).has e.request.key = false) fun _ => ⟨hinv.report _ _, hnew⟩)
    rintro _ ps' x' _ ⟨hinv', hnew'⟩
    exact .change (.of_eq (history_setMemo x' _ _)) (hinv'.keep hnamed (hkept hcache) hcache hnew')
  · next hset =>
    apply Block.Meets.pure
    apply hinv.finished hnamed hgood
    intro hcache
    simpa [hcache] using hset

variable {ask : Ask → Block K X Envelope} {answers : Ask → Envelope → Prop} {may : Ask → Prop}
variable {r : Request}

theorem Computes.like {k : K} (h : Computes m c answers k r e) :
    e.request.mode = r.mode ∧ e.request.key = r.key ∧ e.request.allowCache = r.allowCache ∧
      e.payload.Suits r.mode := by
  obtain ⟨_, _, _, _, _, hp, rfl⟩ := h
  exact ⟨rfl, rfl, rfl, Payload.suits_of_ofValue hp⟩

theorem Computes.named {k : K} (h : Computes m c answers k r e) (hnamed : r.Named) :
    e.request.Named := by
  obtain ⟨_, _, _, _, _, _, rfl⟩ := h
  exact ⟨hnamed.input, hnamed.output⟩

theorem meets_dispatch (ht : t < ps.length) (hinv : Inv m c base ps x) (hnamed : r.Named)
    (hdepth : r.depth ≤ m.settings.maxDepth) (hmay : ∀ k, (m.perform k r).AsksOnly may)
    (hask : ∀ n a, may a → KeepsContract m c base order n (ask a) (answers a))
    (hkept : ∀ k e, Finds c r k → Computes m c answers k r e → r.allowCache →
      c.kept r.mode r.key e.payload)
    (hwaits : r.allowCache → ∀ u, 0 < u → order.waits t u) :
    Block.Meets (contract m c base order) t (dispatch m ask r) ps x fun e ps' x' =>
      Inv m c base ps' (x'.note (.finished e)) ∧
      ((∃ k, Finds c r k ∧ Computes m c answers k r e) ∨
        r.allowCache ∧ e.request = r ∧ c.kept r.mode r.key e.payload) := by
  apply Block.Meets.bind (KeepsContract.lookUp r ps x ht hinv)
  rintro k ps' x' hps ⟨hinv', hk⟩
  have ht' := Nat.lt_of_lt_of_le ht hps.length_le
  have hwork (n : Nat) : KeepsContract m c base order n (compute m ask k r) (Computes m c answers k r) :=
    .compute hask k (hmay k) hdepth
  have hrest (b : Block K X Envelope) (hb : KeepsContract m c base order t b fun e =>
      Computes m c answers k r e ∨ r.allowCache ∧ e.request = r ∧ c.kept r.mode r.key e.payload) :
      Block.Meets (contract m c base order) t (b >>= fun e => do
        keep e
        return e) ps' x' fun e ps' x' => Inv m c base ps' (x'.note (.finished e)) ∧
          ((∃ k, Finds c r k ∧ Computes m c answers k r e) ∨
            r.allowCache ∧ e.request = r ∧ c.kept r.mode r.key e.payload) := by
    apply Block.Meets.bind (hb ps' x' ht' hinv')
    rintro e ps'' x'' _ ⟨hinv'', he⟩
    have hkeep : Block.Meets (contract m c base order) t (keep e) ps'' x'' fun _ ps' x' =>
        Inv m c base ps' (x'.note (.finished e)) := by
      rcases he with he | ⟨_, heq, hkeep⟩
      · obtain ⟨hmode, hkey, hcache, hsuits⟩ := he.like
        apply meets_keep hinv'' (he.named hnamed)
        · rw [hmode]
          exact c.good_of_suits hsuits
        · rw [hmode, hkey, hcache]
          exact hkept k e hk he
      · apply meets_keep hinv''
        · rw [heq]
          exact hnamed
        · rw [heq]
          exact c.good_of_kept hkeep
        · intro _
          rw [heq]
          exact hkeep
    apply Block.Meets.bind hkeep
    intro _ _ _ _ hnoted
    exact .pure ⟨hnoted, he.imp_left fun he => ⟨k, hk, he⟩⟩
  dsimp only
  split
  · next hshare =>
    have hcache : r.allowCache := (Bool.and_eq_true_iff.mp hshare).2
    apply hrest
    apply (KeepsContract.share hwork (fun e he => hkept k e hk he hcache) (hwaits hcache)).weaken
    rintro e (he | he)
    · exact .inl he
    · exact .inr ⟨hcache, he⟩
  · exact hrest _ ((hwork t).weaken fun _ => .inl)

theorem Loads.exists_source {r r' : Request} (h : Loads m c r r') :
    ∃ source, r' = { r with source } := by
  rw [Loads] at h
  split at h
  · obtain ⟨_, _, _, _, _, _, _, _, _, _, _, _, rfl⟩ := h
    exact ⟨_, rfl⟩
  · exact ⟨r.source, h⟩

theorem meets_finish (e : Envelope) (hinv : Inv m c base ps (x.note (.finished e)))
    {meets : Envelope → Prop} (he : meets e) :
    Block.Meets (contract m c base order) t (request.finish e) ps x fun e' ps' x' =>
      Inv m c base ps' x' ∧ meets e' := by
  apply Block.Meets.change_bind (Adds.note x (by simp))
  exact .pure ⟨hinv, he⟩

theorem Ready.recalls {a : Ask} {parent : Option Request} (h : Ready m c a parent x (.hit e))
    (hinv : Inv m c base ps x) :
    Recalls m c parent a e ∧ Inv m c base ps (x.note (.finished e)) := by
  obtain ⟨r, hr, hcache, heq, hhit⟩ := h
  have hkept := hinv.kept _ _ _ hhit
  have hmade := made_of_requestOf hr
  refine ⟨⟨r, hr, hcache, hkept, .inl heq⟩, ?_⟩
  apply hinv.finished
  · rw [heq]
    exact ⟨hmade.named.input, hmade.named.output⟩
  · rw [heq]
    exact c.good_of_kept hkept
  · intro _
    rw [heq, Table.has]
    exact Option.isSome_of_eq_some hhit

/--
Requests that share nothing with others: none of them may be kept.
-/
def Uncached (a : Ask) : Prop :=
  ∀ start depth r, requestOf a.mode a.options start depth = .ok r → r.allowCache = false

/--
A task may share a request with others: it may wait for all tasks but the first, and what the request
comes to may be kept.
-/
def Shares (m : Machine K X) (c : Scene K) (order : Order) (t left : Nat) (parent : Option Request)
    (a : Ask) : Prop :=
  (∀ u, 0 < u → order.waits t u) ∧
    ∀ below e, left = below + 1 → Works m c (fun r => Served m c below (some r)) parent a e →
      e.request.allowCache → c.kept e.request.mode e.request.key e.payload

/--
A request keeps the contract and gets only what it may have, if it and all that may be asked for below
it share what they come to only where they may.
-/
theorem KeepsContract.request
    (hmay : ∀ k r, (m.perform k r).AsksOnly fun a =>
      Uncached a ∨ ∀ t left, Shares m c order t left (some r) a)
    {left : Nat} {parent : Option Request} {a : Ask}
    (hlevel : Request.depthBelow parent + left = levels m.settings)
    (hshares : Uncached a ∨ Shares m c order t left parent a) :
    KeepsContract m c base order t (request m left parent a) (Served m c left parent a) := by
  induction left generalizing t parent a with
  | zero =>
    intro ps x ht hinv
    rw [Hub.request]
    apply Block.Meets.bind (meets_prepare a parent ht hinv)
    rintro prepared ps' x' _ ⟨hinv', hready⟩
    cases prepared with
    | hit e =>
      obtain ⟨hrecalls, hnoted⟩ := hready.recalls hinv'
      exact meets_finish e hnoted hrecalls
    | fresh r => exact .fail hinv'
  | succ left ih =>
    intro ps x ht hinv
    rw [Hub.request]
    apply Block.Meets.bind (meets_prepare a parent ht hinv)
    rintro prepared ps' x' hps ⟨hinv', hready⟩
    have ht' := Nat.lt_of_lt_of_le ht hps.length_le
    cases prepared with
    | hit e =>
      obtain ⟨hrecalls, hnoted⟩ := hready.recalls hinv'
      exact meets_finish e hnoted (.inl hrecalls)
    | fresh r =>
      obtain ⟨r₀, hr₀, hloads⟩ := hready
      have hmade := made_of_requestOf hr₀
      obtain ⟨source, heq⟩ := hloads.exists_source
      have hnamed : r.Named := by
        rw [heq]
        exact ⟨hmade.named.input, hmade.named.output⟩
      have hdepth : r.depth = Request.depthBelow parent := by
        rw [heq]
        exact hmade.depth
      have hcache : r.allowCache = r₀.allowCache := by rw [heq]
      have hworks {k : K} {e : Envelope} (hk : Finds c r k)
          (he : Computes m c (Served m c left (some r)) k r e) :
          Works m c (fun r => Served m c left (some r)) parent a e :=
        ⟨r₀, r, k, hr₀, hloads, hk, he⟩
      have hmay' (k : K) : (m.perform k r).AsksOnly fun a =>
          Uncached a ∨ ∀ t left, Shares m c order t left (some r) a := hmay k r
      have hask (n : Nat) (a : Ask)
          (ha : Uncached a ∨ ∀ t left, Shares m c order t left (some r) a) :
          KeepsContract m c base order n (request m left (some r) a) (Served m c left (some r) a) := by
        apply ih
        · rw [Request.depthBelow, hdepth]
          omega
        · exact ha.imp_right fun h => h n left
      apply Block.Meets.bind (meets_dispatch ht' hinv' hnamed ?_ hmay' hask ?_ ?_)
      · rintro e ps'' x'' _ ⟨hnoted, he⟩
        apply meets_finish e hnoted
        rcases he with ⟨k, hk, he⟩ | ⟨hallow, he, hkept⟩
        · exact .inr (hworks hk he)
        · refine .inl ⟨r₀, hr₀, hcache ▸ hallow, ?_, .inr (he ▸ hloads)⟩
          have hkey : r.key = r₀.key := by
            rw [heq]
            rfl
          have hmode : r.mode = r₀.mode := by rw [heq]
          rwa [hkey, hmode] at hkept
      · rw [hdepth]
        rw [levels] at hlevel
        omega
      · intro k e hk he hallow
        obtain ⟨hmode, hkey, hcache', _⟩ := he.like
        rcases hshares with huncached | ⟨_, hkept⟩
        · rw [hcache, huncached _ _ r₀ hr₀] at hallow
          cases hallow
        · have := hkept left e rfl (hworks hk he) (hcache' ▸ hallow)
          rwa [hmode, hkey] at this
      · intro hallow
        rcases hshares with huncached | ⟨hwaits, _⟩
        · rw [hcache, huncached _ _ r₀ hr₀] at hallow
          cases hallow
        · exact hwaits

end Request

end Polyglot.Hub
