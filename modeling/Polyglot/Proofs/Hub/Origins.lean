import Polyglot.Proofs.Hub.Entries

/-!
Where the results of a hub come from: each was handed back by a compiler that has been called for a
request with the same key.
-/

namespace Polyglot

def Request.Like (r r' : Request) : Prop :=
  ∃ compilerOptions executerOptions, r' = { r with compilerOptions, executerOptions }

/--
A request has languages with names, and an inline text has the location that its digest spells.
-/
structure Request.Sound (start : String) (r : Request) : Prop where
  named : r.Named
  placed : r.fromLocation = false →
    ∃ source, r.source = some source ∧ r.location = inlineLocation start source

/--
A request may get what another one comes to. What is not kept is not shared either.
-/
structure Request.Serves (r₀ r : Request) : Prop where
  mode : r₀.mode = r.mode
  key : r₀.key = r.key
  allowCache : r₀.allowCache = r.allowCache
  fromLocation : r.allowCache = false → r₀.fromLocation = r.fromLocation

namespace Request

variable {r r' : Request} {start : String}

theorem Like.serves (h : r.Like r') : r.Serves r' := by
  obtain ⟨_, _, rfl⟩ := h
  exact ⟨rfl, rfl, rfl, fun _ => rfl⟩

theorem Like.fromLocation (h : r.Like r') : r'.fromLocation = r.fromLocation := by
  obtain ⟨_, _, rfl⟩ := h
  rfl

theorem Like.sound (h : r.Like r') (hr : r.Sound start) : r'.Sound start := by
  obtain ⟨_, _, rfl⟩ := h
  exact ⟨⟨hr.named.input, hr.named.output⟩, hr.placed⟩

theorem serves_of_shared (hmode : r.mode = r'.mode) (hkey : r.key = r'.key) (hr : r.allowCache)
    (hr' : r'.allowCache) : r.Serves r' where
  mode := hmode
  key := hkey
  allowCache := hr.trans hr'.symm
  fromLocation := by
    rw [hr']
    rintro ⟨⟩

end Request

namespace Hub

open Loop

variable {K X : Type}

theorem sound_of_requestOf {mode : Mode} {options : Value} {start : String} {depth : Nat}
    {r : Request} (h : requestOf mode options start depth = .ok r) : r.Sound start := by
  refine ⟨(made_of_requestOf h).named, ?_⟩
  intro hloc
  rw [requestOf.eq_def] at h
  split at h
  · obtain ⟨w, _, hw⟩ := bind_eq_ok.mp h
    obtain ⟨source, -, rfl⟩ | ⟨location, lang, -, -, rfl⟩ := Wish.request_cases hw
    · exact ⟨source, rfl, rfl⟩
    · cases hloc
  · cases h

def Since (old x : State K X) (event : Event) : Prop :=
  ∃ new, x.history = new ++ old.history ∧ event ∈ new

section Since

variable {old x x' : State K X} {event event' : Event}

theorem Since.of_eq (h : Since old x event) (hhistory : x'.history = x.history) :
    Since old x' event := by
  obtain ⟨new, heq, hmem⟩ := h
  exact ⟨new, hhistory.trans heq, hmem⟩

theorem Since.note (h : Since old x event) : Since old (x.note event') event := by
  obtain ⟨new, heq, hmem⟩ := h
  exact ⟨event' :: new, congrArg (event' :: ·) heq, List.mem_cons_of_mem _ hmem⟩

theorem since_note (h : old.history <:+ x.history) : Since old (x.note event) event := by
  obtain ⟨new, heq⟩ := h
  exact ⟨event :: new, congrArg (event :: ·) heq.symm, List.mem_cons_self⟩

theorem Since.of_note (h : Since old (x.note event') event) (hx : old.history <:+ x.history) :
    event = event' ∨ Since old x event := by
  obtain ⟨new', heq', hmem⟩ := h
  obtain ⟨new, heq⟩ := hx
  have hnew : event' :: new = new' := by
    apply (List.append_left_inj old.history).mp
    rw [List.cons_append, heq]
    exact heq'
  rw [← hnew] at hmem
  rcases List.mem_cons.mp hmem with rfl | hmem
  · exact .inl rfl
  · exact .inr ⟨new, heq.symm, hmem⟩

end Since

def Hands (m : Machine K X) (r : Request) (v : Value) (compilerOptions executerOptions : Fields) :
    Prop :=
  ∃ k, (m.perform k r).Yields (fun view => view.hub = some m.settings) (fun _ _ => True) v
    compilerOptions executerOptions

def Stems (m : Machine K X) (old x : State K X) (r : Request) (p : Payload) : Prop :=
  Since old x (.called r) ∧ r.Sound m.settings.inlineStart ∧
    ∃ v compilerOptions executerOptions, Hands m r v compilerOptions executerOptions ∧
      Payload.ofValue r.mode v = .ok p

def Handed (m : Machine K X) (r : Request) (o : Option Envelope) : Prop :=
  ∃ v compilerOptions executerOptions, o = some ⟨{ r with compilerOptions, executerOptions }, .value v⟩ ∧
    Hands m r v compilerOptions executerOptions

def Worked (m : Machine K X) (old x : State K X) (r : Request) (o : Option Envelope) : Prop :=
  ∃ e, o = some e ∧ r.Like e.request ∧ Stems m old x r e.payload

def Allows (m : Machine K X) (old x : State K X) : Role → Option Envelope → Prop
  | .outside, o => ∃ e, o = some e ∧ Since old x (.finished e)
  | .work r, o => Worked m old x r o
  | .call r, o => Since old x (.called r) ∧ Handed m r o
  | .part p, o => p.Yields (fun _ _ => True) o

/--
The results of a hub stem from calls since an older state, or were kept then.
-/
structure Origins (m : Machine K X) (old : State K X) (l : Book) (x : State K X) : Prop where
  history : old.history <:+ x.history
  called : ∀ u g r p, l.wards[u]? = some ⟨g, .call r⟩ → l.stage u = .pending p → p ≠ .start →
    Since old x (.called r)
  handed : ∀ u g r o, l.wards[u]? = some ⟨g, .call r⟩ → l.stage u = .ended (.ok o) →
    Since old x (.called r) ∧ Handed m r o
  worked : ∀ u g r o, l.wards[u]? = some ⟨g, .work r⟩ → l.stage u = .ended (.ok o) →
    Worked m old x r o
  parted : ∀ u g p o, l.wards[u]? = some ⟨g, .part p⟩ → l.stage u = .ended (.ok o) →
    p.Yields (fun _ _ => True) o
  answered : ∀ (u : Nat) (g : Option Nat) (o : Option Envelope), l.wards[u]? = some ⟨g, .outside⟩ →
    l.stage u = .ended (.ok o) → ∃ e, o = some e ∧ Since old x (.finished e)
  memo : ∀ mode key p, (x.memo mode).get? key = some p →
    (old.memo mode).get? key = some p ∨
      ∃ r, Stems m old x r p ∧ r.mode = mode ∧ r.key = key ∧ r.allowCache
  finished : ∀ e, Since old x (.finished e) → e.request.Sound m.settings.inlineStart ∧
    (e.request.allowCache ∧ (old.memo e.request.mode).get? e.request.key = some e.payload ∨
      ∃ r, Stems m old x r e.payload ∧ r.Serves e.request)

section Origins

variable {m : Machine K X} {old : State K X} {l : Book} {x x' : State K X} {t : Nat}
variable {event : Event} {r : Request} {p : Payload} {o : Option Envelope}

theorem Stems.mono (h : Stems m old x r p)
    (hsince : ∀ event, Since old x event → Since old x' event) : Stems m old x' r p :=
  ⟨hsince _ h.1, h.2⟩

theorem Worked.mono (h : Worked m old x r o)
    (hsince : ∀ event, Since old x event → Since old x' event) : Worked m old x' r o := by
  obtain ⟨e, rfl, hlike, hstems⟩ := h
  exact ⟨e, rfl, hlike, hstems.mono hsince⟩

namespace Origins

theorem mono (h : Origins m old l x) (hhistory : old.history <:+ x'.history)
    (hsince : ∀ event, Since old x event → Since old x' event)
    (hmemo : ∀ mode key p, (x'.memo mode).get? key = some p →
      (x.memo mode).get? key = some p ∨
        ∃ r, Stems m old x' r p ∧ r.mode = mode ∧ r.key = key ∧ r.allowCache)
    (hfinished : ∀ e, Since old x' (.finished e) → Since old x (.finished e) ∨
      e.request.Sound m.settings.inlineStart ∧
        (e.request.allowCache ∧ (old.memo e.request.mode).get? e.request.key = some e.payload ∨
          ∃ r, Stems m old x' r e.payload ∧ r.Serves e.request)) : Origins m old l x' where
  history := hhistory
  called := fun u g r p hu hp hne => hsince _ (h.called u g r p hu hp hne)
  handed := fun u g r o hu ho => (h.handed u g r o hu ho).imp_left (hsince _)
  worked := fun u g r o hu ho => (h.worked u g r o hu ho).mono hsince
  parted := h.parted
  answered := by
    intro u g o hu ho
    obtain ⟨e, rfl, he⟩ := h.answered u g o hu ho
    exact ⟨e, rfl, hsince _ he⟩
  memo := by
    intro mode key p hp
    rcases hmemo mode key p hp with hp | hnew
    · rcases h.memo mode key p hp with hold | ⟨r, hstems, hr⟩
      · exact .inl hold
      · exact .inr ⟨r, hstems.mono hsince, hr⟩
    · exact .inr hnew
  finished := by
    intro e he
    rcases hfinished e he with he | hnew
    · obtain ⟨hsound, hold | ⟨r, hstems, hserves⟩⟩ := h.finished e he
      · exact ⟨hsound, .inl hold⟩
      · exact ⟨hsound, .inr ⟨r, hstems.mono hsince, hserves⟩⟩
    · exact hnew

theorem frame (h : Origins m old l x) (hmemo : ∀ mode, x'.memo mode = x.memo mode)
    (hhistory : x'.history = x.history) : Origins m old l x' := by
  apply h.mono (hhistory ▸ h.history) (fun _ hevent => hevent.of_eq hhistory)
  · intro mode key p hp
    rw [hmemo] at hp
    exact .inl hp
  · exact fun e he => .inl (he.of_eq hhistory.symm)

theorem note (h : Origins m old l x) (hevent : ∀ e, event ≠ .finished e) :
    Origins m old l (x.note event) := by
  apply h.mono (h.history.trans (List.suffix_cons _ _)) fun _ => Since.note
  · intro mode key p hp
    rw [memo_note] at hp
    exact .inl hp
  · intro e he
    rcases he.of_note h.history with heq | he
    · exact absurd heq.symm (hevent e)
    · exact .inl he

theorem finish (h : Origins m old l x) {e : Envelope} (hsound : e.request.Sound m.settings.inlineStart)
    (he : e.request.allowCache ∧ (old.memo e.request.mode).get? e.request.key = some e.payload ∨
      ∃ r, Stems m old x r e.payload ∧ r.Serves e.request) :
    Origins m old l (x.note (.finished e)) := by
  apply h.mono (h.history.trans (List.suffix_cons _ _)) fun _ => Since.note
  · intro mode key p hp
    rw [memo_note] at hp
    exact .inl hp
  · intro e' he'
    rcases he'.of_note h.history with heq | he'
    · cases heq
      refine .inr ⟨hsound, he.imp_right ?_⟩
      rintro ⟨r, hstems, hserves⟩
      exact ⟨r, hstems.mono fun _ => Since.note, hserves⟩
    · exact .inl he'

theorem setMemo (h : Origins m old l x) {mode : Mode} {key : String} (hstems : Stems m old x r p)
    (hmode : r.mode = mode) (hkey : r.key = key) (hcache : r.allowCache) :
    Origins m old l (x.setMemo mode ((x.memo mode).set key p)) := by
  have hhistory := history_setMemo x mode ((x.memo mode).set key p)
  have hsince (event : Event) (hevent : Since old x event) :
      Since old (x.setMemo mode ((x.memo mode).set key p)) event := hevent.of_eq hhistory
  apply h.mono (hhistory ▸ h.history) hsince
  · intro mode' key' p' hp'
    rw [memo_setMemo] at hp'
    split at hp'
    · next heq =>
      subst heq
      rw [Table.get?_set] at hp'
      split at hp'
      · next heq =>
        cases hp'
        exact .inr ⟨r, hstems.mono hsince, hmode, hkey.trans heq.symm, hcache⟩
      · exact .inl hp'
    · exact .inl hp'
  · exact fun e he => .inl (he.of_eq hhistory.symm)

theorem clear (h : Origins m old l x) (mode : Mode) : Origins m old l (x.clearMemo mode) := by
  have hset : Origins m old l (x.setMemo mode {}) := by
    have hhistory := history_setMemo x mode {}
    apply h.mono (hhistory ▸ h.history) fun event hevent => hevent.of_eq hhistory
    · intro mode' key p hp
      rw [memo_setMemo] at hp
      split at hp
      · cases hp
      · exact .inl hp
    · exact fun e he => .inl (he.of_eq hhistory.symm)
  have hnoted : Origins m old l ((x.setMemo mode {}).note (.cleared mode)) := hset.note (by simp)
  exact hnoted.frame (memo_eq rfl rfl) rfl

theorem reach (h : Origins m old l x) {stage : Stage Point Failure (Option Envelope)}
    (hcalled : ∀ g r p, l.wards[t]? = some ⟨g, .call r⟩ → stage = .pending p → p ≠ .start →
      Since old x (.called r))
    (hok : ∀ o, stage = .ended (.ok o) → ∃ w, l.wards[t]? = some w ∧ Allows m old x w.role o) :
    Origins m old (l.reach t stage) x := by
  have hallowed {u : Nat} {w : Ward Role} {o : Option Envelope} (hu : l.wards[u]? = some w)
      (ho : (l.reach t stage).stage u = .ended (.ok o))
      (hold : l.stage u = .ended (.ok o) → Allows m old x w.role o) : Allows m old x w.role o := by
    rcases (Ledger.stage_reach_eq_iff _ _ _ _).mp ho with ⟨rfl, hstage⟩ | ⟨_, ho⟩
    · obtain ⟨w', hw, hallows⟩ := hok o hstage
      obtain rfl := Option.some.inj (hw.symm.trans hu)
      exact hallows
    · exact hold ho
  refine ⟨h.history, ?_, ?_, ?_, ?_, ?_, h.memo, h.finished⟩
  · intro u g r p hu hp
    rcases (Ledger.stage_reach_eq_iff _ _ _ _).mp hp with ⟨rfl, hstage⟩ | ⟨_, hp⟩
    · exact hcalled g r p hu hstage
    · exact h.called u g r p hu hp
  · exact fun u g r o hu ho => hallowed hu ho (h.handed u g r o hu)
  · exact fun u g r o hu ho => hallowed hu ho (h.worked u g r o hu)
  · exact fun u g p o hu ho => hallowed hu ho (h.parted u g p o hu)
  · exact fun u g o hu ho => hallowed hu ho (h.answered u g o hu)

theorem start (h : Origins m old l x) (w : Ward Role) : Origins m old (l.start w .start) x := by
  refine ⟨h.history, ?_, ?_, ?_, ?_, ?_, h.memo, h.finished⟩
  · intro u g r p hu hp hne
    obtain ⟨hold, hp⟩ := Ledger.of_stage_start hp fun heq => hne (Stage.pending.inj heq).symm
    exact h.called u g r p (ward_of_concat_of_ne hu hold) hp hne
  · intro u g r o hu ho
    obtain ⟨hold, ho⟩ := Ledger.of_stage_start ho (by simp)
    exact h.handed u g r o (ward_of_concat_of_ne hu hold) ho
  · intro u g r o hu ho
    obtain ⟨hold, ho⟩ := Ledger.of_stage_start ho (by simp)
    exact h.worked u g r o (ward_of_concat_of_ne hu hold) ho
  · intro u g p o hu ho
    obtain ⟨hold, ho⟩ := Ledger.of_stage_start ho (by simp)
    exact h.parted u g p o (ward_of_concat_of_ne hu hold) ho
  · intro u g o hu ho
    obtain ⟨hold, ho⟩ := Ledger.of_stage_start ho (by simp)
    exact h.answered u g o (ward_of_concat_of_ne hu hold) ho

theorem cutOff (h : Origins m old l x) (us : List Nat) : Origins m old (l.cutOff us) x :=
  ⟨h.history, h.called, h.handed, h.worked, h.parted, h.answered, h.memo, h.finished⟩

end Origins

end Origins

end Hub

end Polyglot
