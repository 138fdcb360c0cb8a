import Polyglot.Proofs.Component.Assembly
import Polyglot.Proofs.Hub.Depth
import Polyglot.Proofs.Hub.Errand

/-!
What a request leaves in the memo tables: nothing, or its own result when it has ended. All that is asked
for on its behalf, at whatever depth and in whichever mode, leaves both tables alone.
-/

namespace Polyglot.Hub

open Loop

variable {K X : Type}

/--
The results that are kept are the same.
-/
def SameMemos (x x' : State K X) : Prop := ∀ mode, x'.memo mode = x.memo mode

def ResultFor (m : Machine K X) (a : Ask) (e : Envelope) : Prop :=
  ∃ r, requestOf a.mode a.options m.settings.inlineStart 0 = .ok r ∧ e.request.mode = r.mode ∧
    e.request.key = r.key ∧ e.request.allowCache = r.allowCache

/--
A request that may be kept has ended with a result, and all that is new in the memo tables is this
result under its key, where there was none before.
-/
def Entered (m : Machine K X) (a : Ask) (o : Outcome) (x x' : State K X) : Prop :=
  ∃ r e, requestOf a.mode a.options m.settings.inlineStart 0 = .ok r ∧ r.allowCache ∧
    o = .ok (some e) ∧ (x.memo a.mode).get? r.key = none ∧
      ∀ mode, x'.memo mode = if mode = a.mode then (x.memo mode).set r.key e.payload else x.memo mode

def footprint (m : Machine K X) (a : Ask) (old : State K X) : Account K X where
  sees _ := True
  moves := SameMemos
  right r := r.allowCache = false
  report _ _ _ _ _ := ⟨trivial, memo_eq rfl rfl⟩
  keep _ hright hcache := absurd hcache (by rw [hright]; simp)
  like _ _ _ _ := id
  tells
    | .going, x => SameMemos old x
    | .called o, x => SameMemos old x ∧ ∀ e, o = .ok (some e) → ResultFor m a e
    | .closed o, x => SameMemos old x ∨ Entered m a o old x
  stable := by
    intro p x x' hmoves
    cases p with
    | going => exact fun h mode => (hmoves mode).trans (h mode)
    | called o => exact And.imp_left fun h mode => (hmoves mode).trans (h mode)
    | closed o =>
      refine Or.imp (fun h mode => (hmoves mode).trans (h mode)) ?_
      rintro ⟨r, e, hr, hcache, ho, hnone, h⟩
      exact ⟨r, e, hr, hcache, ho, hnone, fun mode => (hmoves mode).trans (h mode)⟩

variable {m : Machine K X} {a : Ask} {old x : State K X} {r : Request} {k : K} {e : Envelope}

theorem memo_apply (x : State K X) (effect : Effect X) : SameMemos x (x.apply effect) := by
  intro mode
  cases effect <;> exact memo_eq rfl rfl mode

theorem Shallow.heeds (hm : Shallow m) {tail : Call.Tail X}
    (hends : ∀ o, (m.perform k r).May o → tail.ends o) :
    (m.perform k r).Heeds (footprint m a old).toHabit m.settings tail := by
  apply (hm.uncached k r).heeds _ _ hends
  · exact fun a ha depth r hr => ha _ depth r hr
  · exact fun effect x _ => ⟨trivial, memo_apply x effect⟩

theorem resultFor_of_handed
    (hready : outset m old a = .ok (.fresh r))
    {c : Except (Stop Failure) (Value × Fields × Fields)} (he : handed r c = .ok (some e)) :
    ResultFor m a e := by
  obtain ⟨r₀, source, hr₀, rfl, _⟩ := fresh_of_ready hready
  obtain ⟨_, _, heq⟩ := map_eq_ok.mp he
  cases heq
  exact ⟨r₀, hr₀, rfl, rfl, rfl⟩

theorem entered_of_keep (he : ResultFor m a e) (hx : SameMemos old x) :
    SameMemos old (x.keep e) ∨ Entered m a (.ok (some e)) old (x.keep e) := by
  obtain ⟨r, hr, hmode, hkey, hcache⟩ := he
  have hmade : r.mode = a.mode := (made_of_requestOf hr).mode
  rw [State.keep, hmode, hmade, hkey, hcache, hx]
  split
  · next hkeeps =>
    obtain ⟨hallow, hhas⟩ := Bool.and_eq_true_iff.mp hkeeps
    refine .inr ⟨r, e, hr, hallow, rfl, by simpa [Table.has] using hhas, fun mode => ?_⟩
    rw [memo_setMemo]
    by_cases h : a.mode = mode
    · rw [if_pos h, if_pos h.symm, h]
    · rw [if_neg h, if_neg (Ne.symm h), hx]
  · exact .inl hx

theorem footprint_covers (hm : Shallow m) (hold : old.inflight = {}) :
    (footprint m a old).Covers m old a where
  idle := hold
  sees := trivial
  going _ := rfl
  binds _ _ _ := hm.heeds fun _ _ => trivial
  heeds r k hready _ := hm.heeds fun c _ _ _ hx => ⟨hx, fun _ he => resultFor_of_handed hready he⟩
  cancelled _ _ hx := ⟨hx, by rintro _ ⟨⟩⟩
  fails := .inl
  hits _ := .inl
  refuses _ h := .inl h.1
  returns := by
    rintro o e x hreceived _ ⟨hx, hanswers⟩
    obtain ⟨e', rfl, heq⟩ := request_of_received hreceived
    have he : ResultFor m a e := by
      rw [ResultFor, heq]
      exact hanswers e' rfl
    exact ⟨trivial, entered_of_keep he hx⟩

/--
As long as a request to a hub at rest goes on, and when it has ended, in whichever way and whatever the
order of ticks: both memo tables are as they were, or the request may be kept and has ended with a
result, which is all that is new in the table of its mode, under its key. The table of the other mode is
as it was.
-/
theorem memos_of_fires (hm : Shallow m) (hold : old.inflight = {}) {s : Loop K X}
    (hs : Relation.ReflTransGen Schedule.Fires (Schedule.start old [requestRoutine m a]) s) :
    SameMemos old s.shared ∨ ∃ o, s.outcome? 0 = some o ∧ Entered m a o old s.shared := by
  obtain ⟨hclosed, hopen⟩ := (footprint_covers (a := a) hm hold).told hs
  cases ho : s.outcome? 0 with
  | some o => exact (hclosed o ho).imp id fun h => ⟨o, rfl, h⟩
  | none =>
    rcases hopen ho with hgoing | ⟨o, hcalled⟩
    · exact .inl hgoing
    · exact .inl hcalled.1

def folio : Machine Bool Unit where
  perform component r :=
    if component then Builtin.componentToHtml.perform r else Builtin.passthrough.perform r

def folioStart : State Bool Unit where
  registry := (({} : Registry Bool).setTranspiler "vue" "html" true).setTranspiler "html" "html" false
  ext := ()

def leafAsk : Ask :=
  ⟨.transpile, .ofFields [("source", .str "<template><p></p></template>"), ("input_lang", .str "vue"),
    ("output_lang", .str "html")]⟩

theorem shallow_folio : Shallow folio := by
  intro k
  cases k with
  | true => exact .inr (.inl fun _ => rfl)
  | false => exact .inl fun _ => trivial

/--
The page is kept when it has been compiled, and its template is not.
-/
theorem page_entered : Shallow folio ∧ folioStart.inflight = {} ∧
    ∃ s, Relation.ReflTransGen Schedule.Fires (Schedule.start folioStart [requestRoutine folio leafAsk]) s ∧
      ∃ o, s.outcome? 0 = some o ∧ Entered folio leafAsk o folioStart s.shared := by
  have hruns := Schedule.fires_run (Schedule.start folioStart [requestRoutine folio leafAsk]) 20
  refine ⟨shallow_folio, rfl, _, hruns, ?_⟩
  apply (memos_of_fires shallow_folio rfl hruns).resolve_left
  intro hsame
  have hsize : ((Schedule.start folioStart [requestRoutine folio leafAsk]).run 20).shared.transpiled.size =
      1 := by decide +kernel
  have hempty : ((Schedule.start folioStart [requestRoutine folio leafAsk]).run 20).shared.transpiled = {} :=
    hsame .transpile
  rw [hempty] at hsize
  cases hsize

end Polyglot.Hub
