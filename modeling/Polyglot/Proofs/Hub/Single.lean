import Polyglot.Proofs.Hub.Origins
import Polyglot.Proofs.Hub.Rules

/-!
One computation for a key: where compilers share nothing of what they ask for, work for others leaves
either its entry behind or a result that is kept, so that no inline request begins a second piece of
work that could succeed.
-/

namespace Polyglot.Hub

open Loop

variable {K X : Type}

/--
Requests share what they come to, but for those that compilers make.
-/
def Sole (m : Machine K X) : Prop :=
  m.settings.coalesce ∧ ∀ k r, (m.perform k r).AsksOnly Uncached

/--
All work of a mode that has not failed is either still under way or kept, but for that whose result is
just about to be kept.
-/
structure Single (old : State K X) (l : Book) (x : State K X) (mode : Mode) (owed : Option Nat) :
    Prop where
  running : ∀ u g r, l.wards[u]? = some ⟨g, .work r⟩ → r.mode = mode → ¬ l.Ended u →
    x.inflight.get? (mode, r.key) = some u
  kept : ∀ u g r o, l.wards[u]? = some ⟨g, .work r⟩ → r.mode = mode → l.stage u = .ended (.ok o) →
    x.inflight.get? (mode, r.key) = some u ∨ owed = some u ∨ ((x.memo mode).get? r.key).isSome
  alone : ∀ t r u g u' r' o, l.stage t = .pending (.leads r u) → r.mode = mode →
    r.fromLocation = false → l.wards[u']? = some ⟨g, .work r'⟩ → r'.mode = mode → r'.key = r.key →
    l.stage u' = .ended (.ok o) → u' = u
  waits : ∀ t r u p, Engaged l t r u → r.mode = mode → r.fromLocation = false →
    (x.memo mode).get? r.key = some p →
    ∃ result, l.stage u = .ended result ∧ ∀ e, result = .ok (some e) → e.payload = p
  finished : ∀ e, Since old x (.finished e) → e.request.mode = mode → e.request.allowCache →
    e.request.fromLocation = false → (x.memo mode).get? e.request.key = some e.payload

namespace Single

variable {old x x' : State K X} {l : Book} {mode : Mode} {owed : Option Nat} {t u : Nat}
variable {r : Request} {event : Event}

theorem frame (h : Single old l x mode owed) (hinflight : x'.inflight = x.inflight)
    (hmemo : x'.memo mode = x.memo mode)
    (hfinished : ∀ e, Since old x' (.finished e) → Since old x (.finished e)) :
    Single old l x' mode owed := by
  refine ⟨?_, ?_, h.alone, ?_, ?_⟩
  · rw [hinflight]
    exact h.running
  · rw [hinflight, hmemo]
    exact h.kept
  · rw [hmemo]
    exact h.waits
  · rw [hmemo]
    exact fun e he => h.finished e (hfinished e he)

theorem finish (h : Single old l x mode owed) (hhistory : old.history <:+ x.history) {e : Envelope}
    (he : e.request.mode = mode → e.request.allowCache → e.request.fromLocation = false →
      (x.memo mode).get? e.request.key = some e.payload) :
    Single old l (x.note (.finished e)) mode owed := by
  refine ⟨h.running, ?_, h.alone, ?_, ?_⟩
  · rw [memo_note]
    exact h.kept
  · rw [memo_note]
    exact h.waits
  · rw [memo_note]
    intro e' he'
    rcases he'.of_note hhistory with heq | he'
    · cases heq
      exact he
    · exact h.finished e' he'

theorem cutOff (h : Single old l x mode owed) (us : List Nat) :
    Single old (l.cutOff us) x mode owed :=
  ⟨h.running, h.kept, h.alone, h.waits, h.finished⟩

theorem reach (h : Single old l x mode owed) (hentries : Entries l x) (ht : ¬ l.Ended t)
    {stage : Stage Point Failure (Option Envelope)} (hleads : ∀ r u, stage ≠ .pending (.leads r u))
    (hjoins : ∀ r u, stage = .pending (.joins r u) → r.mode = mode → r.fromLocation = false →
      (x.memo mode).get? r.key = none) : Single old (l.reach t stage) x mode owed where
  running := by
    intro u g r hu hmode hrun
    exact h.running u g r hu hmode fun hended => hrun ((Ledger.Extends.reach ht stage).hasEnded hended)
  kept := by
    intro u g r o hu hmode ho
    by_cases heq : u = t
    · subst heq
      exact .inl (h.running u g r hu hmode ht)
    · rw [Ledger.stage_reach_of_ne _ _ _ heq] at ho
      exact h.kept u g r o hu hmode ho
  alone := by
    intro t' r u g u' r' o ht' hmode hloc hu' hmode' hkey ho
    have hne : t' ≠ t := by
      rintro rfl
      rw [Ledger.stage_reach_self] at ht'
      exact hleads r u ht'
    rw [Ledger.stage_reach_of_ne _ _ _ hne] at ht'
    by_cases heq : u' = t
    · subst heq
      have hentry := h.running u' g r' hu' hmode' ht
      obtain ⟨_, hentry'⟩ := hentries.leads t' r u ht'
      rw [hmode, ← hkey, hentry] at hentry'
      exact Option.some.inj hentry'
    · rw [Ledger.stage_reach_of_ne _ _ _ heq] at ho
      exact h.alone t' r u g u' r' o ht' hmode hloc hu' hmode' hkey ho
  waits := by
    intro t' r u p ht' hmode hloc hp
    by_cases heq : t' = t
    · subst heq
      rw [Engaged, Ledger.stage_reach_self] at ht'
      rcases ht' with ht' | ht'
      · exact absurd ht' (hleads r u)
      · rw [hjoins r u ht' hmode hloc] at hp
        cases hp
    · rw [Engaged, Ledger.stage_reach_of_ne _ _ _ heq] at ht'
      obtain ⟨result, hu, hresult⟩ := h.waits t' r u p ht' hmode hloc hp
      refine ⟨result, ?_, hresult⟩
      rw [Ledger.stage_reach_of_ne, hu]
      rintro rfl
      exact ht ⟨result, hu⟩
  finished := h.finished

theorem entry_of_unkept (h : Single old l x mode owed) {g : Option Nat} {o : Option Envelope}
    (hu : l.wards[u]? = some ⟨g, .work r⟩) (hmode : r.mode = mode) (ho : l.stage u = .ended (.ok o))
    (hnone : (x.memo mode).get? r.key = none) :
    x.inflight.get? (mode, r.key) = some u ∨ owed = some u := by
  rcases h.kept u g r o hu hmode ho with hentry | heq | hkept
  · exact .inl hentry
  · exact .inr heq
  · rw [hnone] at hkept
    cases hkept

section Start

variable {w : Ward Role}

theorem start (h : Single old l x mode owed) (hnew : l.stage l.wards.length = .new)
    (hw : ∀ r, w.role ≠ .work r) : Single old (l.start w .start) x mode owed := by
  have hl : l.Extends (l.start w .start) := .start hnew w .start
  have hwork {u : Nat} {g : Option Nat} {r : Request}
      (hu : (l.start w .start).wards[u]? = some ⟨g, .work r⟩) : l.wards[u]? = some ⟨g, .work r⟩ :=
    (ward_of_concat hu).resolve_right fun hself => hw r (congrArg Ward.role hself.2).symm
  refine ⟨?_, ?_, ?_, ?_, h.finished⟩
  · intro u g r hu hmode hrun
    exact h.running u g r (hwork hu) hmode fun hended => hrun (hl.hasEnded hended)
  · intro u g r o hu hmode ho
    exact h.kept u g r o (hwork hu) hmode (Ledger.of_stage_start ho (by simp)).2
  · intro t r u g u' r' o ht hmode hloc hu' hmode' hkey ho
    exact h.alone t r u g u' r' o (Ledger.of_stage_start ht (by simp)).2 hmode hloc (hwork hu')
      hmode' hkey (Ledger.of_stage_start ho (by simp)).2
  · intro t r u p ht hmode hloc hp
    have ht' : Engaged l t r u :=
      ht.imp (Ledger.of_stage_start · (by simp) |>.2) (Ledger.of_stage_start · (by simp) |>.2)
    obtain ⟨result, hu, hresult⟩ := h.waits t r u p ht' hmode hloc hp
    exact ⟨result, hl.ended u result hu, hresult⟩

/--
A task begins work for others where there is neither an entry nor, for an inline request, a result.
-/
theorem lead (h : Single old l x mode none) (ht : ¬ l.Ended t)
    (hlt : t < l.wards.length) (hnew : l.stage l.wards.length = .new)
    (hnone : x.inflight.get? (r.mode, r.key) = none)
    (hfresh : r.fromLocation = false → (x.memo r.mode).get? r.key = none) :
    Single old ((l.start ⟨some t, .work r⟩ .start).reach t (.pending (.leads r l.wards.length)))
      { x with inflight := x.inflight.set (r.mode, r.key) l.wards.length } mode none := by
  have hl : l.Extends (l.start ⟨some t, .work r⟩ .start) := .start hnew _ .start
  have hstill {u : Nat} {result : Except (Stop Failure) (Option Envelope)}
      (hu : l.stage u = .ended result) : ((l.start ⟨some t, .work r⟩ .start).reach t
        (.pending (.leads r l.wards.length))).stage u = .ended result := by
    rw [Ledger.stage_reach_of_ne]
    · exact hl.ended u result hu
    · rintro rfl
      exact ht ⟨result, hu⟩
  have hended {u : Nat} {result : Except (Stop Failure) (Option Envelope)}
      (hu : ((l.start ⟨some t, .work r⟩ .start).reach t
        (.pending (.leads r l.wards.length))).stage u = .ended result) :
      u ≠ l.wards.length ∧ l.stage u = .ended result :=
    Ledger.of_stage_start (Ledger.of_stage_reach hu (by simp)).2 (by simp)
  have hother {u : Nat} {r' : Request} (hget : x.inflight.get? (mode, r'.key) = some u) :
      (x.inflight.set (r.mode, r.key) l.wards.length).get? (mode, r'.key) = some u := by
    rw [Table.get?_set, if_neg, hget]
    intro hkey
    rw [hkey, hnone] at hget
    cases hget
  constructor
  · intro u g r' hu hmode hrun
    by_cases heq : u = l.wards.length
    · subst heq
      obtain rfl : r' = r := by
        rw [Ledger.wards_reach, Ledger.wards_start, List.getElem?_concat_length] at hu
        cases hu
        rfl
      rw [← hmode]
      exact Table.get?_set_self _ _ _
    · apply hother
      apply h.running u g r' (ward_of_concat_of_ne hu heq) hmode
      rintro ⟨result, hresult⟩
      exact hrun ⟨result, hstill hresult⟩
  · intro u g r' o hu hmode ho
    obtain ⟨heq, ho⟩ := hended ho
    exact (h.kept u g r' o (ward_of_concat_of_ne hu heq) hmode ho).imp_left hother
  · intro t' r' u g u' r'' o ht' hmode hloc hu' hmode' hkey ho
    obtain ⟨hne, ho'⟩ := hended ho
    have hwork := ward_of_concat_of_ne hu' hne
    rcases (Ledger.stage_reach_eq_iff _ _ _ _).mp ht' with ⟨_, hlead⟩ | ⟨_, ht'⟩
    · cases hlead
      have hunkept : (x.memo mode).get? r''.key = none := by
        rw [hkey, ← hmode]
        exact hfresh hloc
      rcases h.entry_of_unkept hwork hmode' ho' hunkept with hentry | hbad
      · rw [hkey, ← hmode, hnone] at hentry
        cases hentry
      · cases hbad
    · exact h.alone t' r' u g u' r'' o (Ledger.of_stage_start ht' (by simp)).2 hmode hloc hwork
        hmode' hkey ho'
  · intro t' r' u p ht' hmode hloc hp
    by_cases heq : t' = t
    · subst heq
      rw [Engaged, Ledger.stage_reach_self] at ht'
      rcases ht' with ht' | ht'
      · cases ht'
        have hnone' := hfresh hloc
        rw [hmode] at hnone'
        cases hnone'.symm.trans hp
      · cases ht'
    · rw [Engaged, Ledger.stage_reach_of_ne _ _ _ heq] at ht'
      have hold : Engaged l t' r' u :=
        ht'.imp (Ledger.of_stage_start · (by simp) |>.2) (Ledger.of_stage_start · (by simp) |>.2)
      obtain ⟨result, hu, hresult⟩ := h.waits t' r' u p hold hmode hloc hp
      exact ⟨result, hstill hu, hresult⟩
  · intro e he
    exact h.finished e (he.of_eq rfl)

end Start

/--
A leader goes on after the end of its work. Unless that has failed, its result is to be kept.
-/
theorem resume (h : Single old l x mode none) (hentries : Entries l x)
    (ht : l.stage t = .pending (.leads r u)) (hu : l.Ended u)
    (howed : ∀ o, l.stage u = .ended (.ok o) → owed = some u) :
    Single old (l.reach t (.pending .free)) { x with inflight := x.inflight.erase (r.mode, r.key) }
      mode owed := by
  obtain ⟨_, hentry⟩ := hentries.leads t r u ht
  have hother {u' : Nat} {r' : Request} (hne : u' ≠ u)
      (hget : x.inflight.get? (mode, r'.key) = some u') :
      (x.inflight.erase (r.mode, r.key)).get? (mode, r'.key) = some u' := by
    rw [Table.get?_erase_of_ne, hget]
    intro hkey
    rw [hkey, hentry] at hget
    exact hne (Option.some.inj hget).symm
  have hend : ¬ l.Ended t := by
    rintro ⟨result, hresult⟩
    cases ht.symm.trans hresult
  constructor
  · intro u' g r' hu' hmode hrun
    have hrun' : ¬ l.Ended u' := fun hended =>
      hrun ((Ledger.Extends.reach hend (.pending .free)).hasEnded hended)
    apply hother
    · rintro rfl
      exact hrun' hu
    · exact h.running u' g r' hu' hmode hrun'
  · intro u' g r' o hu' hmode ho
    have ho' := (Ledger.of_stage_reach ho (by simp)).2
    by_cases heq : u' = u
    · subst heq
      exact .inr (.inl (howed o ho'))
    · rcases h.kept u' g r' o hu' hmode ho' with hget | hbad | hmemo
      · exact .inl (hother heq hget)
      · cases hbad
      · exact .inr (.inr hmemo)
  · intro t' r' u₁ g u' r'' o ht' hmode hloc hu' hmode' hkey ho
    exact h.alone t' r' u₁ g u' r'' o (Ledger.of_stage_reach ht' (by simp)).2 hmode hloc hu' hmode'
      hkey (Ledger.of_stage_reach ho (by simp)).2
  · intro t' r' u' p ht' hmode hloc hp
    have ht'' : Engaged l t' r' u' :=
      ht'.imp (Ledger.of_stage_reach · (by simp) |>.2) (Ledger.of_stage_reach · (by simp) |>.2)
    obtain ⟨result, hu', hresult⟩ := h.waits t' r' u' p ht'' hmode hloc hp
    refine ⟨result, ?_, hresult⟩
    rw [Ledger.stage_reach_of_ne, hu']
    rintro rfl
    exact hend ⟨result, hu'⟩
  · exact fun e he => h.finished e (he.of_eq rfl)

section Keep

variable {key : String} {p : Payload}

theorem paid (h : Single old l x mode owed) {g : Option Nat} (hu : l.wards[u]? = some ⟨g, .work r⟩)
    (howed : owed = none ∨ owed = some u) (hmemo : r.mode = mode → ((x.memo mode).get? r.key).isSome) :
    Single old l x mode none := by
  refine ⟨h.running, ?_, h.alone, h.waits, h.finished⟩
  intro u' g' r' o hu' hmode ho
  rcases h.kept u' g' r' o hu' hmode ho with hentry | heq | hkept
  · exact .inl hentry
  · rcases howed with rfl | rfl
    · cases heq
    · cases heq
      cases hu.symm.trans hu'
      exact .inr (.inr (hmemo hmode))
  · exact .inr (.inr hkept)

theorem setMemo (h : Single old l x mode owed) (hentries : Entries l x) {g : Option Nat}
    {e : Envelope} (hu : l.wards[u]? = some ⟨g, .work r⟩) (hended : l.stage u = .ended (.ok (some e)))
    (howed : owed = none ∨ owed = some u ∧ x.inflight.get? (r.mode, r.key) = none)
    (hnone : (x.memo r.mode).get? r.key = none) :
    Single old l (x.setMemo r.mode ((x.memo r.mode).set r.key e.payload)) mode none := by
  have hinflight := inflight_setMemo x r.mode ((x.memo r.mode).set r.key e.payload)
  have hhistory := history_setMemo x r.mode ((x.memo r.mode).set r.key e.payload)
  have hmemo (key : String) :
      ((x.setMemo r.mode ((x.memo r.mode).set r.key e.payload)).memo mode).get? key =
        if r.mode = mode ∧ key = r.key then some e.payload else (x.memo mode).get? key := by
    rw [memo_setMemo]
    by_cases hmode : r.mode = mode
    · subst hmode
      simp [Table.get?_set]
    · simp [hmode]
  constructor
  · rw [hinflight]
    exact h.running
  · intro u' g' r' o hu' hmode ho
    rw [hinflight, hmemo]
    split
    · exact .inr (.inr rfl)
    · next hne =>
      rcases h.kept u' g' r' o hu' hmode ho with hentry | heq | hkept
      · exact .inl hentry
      · rcases howed with rfl | ⟨rfl, _⟩
        · cases heq
        · cases heq
          cases hu.symm.trans hu'
          exact absurd ⟨hmode, rfl⟩ hne
      · exact .inr (.inr hkept)
  · exact h.alone
  · intro t r' u' p ht hmode hloc hp
    rw [hmemo] at hp
    split at hp
    · next heq =>
      obtain ⟨hrmode, hkey⟩ := heq
      cases hp
      obtain ⟨g', r'', hw, hmode', hkey'⟩ := hentries.engaged ht
      rw [hmode] at hmode'
      rw [hkey] at hkey'
      -- nothing is kept yet, so work that has not failed is the entry or has just given it up
      have hunkept : (x.memo mode).get? r.key = none := by rwa [← hrmode]
      have hmine := h.entry_of_unkept hu hrmode hended hunkept
      have hsame (htheirs : x.inflight.get? (mode, r.key) = some u' ∨ owed = some u') : u' = u := by
        rcases howed with rfl | ⟨rfl, hgone⟩
        · rcases hmine with hmine | ⟨⟨⟩⟩
          rcases htheirs with htheirs | ⟨⟨⟩⟩
          exact Option.some.inj (htheirs.symm.trans hmine)
        · rcases htheirs with htheirs | heq
          · rw [← hrmode, hgone] at htheirs
            cases htheirs
          · exact (Option.some.inj heq).symm
      by_cases hu' : l.Ended u'
      · obtain ⟨result, hresult⟩ := hu'
        refine ⟨result, hresult, ?_⟩
        rintro e' rfl
        have htheirs := h.entry_of_unkept hw hmode' hresult (hkey' ▸ hunkept)
        rw [hkey'] at htheirs
        rw [hsame htheirs, hended] at hresult
        cases hresult
        rfl
      · have htheirs := h.running u' g' r'' hw hmode' hu'
        rw [hkey'] at htheirs
        rw [hsame (.inl htheirs)] at hu'
        exact absurd ⟨_, hended⟩ hu'
    · exact h.waits t r' u' p ht hmode hloc hp
  · intro e' he' hmode hcache hloc
    rw [hmemo]
    have hold := h.finished e' (he'.of_eq hhistory.symm) hmode hcache hloc
    rw [if_neg, hold]
    rintro ⟨hrmode, hkey⟩
    rw [← hrmode, hkey, hnone] at hold
    cases hold

end Keep

end Single

end Polyglot.Hub
