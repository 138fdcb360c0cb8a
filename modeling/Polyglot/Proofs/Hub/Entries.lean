import Polyglot.Proofs.Hub.Key
import Polyglot.Proofs.Hub.Terms
import Polyglot.Proofs.Loop.Parts

/-!
The tasks of a hub that work for others: each entry of the table of what is being worked out belongs
to one task, its leader, which waits for the task that does the work. Requests with the same key
meanwhile join it.
-/

namespace Polyglot

namespace Table

variable {κ α : Type} [DecidableEq κ] {t : Table κ α} {k : κ}

theorem mem_place (k : κ) (v : α) (es : List (κ × α)) (a : κ) :
    a ∈ (place k v es).map (·.1) ↔ a = k ∨ a ∈ es.map (·.1) := by
  induction es with
  | nil => simp [place]
  | cons e es ih =>
    by_cases h : e.1 = k
    · simp [place, h]
    · rw [place, if_neg h, List.map_cons, List.mem_cons, ih, List.map_cons, List.mem_cons]
      exact or_left_comm

theorem nodup_set (h : t.keys.Nodup) (k : κ) (v : α) : (t.set k v).keys.Nodup := by
  obtain ⟨es⟩ := t
  rw [keys] at h
  rw [set, keys]
  induction es with
  | nil => simp [place]
  | cons e es ih =>
    rw [List.map_cons, List.nodup_cons] at h
    obtain ⟨hhead, htail⟩ := h
    by_cases hk : e.1 = k
    · rw [place, if_pos hk, List.map_cons, List.nodup_cons]
      exact ⟨hk ▸ hhead, htail⟩
    · rw [place, if_neg hk, List.map_cons, List.nodup_cons, mem_place, not_or]
      exact ⟨⟨hk, hhead⟩, ih htail⟩

theorem nodup_erase (h : t.keys.Nodup) (k : κ) : (t.erase k).keys.Nodup :=
  h.sublist (List.filter_sublist.map _)

theorem eq_empty (h : ∀ k, t.get? k = none) : t = {} := by
  obtain ⟨es⟩ := t
  cases es with
  | nil => rfl
  | cons e es => simpa [get?] using h e.1

end Table

namespace Hub

open Loop

variable {K X : Type}

/--
The part that a task of a hub plays: it takes a request from outside, works out a result that others
may join, calls a compiler, or does one of several things side by side.
-/
inductive Role where
  | outside
  | work (r : Request)
  | call (r : Request)
  | part (p : Part)

/--
Where a task of a hub may stop: before it has begun, at a task that it has begun for others, at one
that it joins, or anywhere else.
-/
inductive Point where
  | start
  | free
  | leads (r : Request) (u : Nat)
  | joins (r : Request) (u : Nat)

abbrev Book := Ledger Role Point Failure (Option Envelope)

def resume (key : Mode × String) (k : Envelope → Routine K X)
    (result : Except (Stop Failure) (Option Envelope)) : Routine K X :=
  .change (fun s => { s with inflight := s.inflight.erase key }) (ending result k)

def joined (r : Request) (k : Envelope → Routine K X)
    (result : Except (Stop Failure) (Option Envelope)) : Routine K X :=
  ending result fun e => k ⟨r, e.payload⟩

/--
What is left to do for a request from outside that has its result.
-/
def closing (e : Envelope) : Routine K X :=
  keep e fun _ => .change (·.note (.finished e)) (.finish (.ok (some e)))

def Closes (role : Role) (k : Envelope → Routine K X) : Prop := role = .outside → k = closing

/--
What a task may be about to do at a point. Only leaders wait to remove an entry, and only who has
joined a request follows another task.
-/
def FitsPoint : Role → Point → Routine K X → Prop
  | role, .leads r u, next => ∃ k, Closes role k ∧ next = .await u (resume (r.mode, r.key) k)
  | role, .joins r u, next => ∃ k, Closes role k ∧ next = .follow u (joined r k)
  | _, _, next => (∀ u key k, next ≠ .await u (resume key k)) ∧ ∀ u k, next ≠ .follow u k

/--
Entries belong to their leaders.
-/
structure Entries (l : Book) (x : State K X) : Prop where
  nodup : x.inflight.keys.Nodup
  entry : ∀ mode key u, x.inflight.get? (mode, key) = some u →
    ∃ t r, l.stage t = .pending (.leads r u) ∧ r.mode = mode ∧ r.key = key
  leads : ∀ t r u, l.stage t = .pending (.leads r u) →
    l.wards[u]? = some ⟨some t, .work r⟩ ∧ x.inflight.get? (r.mode, r.key) = some u
  joins : ∀ t r u, l.stage t = .pending (.joins r u) →
    ∃ g r', l.wards[u]? = some ⟨g, .work r'⟩ ∧ r'.mode = r.mode ∧ r'.key = r.key
  shared : ∀ (u : Nat) (g : Option Nat) (r : Request), l.wards[u]? = some ⟨g, .work r⟩ → r.allowCache
  outside : ∀ (t : Nat) (g : Option Nat), l.wards[t]? = some ⟨g, .outside⟩ → g = none

def Engaged (l : Book) (t : Nat) (r : Request) (u : Nat) : Prop :=
  l.stage t = .pending (.leads r u) ∨ l.stage t = .pending (.joins r u)

namespace Entries

variable {l : Book} {x x' : State K X} {t t' u u' : Nat} {r r' : Request} {g : Option Nat}

theorem unique (h : Entries l x) (ht : l.stage t = .pending (.leads r u))
    (ht' : l.stage t' = .pending (.leads r' u')) (hmode : r'.mode = r.mode) (hkey : r'.key = r.key) :
    t' = t ∧ u' = u := by
  obtain ⟨hw, hget⟩ := h.leads t r u ht
  obtain ⟨hw', hget'⟩ := h.leads t' r' u' ht'
  rw [hmode, hkey, hget] at hget'
  obtain rfl := Option.some.inj hget'
  cases hw.symm.trans hw'
  exact ⟨rfl, rfl⟩

theorem engaged (h : Entries l x) (ht : Engaged l t r u) :
    ∃ g r', l.wards[u]? = some ⟨g, .work r'⟩ ∧ r'.mode = r.mode ∧ r'.key = r.key := by
  rcases ht with ht | ht
  · exact ⟨_, r, (h.leads t r u ht).1, rfl, rfl⟩
  · exact h.joins t r u ht

theorem frame (h : Entries l x) (hinflight : x'.inflight = x.inflight) : Entries l x' where
  nodup := hinflight ▸ h.nodup
  entry := hinflight ▸ h.entry
  leads := hinflight ▸ h.leads
  joins := h.joins
  shared := h.shared
  outside := h.outside

theorem cutOff (h : Entries l x) (us : List Nat) : Entries (l.cutOff us) x :=
  ⟨h.nodup, h.entry, h.leads, h.joins, h.shared, h.outside⟩

theorem reach (h : Entries l x) (ht : ∀ r u, l.stage t ≠ .pending (.leads r u))
    {stage : Stage Point Failure (Option Envelope)} (hleads : ∀ r u, stage ≠ .pending (.leads r u))
    (hjoins : ∀ r u, stage = .pending (.joins r u) →
      ∃ g r', l.wards[u]? = some ⟨g, .work r'⟩ ∧ r'.mode = r.mode ∧ r'.key = r.key) :
    Entries (l.reach t stage) x where
  nodup := h.nodup
  entry := by
    intro mode key u hu
    obtain ⟨t', r, ht', hr⟩ := h.entry mode key u hu
    refine ⟨t', r, ?_, hr⟩
    rw [Ledger.stage_reach_of_ne, ht']
    rintro rfl
    exact ht r u ht'
  leads := by
    intro t' r u ht'
    exact h.leads t' r u (Ledger.of_stage_reach ht' (hleads r u)).2
  joins := by
    intro t' r u ht'
    rcases (Ledger.stage_reach_eq_iff _ _ _ _).mp ht' with ⟨_, hstage⟩ | ⟨_, ht'⟩
    · exact hjoins r u hstage
    · exact h.joins t' r u ht'
  shared := h.shared
  outside := h.outside

theorem start (h : Entries l x) (hnew : l.stage l.wards.length = .new) {w : Ward Role}
    (hwork : ∀ r, w.role = .work r → r.allowCache) (hw : w.role = .outside → w.guardian = none) :
    Entries (l.start w .start) x where
  nodup := h.nodup
  entry := by
    intro mode key u hu
    obtain ⟨t, r, ht, hr⟩ := h.entry mode key u hu
    refine ⟨t, r, ?_, hr⟩
    rw [Ledger.stage_start_of_ne, ht]
    rintro rfl
    cases hnew.symm.trans ht
  leads := by
    intro t r u ht
    obtain ⟨hu, hrest⟩ := h.leads t r u (Ledger.of_stage_start ht (by simp)).2
    exact ⟨(Ledger.Extends.start hnew w .start).ward hu, hrest⟩
  joins := by
    intro t r u ht
    obtain ⟨g, r', hu, hrest⟩ := h.joins t r u (Ledger.of_stage_start ht (by simp)).2
    exact ⟨g, r', (Ledger.Extends.start hnew w .start).ward hu, hrest⟩
  shared := by
    intro u g r hu
    rcases ward_of_concat hu with hu | ⟨_, rfl⟩
    · exact h.shared u g r hu
    · exact hwork r rfl
  outside := by
    intro t g ht
    rcases ward_of_concat ht with ht | ⟨_, rfl⟩
    · exact h.outside t g ht
    · exact hw rfl

theorem lead (h : Entries l x) (ht : ∀ r u, l.stage t ≠ .pending (.leads r u))
    (hlt : t < l.wards.length) (hnew : l.stage l.wards.length = .new) (hcache : r.allowCache)
    (hnone : x.inflight.get? (r.mode, r.key) = none) :
    Entries ((l.start ⟨some t, .work r⟩ .start).reach t (.pending (.leads r l.wards.length)))
      { x with inflight := x.inflight.set (r.mode, r.key) l.wards.length } := by
  have hstart : Entries (l.start ⟨some t, .work r⟩ .start) x := by
    apply h.start hnew
    · rintro _ ⟨⟩
      exact hcache
    · rintro ⟨⟩
  refine ⟨Table.nodup_set h.nodup _ _, ?_, ?_, ?_, hstart.shared, hstart.outside⟩
  · intro mode key u hu
    rw [Table.get?_set] at hu
    split at hu
    · next heq =>
      cases heq
      obtain rfl := Option.some.inj hu
      exact ⟨t, r, Ledger.stage_reach_self _ _ _, rfl, rfl⟩
    · obtain ⟨t', r', ht', hr'⟩ := hstart.entry mode key u hu
      refine ⟨t', r', ?_, hr'⟩
      rw [Ledger.stage_reach_of_ne, ht']
      rintro rfl
      rw [Ledger.stage_start_of_ne _ _ _ (Nat.ne_of_lt hlt)] at ht'
      exact ht r' u ht'
  · intro t' r' u' ht'
    rcases (Ledger.stage_reach_eq_iff _ _ _ _).mp ht' with ⟨rfl, hlead⟩ | ⟨_, ht'⟩
    · cases hlead
      refine ⟨List.getElem?_concat_length, ?_⟩
      rw [Table.get?_set, if_pos rfl]
    · obtain ⟨hu', hget⟩ := hstart.leads t' r' u' ht'
      refine ⟨hu', ?_⟩
      rw [Table.get?_set, if_neg, hget]
      intro hkey
      rw [hkey, hnone] at hget
      cases hget
  · intro t' r' u' ht'
    exact hstart.joins t' r' u' (Ledger.of_stage_reach ht' (by simp)).2

theorem resume (h : Entries l x) (ht : l.stage t = .pending (.leads r u)) :
    Entries (l.reach t (.pending .free))
      { x with inflight := x.inflight.erase (r.mode, r.key) } := by
  have hkey {t' u' : Nat} {r' : Request} (hne : t' ≠ t)
      (ht' : l.stage t' = .pending (.leads r' u')) : (r'.mode, r'.key) ≠ (r.mode, r.key) := by
    intro heq
    exact hne (h.unique ht ht' (congrArg Prod.fst heq) (congrArg Prod.snd heq)).1
  refine ⟨Table.nodup_erase h.nodup _, ?_, ?_, ?_, h.shared, h.outside⟩
  · intro mode key u' hu'
    by_cases heq : (mode, key) = (r.mode, r.key)
    · rw [heq, Table.get?_erase_self] at hu'
      cases hu'
    · rw [Table.get?_erase_of_ne _ heq] at hu'
      obtain ⟨t', r', ht', rfl, rfl⟩ := h.entry mode key u' hu'
      refine ⟨t', r', ?_, rfl, rfl⟩
      rw [Ledger.stage_reach_of_ne, ht']
      rintro rfl
      cases ht.symm.trans ht'
      exact heq rfl
  · intro t' r' u' ht'
    obtain ⟨hne, ht'⟩ := Ledger.of_stage_reach ht' (by simp)
    obtain ⟨hu', hget⟩ := h.leads t' r' u' ht'
    refine ⟨hu', ?_⟩
    rw [Table.get?_erase_of_ne _ (hkey hne ht'), hget]
  · intro t' r' u' ht'
    exact h.joins t' r' u' (Ledger.of_stage_reach ht' (by simp)).2

end Entries

end Hub

end Polyglot
