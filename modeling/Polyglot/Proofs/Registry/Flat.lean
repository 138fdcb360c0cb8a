import Mathlib.Data.Set.Card
import Polyglot.Compiler.Registry
import Polyglot.Proofs.Outcome
import Polyglot.Proofs.Table

/-!
Registries are two flat maps, from pairs of languages and from languages to compilers. Whatever is done
with a registry and its copies, each answers as its maps do.
-/

namespace Polyglot.Registry

variable {K : Type}

/--
What can be done with a registry. What is registered need not be a compiler.
-/
inductive Op (K : Type) where
  | registerTranspiler (input output : Value) (c : Option K)
  | removeTranspiler (input output : Value)
  | getTranspiler (input output : Value)
  | registerInterpreter (lang : Value) (c : Option K)
  | removeInterpreter (lang : Value)
  | getInterpreter (lang : Value)
  | listTranspilers
  | listInterpreters
  | count

inductive Answer (K : Type) where
  | done
  | refused (e : RegistryError)
  | found (c : Option K)
  | transpilers (listed : List (String × String × K))
  | interpreters (listed : List (String × K))
  | count (n : Nat)

/--
The registry after an operation, and the answer. A refused operation leaves the registry as it is.
-/
def perform (r : Registry K) : Op K → Registry K × Answer K
  | .registerTranspiler input output c => settle r (r.registerTranspiler input output c)
  | .removeTranspiler input output => settle r (r.removeTranspiler input output)
  | .getTranspiler input output => (r, look (r.getTranspiler input output))
  | .registerInterpreter lang c => settle r (r.registerInterpreter lang c)
  | .removeInterpreter lang => settle r (r.removeInterpreter lang)
  | .getInterpreter lang => (r, look (r.getInterpreter lang))
  | .listTranspilers => (r, .transpilers r.transpilers)
  | .listInterpreters => (r, .interpreters r.sortedInterpreters)
  | .count => (r, .count r.size)
where
  settle (r : Registry K) : Except RegistryError (Registry K) → Registry K × Answer K
    | .ok r' => (r', .done)
    | .error e => (r, .refused e)
  look : Except RegistryError (Option K) → Answer K
    | .ok c => .found c
    | .error e => .refused e

/--
Registries are known by number: an operation on one of them, or a copy of one, which is the next number.
-/
inductive Move (K : Type) where
  | act (n : Nat) (op : Op K)
  | copy (n : Nat)

/--
The registries after some moves, of which the last one stands first.
-/
def play : List (Move K) → List (Registry K)
  | [] => [{}]
  | .act n op :: past => (play past).modify n fun r => (r.perform op).1
  | .copy n :: past => play past ++ ((play past)[n]?.map copy).toList

def number : List (Move K) → Nat
  | [] => 1
  | .act _ _ :: past => number past
  | .copy n :: past => if n < number past then number past + 1 else number past

/--
The compilers by input and output language, and by language alone.
-/
structure Flat (K : Type) where
  pair : String × String → Option K := fun _ => none
  single : String → Option K := fun _ => none

namespace Flat

/--
The maps after an operation. What is registered last counts; refused operations change nothing.
-/
def after (f : Flat K) : Op K → Flat K
  | .registerTranspiler input output c =>
    { f with pair := assign f.pair (languagePair input output) c }
  | .removeTranspiler input output => { f with pair := clear f.pair (languagePair input output) }
  | .registerInterpreter lang c => { f with single := assign f.single (language lang) c }
  | .removeInterpreter lang => { f with single := clear f.single (language lang) }
  | _ => f
where
  assign {κ : Type} [DecidableEq κ] (found : κ → Option K) (key : Except RegistryError κ)
      (c : Option K) : κ → Option K :=
    match key, c with
    | .ok key, some c => Function.update found key (some c)
    | _, _ => found
  clear {κ : Type} [DecidableEq κ] (found : κ → Option K) (key : Except RegistryError κ) :
      κ → Option K :=
    match key with
    | .ok key => Function.update found key none
    | .error _ => found

/--
The maps of a registry after some moves. Only what is done with it changes them, and a copy begins with what
its origin had then.
-/
def ofMoves : List (Move K) → Nat → Flat K
  | [], _ => {}
  | .act n op :: past, k => if n = k then (ofMoves past k).after op else ofMoves past k
  | .copy n :: past, k => if k = number past then ofMoves past n else ofMoves past k

def ListsPairs (f : Flat K) (listed : List (String × String × K)) : Prop :=
  (listed.Pairwise fun e e' => e.2.1 < e'.2.1 ∨ e.2.1 = e'.2.1 ∧ e.1 < e'.1) ∧
    ∀ input output c, (input, output, c) ∈ listed ↔ f.pair (input, output) = some c

def ListsSingles (f : Flat K) (listed : List (String × K)) : Prop :=
  (listed.Pairwise fun e e' => e.1 < e'.1) ∧ ∀ lang c, (lang, c) ∈ listed ↔ f.single lang = some c

noncomputable def size (f : Flat K) : Nat :=
  {key | (f.pair key).isSome}.ncard + {key | (f.single key).isSome}.ncard

def Answers (f : Flat K) : Op K → Answer K → Prop
  | .registerTranspiler input output c, a => a = registering (languagePair input output) c
  | .removeTranspiler input output, a =>
    a = reading (languagePair input output) fun _ => .done
  | .getTranspiler input output, a =>
    a = reading (languagePair input output) fun key => .found (f.pair key)
  | .registerInterpreter lang c, a => a = registering (language lang) c
  | .removeInterpreter lang, a => a = reading (language lang) fun _ => .done
  | .getInterpreter lang, a => a = reading (language lang) fun key => .found (f.single key)
  | .listTranspilers, a => ∃ listed, a = .transpilers listed ∧ f.ListsPairs listed
  | .listInterpreters, a => ∃ listed, a = .interpreters listed ∧ f.ListsSingles listed
  | .count, a => a = .count f.size
where
  reading {κ : Type} (key : Except RegistryError κ) (answer : κ → Answer K) : Answer K :=
    match key with
    | .ok key => answer key
    | .error e => .refused e
  registering {κ : Type} (key : Except RegistryError κ) (c : Option K) : Answer K :=
    reading key fun _ => if c.isSome then .done else .refused .notFunction

end Flat

/--
A registry that cannot be told from its maps: it answers as they do, is left alone by what it refuses,
and keeps no output language without input languages.
-/
structure Shows (r : Registry K) (f : Flat K) : Prop where
  answers : ∀ op, f.Answers op (r.perform op).2
  unchanged : ∀ op e, (r.perform op).2 = .refused e → (r.perform op).1 = r
  rows : ∀ row ∈ r.byOutput.entries, row.2.entries ≠ []

/--
Each key stands once in its table, and each row has something in it.
-/
structure Tidy (r : Registry K) : Prop where
  outputs : r.byOutput.Distinct
  rows : ∀ row ∈ r.byOutput.entries, row.2.Distinct ∧ row.2.entries ≠ []
  interpreters : r.interpreters.Distinct

section Tables

variable {r : Registry K} {input output : String} {c : K}

theorem tidy_empty : ({} : Registry K).Tidy :=
  ⟨Table.distinct_empty, by simp, Table.distinct_empty⟩

theorem Tidy.inputs (h : r.Tidy) (output : String) : (r.inputs output).Distinct := by
  rw [Registry.inputs]
  cases hget : r.byOutput.get? output with
  | none => exact Table.distinct_empty
  | some row => exact (h.rows _ (Table.mem_entries_of_get? hget)).1

theorem Tidy.setTranspiler (h : r.Tidy) : (r.setTranspiler input output c).Tidy where
  outputs := h.outputs.set _ _
  rows row hrow := by
    rcases Table.mem_entries_set hrow with rfl | hrow
    · refine ⟨(h.inputs output).set _ _, fun hnil => ?_⟩
      have hget := Table.get?_set_self (r.inputs output) input c
      rw [Table.get?, hnil] at hget
      cases hget
    · exact h.rows row hrow
  interpreters := h.interpreters

theorem Tidy.eraseTranspiler (h : r.Tidy) : (r.eraseTranspiler input output).Tidy := by
  rw [Registry.eraseTranspiler]
  split
  · exact ⟨h.outputs.erase _, fun row hrow => h.rows row (Table.mem_entries_erase hrow),
      h.interpreters⟩
  · next hleft =>
    refine ⟨h.outputs.set _ _, fun row hrow => ?_, h.interpreters⟩
    rcases Table.mem_entries_set hrow with rfl | hrow
    · exact ⟨(h.inputs output).erase _, fun hnil => hleft (Table.isEmpty_iff.mpr hnil)⟩
    · exact h.rows row hrow

theorem inputs_setTranspiler (output' : String) : (r.setTranspiler input output c).inputs output' =
    if output' = output then (r.inputs output).set input c else r.inputs output' := by
  simp only [setTranspiler, inputs, Table.get?_set]
  split <;> rfl

theorem get?_inputs_eraseTranspiler (input' output' : String) :
    ((r.eraseTranspiler input output).inputs output').get? input' =
      if output' = output ∧ input' = input then none else (r.inputs output').get? input' := by
  have hleft : ((r.inputs output).erase input).get? input' =
      if input' = input then none else (r.inputs output).get? input' := Table.get?_erase _ _ _
  by_cases hout : output' = output
  · subst hout
    simp only [true_and, ← hleft]
    rw [eraseTranspiler]
    split
    · next hempty =>
      rw [Table.get?_of_isEmpty hempty, inputs, Table.get?_erase_self]
      rfl
    · simp [inputs, Table.get?_set]
  · simp only [hout, false_and, if_false]
    rw [eraseTranspiler]
    split <;> simp [inputs, Table.get?_set, Table.get?_erase, hout]

theorem transpiler?_setTranspiler (input' output' : String) :
    (r.setTranspiler input output c).transpiler? input' output' =
      if output' = output ∧ input' = input then some c else r.transpiler? input' output' := by
  rw [transpiler?, transpiler?, inputs_setTranspiler]
  by_cases hout : output' = output
  · subst hout
    simp [Table.get?_set]
  · simp [hout]

theorem Tidy.transpiler?_eq_some (h : r.Tidy) : r.transpiler? input output = some c ↔
    ∃ row, (output, row) ∈ r.byOutput.entries ∧ (input, c) ∈ row.entries := by
  rw [transpiler?, (h.inputs output).get?_eq_some]
  simp only [Registry.inputs, ← h.outputs.get?_eq_some]
  cases r.byOutput.get? output <;> simp

theorem Tidy.mem_transpilers (h : r.Tidy) :
    (input, output, c) ∈ r.transpilers ↔ r.transpiler? input output = some c := by
  rw [h.transpiler?_eq_some]
  simp only [transpilers, List.mem_flatMap, List.mem_map, Table.mem_sorted, Prod.mk.injEq,
    Prod.exists]
  constructor
  · rintro ⟨_, row, hrow, _, _, hmem, rfl, rfl, rfl⟩
    exact ⟨row, hrow, hmem⟩
  · rintro ⟨row, hrow, hmem⟩
    exact ⟨_, row, hrow, _, _, hmem, rfl, rfl, rfl⟩

theorem Tidy.pairwise_transpilers (h : r.Tidy) :
    r.transpilers.Pairwise fun e e' => e.2.1 < e'.2.1 ∨ e.2.1 = e'.2.1 ∧ e.1 < e'.1 := by
  rw [transpilers, List.pairwise_flatMap]
  constructor
  · rintro ⟨o, row⟩ hrow
    refine List.pairwise_map.mpr ?_
    exact (h.rows _ (Table.mem_sorted.mp hrow)).1.pairwise_sorted.imp fun hlt => .inr ⟨rfl, hlt⟩
  · refine h.outputs.pairwise_sorted.imp fun {row row'} hlt => ?_
    intro e he e' he'
    obtain ⟨_, -, rfl⟩ := List.mem_map.mp he
    obtain ⟨_, -, rfl⟩ := List.mem_map.mp he'
    exact .inl hlt

theorem size_eq (r : Registry K) :
    r.size = r.transpilers.length + r.sortedInterpreters.length := by
  have hrows (rows : List (String × Table String K)) (n : Nat) :
      rows.foldr (fun e n => e.2.size + n) n = (rows.map fun e => e.2.size).sum + n := by
    induction rows with
    | nil => simp
    | cons row rows ih => rw [List.foldr_cons, ih, List.map_cons, List.sum_cons, Nat.add_assoc]
  have hsorted (t : Table String K) : t.sorted.length = t.size := t.perm_sorted.length_eq
  have hlength : r.transpilers.length = (r.byOutput.entries.map fun e => e.2.size).sum := by
    rw [transpilers, List.length_flatMap]
    simp only [List.length_map, hsorted]
    exact (r.byOutput.perm_sorted.map _).sum_nat
  rw [size, hrows, hlength, sortedInterpreters, hsorted]

end Tables

theorem ncard_of_listed {κ ε : Type} {f : κ → Option K} {listed : List ε} (key : ε → κ)
    (hkeys : (listed.map key).Nodup) (hmem : ∀ k, (f k).isSome ↔ k ∈ listed.map key) :
    {k | (f k).isSome}.ncard = listed.length := by
  classical
  have hset : {k | (f k).isSome} = ((listed.map key).toFinset : Set κ) := by
    ext k
    simp [hmem]
  rw [hset, Set.ncard_coe_finset, List.toFinset_card_of_nodup hkeys, List.length_map]

namespace Flat

variable {f : Flat K}

theorem ListsPairs.ncard {listed : List (String × String × K)} (h : f.ListsPairs listed) :
    {key | (f.pair key).isSome}.ncard = listed.length := by
  refine ncard_of_listed (fun e => (e.1, e.2.1)) ?_ ?_
  · refine List.pairwise_map.mpr (h.1.imp fun {e e'} hlt heq => ?_)
    obtain ⟨hinput, houtput⟩ := Prod.mk.inj heq
    rw [hinput, houtput] at hlt
    rcases hlt with hlt | ⟨-, hlt⟩ <;> exact String.lt_irrefl _ hlt
  · rintro ⟨input, output⟩
    simp [Option.isSome_iff_exists, ← h.2]

theorem ListsSingles.ncard {listed : List (String × K)} (h : f.ListsSingles listed) :
    {key | (f.single key).isSome}.ncard = listed.length := by
  refine ncard_of_listed Prod.fst ?_ ?_
  · refine List.pairwise_map.mpr (h.1.imp fun {e e'} hlt heq => ?_)
    rw [heq] at hlt
    exact String.lt_irrefl _ hlt
  · intro lang
    simp [Option.isSome_iff_exists, ← h.2]

end Flat

def flat (r : Registry K) : Flat K :=
  ⟨fun key => r.transpiler? key.1 key.2, r.interpreters.get?⟩

section Steps

variable {r : Registry K}

theorem Tidy.listsPairs (h : r.Tidy) : r.flat.ListsPairs r.transpilers :=
  ⟨h.pairwise_transpilers, fun _ _ _ => h.mem_transpilers⟩

theorem Tidy.listsSingles (h : r.Tidy) : r.flat.ListsSingles r.sortedInterpreters :=
  ⟨h.interpreters.pairwise_sorted, fun _ _ =>
    Table.mem_sorted.trans h.interpreters.get?_eq_some.symm⟩

theorem flat_setTranspiler (input output : String) (c : K) :
    (r.setTranspiler input output c).flat =
      { r.flat with pair := Function.update r.flat.pair (input, output) (some c) } := by
  have hpair (key : String × String) :
      (r.setTranspiler input output c).transpiler? key.1 key.2 =
        Function.update r.flat.pair (input, output) (some c) key := by
    simp only [transpiler?_setTranspiler, Function.update_apply, Prod.ext_iff, and_comm, flat]
  simp only [flat, Flat.mk.injEq]
  exact ⟨funext hpair, rfl⟩

theorem flat_eraseTranspiler (input output : String) :
    (r.eraseTranspiler input output).flat =
      { r.flat with pair := Function.update r.flat.pair (input, output) none } := by
  have hinterpreters : (r.eraseTranspiler input output).interpreters = r.interpreters := by
    rw [eraseTranspiler]
    split <;> rfl
  have hpair (key : String × String) :
      (r.eraseTranspiler input output).transpiler? key.1 key.2 =
        Function.update r.flat.pair (input, output) none key := by
    simp only [transpiler?, get?_inputs_eraseTranspiler, Function.update_apply, Prod.ext_iff,
      and_comm, flat]
  simp only [flat, Flat.mk.injEq, hinterpreters, and_true]
  exact funext hpair

theorem Tidy.perform (h : r.Tidy) (op : Op K) :
    (r.perform op).1.Tidy ∧ (r.perform op).1.flat = r.flat.after op := by
  cases op with
  | registerTranspiler input output c =>
    simp only [Registry.perform, registerTranspiler, Flat.after]
    cases languagePair input output with
    | error e => exact ⟨h, rfl⟩
    | ok key =>
      cases c with
      | none => exact ⟨h, rfl⟩
      | some c => exact ⟨h.setTranspiler, flat_setTranspiler _ _ _⟩
  | removeTranspiler input output =>
    simp only [Registry.perform, removeTranspiler, Flat.after]
    cases languagePair input output with
    | error e => exact ⟨h, rfl⟩
    | ok key => exact ⟨h.eraseTranspiler, flat_eraseTranspiler _ _⟩
  | registerInterpreter lang c =>
    simp only [Registry.perform, registerInterpreter, Flat.after]
    cases language lang with
    | error e => exact ⟨h, rfl⟩
    | ok key =>
      cases c with
      | none => exact ⟨h, rfl⟩
      | some c =>
        refine ⟨⟨h.outputs, h.rows, h.interpreters.set _ _⟩, ?_⟩
        exact congrArg (Flat.mk _)
          (funext fun l => (Table.get?_set _ _ _ _).trans (Function.update_apply _ _ _ _).symm)
  | removeInterpreter lang =>
    simp only [Registry.perform, removeInterpreter, Flat.after]
    cases language lang with
    | error e => exact ⟨h, rfl⟩
    | ok key =>
      refine ⟨⟨h.outputs, h.rows, h.interpreters.erase _⟩, ?_⟩
      exact congrArg (Flat.mk _)
        (funext fun l => (Table.get?_erase _ _ _).trans (Function.update_apply _ _ _ _).symm)
  | getTranspiler | getInterpreter | listTranspilers | listInterpreters | count =>
    exact ⟨h, rfl⟩

theorem Tidy.shows (h : r.Tidy) : r.Shows r.flat where
  answers op := by
    cases op with
    | registerTranspiler input output c =>
      simp only [Registry.perform, registerTranspiler, Flat.Answers]
      cases languagePair input output <;> cases c <;> rfl
    | removeTranspiler input output =>
      simp only [Registry.perform, removeTranspiler, Flat.Answers]
      cases languagePair input output <;> rfl
    | getTranspiler input output =>
      simp only [Registry.perform, getTranspiler, Flat.Answers]
      cases languagePair input output <;> rfl
    | registerInterpreter lang c =>
      simp only [Registry.perform, registerInterpreter, Flat.Answers]
      cases language lang <;> cases c <;> rfl
    | removeInterpreter lang =>
      simp only [Registry.perform, removeInterpreter, Flat.Answers]
      cases language lang <;> rfl
    | getInterpreter lang =>
      simp only [Registry.perform, getInterpreter, Flat.Answers]
      cases language lang <;> rfl
    | listTranspilers => exact ⟨_, rfl, h.listsPairs⟩
    | listInterpreters => exact ⟨_, rfl, h.listsSingles⟩
    | count =>
      simp only [Registry.perform, Flat.Answers, Flat.size, h.listsPairs.ncard,
        h.listsSingles.ncard, size_eq]
  unchanged op e hop := by
    have hsettle (x : Except RegistryError (Registry K)) (hx : (perform.settle r x).2 = .refused e) :
        (perform.settle r x).1 = r := by
      cases x with
      | ok r' => cases hx
      | error e => rfl
    cases op with
    | registerTranspiler | removeTranspiler | registerInterpreter | removeInterpreter =>
      exact hsettle _ hop
    | getTranspiler | getInterpreter | listTranspilers | listInterpreters | count => rfl
  rows row hrow := (h.rows row hrow).2

theorem Tidy.copy (h : r.Tidy) : r.copy = r := by
  have hrows : (r.byOutput.entries.map fun row => (row.1, row.2.copy)) = r.byOutput.entries := by
    conv_rhs => rw [← List.map_id r.byOutput.entries]
    exact List.map_congr_left fun row hrow => Prod.ext rfl (h.rows row hrow).1.copy
  have houtputs : Table.ofEntries r.byOutput.entries = r.byOutput := h.outputs.copy
  rw [Registry.copy, hrows, houtputs, h.interpreters.copy]

end Steps

section Moves

theorem length_play (past : List (Move K)) : (play past).length = number past := by
  induction past with
  | nil => rfl
  | cons m past ih =>
    cases m with
    | act n op => rw [play, List.length_modify, ih, number]
    | copy n =>
      rw [play, number, List.length_append, ih]
      split
      · next hn =>
        rw [List.getElem?_eq_getElem (ih ▸ hn)]
        rfl
      · next hn =>
        rw [List.getElem?_eq_none (ih ▸ Nat.le_of_not_lt hn)]
        rfl

theorem tidy_of_play (past : List (Move K)) {k : Nat} {r : Registry K}
    (hr : (play past)[k]? = some r) : r.Tidy ∧ r.flat = Flat.ofMoves past k := by
  induction past generalizing k r with
  | nil =>
    obtain rfl : {} = r := by
      cases k with
      | zero => exact Option.some.inj hr
      | succ k => cases hr
    exact ⟨tidy_empty, rfl⟩
  | cons m past ih =>
    cases m with
    | act n op =>
      rw [play, List.getElem?_modify] at hr
      obtain ⟨before, hbefore, rfl⟩ := Option.map_eq_some_iff.mp hr
      obtain ⟨htidy, hflat⟩ := ih hbefore
      rw [Flat.ofMoves, ← hflat]
      by_cases hn : n = k
      · simp only [if_pos hn]
        exact htidy.perform op
      · simpa only [if_neg hn, and_true] using htidy
    | copy n =>
      rw [play, List.getElem?_append, length_play] at hr
      rw [Flat.ofMoves]
      split at hr
      · next hk =>
        rw [if_neg hk.ne]
        exact ih hr
      · next hk =>
        -- behind the registries there is at most the copy
        obtain ⟨hlast, origin, horigin, rfl⟩ :
            k = number past ∧ ∃ origin, (play past)[n]? = some origin ∧ origin.copy = r := by
          cases horigin : (play past)[n]? with
          | none => simp [horigin] at hr
          | some origin =>
            rw [horigin, Option.map_some, Option.toList_some, List.getElem?_singleton] at hr
            split at hr
            · exact ⟨by omega, _, rfl, Option.some.inj hr⟩
            · cases hr
        rw [if_pos hlast, (ih horigin).1.copy]
        exact ih horigin

end Moves

/--
Whatever is done with a registry and its copies, each of them shows the flat maps that its own history gives
it.
-/
theorem shows_of_play (past : List (Move K)) : (play past).length = number past ∧
    ∀ k (r : Registry K), (play past)[k]? = some r → r.Shows (Flat.ofMoves past k) :=
  ⟨length_play past, fun _ _ hr => (tidy_of_play past hr).2 ▸ (tidy_of_play past hr).1.shows⟩

end Polyglot.Registry
