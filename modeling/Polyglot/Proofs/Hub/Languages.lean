import Polyglot.Build.Task
import Polyglot.Compiler.Basic
import Polyglot.Proofs.Config.Reader
import Polyglot.Proofs.Hub.Kept
import Polyglot.Proofs.Table

/-!
How names of languages are spelled wherever they stand: as keys of registries, in requests, in
configurations and with the items of a build.

A name is a word of ASCII letters, digits and underscores, and one line feed may follow it. Only in a
configuration none does, since it has no blank ends.
-/

namespace Polyglot

namespace Registry

variable {K : Type}

/--
All keys of a registry.
-/
def languages (r : Registry K) : List String :=
  r.byOutput.entries.flatMap (fun e => e.1 :: e.2.keys) ++ r.interpreters.keys

theorem mem_languages {r : Registry K} {lang : String} : lang ∈ r.languages ↔
    (∃ e ∈ r.byOutput.entries, lang = e.1 ∨ lang ∈ e.2.keys) ∨ lang ∈ r.interpreters.keys := by
  simp [languages]

end Registry

namespace Registry

variable {K : Type} {r : Registry K}

theorem row_of_mem_inputs {lang output : String} (h : lang ∈ (r.inputs output).keys) :
    (output, r.inputs output) ∈ r.byOutput.entries := by
  rw [inputs] at h ⊢
  cases hget : r.byOutput.get? output with
  | none => simp [hget, Table.keys] at h
  | some row => exact Table.mem_entries_of_get? hget

theorem mem_languages_of_inputs {lang output : String} (h : lang ∈ (r.inputs output).keys) :
    lang ∈ r.languages ∧ output ∈ r.languages := by
  have hrow := row_of_mem_inputs h
  exact ⟨mem_languages.mpr (.inl ⟨_, hrow, .inr h⟩), mem_languages.mpr (.inl ⟨_, hrow, .inl rfl⟩)⟩

theorem mem_languages_setTranspiler {lang input output : String} {c : K}
    (h : lang ∈ (r.setTranspiler input output c).languages) :
    lang = input ∨ lang = output ∨ lang ∈ r.languages := by
  rcases mem_languages.mp h with ⟨e, he, hlang⟩ | hlang
  · rcases Table.mem_entries_set he with rfl | he
    · rcases hlang with rfl | hlang
      · exact .inr (.inl rfl)
      · rcases Table.mem_keys_set hlang with rfl | hlang
        · exact .inl rfl
        · exact .inr (.inr (mem_languages_of_inputs hlang).1)
    · exact .inr (.inr (mem_languages.mpr (.inl ⟨e, he, hlang⟩)))
  · exact .inr (.inr (mem_languages.mpr (.inr hlang)))

theorem mem_languages_eraseTranspiler {lang input output : String}
    (h : lang ∈ (r.eraseTranspiler input output).languages) : lang ∈ r.languages := by
  simp only [eraseTranspiler] at h
  split at h
  · rcases mem_languages.mp h with ⟨e, he, hlang⟩ | hlang
    · exact mem_languages.mpr (.inl ⟨e, Table.mem_entries_erase he, hlang⟩)
    · exact mem_languages.mpr (.inr hlang)
  · next hleft =>
    obtain ⟨other, hother⟩ : ∃ other, other ∈ ((r.inputs output).erase input).keys := by
      apply List.exists_mem_of_ne_nil
      simpa [Table.keys, Table.isEmpty] using hleft
    rcases mem_languages.mp h with ⟨e, he, hlang⟩ | hlang
    · rcases Table.mem_entries_set he with rfl | he
      · rcases hlang with rfl | hlang
        · exact (mem_languages_of_inputs (Table.mem_keys_erase hother)).2
        · exact (mem_languages_of_inputs (Table.mem_keys_erase hlang)).1
      · exact mem_languages.mpr (.inl ⟨e, he, hlang⟩)
    · exact mem_languages.mpr (.inr hlang)

/--
What a registry comes to from an empty one. Its pairs and languages come as values, and those that are
no names are refused; compilers that a hub runs may take pairs out.
-/
inductive Grown : Registry K → Prop where
  | empty : Grown {}
  | registerTranspiler {r r' : Registry K} (h : Grown r) (input output : Value) (c : Option K)
      (hdone : r.registerTranspiler input output c = .ok r') : Grown r'
  | removeTranspiler {r r' : Registry K} (h : Grown r) (input output : Value)
      (hdone : r.removeTranspiler input output = .ok r') : Grown r'
  | registerInterpreter {r r' : Registry K} (h : Grown r) (lang : Value) (c : Option K)
      (hdone : r.registerInterpreter lang c = .ok r') : Grown r'
  | removeInterpreter {r r' : Registry K} (h : Grown r) (lang : Value)
      (hdone : r.removeInterpreter lang = .ok r') : Grown r'
  | eraseTranspiler {r : Registry K} (h : Grown r) (input output : String) :
      Grown (r.eraseTranspiler input output)

theorem spelled_of_languagePair {input output : Value} {i o : String}
    (h : languagePair input output = .ok (i, o)) : Spelled i ∧ Spelled o := by
  obtain ⟨i', hi, h⟩ := bind_eq_ok.mp h
  obtain ⟨o', ho, h⟩ := bind_eq_ok.mp h
  cases h
  rw [mapError_eq_ok, Language.ofValue_eq_ok_iff] at hi ho
  exact ⟨hi.2, ho.2⟩

theorem spelled_of_language {lang : Value} {l : String} (h : language lang = .ok l) : Spelled l := by
  rw [language, mapError_eq_ok, Language.ofValue_eq_ok_iff] at h
  exact h.2

theorem Grown.spelled (h : Grown r) : ∀ lang ∈ r.languages, Spelled lang := by
  induction h with
  | empty => simp [languages, Table.keys]
  | registerTranspiler _ input output c hdone ih =>
    intro lang hlang
    obtain ⟨⟨i, o⟩, hpair, hdone⟩ := bind_eq_ok.mp hdone
    cases c with
    | none => cases hdone
    | some c =>
      cases hdone
      obtain ⟨hi, ho⟩ := spelled_of_languagePair hpair
      rcases mem_languages_setTranspiler hlang with rfl | rfl | hlang
      · exact hi
      · exact ho
      · exact ih lang hlang
  | removeTranspiler _ input output hdone ih =>
    intro lang hlang
    obtain ⟨⟨i, o⟩, _, hdone⟩ := bind_eq_ok.mp hdone
    cases hdone
    exact ih lang (mem_languages_eraseTranspiler hlang)
  | registerInterpreter _ lang' c hdone ih =>
    intro lang hlang
    obtain ⟨l, hl, hdone⟩ := bind_eq_ok.mp hdone
    cases c with
    | none => cases hdone
    | some c =>
      cases hdone
      rcases mem_languages.mp hlang with hrow | hlang
      · exact ih lang (mem_languages.mpr (.inl hrow))
      · rcases Table.mem_keys_set hlang with rfl | hlang
        · exact spelled_of_language hl
        · exact ih lang (mem_languages.mpr (.inr hlang))
  | removeInterpreter _ lang' hdone ih =>
    intro lang hlang
    obtain ⟨l, _, hdone⟩ := bind_eq_ok.mp hdone
    cases hdone
    rcases mem_languages.mp hlang with hrow | hlang
    · exact ih lang (mem_languages.mpr (.inl hrow))
    · exact ih lang (mem_languages.mpr (.inr (Table.mem_keys_erase hlang)))
  | eraseTranspiler _ input output ih =>
    intro lang hlang
    exact ih lang (mem_languages_eraseTranspiler hlang)

theorem languagePair_of_spelled {input output : String} (hi : Spelled input) (ho : Spelled output) :
    languagePair (.str input) (.str output) = .ok (input, output) := by
  rw [languagePair, Language.ofValue_eq_ok_iff.mpr ⟨rfl, hi⟩, Language.ofValue_eq_ok_iff.mpr ⟨rfl, ho⟩]
  rfl

theorem Grown.setTranspiler {input output : String} (h : Grown r) (hi : Spelled input)
    (ho : Spelled output) (c : K) : Grown (r.setTranspiler input output c) := by
  apply h.registerTranspiler (.str input) (.str output) (some c)
  rw [Registry.registerTranspiler, languagePair_of_spelled hi ho]
  rfl

theorem Grown.setInterpreter {lang : String} (h : Grown r) (hlang : Spelled lang) (c : K) :
    Grown { r with interpreters := r.interpreters.set lang c } := by
  apply h.registerInterpreter (.str lang) (some c)
  rw [Registry.registerInterpreter, language, Language.ofValue_eq_ok_iff.mpr ⟨rfl, hlang⟩]
  rfl

/--
The registries that a hub may have when all that is registered is registered under names.
-/
def grown (K : Type) : Hub.Stock K where
  holds := Grown
  erase := fun input output h => h.eraseTranspiler input output

end Registry

theorem Builtin.grown_registry {K : Type} (inject : Builtin → K) :
    Registry.Grown (registry inject) := by
  have htranspilers (ls : List (String × String × Builtin)) {r : Registry K} (hr : r.Grown)
      (hls : ∀ l ∈ ls, Language.isName l.1 ∧ Language.isName l.2.1) :
      Registry.Grown (ls.foldl (fun r l => r.setTranspiler l.1 l.2.1 (inject l.2.2)) r) := by
    induction ls generalizing r with
    | nil => exact hr
    | cons l ls ih =>
      obtain ⟨hi, ho⟩ := hls l List.mem_cons_self
      apply ih (hr.setTranspiler (Language.isName_iff.mp hi) (Language.isName_iff.mp ho) _)
      exact fun l hl => hls l (List.mem_cons_of_mem _ hl)
  have hinterpreters (ls : List (String × Builtin)) {r : Registry K} (hr : r.Grown)
      (hls : ∀ l ∈ ls, Language.isName l.1) : Registry.Grown { r with
        interpreters := ls.foldl (fun t l => t.set l.1 (inject l.2)) r.interpreters } := by
    induction ls generalizing r with
    | nil => exact hr
    | cons l ls ih =>
      have hl := hr.setInterpreter (Language.isName_iff.mp (hls l List.mem_cons_self)) (inject l.2)
      exact ih hl fun l hl => hls l (List.mem_cons_of_mem _ hl)
  exact hinterpreters interpreters (htranspilers transpilers .empty (by decide)) (by decide)

theorem Config.isWord_of_ofValue {v : Value} {c : Config} (h : ofValue v = .ok c) :
    IsWord c.component.markup ∧ IsWord c.component.logic ∧ IsWord c.component.style :=
  have hc := (sound_of_ofValue h).component
  ⟨hc.markup, hc.logic, hc.style⟩

theorem Build.spelled_of_collect {w : World} {source output : AbsPath} {i : Item}
    (h : i ∈ collect w source output) : Spelled i.lang := by
  obtain ⟨lang, hlang, hi⟩ := List.mem_flatMap.mp h
  obtain ⟨n, _, rfl⟩ := List.mem_map.mp hi
  exact Language.isName_iff.mp (List.mem_filter.mp hlang).2

theorem Request.Named.spelled {r : Request} (h : r.Named) :
    Spelled r.inputLang ∧ ∀ lang, r.outputLang = some lang → Spelled lang := by
  refine ⟨Language.isName_iff.mp h.input, ?_⟩
  intro lang hlang
  have houtput := h.output
  split at houtput
  · obtain ⟨_, hsome, hname⟩ := houtput
    obtain rfl := Option.some.inj (hlang.symm.trans hsome)
    exact Language.isName_iff.mp hname
  · rw [hlang] at houtput
    cases houtput

namespace Hub

open Loop

variable {K X : Type}

/--
Whatever happens to a hub, its registry included, a value is taken for the name of a language exactly
if it is a word or a word and a line feed, and all keys of the registry are spelled so, and the
languages of all requests that are made from options, are taken or have been finished, and of all
items that a build finds. The languages of a configuration that is accepted are words alone.
-/
theorem spelled_of_reached {m : Machine K X} {tasks : List Nat} {s : Loop K X}
    (h : (Registry.grown K).Reached m tasks s) :
    (∀ v, Language.isNameValue v ↔ ∃ name, v = .str name ∧ Spelled name) ∧
    (∀ what v name, Language.ofValue what v = .ok name ↔ v = .str name ∧ Spelled name) ∧
    (∀ lang ∈ s.shared.registry.languages, Spelled lang) ∧
    (∀ mode options start depth r, requestOf mode options start depth = .ok r →
      Spelled r.inputLang ∧ ∀ lang, r.outputLang = some lang → Spelled lang) ∧
    (∀ parent r, .asked parent r ∈ s.shared.history →
      Spelled r.inputLang ∧ ∀ lang, r.outputLang = some lang → Spelled lang) ∧
    (∀ e, .finished e ∈ s.shared.history →
      Spelled e.request.inputLang ∧ ∀ lang, e.request.outputLang = some lang → Spelled lang) ∧
    (∀ v c, Config.ofValue v = .ok c →
      IsWord c.component.markup ∧ IsWord c.component.logic ∧ IsWord c.component.style) ∧
    ∀ w source output, ∀ i ∈ Build.collect w source output, Spelled i.lang := by
  obtain ⟨_, _, hinv, _⟩ := h.orderly
  refine ⟨fun v => Language.isNameValue_iff, fun what v name => Language.ofValue_eq_ok_iff, ?_, ?_, ?_,
    ?_, fun v c => Config.isWord_of_ofValue, fun w source output i => Build.spelled_of_collect⟩
  · exact Registry.Grown.spelled hinv.fits
  · intro mode options start depth r hr
    exact (made_of_requestOf hr).named.spelled
  · intro parent r hasked
    exact (hinv.sound _ hasked).1.spelled
  · intro e hfinished
    exact Request.Named.spelled (hinv.sound _ hfinished)

def lineStart : State Unit Unit where
  registry := { interpreters := Table.set {} "py\n" () }
  ext := ()

def lineAsk : Ask := ⟨.interpret, .ofFields [("source", .str ""), ("lang", .str "py\n")]⟩

def lineEnd : Loop Unit Unit :=
  Move.apply mute (Move.apply mute { shared := lineStart } (.request lineAsk)) (.fire 0)

theorem reached_lineEnd : (Registry.grown Unit).Reached mute [0] lineEnd := by
  have hspelled : Spelled "py\n" := Language.isName_iff.mp (by decide)
  have hgrown : Registry.Grown lineStart.registry := Registry.Grown.empty.setInterpreter hspelled ()
  have hnew : (Registry.grown Unit).Reached mute [] { shared := lineStart } :=
    .new ⟨rfl, rfl, rfl, rfl⟩ hgrown
  exact (hnew.request lineAsk).other (.fire 0) (by simp) (by simp)

def isAskedFor (lang : String) : Event → Bool
  | .asked _ r => r.inputLang == lang
  | _ => false

/--
A line feed after a name comes through to the registry of a hub and to the requests that it takes.
-/
theorem line_spelled :
    (Registry.grown Unit).Reached mute [0] lineEnd ∧ "py\n" ∈ lineEnd.shared.registry.languages ∧
      Spelled "py\n" ∧ ¬ IsWord "py\n" ∧
      ∃ parent r, .asked parent r ∈ lineEnd.shared.history ∧ r.inputLang = "py\n" ∧
        Spelled r.inputLang := by
  obtain ⟨_, _, hkeys, _, hasked, _⟩ := spelled_of_reached reached_lineEnd
  have hkey : "py\n" ∈ lineEnd.shared.registry.languages := by decide +kernel
  have hany : lineEnd.shared.history.any (isAskedFor "py\n") = true := by decide +kernel
  obtain ⟨event, hmem, hevent⟩ := List.any_eq_true.mp hany
  unfold isAskedFor at hevent
  split at hevent
  · next parent r =>
    refine ⟨reached_lineEnd, hkey, hkeys _ hkey, ?_, parent, r, hmem, beq_iff_eq.mp hevent,
      (hasked parent r hmem).1⟩
    intro hword
    exact absurd ((Language.isWord_iff.mp hword).2 '\n' (by decide)) (by decide)
  · cases hevent

end Hub

end Polyglot
