import Mathlib.Data.List.TakeWhile
import Polyglot.Hub.Options
import Polyglot.Proofs.Outcome
import Polyglot.Proofs.Text.Search

/-!
What the options of a caller come to: when they are refused, when no language is found for them, and which
request they determine else.
-/

namespace Polyglot

namespace Value

end Value

namespace Path

theorem exists_stem_of_extension {name ext : List Char} (hne : ext ≠ []) (h : (extension name).drop 1 = ext) :
    ∃ stem, name = stem ++ '.' :: ext ∧ stem ≠ [] ∧ '.' ∉ ext := by
  rw [extension] at h
  split at h
  · exact absurd h.symm hne
  · next hdot =>
    rw [List.drop_succ_cons, List.drop_zero] at h
    have hname : (name.reverse.dropWhile (· != '.')).reverse ++ ext = name := by
      rw [← h, ← List.reverse_append, List.takeWhile_append_dropWhile, List.reverse_reverse]
    have hlength := congrArg List.length hname
    rw [List.length_append, List.length_reverse] at hlength
    rw [h, Bool.or_eq_true, decide_eq_true_eq, not_or] at hdot
    have hfirst := List.head?_dropWhile_not (· != '.') name.reverse
    cases hrest : name.reverse.dropWhile (· != '.') with
    | nil =>
      rw [hrest, List.length_nil] at hlength
      omega
    | cons c more =>
      rw [hrest] at hname hlength hfirst
      obtain rfl : c = '.' := by simpa using hfirst
      refine ⟨more.reverse, by rw [← hname]; simp, ?_, ?_⟩
      · rintro hnil
        rw [List.reverse_eq_nil_iff.mp hnil, List.length_singleton] at hlength
        omega
      · rw [← h, List.mem_reverse]
        intro hmem
        simpa using List.mem_takeWhile_imp hmem

theorem extension_append {stem ext : List Char} (hne : ext ≠ []) (hstem : stem ≠ []) (hext : '.' ∉ ext) :
    extension (stem ++ '.' :: ext) = '.' :: ext := by
  have hnodot (c : Char) (hc : c ∈ ext.reverse) : (c != '.') = true := by
    rw [bne_iff_ne]
    rintro rfl
    exact hext (List.mem_reverse.mp hc)
  have hdot : ∀ c ∈ ('.' :: stem.reverse).head?, (c != '.') = false := by simp
  have hscan := Text.takeWhile_stop hnodot hdot
  have hreverse : (stem ++ '.' :: ext).reverse = ext.reverse ++ '.' :: stem.reverse := by simp
  have hpos := List.length_pos_iff.mpr hstem
  have hlong : ¬ (ext.isEmpty || decide ((stem ++ '.' :: ext).length - ext.length ≤ 1)) = true := by
    rw [Bool.or_eq_true, List.isEmpty_iff, decide_eq_true_eq, List.length_append, List.length_cons]
    rintro (hnil | hle)
    · exact hne hnil
    · omega
  rw [extension, hreverse, hscan.1, List.reverse_reverse, if_neg hlong]

theorem extension_eq_iff {name ext : List Char} (hne : ext ≠ []) : (extension name).drop 1 = ext ↔
    ∃ stem, name = stem ++ '.' :: ext ∧ stem ≠ [] ∧ '.' ∉ ext := by
  constructor
  · exact exists_stem_of_extension hne
  · rintro ⟨stem, rfl, hstem, hext⟩
    rw [extension_append hne hstem hext, List.drop_succ_cons, List.drop_zero]

end Path

namespace Language

/--
The last part of a path is a name with an extension that is a language.
-/
def Ends (path : List Char) (lang : String) : Prop :=
  ∃ stem, (Path.plainParts (Text.replaceChar '\\' ['/'] path)).getLastD [] = stem ++ '.' :: lang.toList ∧
    stem ≠ [] ∧ '.' ∉ lang.toList ∧ isName lang

theorem ofPath_eq_some_iff {path : List Char} {lang : String} : ofPath? path = some lang ↔ Ends path lang := by
  have hne (h : isName lang) : lang.toList ≠ [] := by
    intro hnil
    rw [isName, hnil] at h
    cases h
  rw [ofPath?]
  constructor
  · intro h
    split at h
    · next hname =>
      cases h
      obtain ⟨stem, hpart, hstem, hdot⟩ :=
        (Path.extension_eq_iff (hne hname)).mp String.toList_ofList.symm
      exact ⟨stem, hpart, hstem, hdot, hname⟩
    · cases h
  · rintro ⟨stem, hpart, hstem, hdot, hname⟩
    rw [(Path.extension_eq_iff (hne hname)).mpr ⟨stem, hpart, hstem, hdot⟩, String.ofList_toList, if_pos hname]

/--
A location shows a language by an extension; of a web address only the path counts.
-/
def Shows (location lang : String) : Prop :=
  if Url.isWeb location then ∃ u, Url.split [] location.toList = .ok u ∧ Ends u.path lang
  else Ends location.toList lang

theorem exists_ofLocation {location : String}
    (h : Url.isWeb location → ∃ u, Url.split [] location.toList = .ok u) :
    ∃ found, ofLocation location = .ok found ∧ ∀ lang, found = some lang ↔ Shows location lang := by
  rw [ofLocation]
  by_cases hweb : Url.isWeb location
  · obtain ⟨u, hu⟩ := h hweb
    rw [if_pos hweb, hu]
    refine ⟨_, rfl, fun lang => ?_⟩
    rw [ofPath_eq_some_iff, Shows, if_pos hweb, hu]
    simp
  · rw [if_neg hweb]
    refine ⟨_, rfl, fun lang => ?_⟩
    rw [ofPath_eq_some_iff, Shows, if_neg hweb]

end Language

namespace Hub

open Polyglot.Language

variable {mode : Mode} {es : Fields} {key : String}

/--
The option of a name; null where there is none.
-/
def optionOf (es : Fields) (key : String) : Value :=
  (Value.find? es key).getD .null

/--
The location that options give, mended if it is torn.
-/
def locationOf (es : Fields) : Option String :=
  if (optionOf es "location").isString then some (optionOf es "location").plain else none

/--
No language is given, and the location shows none.
-/
def Unresolved (mode : Mode) (es : Fields) (location : String) : Prop :=
  locationOf es = some location ∧ optionOf es (languageKey mode) = .null ∧
    ∀ lang, ¬ Shows location lang

def IsMapping (v : Value) (own : Fields) : Prop :=
  v = .map own ∨ v = .null ∧ own = []

def IsOutput (mode : Mode) (v : Value) (output : Option String) : Prop :=
  match mode with
  | .transpile => ∃ lang, v = .str lang ∧ isName lang ∧ output = some lang
  | .interpret => output = none

def IsInput (v : Value) (input : Option String) : Prop :=
  v = .null ∧ input = none ∨ ∃ lang, v = .str lang ∧ isName lang ∧ input = some lang

def IsOrigin (location source : Value) (input : Option String) : Origin → Prop
  | .location s => location = .str s ∧ source = .null
  | .nowhere t => location = .torn t ∧ source = .null
  | .inline s => location = .null ∧ source = .str s ∧ input.isSome
  | .torn t => location = .null ∧ source = .torn t ∧ input.isSome

section Parts

theorem IsOrigin.isString {location source : Value} {input : Option String} {origin : Origin}
    (h : IsOrigin location source input origin) :
    location.isString ∧ source = .null ∨ location = .null ∧ source.isString ∧ input.isSome := by
  cases origin with
  | location | nowhere => exact .inl ⟨by rw [h.1]; rfl, h.2⟩
  | inline | torn => exact .inr ⟨h.1, by rw [h.2.1]; rfl, h.2.2⟩

end Parts

/--
What options that are not invalid say.
-/
structure Says (mode : Mode) (es : Fields) (w : Wish) : Prop where
  compilerOptions : IsMapping (optionOf es "compiler_options") w.compilerOptions
  executerOptions : IsMapping (optionOf es "executer_options") w.executerOptions
  output : IsOutput mode (optionOf es "output_lang") w.output
  input : IsInput (optionOf es (languageKey mode)) w.input
  origin : IsOrigin (optionOf es "location") (optionOf es "source") w.input w.origin
  debug : w.debug = (optionOf es "debug").isTrue
  allowCache : w.allowCache = !(optionOf es "allow_cache").isFalse

theorem Says.language {w : Wish} (h : Says mode es w) {location : String}
    (hlocation : locationOf es = some location)
    (hurl : Url.isWeb location → ∃ u, Url.split [] location.toList = .ok u) :
    Unresolved mode es location ∧
        w.language mode location = .error (.unknownLanguage (languageKey mode) location) ∨
      ¬ Unresolved mode es location ∧ ∃ lang, w.language mode location = .ok lang ∧
        (optionOf es (languageKey mode) = .str lang ∨
          optionOf es (languageKey mode) = .null ∧ Shows location lang) := by
  rw [Wish.language]
  rcases h.input with ⟨hnull, hinput⟩ | ⟨lang, hlang, -, hinput⟩
  · obtain ⟨found, hfound, hshows⟩ := exists_ofLocation hurl
    rw [hinput, hfound]
    cases found with
    | none =>
      refine .inl ⟨⟨hlocation, hnull, fun lang => ?_⟩, rfl⟩
      rw [← hshows]
      nofun
    | some lang =>
      have hlang := (hshows lang).mp rfl
      exact .inr ⟨fun hun => hun.2.2 lang hlang, lang, rfl, .inr ⟨hnull, hlang⟩⟩
  · rw [hinput]
    exact .inr ⟨fun hun => (nomatch hlang.symm.trans hun.2.1), lang, rfl, .inl hlang⟩

end Hub

end Polyglot
