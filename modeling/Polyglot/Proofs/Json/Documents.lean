import Polyglot.Compiler.Builtin
import Polyglot.Proofs.Json.Grammar
import Polyglot.Proofs.Json.Reading

/-!
The JSON that the compilers for data formats write.
-/

namespace Polyglot

variable {X : Type} {b b' : Builtin} {r : Request} {w : Value} {options executerOptions : Fields}

theorem Call.ofExcept_bind_eq_answer {e : Except Failure Value} {f : Value → Except Failure Value}
    {next : Value → Call X} (h : Call.ofExcept (e >>= f) next = .answer w options executerOptions) :
    ∃ v u, e = .ok v ∧ f v = .ok u ∧ next u = .answer w options executerOptions := by
  cases e with
  | error e => cases h
  | ok v =>
    change Call.ofExcept (f v) next = _ at h
    cases hf : f v with
    | error e =>
      rw [hf] at h
      cases h
    | ok u =>
      rw [hf] at h
      exact ⟨v, u, rfl, hf, h⟩

namespace Builtin

/--
The compilers that write a data format as JSON, each with the one that gives the value.
-/
def jsonWriters : List (Builtin × Builtin) :=
  [(tomlToJson, tomlValue), (yamlToJson, yamlValue), (xmlToJson, xmlValue)]

theorem json_eq_ok {v : Value} (h : json v = .ok w) :
    ∃ s, Json.write? Json.compact 0 v = some s ∧ w = .output (.str s) .null := by
  rw [json] at h
  split at h
  · next s hs => exact ⟨s, hs, (Except.ok.inj h).symm⟩
  · cases h

theorem data_eq_answer {read : Except Failure Value}
    (h : data r read json = (.answer w options executerOptions : Call X)) :
    ∃ s v, w = .output (.str s) .null ∧ Json.write? Json.compact 0 v = some s ∧
      data r read plain = (.answer v options executerOptions : Call X) := by
  obtain ⟨v, u, rfl, hu, hanswer⟩ := Call.ofExcept_bind_eq_answer h
  obtain ⟨s, hs, rfl⟩ := json_eq_ok hu
  cases hanswer
  exact ⟨s, v, rfl, hs, rfl⟩

theorem xml_eq_answer (h : xml r json = (.answer w options executerOptions : Call X)) :
    ∃ s v, w = .output (.str s) .null ∧ Json.write? Json.compact 0 v = some s ∧
      xml r plain = (.answer v options executerOptions : Call X) := by
  obtain ⟨v, u, hv, hu, hanswer⟩ := Call.ofExcept_bind_eq_answer h
  obtain ⟨s, hs, rfl⟩ := json_eq_ok hu
  cases hanswer
  rw [xml, hv]
  exact ⟨s, v, rfl, hs, rfl⟩

theorem interpreted_of_written (hb : (b, b') ∈ jsonWriters)
    (h : perform b r = (.answer w options executerOptions : Call X)) :
    ∃ s v, w = .output (.str s) .null ∧ Json.write? Json.compact 0 v = some s ∧
      perform b' r = (.answer v options executerOptions : Call X) := by
  simp only [jsonWriters, List.mem_cons, List.not_mem_nil, or_false, Prod.mk.injEq] at hb
  rcases hb with ⟨rfl, rfl⟩ | ⟨rfl, rfl⟩ | ⟨rfl, rfl⟩
  · exact data_eq_answer h
  · exact data_eq_answer h
  · exact xml_eq_answer h

/--
The JSON of a document in a data format is the text of one JSON value exactly when all numbers of the
document are finite. In either case it is interpreted to the value of the document, with plain texts for
what JSON does not have, if it is not beyond the limits of reading.
-/
theorem written_interpreted (hb : (b, b') ∈ jsonWriters)
    (h : perform b r = (.answer w options executerOptions : Call X)) :
    ∃ s v, w = .output (.str s) .null ∧ perform b' r = (.answer v options executerOptions : Call X) ∧
      (Json.Grammar.IsDocument s.toList ↔ Json.finite v) ∧
      ∀ back : Request, back.text = s →
        (Json.fits Json.depthLimit v → perform jsonValue back = (.done back (Json.readBack v) : Call X)) ∧
        (¬ Json.fits Json.depthLimit v → ∃ e, e.fault ∈ Json.limits ∧
          perform jsonValue back = (.fail (.json e) : Call X)) := by
  obtain ⟨s, v, rfl, hs, hv⟩ := interpreted_of_written hb h
  obtain ⟨hread, hrefused⟩ := Json.read_written hs
  refine ⟨s, v, rfl, hv, Json.isDocument_iff hs, ?_⟩
  rintro back rfl
  constructor
  · intro hfits
    rw [perform, data, hread hfits]
    rfl
  · intro hfits
    obtain ⟨e, he, hlimit⟩ := hrefused hfits
    refine ⟨e, hlimit, ?_⟩
    rw [perform, data, he]
    rfl

def dated : Request :=
  { mode := .transpile, location := "/dated", inputLang := "toml", outputLang := some "json",
    source := some "d = 2024-01-02\nx = nan" }

def datedJson : String :=
  "\x7b\"d\":\"2024-01-02\",\"x\":NaN\x7d"

theorem dated_written :
    perform tomlToJson dated = (.answer (.output (.str datedJson) .null) [] [] : Call Unit) := by
  have hwritten : (Toml.read dated.text).toOption.bind (Json.write? Json.compact 0) = some datedJson := by
    decide +kernel
  rw [perform, data]
  cases hread : Toml.read dated.text with
  | error e =>
    rw [hread] at hwritten
    cases hwritten
  | ok v =>
    rw [hread] at hwritten
    change Call.ofExcept (json v) _ = _
    rw [json, show Json.write? Json.compact 0 v = some datedJson from hwritten]
    rfl

theorem dated_interpreted :
    ∃ v, perform tomlValue dated = (.answer v [] [] : Call Unit) ∧
      ¬ Json.Grammar.IsDocument datedJson.toList ∧
      ∀ back : Request, back.text = datedJson →
        perform jsonValue back = (.done back (Json.readBack v) : Call Unit) := by
  have hfacts : (Toml.read dated.text).toOption.map
      (fun v => (Json.finite v, Json.fits Json.depthLimit v)) = some (false, true) := by
    decide +kernel
  have hb : (tomlToJson, tomlValue) ∈ jsonWriters := List.mem_cons_self
  obtain ⟨s, v, hs, hv, hdocument, hback⟩ := written_interpreted hb dated_written
  obtain rfl := Value.str.inj (Value.output.inj hs).1
  have hread : (Toml.read dated.text).toOption = some v := by
    rw [perform, data] at hv
    cases hread : Toml.read dated.text with
    | error e =>
      rw [hread] at hv
      cases hv
    | ok u =>
      rw [hread] at hv
      cases hv
      rfl
  rw [hread] at hfacts
  obtain ⟨hfinite, hfits⟩ := Prod.mk.inj (Option.some.inj hfacts)
  refine ⟨v, hv, ?_, fun back h => (hback back h).1 hfits⟩
  rw [hdocument, hfinite]
  decide

end Builtin

end Polyglot
