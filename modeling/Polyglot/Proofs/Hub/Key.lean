import Polyglot.Hub.Options
import Polyglot.Proofs.Outcome

/-!
Requests that a hub makes from options, and their keys: a key tells the languages and the location of
its request, since no name of a language holds the marks between them.
-/

namespace Polyglot

theorem cut_inj {c : Char} {as as' bs bs' : List Char} (h : c ∉ as) (h' : c ∉ as')
    (heq : as ++ c :: bs = as' ++ c :: bs') : as = as' ∧ bs = bs' := by
  induction as generalizing as' with
  | nil =>
    cases as' with
    | nil => exact ⟨rfl, List.tail_eq_of_cons_eq heq⟩
    | cons a' as' =>
      obtain rfl : c = a' := List.head_eq_of_cons_eq heq
      exact absurd List.mem_cons_self h'
  | cons a as ih =>
    cases as' with
    | nil =>
      obtain rfl : a = c := List.head_eq_of_cons_eq heq
      exact absurd List.mem_cons_self h
    | cons a' as' =>
      obtain rfl : a = a' := List.head_eq_of_cons_eq heq
      obtain ⟨rfl, hbs⟩ := ih (fun hc => h (List.mem_cons_of_mem _ hc))
        (fun hc => h' (List.mem_cons_of_mem _ hc)) (List.tail_eq_of_cons_eq heq)
      exact ⟨rfl, hbs⟩

theorem Language.not_mem_of_isName {s : String} (h : isName s) {c : Char} (hc : isNameChar c = false)
    (hline : c ≠ '\n') : c ∉ s.toList := by
  intro hmem
  simp only [isName, Bool.and_eq_true, List.all_eq_true] at h
  have hbody : c ∈ body s.toList := by
    rw [body]
    split
    · next hlast =>
      obtain ⟨front, hfront⟩ := List.getLast?_eq_some_iff.mp (beq_iff_eq.mp hlast)
      rw [hfront] at hmem ⊢
      rw [List.dropLast_concat]
      rcases List.mem_append.mp hmem with hmem | hmem
      · exact hmem
      · exact absurd (List.mem_singleton.mp hmem) hline
    · exact hmem
  have := h.2 c hbody
  rw [hc] at this
  cases this

/--
A request between languages that have names: a transpile request has an output language, an interpret
request has none.
-/
structure Request.Named (r : Request) : Prop where
  input : Language.isName r.inputLang
  output : match r.mode with
    | .transpile => ∃ lang, r.outputLang = some lang ∧ Language.isName lang
    | .interpret => r.outputLang = none

/--
Two requests of a mode have the same key only if they have the same languages and location.
-/
theorem Request.Named.of_key_eq {r r' : Request} (h : r.Named) (h' : r'.Named)
    (hmode : r.mode = r'.mode) (hkey : r.key = r'.key) :
    r.inputLang = r'.inputLang ∧ r.outputLang = r'.outputLang ∧ r.location = r'.location := by
  have hinput (c : Char) (hc : Language.isNameChar c = false) (hline : c ≠ '\n') :
      c ∉ r.inputLang.toList ∧ c ∉ r'.inputLang.toList :=
    ⟨Language.not_mem_of_isName h.input hc hline, Language.not_mem_of_isName h'.input hc hline⟩
  obtain ⟨hdash, hdash'⟩ := hinput '-' (by decide) (by decide)
  obtain ⟨hslash, hslash'⟩ := hinput '/' (by decide) (by decide)
  have ho := h.output
  have ho' := h'.output
  rw [← hmode] at ho'
  rw [Request.key, Request.key, ← hmode] at hkey
  cases hm : r.mode with
  | transpile =>
    rw [hm] at ho ho' hkey
    obtain ⟨lang, hlang, hname⟩ := ho
    obtain ⟨lang', hlang', hname'⟩ := ho'
    rw [hlang, hlang']
    have hchars := congrArg String.toList hkey
    simp only [cacheKey, hlang, hlang', Option.getD_some, String.toList_append] at hchars
    have hcut : r.inputLang.toList ++ '-' :: (lang.toList ++ '/' :: r.location.toList) =
        r'.inputLang.toList ++ '-' :: (lang'.toList ++ '/' :: r'.location.toList) := by
      simpa using hchars
    obtain ⟨hin, hrest⟩ := cut_inj hdash hdash' hcut
    obtain ⟨hout, hloc⟩ := cut_inj (Language.not_mem_of_isName hname (by decide) (by decide))
      (Language.not_mem_of_isName hname' (by decide) (by decide)) hrest
    exact ⟨String.toList_inj.mp hin, congrArg some (String.toList_inj.mp hout),
      String.toList_inj.mp hloc⟩
  | interpret =>
    rw [hm] at ho ho' hkey
    have hchars := congrArg String.toList hkey
    have hcut : r.inputLang.toList ++ '/' :: r.location.toList =
        r'.inputLang.toList ++ '/' :: r'.location.toList := by
      simpa [cacheKey] using hchars
    obtain ⟨hin, hloc⟩ := cut_inj hslash hslash' hcut
    exact ⟨String.toList_inj.mp hin, ho.trans ho'.symm, String.toList_inj.mp hloc⟩

namespace Hub

theorem isName_of_ofValue {what lang : String} {v : Value} (h : Language.ofValue what v = .ok lang) :
    Language.isName lang := by
  rw [Language.ofValue.eq_def] at h
  split at h
  · split at h
    · next hname =>
      cases h
      exact hname
    · cases h
  · cases h
  · cases h

theorem isName_of_languageOption {es : Fields} {key lang : String}
    (h : languageOption es key = .ok (some lang)) : Language.isName lang := by
  rw [languageOption] at h
  split at h
  · cases h
  · rw [mapError_eq_ok, map_eq_ok] at h
    obtain ⟨_, hv, heq⟩ := h
    cases heq
    exact isName_of_ofValue hv

/--
A wish for languages that have names, with a language where there is a text.
-/
structure Wish.Named (w : Wish) (mode : Mode) : Prop where
  input : ∀ lang, w.input = some lang → Language.isName lang
  output : match mode with
    | .transpile => ∃ lang, w.output = some lang ∧ Language.isName lang
    | .interpret => w.output = none
  inline : ∀ source, w.origin = .inline source → w.input.isSome

theorem isSome_of_originOf {mode : Mode} {es : Fields} {input : Option String} {source : String}
    (h : originOf mode es input = .ok (.inline source)) : input.isSome := by
  obtain ⟨location, hlocation, h⟩ := bind_eq_ok.mp h
  split at h
  · cases h
  · next origin _ =>
    cases h
    rw [locationOption] at hlocation
    split at hlocation <;> cases hlocation
  · cases h
  · obtain ⟨origin, -, h⟩ := bind_eq_ok.mp h
    cases input with
    | some lang => rfl
    | none => cases h

theorem Wish.named_of_fields {mode : Mode} {es : Fields} {w : Wish} (h : Wish.ofFields mode es = .ok w) :
    w.Named mode := by
  obtain ⟨compilerOptions, _, h⟩ := bind_eq_ok.mp h
  obtain ⟨executerOptions, _, h⟩ := bind_eq_ok.mp h
  obtain ⟨output, houtput, h⟩ := bind_eq_ok.mp h
  obtain ⟨input, hinput, h⟩ := bind_eq_ok.mp h
  obtain ⟨origin, horigin, h⟩ := bind_eq_ok.mp h
  cases h
  refine ⟨?_, ?_, ?_⟩
  · rintro lang rfl
    exact isName_of_languageOption hinput
  · cases mode with
    | interpret =>
      cases houtput
      rfl
    | transpile =>
      obtain ⟨found, hfound, h⟩ := bind_eq_ok.mp houtput
      cases found with
      | none => cases h
      | some lang =>
        cases h
        exact ⟨lang, rfl, isName_of_languageOption hfound⟩
  · rintro source rfl
    exact isSome_of_originOf horigin

theorem isName_of_ofLocation {location lang : String}
    (h : Language.ofLocation location = .ok (some lang)) : Language.isName lang := by
  have hpath {path : List Char} (h : Language.ofPath? path = some lang) : Language.isName lang := by
    simp only [Language.ofPath?] at h
    split at h
    · next hname =>
      cases h
      exact hname
    · cases h
  rw [Language.ofLocation] at h
  split at h
  · obtain ⟨u, _, hu⟩ := map_eq_ok.mp h
    exact hpath hu
  · exact hpath (Except.ok.inj h)

theorem Wish.Named.language {w : Wish} {mode : Mode} {location lang : String} (hw : w.Named mode)
    (h : w.language mode location = .ok lang) : Language.isName lang := by
  rw [Wish.language] at h
  split at h
  · next given hgiven =>
    cases h
    exact hw.input _ hgiven
  · obtain ⟨found, hfound, h⟩ := bind_eq_ok.mp h
    cases found with
    | none => cases h
    | some found =>
      cases h
      exact isName_of_ofLocation (mapError_eq_ok.mp hfound)

/--
What is known of every request that a hub makes from options.
-/
structure Made (mode : Mode) (depth : Nat) (r : Request) : Prop where
  mode : r.mode = mode
  depth : r.depth = depth
  named : r.Named
  fresh : r.cacheHit = false

theorem Wish.request_cases {w : Wish} {mode : Mode} {start : String} {depth : Nat} {r : Request}
    (h : w.request mode start depth = .ok r) :
    (∃ source, w.origin = .inline source ∧ r =
      { mode, depth, location := inlineLocation start source, inputLang := w.input.getD "",
        outputLang := w.output, source := some source, debug := w.debug, allowCache := w.allowCache,
        compilerOptions := w.compilerOptions, executerOptions := w.executerOptions }) ∨
    ∃ location lang, w.origin = .location location ∧ w.language mode location = .ok lang ∧ r =
      { mode, depth, location, inputLang := lang, outputLang := w.output, debug := w.debug,
        allowCache := w.allowCache, fromLocation := true, compilerOptions := w.compilerOptions,
        executerOptions := w.executerOptions } := by
  simp only [Wish.request] at h
  split at h
  · next source horigin =>
    cases h
    exact .inl ⟨source, horigin, rfl⟩
  · cases h
  · next location horigin =>
    obtain ⟨lang, hlang, h⟩ := bind_eq_ok.mp h
    cases h
    exact .inr ⟨location, lang, horigin, hlang, rfl⟩
  · obtain ⟨_, -, h⟩ := bind_eq_ok.mp h
    cases h

theorem made_of_wish {w : Wish} {mode : Mode} {start : String} {depth : Nat} {r : Request}
    (hw : w.Named mode) (h : w.request mode start depth = .ok r) : Made mode depth r := by
  obtain ⟨source, horigin, rfl⟩ | ⟨location, lang, -, hlang, rfl⟩ := Wish.request_cases h
  · obtain ⟨lang, hlang⟩ := Option.isSome_iff_exists.mp (hw.inline source horigin)
    refine ⟨rfl, rfl, ⟨?_, hw.output⟩, rfl⟩
    rw [hlang]
    exact hw.input lang hlang
  · exact ⟨rfl, rfl, ⟨hw.language hlang, hw.output⟩, rfl⟩

theorem made_of_requestOf {mode : Mode} {options : Value} {start : String} {depth : Nat} {r : Request}
    (h : requestOf mode options start depth = .ok r) : Made mode depth r := by
  rw [requestOf.eq_def] at h
  split at h
  · obtain ⟨w, hw, h⟩ := bind_eq_ok.mp h
    rw [mapError_eq_ok] at hw
    exact made_of_wish (Wish.named_of_fields hw) h
  · cases h

end Hub

end Polyglot
