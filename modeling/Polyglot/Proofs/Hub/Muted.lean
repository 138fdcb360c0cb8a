import Polyglot.Proofs.Hub.Depth
import Polyglot.Proofs.Hub.Plain
import Polyglot.Proofs.Loop.Pairs

/-!
Two hubs that may differ in what they have reported and in nothing else, and how requests whose options
differ in the debug flag alone are made ready in them.
-/

namespace Polyglot

variable {K X : Type}

def Request.debugged (r : Request) (debug : Bool) : Request := { r with debug }

def Envelope.debugged (e : Envelope) (debug : Bool) : Envelope :=
  { e with request := e.request.debugged debug }

theorem Request.debugged_self (r : Request) : r.debugged r.debug = r := rfl

theorem Envelope.debugged_self (e : Envelope) : e.debugged e.request.debug = e := rfl

namespace Hub

open Loop

def State.mute (x : State K X) : State K X := { x with records := [], history := [] }

/--
Two mappings of options differ in the debug flag at most.
-/
def SameButDebug (es es' : Fields) : Prop :=
  ∀ key, key ≠ "debug" → Value.find? es key = Value.find? es' key

section Options

variable {es es' : Fields} (h : SameButDebug es es')
include h

theorem optionMapping_debug {key : String} (hkey : key ≠ "debug") :
    optionMapping es key = optionMapping es' key := by
  rw [optionMapping, optionMapping, h key hkey]

theorem languageOption_debug {key : String} (hkey : key ≠ "debug") :
    languageOption es key = languageOption es' key := by
  rw [languageOption, languageOption, h key hkey]

theorem originOf_debug (mode : Mode) (input : Option String) :
    originOf mode es input = originOf mode es' input := by
  rw [originOf, originOf, locationOption, locationOption, h "location" (by decide), h "source" (by decide)]

theorem ofFields_debug (mode : Mode) : Wish.ofFields mode es' =
    (Wish.ofFields mode es).map fun w => { w with debug := isDebug es' } := by
  have hlanguage : languageKey mode ≠ "debug" := by cases mode <;> decide
  have houtput : outputOption mode es' = outputOption mode es := by
    cases mode with
    | interpret => rfl
    | transpile => rw [outputOption, outputOption, languageOption_debug h (by decide)]
  rw [Wish.ofFields, Wish.ofFields, ← optionMapping_debug h (by decide), ← optionMapping_debug h (by decide),
    ← languageOption_debug h hlanguage, houtput, ← h "allow_cache" (by decide)]
  simp only [originOf_debug h]
  cases optionMapping es "compiler_options" with
  | error e => rfl
  | ok compilerOptions =>
    cases optionMapping es "executer_options" with
    | error e => rfl
    | ok executerOptions =>
      cases outputOption mode es with
      | error e => rfl
      | ok output =>
        cases languageOption es (languageKey mode) with
        | error e => rfl
        | ok input =>
          simp only [bind, Except.bind]
          cases originOf mode es' input with
          | error e => rfl
          | ok origin => rfl

end Options

theorem request_debugged (w : Wish) (mode : Mode) (start : String) (depth : Nat) (debug : Bool) :
    Wish.request { w with debug } mode start depth =
      (w.request mode start depth).map fun r => r.debugged debug := by
  have hlanguage (location : String) :
      Wish.language { w with debug } mode location = w.language mode location := rfl
  simp only [Wish.request, hlanguage]
  cases w.origin with
  | inline | torn => rfl
  | location location =>
    dsimp only
    cases w.language mode location <;> rfl
  | nowhere location =>
    dsimp only
    cases w.language mode location.mended <;> rfl

theorem requestOf_debug {es es' : Fields} (h : SameButDebug es es') (mode : Mode) (start : String)
    (depth : Nat) : requestOf mode (.map es') start depth =
      (requestOf mode (.map es) start depth).map fun r => r.debugged (isDebug es') := by
  simp only [requestOf]
  rw [ofFields_debug h mode]
  cases Wish.ofFields mode es with
  | error e => rfl
  | ok w => exact request_debugged w mode start depth _

/--
Two things that are asked for come to requests that differ in the debug flag alone, which is `debug` in
the one and `debug'` in the other, or fail the same way.
-/
def Twin (start : String) (debug debug' : Bool) (a a' : Ask) : Prop :=
  ∀ depth, (∃ e, requestOf a.mode a.options start depth = .error e ∧
      requestOf a'.mode a'.options start depth = .error e) ∨
    ∃ r, requestOf a.mode a.options start depth = .ok r ∧ r.debug = debug ∧
      requestOf a'.mode a'.options start depth = .ok (r.debugged debug')

theorem twin_of_fields {es es' : Fields} (h : SameButDebug es es') (mode : Mode) (start : String) :
    Twin start (isDebug es) (isDebug es') ⟨mode, .map es⟩ ⟨mode, .map es'⟩ := by
  intro depth
  rw [requestOf_debug h]
  cases hr : requestOf mode (.map es) start depth with
  | error e => exact .inl ⟨e, rfl, rfl⟩
  | ok r =>
    have hself := requestOf_debug (fun _ _ => rfl : SameButDebug es es) mode start depth
    rw [hr] at hself
    exact .inr ⟨r, rfl, congrArg Request.debug (Except.ok.inj hself), rfl⟩

theorem twin_self (a : Ask) (start : String) : ∃ debug, Twin start debug debug a a := by
  obtain ⟨mode, options⟩ := a
  cases options with
  | map es => exact ⟨_, twin_of_fields (fun _ _ => rfl) mode start⟩
  | _ => exact ⟨false, fun _ => .inl ⟨_, rfl, rfl⟩⟩

section States

variable {x x' x₀ : State K X}

theorem mute_note (x : State K X) (event : Event) : (x.note event).mute = x.mute := rfl

theorem memo_of_mute (h : x.mute = x'.mute) (mode : Mode) : x.memo mode = x'.memo mode := by
  cases mode with
  | transpile => exact (congrArg State.transpiled h :)
  | interpret => exact (congrArg State.interpreted h :)

theorem view_of_mute (h : x.mute = x'.mute) (settings : Settings) : x.view settings = x'.view settings :=
  (congrArg (State.view · settings) h :)

theorem mute_apply (h : x.mute = x'.mute) (e : Effect X) : (x.apply e).mute = (x'.apply e).mute := by
  have happly (x : State K X) : (x.apply e).mute = (x.mute.apply e).mute := by
    cases e <;> rfl
  rw [happly x, happly x', h]

theorem mute_setMemo (h : x.mute = x'.mute) (mode : Mode) (memo : Memo Payload) :
    (x.setMemo mode memo).mute = (x'.setMemo mode memo).mute := by
  have hset (x : State K X) : (x.setMemo mode memo).mute = x.mute.setMemo mode memo := by
    cases mode <;> rfl
  rw [hset x, hset x', h]

def Standing (x₀ x : State K X) : Prop := (still x₀ nothing).fits x.world x.root x.registry

theorem Standing.of_eq (h : Standing x₀ x) (hworld : x'.world = x.world) (hroot : x'.root = x.root)
    (hregistry : x'.registry = x.registry) : Standing x₀ x' := by
  rw [Standing, hworld, hroot, hregistry]
  exact h

theorem Standing.compiler (h : Standing x₀ x) {r : Request} {k : K} (hk : compiler? x.registry r = some k) :
    compiler? x₀.registry r = some k := by
  obtain ⟨_, _, hinterpreters, htranspilers⟩ := h
  rw [compiler?] at hk ⊢
  cases hmode : r.mode with
  | transpile =>
    rw [hmode] at hk
    exact htranspilers _ _ k hk
  | interpret =>
    rw [hmode] at hk
    dsimp only at hk ⊢
    rwa [← hinterpreters]

theorem Standing.apply (h : Standing x₀ x) (e : Effect X) : Standing x₀ (x.apply e) := by
  cases e with
  | unregister input output => exact (still x₀ nothing).fits_erase input output h
  | appendStyles head sheets => exact h
  | log r => exact h
  | extend f => exact h

def Level (x₀ x x' : State K X) : Prop := x.mute = x'.mute ∧ Standing x₀ x

def MemoLike (like : Payload → Payload → Prop) (memo memo' : Memo Payload) : Prop :=
  List.Forall₂ (fun e e' => e.1 = e'.1 ∧ like e.2 e'.2) memo.entries memo'.entries

/--
Two states differ in what has been reported and in the results that are kept under the same keys.
-/
structure Abreast (like : Payload → Payload → Prop) (x x' : State K X) : Prop where
  rest : { x.mute with transpiled := {}, interpreted := {} } =
    { x'.mute with transpiled := {}, interpreted := {} }
  memo : ∀ mode, MemoLike like (x.memo mode) (x'.memo mode)

section MemoLike

variable {like : Payload → Payload → Prop} {memo memo' : Memo Payload} (h : MemoLike like memo memo')

theorem MemoLike.refl (hlike : ∀ p, like p p) (memo : Memo Payload) : MemoLike like memo memo :=
  List.forall₂_same.mpr fun e _ => ⟨rfl, hlike e.2⟩

include h

theorem MemoLike.keys : memo.keys = memo'.keys := by
  obtain ⟨es⟩ := memo
  obtain ⟨es'⟩ := memo'
  rw [MemoLike] at h
  rw [Table.keys, Table.keys]
  dsimp only at h ⊢
  induction h with
  | nil => rfl
  | cons he _ ih => rw [List.map_cons, List.map_cons, he.1, ih]

theorem MemoLike.has (key : String) : memo.has key = memo'.has key := by
  obtain ⟨es⟩ := memo
  obtain ⟨es'⟩ := memo'
  rw [MemoLike] at h
  rw [Table.has, Table.has, Table.get?, Table.get?, Option.isSome_map, Option.isSome_map]
  dsimp only at h ⊢
  induction h with
  | nil => rfl
  | cons he _ ih =>
    rw [List.find?_cons, List.find?_cons, he.1]
    split
    · rfl
    · exact ih

theorem MemoLike.set (key : String) {p p' : Payload} (hp : like p p') :
    MemoLike like (memo.set key p) (memo'.set key p') := by
  obtain ⟨es⟩ := memo
  obtain ⟨es'⟩ := memo'
  rw [MemoLike] at h
  rw [MemoLike, Table.set, Table.set]
  dsimp only at h ⊢
  induction h with
  | nil => exact .cons ⟨rfl, hp⟩ .nil
  | cons he hes ih =>
    rw [Table.place, Table.place, he.1]
    split
    · exact .cons ⟨rfl, hp⟩ hes
    · exact .cons he ih

end MemoLike

theorem Abreast.of_level {like : Payload → Payload → Prop} (hlike : ∀ p, like p p) (h : Level x₀ x x') :
    Abreast like x x' where
  rest := by rw [h.1]
  memo := by
    intro mode
    rw [memo_of_mute h.1 mode]
    exact .refl hlike _

def likeness (x₀ : State K X) (like : Payload → Payload → Prop) (hlike : ∀ p, like p p) :
    Likeness (State K X) (Option Envelope) where
  state := Level x₀
  after := Abreast like
  near v v' := v.map (·.payload) = v'.map (·.payload)
  after_of_state := .of_level hlike

end States

end Hub

end Polyglot
