import Mathlib.Data.List.Induction
import Polyglot.Log.Setup

/-!
Which stream a record goes to. Once logging has been configured, the two handlers follow the level of the log
through all changes, so that no record is written twice, none below the level is written, and each one from
the level on is written, but for those above information and below warnings, which neither handler takes.
-/

namespace Polyglot.Log

def Level.named? : Value → Option Level
  | .null => none
  | .int n => some (.number n)
  | .bool b => some (.truth b)
  | v => Level.ofName? (Text.upper (Text.trimmed v.plain))

/--
What changes a setup.
-/
inductive Call where
  | configure (level : Value) (shared : Option Charset) (force : Bool)
  | setLevel (level : Value)

def Call.level : Call → Value
  | .configure level _ _ | .setLevel level => level

def Call.Configures : Call → Prop
  | .configure _ _ _ => True
  | .setLevel _ => False

/--
The last level that was named in some calls.
-/
def lastNamed (cs : List Call) : Level :=
  ((cs.filterMap fun c => Level.named? c.level).getLast?).getD .info

namespace Setup

def call (s : Setup) : Call → Setup
  | .configure level shared force => s.configure level shared force
  | .setLevel level => s.setLevel level

def after (cs : List Call) : Setup :=
  cs.foldl call {}

def shared? (s : Setup) : Option Charset :=
  s.handlers.bind (·.shared)

/--
How the records are split at a level of the log.
-/
structure Splits (s : Setup) (l : Level) : Prop where
  level : s.level = l
  below : ∀ n, n < l.value → s.streams n = []
  out : ∀ n, 0 < n → l.value ≤ n → n ≤ Level.info.value → s.streams n = [.out]
  err : ∀ n, l.value ≤ n → Level.warning.value ≤ n → s.streams n = [.err]
  neither : ∀ n, Level.info.value < n → n < Level.warning.value → s.streams n = []
  text : s.shared? = none → ∀ stream rs, s.text stream rs =
    String.join ((rs.filter fun r => stream ∈ s.streams r.level).map fun r => r.line ++ "\n")
  sharedText : ∀ set, s.shared? = some set → (∀ stream rs, s.text stream rs = "") ∧
    ∀ rs, s.sharedText rs = String.join
      ((rs.filter fun r => s.streams r.level ≠ []).map fun r => escapeOutside set r.line ++ "\n")

def leveled (l : Level) (made : Option (Option Charset)) : Setup :=
  ⟨l, l.value, made.map (handlersAt l)⟩

section Calls

variable {s : Setup} {c : Call} {cs : List Call}

theorem levelOf_eq (s : Setup) (v : Value) : s.levelOf v = (Level.named? v).getD s.level := by
  cases v <;> rfl

theorem call_eq_leveled (s : Setup) (c : Call) : ∃ made, s.call c = leveled (s.levelOf c.level) made ∧
    (made.isSome ↔ s.handlers.isSome ∨ c.Configures) := by
  have hset (v : Value) : s.setLevel v = leveled (s.levelOf v) (s.handlers.map (·.shared)) := by
    simp only [setLevel, leveled, Option.map_map]
    rfl
  cases c with
  | setLevel v => exact ⟨_, hset v, by simp [Call.Configures]⟩
  | configure v shared force =>
    rw [call, configure]
    split
    · next h =>
      have hmade : s.handlers.isSome := by simp_all
      exact ⟨_, hset v, by simp [Call.Configures, hmade]⟩
    · exact ⟨some shared, rfl, by simp [Call.Configures]⟩

theorem after_concat (cs : List Call) (c : Call) : after (cs ++ [c]) = (after cs).call c := by
  rw [after, after, List.foldl_append]
  rfl

theorem lastNamed_concat (cs : List Call) (c : Call) :
    lastNamed (cs ++ [c]) = (Level.named? c.level).getD (lastNamed cs) := by
  rw [lastNamed, List.filterMap_append]
  cases hnamed : Level.named? c.level with
  | none => simp [hnamed, lastNamed]
  | some l => simp [hnamed]

theorem level_after (cs : List Call) : (after cs).level = lastNamed cs := by
  induction cs using List.reverseRecOn with
  | nil => rfl
  | append_singleton cs c ih =>
    obtain ⟨made, heq, -⟩ := call_eq_leveled (after cs) c
    rw [after_concat, lastNamed_concat, heq, ← ih, ← levelOf_eq]
    rfl

theorem handlers_after (cs : List Call) : (after cs).handlers.isSome ↔ ∃ c ∈ cs, c.Configures := by
  induction cs using List.reverseRecOn with
  | nil => simp [after]
  | append_singleton cs c ih =>
    obtain ⟨made, heq, hmade⟩ := call_eq_leveled (after cs) c
    rw [after_concat, heq, leveled, Option.isSome_map, hmade, ih]
    simp [or_and_right, exists_or]

theorem after_eq_leveled (h : ∃ c ∈ cs, c.Configures) :
    ∃ shared, after cs = leveled (lastNamed cs) (some shared) := by
  have hlevel := level_after cs
  have hhandlers := (handlers_after cs).mpr h
  rcases List.eq_nil_or_concat cs with rfl | ⟨cs, c, rfl⟩
  · simp at h
  · obtain ⟨made, heq, -⟩ := call_eq_leveled (after cs) c
    rw [List.concat_eq_append, after_concat, heq] at hlevel hhandlers ⊢
    rw [leveled, Option.isSome_map] at hhandlers
    obtain ⟨shared, rfl⟩ := Option.isSome_iff_exists.mp hhandlers
    exact ⟨shared, congrArg (leveled · _) hlevel⟩

end Calls

section Streams

variable (l : Level) (shared : Option Charset)

theorem streams_leveled (n : Int) : (leveled l (some shared)).streams n =
    if n ≤ 0 ∨ n < l.value then []
    else if n ≤ Level.info.value then [.out]
    else if Level.warning.value ≤ n then [.err] else [] := by
  have hinfo : Level.info.value = 20 := rfl
  have hwarning : Level.warning.value = 30 := rfl
  simp only [streams, leveled, handlersAt, Option.map_some, Bool.or_eq_true, decide_eq_true_eq,
    Bool.and_eq_true, hinfo, hwarning]
  split
  · rfl
  · by_cases hout : n ≤ 20
    · rw [if_pos hout, if_pos (by omega), if_neg (by omega)]
      rfl
    · rw [if_neg hout, if_neg (by omega), List.nil_append]
      by_cases herr : 30 ≤ n
      · rw [if_pos herr, if_pos (by omega)]
      · rw [if_neg herr, if_neg (by omega)]

theorem length_streams_leveled (n : Int) : ((leveled l (some shared)).streams n).length ≤ 1 := by
  rw [streams_leveled]
  split_ifs <;> simp

theorem flatMap_lines {places : Record → List Stream} (hone : ∀ r, (places r).length ≤ 1)
    (line : Record → String) (rs : List Record) :
    (rs.flatMap fun r => (places r).map fun _ => line r) =
      (rs.filter fun r => places r ≠ []).map line := by
  induction rs with
  | nil => rfl
  | cons r rs ih =>
    rw [List.flatMap_cons, List.filter_cons, ih]
    have hr := hone r
    match hplaces : places r with
    | [] => simp
    | [stream] => simp
    | _ :: _ :: _ =>
      rw [hplaces] at hr
      simp at hr

theorem text_leveled (stream : Stream) (rs : List Record) :
    (leveled l (some none)).text stream rs = String.join
      ((rs.filter fun r => stream ∈ (leveled l (some none)).streams r.level).map fun r =>
        r.line ++ "\n") := by
  have hone (r : Record) :
      (((leveled l (some none)).streams r.level).filter (· = stream)).length ≤ 1 :=
    Nat.le_trans (List.length_filter_le _ _) (length_streams_leveled l none r.level)
  have hlines := flatMap_lines hone (fun r => r.line ++ "\n") rs
  simp only [ne_eq, List.filter_eq_nil_iff, decide_eq_true_eq, not_forall, not_not, exists_prop,
    exists_eq_right] at hlines
  exact congrArg String.join hlines

theorem sharedText_leveled (set : Charset) (rs : List Record) :
    (leveled l (some (some set))).sharedText rs = String.join
      ((rs.filter fun r => (leveled l (some (some set))).streams r.level ≠ []).map fun r =>
        escapeOutside set r.line ++ "\n") :=
  congrArg String.join
    (flatMap_lines (fun r => length_streams_leveled l (some set) r.level) _ rs)

theorem splits_leveled : (leveled l (some shared)).Splits l where
  level := rfl
  below n hn := by rw [streams_leveled, if_pos (.inr hn)]
  out n hpos hlevel hn := by rw [streams_leveled, if_neg (by omega), if_pos hn]
  err n hlevel hn := by
    have hinfo : Level.info.value < n := Int.lt_of_lt_of_le (by decide) hn
    have hpos : 0 < n := Int.lt_of_lt_of_le (by decide) hn
    rw [streams_leveled, if_neg (by omega), if_neg (Int.not_le.mpr hinfo), if_pos hn]
  neither n hlow hhigh := by
    rw [streams_leveled, if_neg (Int.not_le.mpr hlow), if_neg (Int.not_le.mpr hhigh), ite_self]
  text hshared stream rs := by
    obtain rfl : shared = none := hshared
    exact text_leveled l stream rs
  sharedText set hshared := by
    obtain rfl : shared = some set := hshared
    exact ⟨fun _ _ => rfl, sharedText_leveled l set⟩

end Streams

/--
Whatever has been configured and set, in whichever order, each record is written where the last level that was
named says, once, and only records between information and warnings are lost.
-/
theorem splits_after {cs : List Call} (h : ∃ c ∈ cs, c.Configures) :
    (after cs).Splits (lastNamed cs) := by
  obtain ⟨shared, heq⟩ := after_eq_leveled h
  rw [heq]
  exact splits_leveled _ _

/--
A level between information and warnings is set, and an unknown one behind it: the records of that level are
written nowhere.
-/
theorem notice_splits :
    (∃ c ∈ [Call.configure (.str " warn ") none false, .setLevel (.int 25), .setLevel (.str "notice")],
      c.Configures) ∧
    (after [.configure (.str " warn ") none false, .setLevel (.int 25), .setLevel (.str "notice")]).Splits
      (.number 25) ∧
    (after [.configure (.str " warn ") none false, .setLevel (.int 25),
      .setLevel (.str "notice")]).streams 25 = [] := by
  have hconfigures : ∃ c ∈ [Call.configure (.str " warn ") none false, .setLevel (.int 25),
      .setLevel (.str "notice")], c.Configures := ⟨_, List.mem_cons_self, trivial⟩
  have hsplits := splits_after hconfigures
  have hlast : lastNamed [Call.configure (.str " warn ") none false, .setLevel (.int 25),
      .setLevel (.str "notice")] = .number 25 := by decide
  rw [hlast] at hsplits
  exact ⟨hconfigures, hsplits, hsplits.neither 25 (by decide) (by decide)⟩

end Setup

end Polyglot.Log
