import Polyglot.Json.Writer
import Polyglot.Proofs.Number.Numeral

/-!
What is written for values on one line: numerals, texts between quotes, and the parts of lists and
objects with commas between them.
-/

namespace Polyglot.Json

open Number

variable {level : Nat}

theorem written_induct {P : Value → Prop} (hlist : ∀ xs, (∀ x ∈ xs, P x) → P (.list xs))
    (htuple : ∀ xs, (∀ x ∈ xs, P x) → P (.tuple xs))
    (hmap : ∀ es : Fields, (∀ e ∈ es, P e.2) → P (.map es))
    (hplain : ∀ v, (∀ xs, v ≠ .list xs) → (∀ xs, v ≠ .tuple xs) → (∀ es, v ≠ .map es) → P v) :
    ∀ v, P v := by
  refine write?.induct (fun _ xs => ∀ x ∈ xs, P x) (fun _ v => P v) (fun _ es => ∀ e ∈ es, P e.2)
    ?_ ?_ ?_ ?_ ?_ (fun _ => hlist) (fun _ => htuple) (fun _ => hmap) ?_ (by simp) ?_ (by simp) ?_ 0
  · exact fun _ => hplain _ (by simp) (by simp) (by simp)
  · exact fun _ _ => hplain _ (by simp) (by simp) (by simp)
  · exact fun _ _ => hplain _ (by simp) (by simp) (by simp)
  · exact fun _ _ => hplain _ (by simp) (by simp) (by simp)
  · exact fun _ _ => hplain _ (by simp) (by simp) (by simp)
  · exact fun _ v _ _ _ _ _ hlist htuple hmap => hplain v hlist htuple hmap
  · exact fun _ x xs hx hxs => List.forall_mem_cons.mpr ⟨hx, hxs⟩
  · exact fun _ k v es hv hes => List.forall_mem_cons.mpr ⟨hv, hes⟩

theorem writeText_toList (s : String) :
    (writeText s).toList = '"' :: (s.toList.flatMap escapeChar ++ ['"']) := by
  simp [writeText]

theorem enclose_toList (level : Nat) (left right : String) (parts : List String) :
    (enclose compact level left right parts).toList =
      left.toList ++ ([','].intercalate (parts.map String.toList) ++ right.toList) := by
  cases parts with
  | nil => simp [enclose]
  | cons s parts => simp [enclose, compact, Layout.newline, String.toList_intercalate]

def numeralOf (n : Int) : Numeral :=
  ⟨n < 0, Binary64.digitsOf n.natAbs, [], none⟩

theorem numeralOf_proper (n : Int) : (numeralOf n).Proper where
  whole c hc := Binary64.isAsciiDigit_of_mem_digitsOf hc
  lead := by
    rcases Nat.eq_zero_or_pos n.natAbs with hzero | hpos
    · left
      rw [numeralOf, hzero]
      rfl
    · exact .inr ⟨Binary64.digitsOf_ne_nil _, Binary64.head_digitsOf hpos⟩
  places := by simp [numeralOf]
  exponent := by simp [numeralOf]

theorem toString_int (n : Int) : (toString n).toList = (numeralOf n).text := by
  rw [Numeral.text, numeralOf, Numeral.pointed, Numeral.powered]
  cases n with
  | ofNat n =>
    have hsign : decide (Int.ofNat n < 0) = false :=
      decide_eq_false (Int.not_lt.mpr (Int.natCast_nonneg n))
    have htext : (toString (Int.ofNat n)).toList = Binary64.digitsOf n := rfl
    rw [htext, hsign]
    simp [Numeral.sign]
  | negSucc n =>
    have hsign : decide (Int.negSucc n < 0) = true := decide_eq_true (Int.negSucc_lt_zero n)
    have htext : (toString (Int.negSucc n)).toList = "-".toList ++ Binary64.digitsOf (n + 1) :=
      String.toList_append
    rw [htext, hsign]
    simp [Numeral.sign]

def keyText (k : Value) : String :=
  (keyText? k).getD ""

theorem forall₂_all {xs : List Value} {parts : List String} {R : Value → String → Prop}
    (h : ∀ x ∈ xs, ∀ s, write? compact (level + 1) x = some s → R x s)
    (hparts : write?.all compact level xs = some parts) : List.Forall₂ R xs parts := by
  induction xs generalizing parts with
  | nil =>
    cases hparts
    exact .nil
  | cons x xs ih =>
    obtain ⟨hx, hxs⟩ := List.forall_mem_cons.mp h
    obtain ⟨s, hs, hparts⟩ := Option.bind_eq_some_iff.mp hparts
    obtain ⟨more, hmore, heq⟩ := Option.bind_eq_some_iff.mp hparts
    cases heq
    exact .cons (hx s hs) (ih hxs hmore)

def member (e : Value × Value) (s : String) : List Char :=
  '"' :: ((keyText e.1).toList.flatMap escapeChar ++ '"' :: ':' :: s.toList)

theorem forall₂_fields {es : Fields} {parts : List String} {R : Value × Value → List Char → Prop}
    (h : ∀ e ∈ es, ∀ s, write? compact (level + 1) e.2 = some s → R e (member e s))
    (hparts : write?.fields compact level es = some parts) :
    List.Forall₂ R es (parts.map String.toList) := by
  induction es generalizing parts with
  | nil =>
    cases hparts
    exact .nil
  | cons e es ih =>
    obtain ⟨he, hes⟩ := List.forall_mem_cons.mp h
    obtain ⟨k, v⟩ := e
    obtain ⟨key, hkey, hparts⟩ := Option.bind_eq_some_iff.mp hparts
    obtain ⟨s, hs, hparts⟩ := Option.bind_eq_some_iff.mp hparts
    obtain ⟨more, hmore, heq⟩ := Option.bind_eq_some_iff.mp hparts
    cases heq
    have hmember : (writeText key ++ compact.colon ++ s).toList = member (k, v) s := by
      rw [member, keyText, hkey]
      simp [writeText, compact]
    rw [List.map_cons, hmember]
    exact .cons (he s hs) (ih hes hmore)

end Polyglot.Json
