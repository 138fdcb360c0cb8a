import Polyglot.Proofs.Style.Preludes

/-!
Where the scanner stands. It goes from place to place with every character, whatever follows, and what
it looks for in front of it depends on the place and on how deep the brackets are nested there.
-/

namespace Polyglot.Style

/--
In plain text or behind a slash of it, in a comment or behind a star of it, in a string or behind a
backslash of it.
-/
inductive Place where
  | plain
  | slash
  | comment
  | star
  | quoted (double : Bool)
  | escaped (double : Bool)
  deriving DecidableEq

namespace Place

def quoteMark (double : Bool) : Char :=
  if double then '"' else '\''

def ofPlain (c : Char) : Place :=
  if c == '"' then quoted true
  else if c == '\'' then quoted false
  else if c == '/' then slash
  else plain

def next : Place → Char → Place
  | plain, c => ofPlain c
  | slash, c => if c == '*' then comment else ofPlain c
  | comment, c => if c == '*' then star else comment
  | star, c => if c == '/' then plain else if c == '*' then star else comment
  | quoted d, c =>
    if c == '\\' then escaped d else if c == quoteMark d || c == '\n' then plain else quoted d
  | escaped d, _ => quoted d

def isPlain : Place → Bool
  | plain | slash => true
  | _ => false

def marks : Place → List Char → Marked
  | slash, '*' :: cs => ('*', .comment) :: mark.inComment cs
  | star, '/' :: cs => ('/', .comment) :: mark cs
  | escaped d, c :: cs => (c, .quoted) :: mark.inQuotes (quoteMark d) cs
  | escaped _, [] => []
  | plain, cs | slash, cs => mark cs
  | comment, cs | star, cs => mark.inComment cs
  | quoted d, cs => mark.inQuotes (quoteMark d) cs

def Tame (c : Char) : Prop :=
  c ∉ ['/', '*', '"', '\'']

theorem marks_nil (s : Place) : s.marks [] = [] := by
  cases s <;> rfl

theorem mark_cons (c : Char) (cs : List Char) : ∃ m, mark (c :: cs) = (c, m) :: (ofPlain c).marks cs ∧
    (Tame c → m = .plain) := by
  by_cases hdouble : c = '"'
  · subst hdouble
    exact ⟨.quoted, rfl, by simp [Tame]⟩
  · by_cases hsingle : c = '\''
    · subst hsingle
      exact ⟨.quoted, rfl, by simp [Tame]⟩
    · have hquote : ¬ (c == '"' || c == '\'') = true := by simp [hdouble, hsingle]
      by_cases hcomment : ∃ cs', c = '/' ∧ cs = '*' :: cs'
      · obtain ⟨cs', rfl, rfl⟩ := hcomment
        exact ⟨.comment, rfl, by simp [Tame]⟩
      · have hplain := mark_plain hquote fun cs' hc hcs => hcomment ⟨cs', hc, hcs⟩
        refine ⟨.plain, ?_, fun _ => rfl⟩
        by_cases hslash : c = '/'
        · subst hslash
          rw [hplain]
          cases cs with
          | nil => rfl
          | cons d cs =>
            have hd : d ≠ '*' := fun hd => hcomment ⟨cs, rfl, by rw [hd]⟩
            rw [ofPlain, if_neg (by decide), if_neg (by decide), if_pos (by decide), marks]
            exact fun cs' h => hd (List.cons.inj h).1
        · rw [hplain, ofPlain, if_neg (by simpa using hdouble), if_neg (by simpa using hsingle),
            if_neg (by simpa using hslash)]
          rfl

theorem inComment_cons (c : Char) (cs : List Char) :
    mark.inComment (c :: cs) = (c, .comment) :: (if c == '*' then star else comment).marks cs := by
  by_cases hend : ∃ cs', c = '*' ∧ cs = '/' :: cs'
  · obtain ⟨cs', rfl, rfl⟩ := hend
    rfl
  · rw [mark.inComment.eq_3 c cs fun cs' hc hcs => hend ⟨cs', hc, hcs⟩]
    split
    · next hstar =>
      rw [marks.eq_def]
      split <;> simp_all
    · rfl

theorem inQuotes_cons (d : Bool) (c : Char) (cs : List Char) :
    mark.inQuotes (quoteMark d) (c :: cs) = (c, .quoted) :: ((quoted d).next c).marks cs := by
  by_cases hslash : c = '\\'
  · subst hslash
    cases cs with
    | nil => cases d <;> rfl
    | cons e cs => rfl
  · have hplain : ¬ (c == '\\') = true := by simpa using hslash
    rw [mark.inQuotes.eq_3 _ c cs fun _ _ hc _ => hslash hc, next, if_neg hplain]
    split <;> rfl

theorem marks_cons (s : Place) (c : Char) (cs : List Char) : ∃ m,
    s.marks (c :: cs) = (c, m) :: (s.next c).marks cs ∧ (Tame c → (m = .plain ↔ s.isPlain)) := by
  cases s with
  | plain =>
    obtain ⟨m, hmark, hm⟩ := mark_cons c cs
    exact ⟨m, hmark, fun h => by simp [hm h, isPlain]⟩
  | slash =>
    by_cases hstar : c = '*'
    · subst hstar
      exact ⟨.comment, rfl, by simp [Tame]⟩
    · obtain ⟨m, hmark, hm⟩ := mark_cons c cs
      refine ⟨m, ?_, fun h => by simp [hm h, isPlain]⟩
      rw [next, if_neg (by simpa using hstar), ← hmark, marks]
      exact fun cs' h => hstar (List.cons.inj h).1
  | comment => exact ⟨.comment, inComment_cons c cs, by simp [isPlain]⟩
  | star =>
    refine ⟨.comment, ?_, by simp [isPlain]⟩
    by_cases hslash : c = '/'
    · subst hslash
      rfl
    · have hopen : ¬ (c == '/') = true := by simpa using hslash
      rw [marks, inComment_cons, next, if_neg hopen]
      exact fun cs' h => hslash (List.cons.inj h).1
  | quoted d => exact ⟨.quoted, inQuotes_cons d c cs, by simp [isPlain]⟩
  | escaped d => exact ⟨.quoted, rfl, by simp [isPlain]⟩

end Place

/--
Brackets that nest, and what ends the search for an end at a depth of them.
-/
structure Brackets where
  opening : Char → Bool
  closing : Char → Bool
  ends : Nat → Char → Bool

def Brackets.prelude : Brackets where
  opening c := c == '(' || c == '['
  closing c := c == ')' || c == ']'
  ends depth c := depth == 0 && (c == '\x7b' || c == ';')

def Brackets.block : Brackets where
  opening c := c == '\x7b'
  closing c := c == '\x7d'
  ends depth c := c == '\x7d' && depth ≤ 1

structure Spot where
  place : Place
  depth : Nat

namespace Spot

def start : Spot := ⟨.plain, 0⟩

def deepen (b : Brackets) (x : Spot) (c : Char) : Nat :=
  if x.place.isPlain then
    if b.opening c then x.depth + 1 else if b.closing c then x.depth - 1 else x.depth
  else x.depth

def step? (b : Brackets) (x : Spot) (c : Char) : Option Spot :=
  if x.place.isPlain && b.ends x.depth c then none else some ⟨x.place.next c, x.deepen b c⟩

def run? (b : Brackets) (x : Spot) (cs : List Char) : Option Spot :=
  cs.foldlM (step? b) x

theorem run_cons (b : Brackets) (x : Spot) (c : Char) (cs : List Char) :
    x.run? b (c :: cs) = (x.step? b c).bind fun y => y.run? b cs := by
  rw [run?, List.foldlM_cons]
  rfl

theorem run_append (b : Brackets) (x : Spot) (cs cs' : List Char) :
    x.run? b (cs ++ cs') = (x.run? b cs).bind fun y => y.run? b cs' := by
  rw [run?, List.foldlM_append]
  rfl

theorem run_or_ends (b : Brackets) (x : Spot) (cs : List Char) :
    (∃ y, x.run? b cs = some y) ∨
      ∃ front c rest y, cs = front ++ c :: rest ∧ x.run? b front = some y ∧ y.step? b c = none := by
  induction cs generalizing x with
  | nil => exact .inl ⟨x, rfl⟩
  | cons c cs ih =>
    cases hstep : x.step? b c with
    | none => exact .inr ⟨[], c, cs, x, rfl, rfl, hstep⟩
    | some y =>
      rcases ih y with ⟨z, hrun⟩ | ⟨front, d, rest, z, rfl, hrun, hend⟩
      · exact .inl ⟨z, by rw [run_cons, hstep, Option.bind_some, hrun]⟩
      · exact .inr ⟨c :: front, d, rest, z, rfl, by rw [run_cons, hstep, Option.bind_some, hrun], hend⟩

theorem step_eq_some {b : Brackets} {x y : Spot} {c : Char} (h : x.step? b c = some y) :
    ¬ (x.place.isPlain && b.ends x.depth c) = true ∧ y = ⟨x.place.next c, x.deepen b c⟩ := by
  rw [step?] at h
  split at h
  · cases h
  · next hend =>
    cases h
    exact ⟨hend, rfl⟩

theorem step_eq_none {b : Brackets} {x : Spot} {c : Char} (h : x.step? b c = none) :
    x.place.isPlain ∧ b.ends x.depth c := by
  rw [step?] at h
  split at h
  · next hend => exact Bool.and_eq_true_iff.mp hend
  · cases h

end Spot

namespace Place

theorem marks_next_of_plain {s : Place} (hs : s.isPlain) {c : Char} (hc : Tame c) (cs : List Char) :
    (s.next c).marks cs = mark cs := by
  simp only [Tame, List.mem_cons, List.not_mem_nil, or_false, not_or] at hc
  obtain ⟨hslash, hstar, hdouble, hsingle⟩ := hc
  cases s with
  | plain => simp [next, ofPlain, hslash, hdouble, hsingle, marks]
  | slash => simp [next, ofPlain, hstar, hslash, hdouble, hsingle, marks]
  | _ => cases hs

end Place

section Split

variable {x y : Spot}

theorem tame_of_prelude (depth : Nat) {c : Char} (h : Brackets.prelude.opening c ∨
    Brackets.prelude.closing c ∨ Brackets.prelude.ends depth c) : Place.Tame c := by
  have hmem : c ∈ ['(', '[', ')', ']', '\x7b', ';'] := by
    simp only [Brackets.prelude, Bool.and_eq_true, Bool.or_eq_true, beq_iff_eq] at h
    simp only [List.mem_cons, List.not_mem_nil, or_false]
    tauto
  intro hc
  simp only [List.mem_cons, List.not_mem_nil, or_false] at hmem hc
  rcases hc with rfl | rfl | rfl | rfl <;> simp at hmem

theorem tame_of_block (depth : Nat) {c : Char} (h : Brackets.block.opening c ∨
    Brackets.block.closing c ∨ Brackets.block.ends depth c) : Place.Tame c := by
  have hmem : c ∈ ['\x7b', '\x7d'] := by
    simp only [Brackets.block, Bool.and_eq_true, beq_iff_eq] at h
    simp only [List.mem_cons, List.not_mem_nil, or_false]
    tauto
  intro hc
  simp only [List.mem_cons, List.not_mem_nil, or_false] at hmem hc
  rcases hc with rfl | rfl | rfl | rfl <;> simp at hmem

theorem splitPrelude_step {c : Char} (h : x.step? .prelude c = some y) (cs : List Char) :
    ∃ m, splitPrelude? x.depth (x.place.marks (c :: cs)) =
      (splitPrelude? y.depth (y.place.marks cs)).map fun (before, rest) => ((c, m) :: before, rest) := by
  obtain ⟨hend, rfl⟩ := Spot.step_eq_some h
  obtain ⟨m, hmarks, hm⟩ := x.place.marks_cons c cs
  refine ⟨m, ?_⟩
  rw [hmarks, splitPrelude?, Spot.deepen]
  change (if m != .plain then _ else if Brackets.prelude.opening c then _ else
    if Brackets.prelude.closing c then _ else if Brackets.prelude.ends x.depth c then _ else _) = _
  by_cases htame : Place.Tame c
  · by_cases hplain : x.place.isPlain
    · rw [if_neg (by simpa using (hm htame).mpr hplain), if_pos hplain]
      rw [hplain, Bool.true_and] at hend
      split
      · rfl
      · split
        · rfl
        · rfl
    · rw [if_pos (by simpa using mt (hm htame).mp hplain), if_neg hplain]
  · have hopening : ¬ Brackets.prelude.opening c := fun h => htame (tame_of_prelude 0 (.inl h))
    have hclosing : ¬ Brackets.prelude.closing c :=
      fun h => htame (tame_of_prelude 0 (.inr (.inl h)))
    have hends : ¬ Brackets.prelude.ends x.depth c := fun h => htame (tame_of_prelude _ (.inr (.inr h)))
    rw [if_neg hopening, if_neg hclosing, if_neg hends, if_neg hopening, if_neg hclosing, ite_self,
      ite_self]

theorem splitPrelude_stop {c : Char} (h : x.step? .prelude c = none) (cs : List Char) :
    splitPrelude? x.depth (x.place.marks (c :: cs)) = some ([], (c, .plain) :: mark cs) := by
  obtain ⟨hplain, hend⟩ := Spot.step_eq_none h
  have htame := tame_of_prelude _ (.inr (.inr hend))
  obtain ⟨m, hmarks, hm⟩ := x.place.marks_cons c cs
  rw [hmarks, (hm htame).mpr hplain, Place.marks_next_of_plain hplain htame]
  have hc : x.depth = 0 ∧ (c = '\x7b' ∨ c = ';') := by simpa [Brackets.prelude] using hend
  obtain ⟨hdepth, rfl | rfl⟩ := hc
  · rw [hdepth]
    rfl
  · rw [hdepth]
    rfl

/--
What is passed over is split off in front of the end behind it, whatever follows that.
-/
theorem splitPrelude_of_run {p : List Char} {c : Char} (h : x.run? .prelude p = some y)
    (hend : y.step? .prelude c = none) (rest : List Char) :
    ∃ before, splitPrelude? x.depth (x.place.marks (p ++ c :: rest)) =
      some (before, (c, .plain) :: mark rest) ∧ unmark before = p := by
  induction p generalizing x with
  | nil =>
    cases h
    exact ⟨[], splitPrelude_stop hend rest, rfl⟩
  | cons d p ih =>
    rw [Spot.run_cons] at h
    obtain ⟨z, hstep, hrun⟩ := Option.bind_eq_some_iff.mp h
    obtain ⟨before, hsplit, rfl⟩ := ih hrun
    obtain ⟨m, hcons⟩ := splitPrelude_step hstep (unmark before ++ c :: rest)
    exact ⟨(d, m) :: before, by rw [List.cons_append, hcons, hsplit, Option.map_some], rfl⟩

theorem splitPrelude_eq_none {cs : List Char} (h : x.run? .prelude cs = some y) :
    splitPrelude? x.depth (x.place.marks cs) = none := by
  induction cs generalizing x with
  | nil =>
    rw [Place.marks_nil]
    rfl
  | cons c cs ih =>
    rw [Spot.run_cons] at h
    obtain ⟨z, hstep, hrun⟩ := Option.bind_eq_some_iff.mp h
    obtain ⟨m, hcons⟩ := splitPrelude_step hstep cs
    rw [hcons, ih hrun, Option.map_none]

theorem splitBlock_step {c : Char} (h : x.step? .block c = some y) (cs : List Char) :
    ∃ m, splitBlock x.depth (x.place.marks (c :: cs)) =
      ((c, m) :: (splitBlock y.depth (y.place.marks cs)).1, (splitBlock y.depth (y.place.marks cs)).2) := by
  obtain ⟨hend, rfl⟩ := Spot.step_eq_some h
  obtain ⟨m, hmarks, hm⟩ := x.place.marks_cons c cs
  refine ⟨m, ?_⟩
  rw [hmarks, splitBlock, Spot.deepen]
  change (if m != .plain then _ else if Brackets.block.opening c then _ else
    if Brackets.block.closing c then if x.depth ≤ 1 then _ else _ else _) = _
  by_cases htame : Place.Tame c
  · by_cases hplain : x.place.isPlain
    · rw [if_neg (by simpa using (hm htame).mpr hplain), if_pos hplain]
      rw [hplain, Bool.true_and] at hend
      split
      · rfl
      · split
        · next hclosing =>
          rw [if_neg]
          intro hdepth
          exact hend (by simpa [Brackets.block, hdepth] using hclosing)
        · rfl
    · rw [if_pos (by simpa using mt (hm htame).mp hplain), if_neg hplain]
  · have hopening : ¬ Brackets.block.opening c := fun h => htame (tame_of_block 0 (.inl h))
    have hclosing : ¬ Brackets.block.closing c :=
      fun h => htame (tame_of_block 0 (.inr (.inl h)))
    rw [if_neg hopening, if_neg hclosing, if_neg hopening, if_neg hclosing, ite_self, ite_self]

theorem splitBlock_of_run {b : List Char} {c : Char} (h : x.run? .block b = some y)
    (hend : y.step? .block c = none) (rest : List Char) :
    ∃ block, splitBlock x.depth (x.place.marks (b ++ c :: rest)) = (block, mark rest) ∧
      unmark block = b ++ [c] := by
  induction b generalizing x with
  | nil =>
    obtain rfl : y = x := (Option.some.inj h).symm
    obtain ⟨hplain, hend⟩ := Spot.step_eq_none hend
    have htame := tame_of_block _ (.inr (.inr hend))
    obtain ⟨m, hmarks, hm⟩ := y.place.marks_cons c rest
    have hc : c = '\x7d' ∧ y.depth ≤ 1 := by simpa [Brackets.block] using hend
    obtain ⟨rfl, hdepth⟩ := hc
    refine ⟨[('\x7d', .plain)], ?_, rfl⟩
    rw [List.nil_append, hmarks, (hm htame).mpr hplain, Place.marks_next_of_plain hplain htame,
      splitBlock, if_neg (by decide), if_neg (by decide), if_pos (by decide), if_pos hdepth]
  | cons d b ih =>
    rw [Spot.run_cons] at h
    obtain ⟨z, hstep, hrun⟩ := Option.bind_eq_some_iff.mp h
    obtain ⟨block, hsplit, htext⟩ := ih hrun
    obtain ⟨m, hcons⟩ := splitBlock_step hstep (b ++ c :: rest)
    refine ⟨(d, m) :: block, by rw [List.cons_append, hcons, hsplit], ?_⟩
    rw [List.cons_append, ← htext]
    rfl

theorem splitBlock_open {b : List Char} (h : x.run? .block b = some y) :
    ∃ block, splitBlock x.depth (x.place.marks b) = (block, []) ∧ unmark block = b := by
  induction b generalizing x with
  | nil => exact ⟨[], by rw [Place.marks_nil]; rfl, rfl⟩
  | cons d b ih =>
    rw [Spot.run_cons] at h
    obtain ⟨z, hstep, hrun⟩ := Option.bind_eq_some_iff.mp h
    obtain ⟨block, hsplit, rfl⟩ := ih hrun
    obtain ⟨m, hcons⟩ := splitBlock_step hstep (unmark block)
    exact ⟨(d, m) :: block, by rw [hcons, hsplit], rfl⟩

end Split

end Polyglot.Style
