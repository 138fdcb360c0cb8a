import Mathlib.Data.List.Infix
import Polyglot.Location.Path
import Polyglot.Proofs.Text.Search

/-!
The normal form of a path. A path is walked part by part on a stack of the parts that are left, and
joining paths is walking on. What is left has its steps upwards in front, if it has any, and is left as it
is when it is walked again.
-/

namespace Polyglot.Path

/--
A part that goes down: neither blank nor dots, and without a slash.
-/
structure IsName (n : List Char) : Prop where
  nonempty : n ≠ []
  notHere : n ≠ ['.']
  notUp : n ≠ ['.', '.']
  whole : '/' ∉ n

theorem isName_of_length {n : List Char} (hlong : 3 ≤ n.length) (hwhole : '/' ∉ n) : IsName n where
  nonempty := by
    rintro rfl
    simp at hlong
  notHere := by
    rintro rfl
    simp at hlong
  notUp := by
    rintro rfl
    simp at hlong
  whole := hwhole

section Walking

variable {rooted : Bool} {done : List (List Char)} {a b p : List Char}

def step (rooted : Bool) (done : List (List Char)) (p : List Char) : List (List Char) :=
  if p.isEmpty || p == ['.'] then done
  else if p != ['.', '.'] then p :: done
  else match done with
    | [] => if rooted then [] else [p]
    | d :: rest => if d == ['.', '.'] then p :: done else rest

def walk (rooted : Bool) (done : List (List Char)) (p : List Char) : List (List Char) :=
  (Text.pieces '/' p).foldl (step rooted) done

theorem foldParts_eq (rooted : Bool) (done ps : List (List Char)) :
    foldParts rooted done ps = (ps.foldl (step rooted) done).reverse := by
  induction ps generalizing done with
  | nil => rfl
  | cons p ps ih =>
    rw [foldParts.eq_def, List.foldl_cons, step.eq_def]
    dsimp only
    split
    · exact ih done
    · split
      · exact ih (p :: done)
      · cases done with
        | nil =>
          dsimp only
          split <;> exact ih _
        | cons d rest =>
          dsimp only
          split <;> exact ih _

theorem step_name {n : List Char} (h : IsName n) : step rooted done n = n :: done := by
  have hpass : ¬ (n.isEmpty || n == ['.']) = true := by simp [h.nonempty, h.notHere]
  rw [step.eq_def, if_neg hpass, if_pos (by simpa using h.notUp)]

theorem walk_nil (rooted : Bool) (done : List (List Char)) : walk rooted done [] = done := rfl

theorem walk_of_not_mem (h : '/' ∉ p) : walk rooted done p = step rooted done p := by
  rw [walk, Text.pieces_of_not_mem h, List.foldl_cons, List.foldl_nil]

theorem walk_append_slash (a b : List Char) :
    walk rooted done (a ++ '/' :: b) = walk rooted (walk rooted done a) b := by
  rw [walk, Text.pieces_append, List.foldl_append, walk, walk]

theorem walk_slashes (k : Nat) (b : List Char) :
    walk rooted done (List.replicate k '/' ++ b) = walk rooted done b := by
  induction k with
  | zero => rfl
  | succ k ih =>
    have hslash : walk rooted done ([] ++ '/' :: (List.replicate k '/' ++ b)) =
        walk rooted (walk rooted done []) (List.replicate k '/' ++ b) := walk_append_slash _ _
    rw [List.nil_append, walk_nil, ih] at hslash
    exact hslash

theorem walk_join (h : isAbsolute b = false) :
    walk rooted done (join a b) = walk rooted (walk rooted done a) b := by
  rw [join, if_neg (by simp [h])]
  split
  · next hend =>
    rcases Bool.or_eq_true_iff.mp hend with hempty | hslash
    · obtain rfl := List.isEmpty_iff.mp hempty
      rw [walk_nil, List.nil_append]
    · obtain ⟨front, rfl⟩ := List.getLast?_eq_some_iff.mp (eq_of_beq hslash)
      rw [List.append_assoc, List.singleton_append, walk_append_slash, walk_append_slash, walk_nil]
  · exact walk_append_slash a b

end Walking

section Stacks

variable {rooted : Bool} {done : List (List Char)} {p : List Char}

/--
Parts that can be left: names on steps upwards, of which there are none behind a root.
-/
inductive Stack (rooted : Bool) : List (List Char) → Prop where
  | ups (k : Nat) (h : rooted → k = 0) : Stack rooted (List.replicate k ['.', '.'])
  | name {n : List Char} {done : List (List Char)} (hn : IsName n) (hdone : Stack rooted done) :
      Stack rooted (n :: done)

theorem Stack.nil (rooted : Bool) : Stack rooted [] := .ups 0 fun _ => rfl

theorem Stack.step (h : Stack rooted done) (hp : '/' ∉ p) : Stack rooted (step rooted done p) := by
  rw [Path.step.eq_def]
  split
  · exact h
  · next hpass =>
    simp only [Bool.or_eq_true, List.isEmpty_iff, beq_iff_eq, not_or] at hpass
    split
    · next hup => exact .name ⟨hpass.1, hpass.2, by simpa using hup, hp⟩ h
    · next hup =>
      obtain rfl : p = ['.', '.'] := by simpa using hup
      cases h with
      | ups k hk =>
        cases k with
        | zero =>
          cases rooted with
          | true => exact .nil true
          | false => exact .ups 1 nofun
        | succ k => exact .ups (k + 2) fun hrooted => absurd (hk hrooted) (Nat.succ_ne_zero k)
      | name hn hdone =>
        dsimp only
        rw [if_neg (by simpa using hn.notUp)]
        exact hdone

theorem Stack.walk (h : Stack rooted done) (p : List Char) : Stack rooted (walk rooted done p) := by
  have hfold (ps : List (List Char)) (hps : ∀ q ∈ ps, '/' ∉ q) {done : List (List Char)}
      (h : Stack rooted done) : Stack rooted (ps.foldl (Path.step rooted) done) := by
    induction ps generalizing done with
    | nil => exact h
    | cons q ps ih =>
      obtain ⟨hq, hps⟩ := List.forall_mem_cons.mp hps
      exact ih hps (h.step hq)
  exact hfold _ (fun q hq => Text.not_mem_of_mem_pieces hq) h

theorem Stack.part (h : Stack rooted done) : ∀ q ∈ done, q ≠ [] ∧ '/' ∉ q := by
  induction h with
  | ups k _ =>
    intro q hq
    obtain rfl := List.eq_of_mem_replicate hq
    decide
  | name hn _ ih => exact List.forall_mem_cons.mpr ⟨⟨hn.nonempty, hn.whole⟩, ih⟩

theorem Stack.foldl_reverse (h : Stack rooted done) :
    done.reverse.foldl (Path.step rooted) [] = done := by
  induction h with
  | ups k hk =>
    rw [List.reverse_replicate]
    cases rooted with
    | true =>
      rw [hk rfl]
      rfl
    | false =>
      induction k with
      | zero => rfl
      | succ k ih =>
        rw [List.replicate_succ', List.foldl_append, ih nofun, ← List.replicate_succ']
        cases k <;> rfl
  | name hn _ ih => rw [List.reverse_cons, List.foldl_append, ih, List.foldl_cons, step_name hn, List.foldl_nil]

end Stacks

section Written

variable {r : Nat} {ps : List (List Char)}

def written (r : Nat) (ps : List (List Char)) : List Char :=
  List.replicate r '/' ++ Text.join ['/'] ps

def shown (r : Nat) (ps : List (List Char)) : List Char :=
  if (written r ps).isEmpty then ['.'] else written r ps

theorem normalize_eq (p : List Char) :
    normalize p = shown (rootSlashes p) (walk (rootSlashes p != 0) [] p).reverse := by
  rw [normalize, foldParts_eq]
  rfl

theorem rootSlashes_le (p : List Char) : rootSlashes p ≤ 2 := by
  fun_cases rootSlashes p <;> decide

theorem rootSlashes_of_relative {cs : List Char} (h : isAbsolute cs = false) : rootSlashes cs = 0 := by
  unfold rootSlashes
  split <;> first | rfl | cases h

theorem rootSlashes_replicate (k : Nat) {cs : List Char} (h : isAbsolute cs = false) :
    rootSlashes (List.replicate k '/' ++ cs) = if k = 2 then 2 else min k 1 := by
  match k with
  | 0 => exact rootSlashes_of_relative h
  | 1 =>
    cases cs with
    | nil => rfl
    | cons c cs =>
      have hc : c ≠ '/' := by
        rintro rfl
        cases h
      simp [rootSlashes, hc]
  | 2 =>
    cases cs with
    | nil => rfl
    | cons c cs =>
      have hc : c ≠ '/' := by
        rintro rfl
        cases h
      simp [rootSlashes, hc]
  | k + 3 => simp [List.replicate_succ, rootSlashes]

theorem exists_run (c : Char) (cs : List Char) :
    ∃ k rest, cs = List.replicate k c ++ rest ∧ rest.head? ≠ some c := by
  induction cs with
  | nil => exact ⟨0, [], rfl, by simp⟩
  | cons d cs ih =>
    by_cases hd : d = c
    · obtain ⟨k, rest, rfl, hrest⟩ := ih
      exact ⟨k + 1, rest, by rw [hd, List.replicate_succ, List.cons_append], hrest⟩
    · exact ⟨0, d :: cs, rfl, by simpa using hd⟩

theorem exists_slashes (a : List Char) :
    ∃ k cs, a = List.replicate k '/' ++ cs ∧ isAbsolute cs = false := by
  obtain ⟨k, cs, ha, hcs⟩ := exists_run '/' a
  exact ⟨k, cs, ha, by simpa [isAbsolute] using hcs⟩

theorem isAbsolute_append {cs : List Char} (h : isAbsolute cs = false) (hne : cs ≠ []) (rest : List Char) :
    isAbsolute (cs ++ rest) = false := by
  rw [isAbsolute, List.head?_append_of_ne_nil _ hne]
  exact h

theorem rootSlashes_join {a b : List Char} (h : isAbsolute b = false) :
    rootSlashes (join a b) = rootSlashes a := by
  obtain ⟨k, cs, rfl, hcs⟩ := exists_slashes a
  rw [join, if_neg (by simp [h]), rootSlashes_replicate k hcs]
  by_cases hempty : cs = []
  · subst hempty
    have hslashes : ((List.replicate k '/' ++ []).isEmpty ||
        (List.replicate k '/' ++ []).getLast? == some '/') = true := by
      cases k with
      | zero => rfl
      | succ k => simp [List.replicate_succ']
    rw [if_pos hslashes, List.append_nil, rootSlashes_replicate k h]
  · split
    · rw [List.append_assoc, rootSlashes_replicate k (isAbsolute_append hcs hempty b)]
    · rw [List.append_assoc, rootSlashes_replicate k (isAbsolute_append hcs hempty _)]

theorem isAbsolute_join (hps : ∀ q ∈ ps, q ≠ [] ∧ '/' ∉ q) : isAbsolute (Text.join ['/'] ps) = false := by
  cases ps with
  | nil => rfl
  | cons p ps =>
    obtain ⟨⟨hne, hp⟩, -⟩ := List.forall_mem_cons.mp hps
    obtain ⟨c, cs, rfl⟩ := List.exists_cons_of_ne_nil hne
    rw [List.mem_cons, not_or] at hp
    have hhead : (Text.join ['/'] ((c :: cs) :: ps)).head? = some c := by
      cases ps <;> rfl
    rw [isAbsolute, hhead]
    simpa using Ne.symm hp.1

theorem rootSlashes_written (hr : r ≤ 2) (hps : ∀ q ∈ ps, q ≠ [] ∧ '/' ∉ q) :
    rootSlashes (written r ps) = r := by
  rw [written, rootSlashes_replicate r (isAbsolute_join hps)]
  split <;> omega

theorem walk_written {rooted : Bool} {done : List (List Char)} (hps : ∀ q ∈ ps, q ≠ [] ∧ '/' ∉ q) :
    walk rooted done (written r ps) = ps.foldl (step rooted) done := by
  rw [written, walk_slashes, walk]
  cases ps with
  | nil => rfl
  | cons p ps => rw [Text.pieces_join (List.cons_ne_nil _ _) fun q hq => (hps q hq).2]

theorem Stack.walk_written {rooted : Bool} {done : List (List Char)} (h : Stack rooted done) :
    Path.walk rooted [] (written r done.reverse) = done := by
  rw [Path.walk_written fun q hq => h.part q (List.mem_reverse.mp hq), h.foldl_reverse]

theorem Stack.normalize_written {done : List (List Char)} (hr : r ≤ 2) (h : Stack (r != 0) done) :
    normalize (written r done.reverse) = shown r done.reverse := by
  have hroot := rootSlashes_written hr fun q hq => h.part q (List.mem_reverse.mp hq)
  rw [normalize_eq, hroot, h.walk_written]

theorem normalize_normalize (p : List Char) : normalize (normalize p) = normalize p := by
  have hstack : Stack (rootSlashes p != 0) (walk (rootSlashes p != 0) [] p) := (Stack.nil _).walk p
  rw [normalize_eq p, shown]
  split
  · rfl
  · next hne =>
    rw [hstack.normalize_written (rootSlashes_le p), shown, if_neg hne]

theorem normalize_ne_doubled (p : List Char) {front : List Char} (hfront : isAbsolute front = false)
    (hne : front ≠ []) (rest : List Char) : normalize p ≠ front ++ '/' :: '/' :: rest := by
  intro heq
  have hparts := ((Stack.nil (rootSlashes p != 0)).walk p).part
  rw [normalize_eq, shown] at heq
  split at heq
  · have hlength := congrArg List.length heq
    simp only [List.length_append, List.length_cons, List.length_nil] at hlength
    omega
  · obtain ⟨ps, hps⟩ : ∃ ps, ps = (walk (rootSlashes p != 0) [] p).reverse := ⟨_, rfl⟩
    have hall : ∀ q ∈ ps, q ≠ [] ∧ '/' ∉ q := fun q hq => hparts q (List.mem_reverse.mp (hps ▸ hq))
    rw [← hps] at heq
    have hroot := rootSlashes_written (rootSlashes_le p) hall
    rw [heq, rootSlashes_of_relative (isAbsolute_append hfront hne _)] at hroot
    rw [written, ← hroot, List.replicate_zero, List.nil_append] at heq
    cases ps with
    | nil => simp [Text.join] at heq
    | cons q qs =>
      have hpieces := Text.pieces_join (List.cons_ne_nil q qs) fun q hq => (hall q hq).2
      rw [heq, Text.pieces_append] at hpieces
      refine absurd rfl (hall [] ?_).1
      rw [← hpieces]
      exact List.mem_append_right _ List.mem_cons_self

end Written

section Directories

variable {r : Nat} {ps : List (List Char)} {n s : List Char}

theorem join_concat (hne : ps ≠ []) (n : List Char) :
    Text.join ['/'] (ps ++ [n]) = Text.join ['/'] ps ++ '/' :: n := by
  induction ps with
  | nil => exact absurd rfl hne
  | cons p ps ih =>
    cases ps with
    | nil => simp [Text.join]
    | cons q qs =>
      rw [List.cons_append, Text.join_cons _ _ (by simp), ih (List.cons_ne_nil _ _),
        Text.join_cons _ _ (List.cons_ne_nil _ _)]
      simp

/--
A path taken apart: its last part, the slashes before that and what stands before them.
-/
structure Split (s front : List Char) (k : Nat) (n : List Char) : Prop where
  text : s = front ++ List.replicate k '/' ++ n
  name : '/' ∉ n
  clear : front.getLast? ≠ some '/'
  slashes : k = 0 → front = []

theorem exists_split (s : List Char) : ∃ front k n, Split s front k n := by
  by_cases hs : '/' ∈ s
  · obtain ⟨xs, ys, heq, hxs⟩ := List.eq_append_cons_of_mem (List.mem_reverse.mpr hs)
    obtain ⟨k, rest, rfl, hrest⟩ := exists_run '/' ys
    refine ⟨rest.reverse, k + 1, xs.reverse, ?_, by simpa using hxs, by simpa using hrest, nofun⟩
    rw [← List.reverse_reverse s, heq]
    simp [List.replicate_succ']
  · exact ⟨[], 0, s, by simp, hs, by simp, fun _ => rfl⟩

theorem Split.scan {front : List Char} {k : Nat} (h : Split s front k n) :
    s.reverse.takeWhile (· != '/') = n.reverse ∧
      s.reverse.dropWhile (· != '/') = (front ++ List.replicate k '/').reverse := by
  have hback : ∀ c ∈ (front ++ List.replicate k '/').reverse.head?, (c != '/') = false := by
    intro c hc
    cases k with
    | zero =>
      rw [h.slashes rfl] at hc
      cases hc
    | succ k =>
      rw [List.replicate_succ', ← List.append_assoc, List.reverse_append] at hc
      cases hc
      rfl
  rw [h.text, List.reverse_append]
  refine Text.takeWhile_stop (fun c hc => ?_) hback
  have hne : c ≠ '/' := fun heq => h.name (by simpa [heq] using hc)
  simpa using hne

theorem Split.baseName {front : List Char} {k : Nat} (h : Split s front k n) : Path.baseName s = n := by
  rw [Path.baseName, h.scan.1, List.reverse_reverse]

theorem Split.dirName {front : List Char} {k : Nat} (h : Split s front k n) :
    Path.dirName s = if front = [] then List.replicate k '/' else front := by
  rw [Path.dirName, h.scan.2, List.reverse_reverse]
  by_cases hfront : front = []
  · simp [hfront]
  · obtain ⟨body, c, rfl⟩ := List.eq_nil_or_concat front |>.resolve_left hfront
    rw [List.concat_eq_append] at *
    have hc : c ≠ '/' := by simpa using h.clear
    rw [if_neg (by simp [hc]), if_neg hfront, List.reverse_append,
      List.dropWhile_append_of_pos (by simp)]
    simp [hc]

theorem dirName_written (hn : '/' ∉ n) (hps : ∀ q ∈ ps, q ≠ [] ∧ '/' ∉ q) :
    dirName (written r (ps ++ [n])) = written r ps := by
  obtain rfl | ⟨qs, q, rfl⟩ := List.eq_nil_or_concat ps
  · have hsplit : Split (written r ([] ++ [n])) [] r n := ⟨rfl, hn, by simp, fun _ => rfl⟩
    rw [hsplit.dirName, if_pos rfl, written, Text.join, List.append_nil]
  · rw [List.concat_eq_append] at hps ⊢
    obtain ⟨hne, hq⟩ := hps q (by simp)
    obtain ⟨body, c, rfl⟩ := List.eq_nil_or_concat q |>.resolve_left hne
    rw [List.concat_eq_append] at hps hq ⊢
    have hc : c ≠ '/' := by
      rintro rfl
      exact hq (by simp)
    -- The last character before the name and its slash is that of the last part.
    obtain ⟨front, hfront⟩ : ∃ front, written r (qs ++ [body ++ [c]]) = front ++ [c] := by
      cases qs with
      | nil => exact ⟨List.replicate r '/' ++ body, by simp [written, Text.join]⟩
      | cons p qs =>
        rw [written, join_concat (List.cons_ne_nil _ _)]
        exact ⟨List.replicate r '/' ++ (Text.join ['/'] (p :: qs) ++ '/' :: body), by simp⟩
    have hsplit : Split (written r (qs ++ [body ++ [c]] ++ [n])) (written r (qs ++ [body ++ [c]])) 1 n := by
      refine ⟨?_, hn, by rw [hfront]; simpa using hc, fun h => absurd h Nat.one_ne_zero⟩
      rw [written, join_concat (by simp), ← List.append_assoc, ← written]
      simp
    rw [hsplit.dirName, if_neg (by rw [hfront]; simp)]

/--
A relative path is its directory and its last part with slashes between them, if it has a directory.
-/
theorem split_of_relative (h : isAbsolute s = false) : ∃ k, Split s (dirName s) k (baseName s) := by
  obtain ⟨front, k, n, hsplit⟩ := exists_split s
  have hfront : dirName s = front := by
    rw [hsplit.dirName]
    split
    · next hnil =>
      subst hnil
      cases k with
      | zero => rfl
      | succ k =>
        rw [hsplit.text] at h
        cases h
    · rfl
  rw [hfront, hsplit.baseName]
  exact ⟨k, hsplit⟩

theorem walk_dirName {rooted : Bool} {done : List (List Char)} (h : isAbsolute s = false) :
    walk rooted done s = step rooted (walk rooted done (dirName s)) (baseName s) := by
  obtain ⟨k, hsplit⟩ := split_of_relative h
  rw [← walk_of_not_mem hsplit.name]
  conv_lhs => rw [hsplit.text]
  cases k with
  | zero => rw [hsplit.slashes rfl, walk_nil, List.replicate_zero, List.append_nil, List.nil_append]
  | succ k => rw [List.append_assoc, List.replicate_succ, List.cons_append, walk_append_slash, walk_slashes]

theorem isAbsolute_dirName (h : isAbsolute s = false) : isAbsolute (dirName s) = false := by
  obtain ⟨k, hsplit⟩ := split_of_relative h
  cases hdir : dirName s with
  | nil => rfl
  | cons c cs =>
    rw [hsplit.text, hdir] at h
    exact h

theorem isAbsolute_of_join {a b : List Char} (ha : isAbsolute a = false) (hb : isAbsolute b = false) :
    isAbsolute (join a b) = false := by
  rw [join, if_neg (by simp [hb])]
  split
  · cases a with
    | nil => exact hb
    | cons c a => exact ha
  · next hend =>
    cases a with
    | nil => exact absurd rfl hend
    | cons c a => exact ha

theorem shown_concat (hn : n ≠ []) : shown r (ps ++ [n]) = written r (ps ++ [n]) := by
  have hne : written r (ps ++ [n]) ≠ [] := by
    rw [written]
    cases ps with
    | nil => simp [Text.join, hn]
    | cons p ps =>
      rw [join_concat (List.cons_ne_nil p ps)]
      simp
  rw [shown, if_neg (by simpa using hne)]

/--
Of two paths taken from a directory one after the other, the second is taken from where the first one is.
-/
theorem normalize_join_dirName {d s t : List Char} (hs : isAbsolute s = false) (ht : isAbsolute t = false)
    (hname : IsName (baseName s)) :
    normalize (join (dirName (normalize (join d s))) t) = normalize (join d (join (dirName s) t)) := by
  obtain ⟨left, hleft⟩ : ∃ left, left = walk (rootSlashes d != 0) [] (join d (dirName s)) := ⟨_, rfl⟩
  have hstack : Stack (rootSlashes d != 0) left := by
    rw [hleft]
    exact (Stack.nil _).walk _
  have hparts : ∀ q ∈ left.reverse, q ≠ [] ∧ '/' ∉ q := fun q hq => hstack.part q (List.mem_reverse.mp hq)
  have hfirst : normalize (join d s) = written (rootSlashes d) (left.reverse ++ [baseName s]) := by
    rw [normalize_eq, rootSlashes_join hs, walk_join hs, walk_dirName hs,
      ← walk_join (isAbsolute_dirName hs), ← hleft, step_name hname, List.reverse_cons]
    exact shown_concat hname.nonempty
  rw [hfirst, dirName_written hname.whole hparts, normalize_eq, rootSlashes_join ht,
    rootSlashes_written (rootSlashes_le d) hparts, walk_join ht, hstack.walk_written, normalize_eq,
    rootSlashes_join (isAbsolute_of_join (isAbsolute_dirName hs) ht),
    walk_join (isAbsolute_of_join (isAbsolute_dirName hs) ht), walk_join ht,
    ← walk_join (isAbsolute_dirName hs), ← hleft]

end Directories

end Polyglot.Path
