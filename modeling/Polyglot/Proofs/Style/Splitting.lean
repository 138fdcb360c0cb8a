import Polyglot.Proofs.Style.Passing
import Polyglot.Proofs.Text.Search

/-!
The splitter of selector lists, as it goes from character to character. What it splits a list into can
be confined and joined again, and is split as it was before.
-/

namespace Polyglot

namespace Style

/--
Outside of strings, or in one, right behind a backslash or not.
-/
inductive Reading where
  | outside (depth : Nat)
  | inside (depth : Nat) (double slash : Bool)

namespace Reading

variable {x y z : Reading} {cs w : List Char} {ws : List (List Char)}

def settled : Reading → Reading
  | outside depth => outside depth
  | inside depth double _ => inside depth double false

def step? : Reading → Char → Option Reading
  | outside depth, c =>
    if c == '"' || c == '\'' then some (inside depth (c == '"') false)
    else if c == '(' || c == '[' then some (outside (depth + 1))
    else if c == ')' || c == ']' then some (outside (depth - 1))
    else if c == ',' && depth == 0 then none
    else some (outside depth)
  | inside depth double slash, c =>
    if c == Place.quoteMark double && !slash then some (outside depth)
    else some (inside depth double (c == '\\'))

/--
What a text is split into from there on.
-/
def pieces : Reading → List Char → List (List Char)
  | outside depth, cs => splitCommas.go depth none ' ' cs
  | inside depth double slash, cs =>
    splitCommas.go depth (some (Place.quoteMark double)) (if slash then '\\' else ' ') cs

theorem pieces_nil (x : Reading) : x.pieces [] = [[]] := by
  cases x <;> rfl

theorem go_behind (depth : Nat) (q c : Char) (cs : List Char) :
    splitCommas.go depth (some q) c cs =
      splitCommas.go depth (some q) (if c == '\\' then '\\' else ' ') cs := by
  cases cs with
  | nil => rfl
  | cons d cs =>
    rw [splitCommas.go, splitCommas.go]
    by_cases hc : c = '\\'
    · simp [hc]
    · simp [hc]

theorem pieces_cons {c : Char} (h : x.step? c = some y) (cs : List Char) :
    x.pieces (c :: cs) = splitCommas.put c (y.pieces cs) := by
  cases x with
  | outside depth =>
    rw [step?] at h
    rw [pieces, splitCommas.go]
    split at h
    · next hquote =>
      cases h
      rw [if_pos hquote, pieces, go_behind]
      rcases Bool.or_eq_true_iff.mp hquote with hc | hc
      · rw [eq_of_beq hc]
        rfl
      · rw [eq_of_beq hc]
        rfl
    · next hquote =>
      rw [if_neg hquote]
      split at h
      · next hopen =>
        cases h
        rw [if_pos hopen, pieces, go_before _ c ' ']
      · next hopen =>
        rw [if_neg hopen]
        split at h
        · next hclose =>
          cases h
          rw [if_pos hclose, pieces, go_before _ c ' ']
        · next hclose =>
          rw [if_neg hclose]
          split at h
          · cases h
          · next hcomma =>
            cases h
            rw [if_neg hcomma, pieces, go_before _ c ' ']
  | inside depth double slash =>
    have hbehind : ((if slash then '\\' else ' ') != '\\') = !slash := by
      cases slash <;> rfl
    rw [step?] at h
    rw [pieces, splitCommas.go, hbehind]
    split at h
    · next hend =>
      cases h
      rw [if_pos hend, pieces, go_before _ c ' ']
    · next hend =>
      cases h
      rw [if_neg hend, pieces, go_behind]

theorem pieces_split {c : Char} (h : x.step? c = none) (cs : List Char) :
    c = ',' ∧ x = outside 0 ∧ x.pieces (c :: cs) = [] :: (outside 0).pieces cs := by
  cases x with
  | outside depth =>
    have hcut : c = ',' ∧ depth = 0 := by
      rw [step?] at h
      split at h
      · cases h
      · split at h
        · cases h
        · split at h
          · cases h
          · split at h
            · next hcomma => simpa using hcomma
            · cases h
    obtain ⟨rfl, rfl⟩ := hcut
    exact ⟨rfl, rfl, congrArg ([] :: ·) (go_before 0 ',' ' ' cs)⟩
  | inside depth double slash =>
    rw [step?] at h
    split at h <;> cases h

theorem step_plain (depth : Nat) {c : Char} (hc : c ∉ ['"', '\'', '(', ')', '[', ']', ',']) :
    (outside depth).step? c = some (outside depth) := by
  simp only [List.mem_cons, List.not_mem_nil, or_false, not_or] at hc
  simp [step?, hc]

theorem step_quoted (depth : Nat) (double slash : Bool) {c : Char} (hc : c ∉ ['"', '\'', '\\']) :
    (inside depth double slash).step? c = some (inside depth double false) := by
  simp only [List.mem_cons, List.not_mem_nil, or_false, not_or] at hc
  obtain ⟨hdouble, hsingle, hback⟩ := hc
  have hmark : c ≠ Place.quoteMark double := by
    cases double
    · exact hsingle
    · exact hdouble
  simp [step?, hmark, hback]

theorem step_mild {c : Char} (hc : c ∉ ['"', '\'', '\\', '(', ')', '[', ']', ',']) (x : Reading) :
    x.step? c = some x.settled := by
  simp only [List.mem_cons, List.not_mem_nil, or_false, not_or] at hc
  cases x with
  | outside depth => exact step_plain depth (by simp [hc])
  | inside depth double slash => exact step_quoted depth double slash (by simp [hc])

theorem step_blank {c : Char} (hc : Text.isBlank c) (x : Reading) : x.step? c = some x.settled := by
  apply step_mild
  intro hmem
  simp only [List.mem_cons, List.not_mem_nil, or_false] at hmem
  rcases hmem with rfl | rfl | rfl | rfl | rfl | rfl | rfl | rfl <;> exact absurd hc (by decide)

def walker : Walker Reading where
  step? := step?
  settled := settled
  settled_settled x := by cases x <;> rfl
  mild hc x := step_mild (fun hmem => hc (by simp only [List.mem_cons] at hmem ⊢; tauto)) x
  blank hc x _ h := Option.some.inj (h.symm.trans (step_blank hc x))
  brackets x := by
    cases x with
    | outside depth => exact ⟨outside (depth + 1), rfl, rfl, rfl⟩
    | inside depth double slash =>
      exact ⟨inside depth double false, step_quoted _ _ _ (by simp), rfl, step_quoted _ _ _ (by simp)⟩

/--
Pieces as the splitter finds them: it goes over each of them as a whole, and outside of strings and
brackets it comes to the comma behind one.
-/
inductive Pieced : Reading → List (List Char) → Prop where
  | last {x y : Reading} {w : List Char} (h : walker.Walks x w y) : Pieced x [w]
  | cons {x : Reading} {w : List Char} {ws : List (List Char)} (h : walker.Walks x w (outside 0))
      (hws : Pieced (outside 0) ws) : Pieced x (w :: ws)

theorem Pieced.ne_nil (h : Pieced x ws) : ws ≠ [] := by
  cases h <;> exact List.cons_ne_nil _ _

theorem Pieced.put {c : Char} (h : x.step? c = some y) (hws : Pieced y ws) :
    Pieced x (splitCommas.put c ws) ∧
      Text.join [','] (splitCommas.put c ws) = c :: Text.join [','] ws := by
  cases hws with
  | last hw => exact ⟨.last (Walker.walks_cons.mpr ⟨y, h, hw⟩), rfl⟩
  | cons hw hws =>
    refine ⟨.cons (Walker.walks_cons.mpr ⟨y, h, hw⟩) hws, ?_⟩
    rw [splitCommas.put, Text.join_cons _ _ hws.ne_nil, Text.join_cons _ _ hws.ne_nil]
    rfl

theorem pieced_pieces (x : Reading) (cs : List Char) :
    Pieced x (x.pieces cs) ∧ Text.join [','] (x.pieces cs) = cs := by
  induction cs generalizing x with
  | nil =>
    rw [pieces_nil]
    exact ⟨.last (.nil x), rfl⟩
  | cons c cs ih =>
    cases hstep : x.step? c with
    | none =>
      obtain ⟨rfl, rfl, heq⟩ := pieces_split hstep cs
      obtain ⟨hpieced, hjoin⟩ := ih (outside 0)
      rw [heq, Text.join_cons _ _ hpieced.ne_nil, hjoin]
      exact ⟨.cons (.nil _) hpieced, rfl⟩
    | some y =>
      obtain ⟨hpieced, hjoin⟩ := ih y
      obtain ⟨hput, htext⟩ := hpieced.put hstep
      rw [pieces_cons hstep, htext, hjoin]
      exact ⟨hput, rfl⟩

theorem pieces_of_walks (h : walker.Walks x w y) (cs : List Char) :
    x.pieces (w ++ cs) = w.foldr splitCommas.put (y.pieces cs) := by
  induction w generalizing x with
  | nil =>
    cases h
    rfl
  | cons c w ih =>
    obtain ⟨z, hstep, hwalk⟩ := Walker.walks_cons.mp h
    rw [List.cons_append, pieces_cons hstep, ih hwalk]
    rfl

theorem Pieced.pieces_join (h : Pieced x ws) : x.pieces (Text.join [','] ws) = ws := by
  induction h with
  | @last x y w hw =>
    have heq := pieces_of_walks hw []
    rw [List.append_nil, pieces_nil, foldr_put, List.append_nil] at heq
    exact heq
  | @cons x w ws hw hws ih =>
    have hcomma : (outside 0).pieces (',' :: Text.join [','] ws) = [] :: ws := by
      rw [(pieces_split (x := outside 0) rfl _).2.2, ih]
    rw [Text.join_cons _ _ hws.ne_nil, List.append_assoc, List.singleton_append, pieces_of_walks hw,
      hcomma, foldr_put, List.append_nil]

theorem eq_of_settled {depth : Nat} (h : walker.settled x = walker.settled (outside depth)) :
    x = outside depth := by
  cases x with
  | outside depth' => exact h
  | inside depth' double slash => cases h

theorem walks_blank (depth : Nat) : walker.Walks (outside depth) [' '] (outside depth) :=
  Walker.walks_cons.mpr ⟨outside depth, step_blank (c := ' ') (by decide) (outside depth), .nil _⟩

variable {attr : List Char}

/--
The selectors of a list of pieces are pieces when they are confined, if there are any.
-/
theorem Pieced.confine (hattr : ∀ x, walker.Walks x attr (walker.settled x))
    (h : Pieced (outside 0) ws) :
    selected ws = [] ∨ Pieced (outside 0) ((selected ws).map (confine attr)) := by
  induction ws with
  | nil => exact .inl rfl
  | cons w ws ih =>
    rw [selected_cons]
    cases h with
    | last hw =>
      obtain ⟨z, htrim, -⟩ := hw.trim rfl
      split
      · exact .inl rfl
      · exact .inr (.last (htrim.confine hattr rfl))
    | cons hw hws =>
      obtain ⟨z, htrim, hz⟩ := hw.trim rfl
      obtain rfl := eq_of_settled hz
      split
      · exact ih hws
      · have hfirst := htrim.confine hattr rfl
        rcases ih hws with hnone | hmore
        · rw [hnone]
          exact .inr (.last hfirst)
        · exact .inr (.cons hfirst hmore)

theorem Pieced.spaced (h : Pieced (outside 0) ws) : Pieced (outside 0) (ws.map (' ' :: ·)) := by
  induction ws with
  | nil => exact h
  | cons w ws ih =>
    cases h with
    | last hw => exact .last ((walks_blank 0).append hw)
    | cons hw hws => exact .cons ((walks_blank 0).append hw) (ih hws)

end Reading

theorem selected_spaced {ws : List (List Char)} (h : ∀ w ∈ ws, Text.Tight w) :
    selected (ws.map (' ' :: ·)) = ws := by
  induction ws with
  | nil => rfl
  | cons w ws ih =>
    obtain ⟨hw, hws⟩ := List.forall_mem_cons.mp h
    have htrim : Text.trim ([' '] ++ w ++ []) = w := hw.trim_append (List.forall_mem_singleton.mpr rfl) (by simp)
    rw [List.append_nil, List.singleton_append] at htrim
    rw [List.map_cons, selected_cons, htrim, if_neg hw.nonempty, ih hws]

theorem splitSelectors_join {ws : List (List Char)} (h : Reading.Pieced (.outside 0) ws)
    (htight : ∀ w ∈ ws, Text.Tight w) : splitSelectors (Text.join [',', ' '] ws) = ws := by
  cases ws with
  | nil => exact absurd rfl h.ne_nil
  | cons w ws =>
    obtain ⟨hw, hws⟩ := List.forall_mem_cons.mp htight
    have hspaced : Reading.Pieced (.outside 0) (w :: ws.map (' ' :: ·)) := by
      cases h with
      | last hw => exact .last hw
      | cons hw hws => exact .cons hw hws.spaced
    have htrim : Text.trim w = w := by
      have heq : Text.trim ([] ++ w ++ []) = w := hw.trim_append (by simp) (by simp)
      rwa [List.append_nil] at heq
    have htext : Text.join [',', ' '] (w :: ws) = Text.join [','] (w :: ws.map (' ' :: ·)) :=
      Text.join_append [','] [' '] w ws
    have hpieces := hspaced.pieces_join
    change selected (Reading.pieces (.outside 0) (Text.join [',', ' '] (w :: ws))) = w :: ws
    rw [htext, hpieces, selected_cons, selected_spaced hws, htrim, if_neg hw.nonempty]

end Style

end Polyglot
