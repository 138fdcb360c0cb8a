import Polyglot.Proofs.Style.Cuts
import Polyglot.Proofs.Style.Splitting

/-!
Scoping a sheet that is scoped already. Its preludes are found where they were written, their
selectors are the confined ones, and these stay as they are; so the sheet does, but for preludes in
which a line feed ends a string, and for those that begin with a comma and behind it with a comment.

Confining a selector list is confining its selectors one by one. What comes of a list is split where the
list was, whatever brackets and strings are left open in it, so that no selector is lost, joined to another
or moved, and confining the list again changes nothing.
-/

namespace Polyglot.Style

theorem tight_of_selected {ws : List (List Char)} : ∀ s ∈ selected ws, Text.Tight s := by
  intro s hs
  obtain ⟨hs, hne⟩ := List.mem_filter.mp hs
  obtain ⟨w, -, rfl⟩ := List.mem_map.mp hs
  exact Text.tight_trim (by simpa using hne)

section Confine

variable {attr selector : List Char}

theorem render_end (attr tail : List Char) {cuts : List (List Char × List Char)} (hne : cuts ≠ []) :
    ∃ front, render attr (cuts, tail) = front ++ attr ++ tail := by
  induction cuts with
  | nil => exact absurd rfl hne
  | cons cut cuts ih =>
    rw [render_cons]
    by_cases hcuts : cuts = []
    · exact ⟨cut.1, by rw [hcuts]; simp [render]⟩
    · obtain ⟨front, hfront⟩ := ih hcuts
      exact ⟨cut.1 ++ attr ++ front, by rw [hfront]; simp⟩

theorem tight_confine (hattr : Text.Tight attr) (h : Text.Tight selector) :
    Text.Tight (confine attr selector) := by
  rcases confine_cases attr selector with heq | heq | ⟨cuts, tail, hne, heq, hselector, -⟩
  · rwa [heq]
  · rw [heq, ← List.singleton_append, ← List.append_assoc]
    exact hattr.append h
  · obtain ⟨hnonempty, hfirst, hlast⟩ := Text.tight_iff.mp h
    obtain ⟨-, hopen, hclose⟩ := Text.tight_iff.mp hattr
    rw [heq]
    refine Text.tight_iff.mpr ⟨?_, ?_, ?_⟩
    · obtain ⟨front, hend⟩ := render_end attr tail hne
      simp [hend, hattr.nonempty]
    · obtain ⟨cut, cuts, rfl⟩ := List.exists_cons_of_ne_nil hne
      rw [render_cons]
      by_cases htext : cut.1 = []
      · rw [htext, List.nil_append, List.head?_append_of_ne_nil _ hattr.nonempty]
        exact hopen
      · rw [hselector, List.flatMap_cons, List.append_assoc, List.append_assoc,
          List.head?_append_of_ne_nil _ htext] at hfirst
        rwa [List.head?_append_of_ne_nil _ htext]
    · obtain ⟨front, hend⟩ := render_end attr tail hne
      rw [hend]
      by_cases htail : tail = []
      · rw [htail, List.append_nil, List.getLast?_append_of_ne_nil _ hattr.nonempty]
        exact hclose
      · rw [hselector, List.getLast?_append_of_ne_nil _ htail] at hlast
        rwa [List.getLast?_append_of_ne_nil _ htail]

theorem Begins.of_front {as bs cs : List Char} (h : Begins (as ++ bs)) (hne : as ≠ [])
    (hstar : cs.head? ≠ some '*') : Begins (as ++ cs) := by
  obtain ⟨c, as, rfl⟩ := List.exists_cons_of_ne_nil hne
  refine ⟨h.first, fun hcomment => ?_⟩
  cases as with
  | nil =>
    cases cs with
    | nil => simp at hcomment
    | cons d cs =>
      simp only [List.cons_append, List.nil_append, List.cons_prefix_cons] at hcomment
      exact hstar (by rw [← hcomment.2.1]; rfl)
  | cons d as => exact h.comment (by simpa using hcomment)

theorem begins_bracket (cs : List Char) : Begins ('[' :: cs) where
  first := by simp [Text.isBlank]
  comment := by simp

theorem Begins.confine {id : List Char} (h : Begins selector) :
    Begins (confine (attributeSelector id) selector) := by
  rcases confine_cases (attributeSelector id) selector with
    heq | heq | ⟨cuts, tail, hne, heq, hselector, -⟩
  · rwa [heq]
  · rw [heq]
    exact begins_bracket _
  · obtain ⟨cut, cuts, rfl⟩ := List.exists_cons_of_ne_nil hne
    rw [heq, render_cons]
    by_cases htext : cut.1 = []
    · rw [htext]
      exact begins_bracket _
    · rw [hselector, List.flatMap_cons, List.append_assoc, List.append_assoc] at h
      exact h.of_front htext (by simp [attributeSelector])

end Confine

section Prelude

variable {id p : List Char}

theorem tight_attributeSelector (id : List Char) : Text.Tight (attributeSelector id) := by
  have hclose : (attributeSelector id).getLast? = some ']' := List.getLast?_concat
  refine Text.tight_iff.mpr ⟨List.cons_ne_nil _ _, ?_, ?_⟩
  · simp [attributeSelector, Text.isBlank]
  · simp [hclose, Text.isBlank]

theorem mild_of_word {c : Char} (h : Text.isWord c ∨ c = '-') : Mild c := by
  intro hmem
  simp only [List.mem_cons, List.not_mem_nil, or_false] at hmem
  rcases hmem with rfl | rfl | rfl | rfl | rfl | rfl | rfl | rfl | rfl | rfl | rfl | rfl | rfl <;>
    exact absurd h (by decide)

/--
A prelude in which no line feed ends a string. If it begins with a comma, nothing that is kept on its
own comes to its front when the comma goes.
-/
structure Settled (attr p : List Char) : Prop where
  calm : Place.plain.Calm p
  front : p.head? = some ',' → ∀ s ∈ (splitSelectors p).head?, Begins (confine attr s)

def confinedSelectors (attr p : List Char) : List (List Char) :=
  (splitSelectors p).map (confine attr)

theorem confinedList_eq (attr p : List Char) :
    confinedList attr p = Text.join [',', ' '] (confinedSelectors attr p) := by
  rw [confinedList, splitSelectors_trim, confinedSelectors]

theorem tight_confinedSelectors (id p : List Char) :
    ∀ s ∈ confinedSelectors (attributeSelector id) p, Text.Tight s := by
  intro s hs
  obtain ⟨selector, hselector, rfl⟩ := List.mem_map.mp hs
  exact tight_confine (tight_attributeSelector id) (tight_of_selected selector hselector)

theorem splitSelectors_confinedList (hid : ∀ c ∈ id, Text.isWord c ∨ c = '-') (p : List Char) :
    splitSelectors (confinedList (attributeSelector id) p) =
      confinedSelectors (attributeSelector id) p := by
  have hmild : ∀ c ∈ id, Mild c := fun c hc => mild_of_word (hid c hc)
  rw [confinedList_eq]
  obtain ⟨hpieced, -⟩ := Reading.pieced_pieces (.outside 0) p
  rcases hpieced.confine (Walker.walks_attribute hmild) with hnone | hmore
  · change splitSelectors p = [] at hnone
    rw [confinedSelectors, hnone]
    rfl
  · exact splitSelectors_join hmore (tight_confinedSelectors id p)

theorem confinedSelectors_confinedList (hid : ∀ c ∈ id, Text.isWord c ∨ c = '-') (p : List Char) :
    confinedSelectors (attributeSelector id) (confinedList (attributeSelector id) p) =
      confinedSelectors (attributeSelector id) p := by
  have hstay (s : List Char) (hs : s ∈ confinedSelectors (attributeSelector id) p) :
      confine (attributeSelector id) s = s := by
    obtain ⟨s, -, rfl⟩ := List.mem_map.mp hs
    exact if_pos (contains_confine _ _)
  rw [confinedSelectors, splitSelectors_confinedList hid]
  exact (List.map_congr_left hstay).trans (List.map_id _)

theorem tight_join (sep : List Char) {ws : List (List Char)} (hne : ws ≠ [])
    (h : ∀ w ∈ ws, Text.Tight w) : Text.Tight (Text.join sep ws) := by
  induction ws with
  | nil => exact absurd rfl hne
  | cons w ws ih =>
    obtain ⟨hw, hws⟩ := List.forall_mem_cons.mp h
    by_cases hmore : ws = []
    · rw [hmore]
      exact hw
    · rw [Text.join_cons _ _ hmore]
      exact hw.append (ih hmore hws)

theorem Spot.step_ends {b : Brackets} {x : Spot} {c : Char} (hplain : x.place.isPlain)
    (hend : b.ends x.depth c) : x.step? b c = none :=
  if_pos (by rw [hplain, hend]; rfl)

open Spot in
theorem Spot.run_blanks {cs : List Char} (hcs : ∀ c ∈ cs, Text.isBlank c) {x : Spot}
    (hx : x.place.isPlain) :
    ∃ y, x.run? .prelude cs = some y ∧ y.place.isPlain ∧ y.depth = x.depth := by
  induction cs generalizing x with
  | nil => exact ⟨x, rfl, hx, rfl⟩
  | cons c cs ih =>
    obtain ⟨hc, hcs⟩ := List.forall_mem_cons.mp hcs
    have hne : c ∉ ['/', '*', '"', '\'', '(', ')', '[', ']', '\x7b', ';'] := by
      intro hmem
      simp only [List.mem_cons, List.not_mem_nil, or_false] at hmem
      rcases hmem with rfl | rfl | rfl | rfl | rfl | rfl | rfl | rfl | rfl | rfl <;>
        exact absurd hc (by decide)
    simp only [List.mem_cons, List.not_mem_nil, or_false, not_or] at hne
    have hstep : x.step? .prelude c = some ⟨.plain, x.depth⟩ := by
      obtain ⟨place, depth⟩ := x
      cases place with
      | plain | slash =>
        simp [step?, deepen, Brackets.prelude, Place.isPlain, Place.next, Place.ofPlain, hne]
      | _ => cases hx
    obtain ⟨y, hrun, hplain, hdepth⟩ := ih hcs (x := ⟨.plain, x.depth⟩) rfl
    exact ⟨y, by rw [run_cons, hstep, Option.bind_some, hrun], hplain, hdepth⟩

theorem reaches_confinedList (hid : ∀ c ∈ id, Text.isWord c ∨ c = '-') (hend : Reaches p '\x7b')
    (hcalm : Place.plain.Calm p) :
    Reaches (confinedList (attributeSelector id) p ++ Text.blankEnd p) '\x7b' := by
  obtain ⟨x, hrun, hstop⟩ := hend
  obtain ⟨hplain, hdepth⟩ := Spot.step_eq_none hstop
  obtain ⟨hpieced, hjoin⟩ := Reading.pieced_pieces (.outside 0) p
  have hwalk : Spot.walker.Walks .start (Text.join [','] (Reading.pieces (.outside 0) p)) x := by
    rw [hjoin]
    exact Spot.walks_of_run hrun hcalm
  obtain ⟨z, hz, hsettled⟩ := Spot.walks_join
    (Walker.walks_attribute fun c hc => mild_of_word (hid c hc)) hpieced.ne_nil rfl hwalk
  have hzplain : z.place.isPlain := by
    have hplace : z.place.settled = x.place.settled := congrArg Spot.place hsettled
    rw [← Place.isPlain_settled, hplace, Place.isPlain_settled]
    exact hplain
  have hzdepth : z.settled.depth = x.settled.depth := congrArg Spot.depth hsettled
  change z.depth = x.depth at hzdepth
  have hblank : ∀ c ∈ Text.blankEnd p, Text.isBlank c := fun c => Text.blank_of_mem_blankEnd
  obtain ⟨y, hy, hyplain, hydepth⟩ := Spot.run_blanks hblank hzplain
  refine ⟨y, ?_, Spot.step_ends hyplain (by rwa [hydepth, hzdepth])⟩
  rw [confinedList_eq, Spot.run_append]
  exact Option.bind_eq_some_iff.mpr ⟨z, Spot.run_of_walks hz, hy⟩

theorem begins_splitSelectors (hp : Begins p) (hcomma : p.head? ≠ some ',') :
    ∀ s ∈ (splitSelectors p).head?, Begins s := by
  obtain ⟨hpieced, hjoin⟩ := Reading.pieced_pieces (.outside 0) p
  obtain ⟨w, ws, hpieces⟩ := List.exists_cons_of_ne_nil hpieced.ne_nil
  rw [hpieces] at hjoin
  change ∀ s ∈ (selected (Reading.pieces (.outside 0) p)).head?, Begins s
  rw [hpieces, selected_cons]
  cases w with
  | nil =>
    cases ws with
    | nil => simp [Text.trim, Text.trimLeft, Text.trimRight, selected]
    | cons w ws => exact absurd (by rw [← hjoin]; rfl) hcomma
  | cons c w =>
    obtain ⟨rest, hrest⟩ : ∃ rest, p = c :: w ++ rest := by
      cases ws with
      | nil => exact ⟨[], by simp [← hjoin, Text.join]⟩
      | cons w' ws =>
        exact ⟨_, by rw [← hjoin, Text.join_cons _ _ (List.cons_ne_nil _ _), List.append_assoc]⟩
    rw [hrest] at hp
    have hfront := hp.front
    have hc := (hfront.first c rfl).1
    obtain ⟨as, bs, heq, has, hbs⟩ := Text.blanks_trim_blanks (c :: w)
    have hblank (cs : List Char) (hcs : ∀ c ∈ cs, Text.isBlank c) : cs.head? ≠ some c := by
      intro hhead
      rw [hcs c (List.mem_of_head? hhead)] at hc
      cases hc
    have hnone : as = [] := by
      cases as with
      | nil => rfl
      | cons a as => exact absurd (by rw [(List.cons.inj heq).1]; rfl) (hblank _ has)
    rw [hnone, List.nil_append] at heq
    have hne : Text.trim (c :: w) ≠ [] := by
      intro htrim
      rw [htrim, List.nil_append] at heq
      exact hblank bs hbs (by rw [← heq]; rfl)
    rw [if_neg hne]
    rintro s hs
    obtain rfl := Option.some.inj hs
    rw [heq] at hfront
    exact hfront.front

theorem begins_confinedSelectors (hp : Begins p) (hsettled : Settled (attributeSelector id) p) :
    ∀ s ∈ (confinedSelectors (attributeSelector id) p).head?, Begins s := by
  intro s hs
  rw [confinedSelectors, List.head?_map] at hs
  obtain ⟨selector, hhead, rfl⟩ := Option.map_eq_some_iff.mp hs
  by_cases hcomma : p.head? = some ','
  · exact hsettled.front hcomma selector hhead
  · exact (begins_splitSelectors hp hcomma selector hhead).confine

theorem begins_confinedList (hp : Begins p) (hsettled : Settled (attributeSelector id) p)
    (hne : confinedSelectors (attributeSelector id) p ≠ []) :
    Begins (confinedList (attributeSelector id) p ++ Text.blankEnd p) := by
  obtain ⟨s, ss, hs⟩ := List.exists_cons_of_ne_nil hne
  have hnonempty : s ≠ [] := (tight_confinedSelectors id p s (by simp [hs])).nonempty
  have hfirst : Begins (s ++ []) := by
    rw [List.append_nil]
    exact begins_confinedSelectors hp hsettled s (by rw [hs]; rfl)
  rw [confinedList_eq, hs]
  cases ss with
  | nil =>
    refine hfirst.of_front hnonempty fun hstar => ?_
    exact absurd (Text.blank_of_mem_blankEnd (List.mem_of_head? hstar)) (by decide)
  | cons s' ss =>
    rw [Text.join_cons _ _ (List.cons_ne_nil _ _), List.append_assoc, List.append_assoc]
    exact hfirst.of_front hnonempty (by simp)

end Prelude

section Sheet

variable {id css p b cs : List Char} {ps : List Piece}

theorem Cuts.blanks {bs : List Char} (hbs : ∀ c ∈ bs, Text.isBlank c) (h : Cuts cs ps) :
    Cuts (bs ++ cs) ((bs.map fun c => .kept [c]) ++ ps) := by
  induction bs with
  | nil => exact h
  | cons c bs ih =>
    obtain ⟨hc, hbs⟩ := List.forall_mem_cons.mp hbs
    exact .pass (.inl hc) (ih hbs)

theorem flatMap_kept (attr cs : List Char) :
    (cs.map fun c => Piece.kept [c]).flatMap (Piece.confined attr) = cs := by
  simp [List.flatMap_map, Piece.confined]

theorem BlockBefore.scoped (hb : BlockBefore b cs) (hcs : Cuts cs ps) (attr : List Char) :
    BlockBefore b (ps.flatMap (Piece.confined attr)) := by
  cases hb with
  | closed hrun hend => exact .closed hrun hend _
  | unclosed hrun =>
    have hnone : ps = [] := by rw [← hcs.pieces_eq]; rfl
    rw [hnone]
    exact .unclosed hrun

theorem confined_again (hid : ∀ c ∈ id, Text.isWord c ∨ c = '-')
    (hne : confinedSelectors (attributeSelector id) p ≠ []) (b : List Char) :
    (Piece.rule (confinedList (attributeSelector id) p ++ Text.blankEnd p) b).confined
        (attributeSelector id) =
      confinedList (attributeSelector id) p ++ Text.blankEnd p ++ b := by
  have hblank : ∀ c ∈ Text.blankEnd p, Text.isBlank c := fun c => Text.blank_of_mem_blankEnd
  -- The list has no blank ends, so that the blanks behind it are those at the end of the prelude.
  have htight : Text.Tight (confinedList (attributeSelector id) p) := by
    rw [confinedList_eq]
    exact tight_join _ hne (tight_confinedSelectors id p)
  have htrim : Text.trim ([] ++ confinedList (attributeSelector id) p ++ Text.blankEnd p) = _ :=
    htight.trim_append (by simp) hblank
  rw [List.nil_append] at htrim
  have hlist := confinedSelectors_confinedList hid p
  rw [confinedSelectors] at hlist
  rw [Piece.confined, htrim, htight.blankEnd_append hblank, hlist, ← confinedList_eq]

theorem Cuts.rule_again (hid : ∀ c ∈ id, Text.isWord c ∨ c = '-') (hp : Begins p)
    (hend : Reaches p '\x7b') (hsettled : Settled (attributeSelector id) p) (hb : BlockBefore b cs)
    (hcs : Cuts cs ps) :
    ∃ qs, Cuts ((Piece.rule p b).confined (attributeSelector id) ++ cs) (qs ++ ps) ∧
      qs.flatMap (Piece.confined (attributeSelector id)) =
        (Piece.rule p b).confined (attributeSelector id) := by
  have hconfined : (Piece.rule p b).confined (attributeSelector id) =
      confinedList (attributeSelector id) p ++ Text.blankEnd p ++ b := rfl
  have hblank : ∀ c ∈ Text.blankEnd p, Text.isBlank c := fun c => Text.blank_of_mem_blankEnd
  rw [hconfined, List.append_assoc _ b cs]
  by_cases hnone : confinedSelectors (attributeSelector id) p = []
  · have hlist : confinedList (attributeSelector id) p = [] := by
      rw [confinedList_eq, hnone]
      rfl
    have hempty : Cuts ([] ++ (b ++ cs)) (.rule [] b :: ps) :=
      .rule ⟨by simp, by simp⟩ (by simp) ⟨.start, rfl, rfl⟩ hb hcs
    rw [hlist, List.nil_append]
    refine ⟨(Text.blankEnd p).map (fun c => .kept [c]) ++ [.rule [] b], ?_, ?_⟩
    · rw [List.append_assoc]
      exact .blanks hblank hempty
    · have hrule : (Piece.rule [] b).confined (attributeSelector id) = b := rfl
      rw [List.flatMap_append, flatMap_kept, List.flatMap_singleton, hrule]
  · have hreaches := reaches_confinedList hid hend hsettled.calm
    have hbegins := begins_confinedList hp hsettled hnone
    by_cases hat : (confinedList (attributeSelector id) p ++ Text.blankEnd p).head? = some '@'
    · exact ⟨[.kept _], .atBlock hat hreaches hb hcs, List.append_nil _⟩
    · refine ⟨[.rule _ b], .rule hbegins hat hreaches hb hcs, ?_⟩
      rw [List.flatMap_singleton, confined_again hid hnone]

theorem Cuts.again (hid : ∀ c ∈ id, Text.isWord c ∨ c = '-') (h : Cuts css ps)
    (hsettled : ∀ p b, .rule p b ∈ ps → Settled (attributeSelector id) p) :
    ∃ qs, Cuts (ps.flatMap (Piece.confined (attributeSelector id))) qs ∧
      qs.flatMap (Piece.confined (attributeSelector id)) =
        ps.flatMap (Piece.confined (attributeSelector id)) := by
  induction h with
  | nil => exact ⟨[], .nil, rfl⟩
  | @pass c cs ps hc _ ih =>
    obtain ⟨qs, hcuts, hqs⟩ := ih fun p b hmem => hsettled p b (List.mem_cons_of_mem _ hmem)
    exact ⟨.kept [c] :: qs, .pass hc hcuts, by rw [List.flatMap_cons, List.flatMap_cons, hqs]⟩
  | @comment body cs ps hbody _ ih =>
    obtain ⟨qs, hcuts, hqs⟩ := ih fun p b hmem => hsettled p b (List.mem_append_right _ hmem)
    rw [List.flatMap_append, flatMap_kept]
    exact ⟨_, .comment hbody hcuts, by rw [List.flatMap_append, flatMap_kept, hqs]⟩
  | @unclosed body hbody =>
    rw [flatMap_kept]
    exact ⟨_, .unclosed hbody, flatMap_kept _ _⟩
  | @loose cs x hne hcs hrun =>
    have htext : [Piece.kept cs].flatMap (Piece.confined (attributeSelector id)) = cs := by
      simp [Piece.confined]
    rw [htext]
    exact ⟨_, .loose hne hcs hrun, htext⟩
  | @statement p cs ps hp hend _ ih =>
    obtain ⟨qs, hcuts, hqs⟩ := ih fun p b hmem => hsettled p b (List.mem_cons_of_mem _ hmem)
    refine ⟨.kept (p ++ [';']) :: qs, ?_, by rw [List.flatMap_cons, List.flatMap_cons, hqs]⟩
    rw [List.flatMap_cons, Piece.confined, List.append_assoc, List.singleton_append]
    exact .statement hp hend hcuts
  | @atBlock p b cs ps hat hend hb hcs ih =>
    obtain ⟨qs, hcuts, hqs⟩ := ih fun p b hmem => hsettled p b (List.mem_cons_of_mem _ hmem)
    refine ⟨.kept (p ++ b) :: qs, ?_, by rw [List.flatMap_cons, List.flatMap_cons, hqs]⟩
    rw [List.flatMap_cons, Piece.confined, List.append_assoc]
    exact .atBlock hat hend (hb.scoped hcs _) hcuts
  | @rule p b cs ps hp hat hend hb hcs ih =>
    obtain ⟨qs, hcuts, hqs⟩ := ih fun p b hmem => hsettled p b (List.mem_cons_of_mem _ hmem)
    obtain ⟨front, hfront, htext⟩ := Cuts.rule_again hid hp hend
      (hsettled p b List.mem_cons_self) (hb.scoped hcs _) hcuts
    refine ⟨front ++ qs, ?_, ?_⟩
    · rwa [List.flatMap_cons]
    · rw [List.flatMap_append, List.flatMap_cons, htext, hqs]

end Sheet

/--
Scoping a sheet again changes nothing, if in none of its preludes a line feed ends a string and what
each becomes begins with nothing that is kept on its own.
-/
theorem scopeSheet_again {id : List Char} (hid : ∀ c ∈ id, Text.isWord c ∨ c = '-') {css : List Char}
    (hsettled : ∀ p b, .rule p b ∈ pieces css → Settled (attributeSelector id) p) :
    ∃ out, scopeSheet id css = .ok out ∧ scopeSheet id out = .ok out := by
  have hbackslash : '\\' ∉ id := fun hmem => absurd (hid _ hmem) (by decide)
  obtain ⟨qs, hcuts, hqs⟩ := (cuts_pieces css).again hid hsettled
  refine ⟨_, scopeSheet_of_plain hbackslash css, ?_⟩
  rw [scopeSheet_of_plain hbackslash, hcuts.pieces_eq, hqs]

/--
A pseudo-class, a string with a comma, a comma in front, and a block that is never closed.
-/
theorem listed_again :
    (∀ c ∈ ['d'], Text.isWord c ∨ c = '-') ∧
      pieces "b:root,[t=','] \x7bx\x7d,a \x7by".toList =
        [.rule "b:root,[t=','] ".toList "\x7bx\x7d".toList, .rule ",a ".toList "\x7by".toList] ∧
      scopeSheet ['d'] "b:root,[t=','] \x7bx\x7d,a \x7by".toList =
        .ok "b[d], [d] [t=','] \x7bx\x7d[d] a \x7by".toList ∧
      scopeSheet ['d'] "b[d], [d] [t=','] \x7bx\x7d[d] a \x7by".toList =
        .ok "b[d], [d] [t=','] \x7bx\x7d[d] a \x7by".toList := by
  have hid : ∀ c ∈ ['d'], Text.isWord c ∨ c = '-' := by simp [show Text.isWord 'd' from rfl]
  have hpieces : pieces "b:root,[t=','] \x7bx\x7d,a \x7by".toList =
      [.rule "b:root,[t=','] ".toList "\x7bx\x7d".toList, .rule ",a ".toList "\x7by".toList] := rfl
  have honce : scopeSheet ['d'] "b:root,[t=','] \x7bx\x7d,a \x7by".toList =
      .ok "b[d], [d] [t=','] \x7bx\x7d[d] a \x7by".toList := rfl
  have hsettled : ∀ p b, .rule p b ∈ pieces "b:root,[t=','] \x7bx\x7d,a \x7by".toList →
      Settled (attributeSelector ['d']) p := by
    intro p b hmem
    rw [hpieces] at hmem
    simp only [List.mem_cons, Piece.rule.injEq, List.not_mem_nil, or_false] at hmem
    rcases hmem with ⟨rfl, -⟩ | ⟨rfl, -⟩
    · exact ⟨by decide, fun hcomma => absurd hcomma (by decide)⟩
    · have hselectors : splitSelectors ",a ".toList = [['a']] := rfl
      refine ⟨by decide, fun _ s hs => ?_⟩
      rw [hselectors] at hs
      obtain rfl := Option.some.inj hs
      exact begins_bracket _
  obtain ⟨out, hout, hagain⟩ := scopeSheet_again hid hsettled
  rw [honce] at hout
  cases hout
  exact ⟨hid, hpieces, honce, hagain⟩

-- When the comma in front goes, the comment behind it is kept on its own, and its selector is none.
example : scopeSheet ['d'] ",/*:root*/a\x7b\x7d".toList = .ok "/*[d]*/a\x7b\x7d".toList ∧
    scopeSheet ['d'] "/*[d]*/a\x7b\x7d".toList = .ok "/*[d]*/[d] a\x7b\x7d".toList :=
  ⟨rfl, rfl⟩

-- To the splitter the string goes on behind the line feed, so that the comma in it splits nothing.
example : ¬ Place.plain.Calm "a/*'*/'b\n, c".toList := by decide

section Lists

variable {attr id : List Char}

theorem backslash_of_id (hid : ∀ c ∈ id, Text.isWord c ∨ c = '-') : '\\' ∉ attributeSelector id :=
  not_mem_attributeSelector fun hmem => absurd (hid _ hmem) (by decide)

theorem scopeSelectors_eq_confinedList (h : '\\' ∉ attr) (selectors : List Char) :
    scopeSelectors attr selectors = .ok (confinedList attr selectors) := by
  rw [scopeSelectors_of_plain h, confinedList_eq, confinedSelectors]

theorem mapM_scopeSelector (h : '\\' ∉ attr) (selectors : List Char) :
    (splitSelectors selectors).mapM (scopeSelector attr) = .ok (confinedSelectors attr selectors) := by
  rw [funext (scopeSelector_of_plain h), mapM_ok, confinedSelectors]

/--
The selectors of a confined list are the selectors of the list, each of them confined and in their order;
all of them hold the attribute selector, and the list stays as it is when it is confined again.
-/
theorem scopeSelectors_each (hid : ∀ c ∈ id, Text.isWord c ∨ c = '-') (selectors : List Char) :
    ∃ out, scopeSelectors (attributeSelector id) selectors = .ok out ∧
      (splitSelectors selectors).mapM (scopeSelector (attributeSelector id)) =
        .ok (splitSelectors out) ∧
      (∀ selector ∈ splitSelectors out, attributeSelector id <:+: selector) ∧
      scopeSelectors (attributeSelector id) out = .ok out := by
  have hbackslash := backslash_of_id hid
  refine ⟨confinedList (attributeSelector id) selectors, scopeSelectors_eq_confinedList hbackslash _,
    ?_, ?_, ?_⟩
  · rw [splitSelectors_confinedList hid, mapM_scopeSelector hbackslash]
  · intro selector hselector
    rw [splitSelectors_confinedList hid] at hselector
    obtain ⟨plain, -, rfl⟩ := List.mem_map.mp hselector
    exact Text.contains_iff.mp (contains_confine _ _)
  · rw [scopeSelectors_eq_confinedList hbackslash, confinedList_eq,
      confinedSelectors_confinedList hid, ← confinedList_eq]

/--
A bracket that closes nothing, a blank selector, one that is confined already, and a string that is never
closed, since a backslash stands in front of its quote.
-/
theorem unclosed_each :
    (∀ c ∈ ['d'], Text.isWord c ∨ c = '-') ∧
      scopeSelectors (attributeSelector ['d']) "), a:root ,, [d] b,'x:scope\\', c(".toList =
        .ok "[d] ), a[d], [d] b, 'x[d]\\', c(".toList ∧
      (splitSelectors "), a:root ,, [d] b,'x:scope\\', c(".toList).mapM
          (scopeSelector (attributeSelector ['d'])) =
        .ok ["[d] )".toList, "a[d]".toList, "[d] b".toList, "'x[d]\\', c(".toList] ∧
      splitSelectors "[d] ), a[d], [d] b, 'x[d]\\', c(".toList =
        ["[d] )".toList, "a[d]".toList, "[d] b".toList, "'x[d]\\', c(".toList] := by
  have hid : ∀ c ∈ ['d'], Text.isWord c ∨ c = '-' := by simp [show Text.isWord 'd' from rfl]
  have honce : scopeSelectors (attributeSelector ['d']) "), a:root ,, [d] b,'x:scope\\', c(".toList =
      .ok "[d] ), a[d], [d] b, 'x[d]\\', c(".toList := rfl
  obtain ⟨out, hout, heach, -, -⟩ :=
    scopeSelectors_each hid "), a:root ,, [d] b,'x:scope\\', c(".toList
  rw [honce] at hout
  cases hout
  exact ⟨hid, honce, heach, rfl⟩

end Lists

end Polyglot.Style
