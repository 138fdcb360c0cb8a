import Polyglot.Proofs.Style.Agreement
import Polyglot.Proofs.Style.Places

/-!
Scanning a selector and what it becomes. Whatever reads texts character by character, and takes the
attribute selector of a scope for a bracket around a name, comes to the same state over both.
-/

namespace Polyglot.Style

def Mild (c : Char) : Prop :=
  c ∉ ['/', '*', '"', '\'', '\\', '\n', '(', ')', '[', ']', '\x7b', ';', ',']

/--
What goes from state to state with every character, as far as it goes. A mild character settles it,
and so does a pair of brackets with mild characters between them.
-/
structure Walker (σ : Type) where
  step? : σ → Char → Option σ
  settled : σ → σ
  settled_settled (x : σ) : settled (settled x) = settled x
  mild {c : Char} (hc : Mild c) (x : σ) : step? x c = some (settled x)
  blank {c : Char} (hc : Text.isBlank c) {x y : σ} (h : step? x c = some y) : y = settled x
  brackets (x : σ) : ∃ y, step? x '[' = some y ∧ settled y = y ∧ step? y ']' = some (settled x)

namespace Walker

variable {σ : Type} (w : Walker σ) {x y z : σ} {cs cs' attr : List Char}

def Walks (x : σ) (cs : List Char) (y : σ) : Prop :=
  cs.foldlM w.step? x = some y

variable {w}

theorem Walks.nil (x : σ) : w.Walks x [] x :=
  rfl

theorem Walks.unique (h : w.Walks x cs y) (h' : w.Walks x cs z) : y = z :=
  Option.some.inj (h.symm.trans h')

theorem walks_cons {c : Char} : w.Walks x (c :: cs) z ↔ ∃ y, w.step? x c = some y ∧ w.Walks y cs z := by
  rw [Walks, List.foldlM_cons]
  exact Option.bind_eq_some_iff

theorem walks_append : w.Walks x (cs ++ cs') z ↔ ∃ y, w.Walks x cs y ∧ w.Walks y cs' z := by
  rw [Walks, List.foldlM_append]
  exact Option.bind_eq_some_iff

theorem Walks.append (h : w.Walks x cs y) (h' : w.Walks y cs' z) : w.Walks x (cs ++ cs') z :=
  walks_append.mpr ⟨y, h, h'⟩

theorem walks_mild (hcs : ∀ c ∈ cs, Mild c) (hne : cs ≠ []) (x : σ) : w.Walks x cs (w.settled x) := by
  induction cs generalizing x with
  | nil => exact absurd rfl hne
  | cons c cs ih =>
    obtain ⟨hc, hcs⟩ := List.forall_mem_cons.mp hcs
    refine walks_cons.mpr ⟨_, w.mild hc x, ?_⟩
    by_cases hnil : cs = []
    · rw [hnil]
      exact .nil _
    · have hwalk := ih hcs hnil (w.settled x)
      rwa [w.settled_settled] at hwalk

theorem Walks.settled_of_blanks (h : w.Walks x cs y) (hcs : ∀ c ∈ cs, Text.isBlank c) :
    w.settled y = w.settled x := by
  induction cs generalizing x with
  | nil =>
    cases h
    rfl
  | cons c cs ih =>
    obtain ⟨hc, hcs⟩ := List.forall_mem_cons.mp hcs
    obtain ⟨z, hstep, hwalk⟩ := walks_cons.mp h
    rw [ih hwalk hcs, w.blank hc hstep, w.settled_settled]

theorem Walks.eq_of_blanks (h : w.Walks x cs y) (hx : w.settled x = x)
    (hcs : ∀ c ∈ cs, Text.isBlank c) : y = x := by
  induction cs with
  | nil => exact (Option.some.inj h).symm
  | cons c cs ih =>
    obtain ⟨hc, hcs⟩ := List.forall_mem_cons.mp hcs
    obtain ⟨z, hstep, hwalk⟩ := walks_cons.mp h
    have hz := w.blank hc hstep
    rw [hx] at hz
    rw [hz] at hwalk
    exact ih hwalk hcs

theorem Walks.trim (h : w.Walks x cs y) (hx : w.settled x = x) :
    ∃ z, w.Walks x (Text.trim cs) z ∧ w.settled z = w.settled y := by
  obtain ⟨as, bs, heq, has, hbs⟩ := Text.blanks_trim_blanks cs
  rw [heq] at h
  obtain ⟨z, h, hback⟩ := walks_append.mp h
  obtain ⟨x', hfront, hmiddle⟩ := walks_append.mp h
  obtain rfl := hfront.eq_of_blanks hx has
  exact ⟨z, hmiddle, (hback.settled_of_blanks hbs).symm⟩

theorem walks_attribute {id : List Char} (hid : ∀ c ∈ id, Mild c) (x : σ) :
    w.Walks x (attributeSelector id) (w.settled x) := by
  obtain ⟨inner, hopen, hinner, hclose⟩ := w.brackets x
  have hmiddle : w.Walks inner id inner := by
    by_cases hne : id = []
    · rw [hne]
      exact .nil _
    · have hwalk : w.Walks inner id (w.settled inner) := walks_mild hid hne inner
      rwa [hinner] at hwalk
  exact walks_cons.mpr ⟨inner, hopen, hmiddle.append (walks_cons.mpr ⟨_, hclose, .nil _⟩)⟩

theorem walks_word {word : List Char} (h : PseudoScope word) (x : σ) :
    w.Walks x word (w.settled x) := by
  rcases h with rfl | rfl <;> exact walks_mild (by simp [Mild]) (by simp) x

end Walker

theorem eq_of_cutPseudoScopes {fuel : Nat} {before : Char} {read cs tail : List Char}
    {cuts : List (List Char × List Char)}
    (h : cutPseudoScopes.go fuel before read cs = (cuts, tail)) :
    read.reverse ++ cs = cuts.flatMap (fun cut => cut.1 ++ cut.2) ++ tail ∧
      ∀ cut ∈ cuts, PseudoScope cut.2 := by
  induction fuel generalizing before read cs cuts with
  | zero =>
    cases h
    exact ⟨rfl, by simp⟩
  | succ fuel ih =>
    cases cs with
    | nil =>
      cases h
      exact ⟨by simp, by simp⟩
    | cons c cs =>
      rw [cutPseudoScopes.go] at h
      split at h
      · next found rest hfound =>
        have hmatch : pseudoScope? (c :: cs) = some (found, rest) := by
          split at hfound
          · cases hfound
          · exact hfound
        obtain ⟨heq, hword⟩ := pseudoScope_eq_some hmatch
        obtain ⟨more, tail', hgo⟩ : ∃ more tail', cutPseudoScopes.go fuel 'e' [] rest = (more, tail') :=
          ⟨_, _, rfl⟩
        rw [hgo] at h
        cases h
        obtain ⟨hrest, hwords⟩ := ih hgo
        refine ⟨?_, List.forall_mem_cons.mpr ⟨hword, hwords⟩⟩
        rw [heq, List.flatMap_cons, List.append_assoc, ← hrest]
        simp
      · obtain ⟨hrest, hwords⟩ := ih h
        refine ⟨?_, hwords⟩
        rw [← hrest]
        simp

/--
A confined selector holds the attribute selector already, or has it in front or in the place of its
scope pseudo-classes.
-/
theorem confine_cases (attr selector : List Char) : confine attr selector = selector ∨
    confine attr selector = attr ++ ' ' :: selector ∨
      ∃ cuts tail, cuts ≠ [] ∧ confine attr selector = render attr (cuts, tail) ∧
        selector = cuts.flatMap (fun cut => cut.1 ++ cut.2) ++ tail ∧
          ∀ cut ∈ cuts, PseudoScope cut.2 := by
  rw [confine]
  split
  · exact .inl rfl
  · split
    · exact .inr (.inl rfl)
    · next cuts tail hne hcuts =>
      obtain ⟨heq, hwords⟩ := eq_of_cutPseudoScopes hcuts
      refine .inr (.inr ⟨cuts, tail, ?_, rfl, heq, hwords⟩)
      rintro rfl
      exact hne rfl

namespace Walker

variable {σ : Type} {w : Walker σ} {x y : σ} {attr : List Char}

theorem Walks.render (hattr : ∀ x, w.Walks x attr (w.settled x))
    {cuts : List (List Char × List Char)} {tail : List Char} (hwords : ∀ cut ∈ cuts, PseudoScope cut.2)
    (h : w.Walks x (cuts.flatMap (fun cut => cut.1 ++ cut.2) ++ tail) y) :
    w.Walks x (Style.render attr (cuts, tail)) y := by
  induction cuts generalizing x with
  | nil => exact h
  | cons cut cuts ih =>
    obtain ⟨hword, hwords⟩ := List.forall_mem_cons.mp hwords
    rw [List.flatMap_cons, List.append_assoc, List.append_assoc] at h
    obtain ⟨z, htext, h⟩ := walks_append.mp h
    obtain ⟨z', hfound, h⟩ := walks_append.mp h
    obtain rfl := hfound.unique (walks_word hword z)
    rw [render_cons]
    exact htext.append ((hattr z).append (ih hwords h))

/--
From a settled state one comes to the same state over a selector and over what it becomes.
-/
theorem Walks.confine (hattr : ∀ x, w.Walks x attr (w.settled x)) (hx : w.settled x = x)
    {selector : List Char} (h : w.Walks x selector y) : w.Walks x (Style.confine attr selector) y := by
  rcases confine_cases attr selector with heq | heq | ⟨cuts, tail, -, heq, hselector, hwords⟩
  · rwa [heq]
  · have hblank : w.Walks x [' '] (w.settled x) := walks_mild (by simp [Mild]) (by simp) x
    have hfront := hattr x
    rw [hx] at hfront hblank
    rw [heq]
    exact hfront.append (hblank.append h)
  · rw [heq]
    rw [hselector] at h
    exact h.render hattr hwords

end Walker

/-!
The scanner passes over a scoped prelude as it does over the prelude itself: neither the attribute
selectors nor the commas and blanks between selectors lead it to another place.
-/

namespace Place

def settled : Place → Place
  | plain | slash => plain
  | comment | star => comment
  | quoted d | escaped d => quoted d

def Calm : Place → List Char → Prop
  | _, [] => True
  | s, c :: cs => (c = '\n' → ∀ d, s ≠ quoted d) ∧ Calm (s.next c) cs

instance decidableCalm : (s : Place) → (cs : List Char) → Decidable (s.Calm cs)
  | _, [] => isTrue trivial
  | s, c :: cs =>
    have := decidableCalm (s.next c) cs
    inferInstanceAs (Decidable (_ ∧ _))

theorem settled_settled (s : Place) : s.settled.settled = s.settled := by
  cases s <;> rfl

theorem isPlain_settled (s : Place) : s.settled.isPlain = s.isPlain := by
  cases s <;> rfl

theorem next_settled (s : Place) {c : Char} (hc : c ∉ ['/', '*', '"', '\'', '\\', '\n']) :
    s.next c = s.settled := by
  simp only [List.mem_cons, List.not_mem_nil, or_false, not_or] at hc
  obtain ⟨hslash, hstar, hdouble, hsingle, hback, hline⟩ := hc
  cases s with
  | quoted d =>
    have hmark : c ≠ quoteMark d := by
      cases d
      · exact hsingle
      · exact hdouble
    simp [next, settled, hback, hmark, hline]
  | _ => simp [next, ofPlain, settled, hslash, hstar, hdouble, hsingle]

end Place

namespace Spot

variable {x y : Spot} {cs : List Char}

def settled (x : Spot) : Spot :=
  ⟨x.place.settled, x.depth⟩

theorem settled_settled (x : Spot) : x.settled.settled = x.settled := by
  rw [settled, settled, Place.settled_settled]

def calmStep? (x : Spot) (c : Char) : Option Spot :=
  match x.place, c with
  | .quoted _, '\n' => none
  | _, _ => x.step? .prelude c

theorem calmStep_of_step {c : Char} (h : x.step? .prelude c = some y)
    (hline : c = '\n' → ∀ d, x.place ≠ .quoted d) : x.calmStep? c = some y := by
  rw [calmStep?.eq_def]
  split
  · next d hplace => exact absurd hplace (hline rfl d)
  · exact h

theorem step_of_calmStep {c : Char} (h : x.calmStep? c = some y) :
    x.step? .prelude c = some y ∧ (c = '\n' → ∀ d, x.place ≠ .quoted d) := by
  rw [calmStep?.eq_def] at h
  split at h
  · cases h
  · next hquoted => exact ⟨h, fun hc d hplace => hquoted d hplace hc⟩

theorem step_soft (x : Spot) {c : Char}
    (hc : c ∉ ['/', '*', '"', '\'', '\\', '\n', '(', ')', '[', ']', '\x7b', ';']) :
    x.calmStep? c = some x.settled := by
  simp only [List.mem_cons, List.not_mem_nil, or_false, not_or] at hc
  obtain ⟨hslash, hstar, hdouble, hsingle, hback, hline, hround, hround', hsquare, hsquare', hbrace,
    hend⟩ := hc
  have hnext : x.place.next c = x.place.settled :=
    x.place.next_settled (by simp [hslash, hstar, hdouble, hsingle, hback, hline])
  refine calmStep_of_step ?_ fun heq => absurd heq hline
  simp [step?, deepen, Brackets.prelude, hround, hround', hsquare, hsquare', hbrace, hend, hnext,
    settled]

theorem step_blank {c : Char} (hc : Text.isBlank c) (h : x.calmStep? c = some y) : y = x.settled := by
  by_cases heq : c = '\n'
  · subst heq
    obtain ⟨hstep, hline⟩ := step_of_calmStep h
    obtain ⟨-, rfl⟩ := step_eq_some hstep
    cases hx : x.place with
    | quoted d => exact absurd hx (hline rfl d)
    | _ => simp [settled, deepen, hx, Place.next, Place.ofPlain, Place.settled, Place.isPlain,
        Brackets.prelude]
  · have hsoft : c ∉ ['/', '*', '"', '\'', '\\', '\n', '(', ')', '[', ']', '\x7b', ';'] := by
      intro hmem
      simp only [List.mem_cons, List.not_mem_nil, or_false, heq, false_or] at hmem
      rcases hmem with rfl | rfl | rfl | rfl | rfl | rfl | rfl | rfl | rfl | rfl | rfl <;>
        exact absurd hc (by decide)
    rw [step_soft x hsoft] at h
    exact (Option.some.inj h).symm

theorem step_brackets (x : Spot) : ∃ y : Spot, x.calmStep? '[' = some y ∧ y.settled = y ∧
    y.calmStep? ']' = some x.settled := by
  have hnext (s : Place) : s.next '[' = s.settled := s.next_settled (by simp)
  have hnext' (s : Place) : s.next ']' = s.settled := s.next_settled (by simp)
  refine ⟨⟨x.place.settled, x.deepen .prelude '['⟩, calmStep_of_step ?_ (by simp), ?_,
    calmStep_of_step ?_ (by simp)⟩
  · simp [step?, Brackets.prelude, hnext]
  · rw [settled, Place.settled_settled]
  · have hends : Brackets.prelude.ends (x.deepen .prelude '[') ']' = false := by
      simp [Brackets.prelude]
    rw [step?, hends, Bool.and_false, if_neg (by decide), hnext', Place.settled_settled]
    cases hplain : x.place.isPlain <;>
      simp [settled, deepen, Place.isPlain_settled, hplain, Brackets.prelude]

def walker : Walker Spot where
  step? := calmStep?
  settled := settled
  settled_settled := settled_settled
  mild hc x := step_soft x fun hmem => hc (by simp only [List.mem_cons] at hmem ⊢; tauto)
  blank hc _ _ h := step_blank hc h
  brackets := step_brackets

theorem walks_of_run (h : x.run? .prelude cs = some y) (hcalm : x.place.Calm cs) :
    walker.Walks x cs y := by
  induction cs generalizing x with
  | nil =>
    cases h
    exact .nil _
  | cons c cs ih =>
    rw [run_cons] at h
    obtain ⟨z, hstep, hrun⟩ := Option.bind_eq_some_iff.mp h
    obtain ⟨-, rfl⟩ := step_eq_some hstep
    exact Walker.walks_cons.mpr ⟨_, calmStep_of_step hstep hcalm.1, ih hrun hcalm.2⟩

theorem run_of_walks (h : walker.Walks x cs y) : x.run? .prelude cs = some y := by
  induction cs generalizing x with
  | nil =>
    cases h
    rfl
  | cons c cs ih =>
    obtain ⟨z, hstep, hwalk⟩ := Walker.walks_cons.mp h
    rw [run_cons, (step_of_calmStep hstep).1, Option.bind_some, ih hwalk]

theorem walks_comma (x : Spot) : walker.Walks x [','] x.settled :=
  Walker.walks_cons.mpr ⟨_, step_soft x (by simp), .nil _⟩

end Spot

def selected (ws : List (List Char)) : List (List Char) :=
  (ws.map Text.trim).filter (!·.isEmpty)

theorem selected_cons (w : List Char) (ws : List (List Char)) : selected (w :: ws) =
    if Text.trim w = [] then selected ws else Text.trim w :: selected ws := by
  split <;> simp [selected, *]

namespace Spot

variable {x y : Spot}

/--
The scanner settles at the same spot behind a list of selectors and behind what it becomes.
-/
theorem walks_join {attr : List Char} (hattr : ∀ x, walker.Walks x attr (walker.settled x))
    {ws : List (List Char)} (hne : ws ≠ []) (hx : x.settled = x)
    (h : walker.Walks x (Text.join [','] ws) y) :
    ∃ z, walker.Walks x (Text.join [',', ' '] ((selected ws).map (confine attr))) z ∧
      z.settled = y.settled := by
  induction ws generalizing x with
  | nil => exact absurd rfl hne
  | cons w ws ih =>
    rw [selected_cons]
    cases ws with
    | nil =>
      change walker.Walks x w y at h
      obtain ⟨z, htrim, hz⟩ := h.trim hx
      split
      · next hw =>
        rw [hw] at htrim
        exact ⟨z, htrim, hz⟩
      · exact ⟨z, htrim.confine hattr hx, hz⟩
    | cons w' ws =>
      change walker.Walks x (w ++ [','] ++ Text.join [','] (w' :: ws)) y at h
      rw [List.append_assoc] at h
      obtain ⟨u, hfront, h⟩ := Walker.walks_append.mp h
      obtain ⟨v, hcomma, h⟩ := Walker.walks_append.mp h
      obtain rfl := hcomma.unique (walks_comma u)
      obtain ⟨z, hmore, hz⟩ := ih (by simp) (settled_settled u) h
      obtain ⟨u', htrim, hu⟩ := hfront.trim hx
      change u'.settled = u.settled at hu
      split
      · next hw =>
        rw [hw] at htrim
        obtain rfl : u' = x := (Option.some.inj htrim).symm
        rw [← hu, hx] at hmore
        exact ⟨z, hmore, hz⟩
      · have hfirst := htrim.confine hattr hx
        rw [List.map_cons]
        cases hlist : (selected (w' :: ws)).map (confine attr) with
        | nil =>
          rw [hlist] at hmore
          obtain rfl : z = u.settled := (Option.some.inj hmore).symm
          exact ⟨u', hfirst, by rw [hu, ← hz, settled_settled]⟩
        | cons c more =>
          rw [hlist] at hmore
          have hblank : walker.Walks u.settled [' '] u.settled.settled :=
            Walker.walks_mild (by simp [Mild]) (by simp) u.settled
          have hcomma := walks_comma u'
          rw [hu] at hcomma
          rw [settled_settled] at hblank
          have hseparator := hcomma.append hblank
          exact ⟨z, (hfirst.append hseparator).append hmore, hz⟩

end Spot

end Polyglot.Style
