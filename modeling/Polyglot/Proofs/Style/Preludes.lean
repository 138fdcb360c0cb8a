import Polyglot.Proofs.Style.Marking

/-!
Where the rules of a sheet stand: the prelude of a rule is marked in the sheet as it is marked on its
own, behind the text of the pieces in front of it.
-/

namespace Polyglot.Style

theorem mark_quote {c : Char} (h : (c == '"' || c == '\'') = true) (cs : List Char) :
    mark (c :: cs) = (c, .quoted) :: mark.inQuotes c cs := by
  rcases Bool.or_eq_true_iff.mp h with h | h
  · rw [eq_of_beq h]
    rfl
  · rw [eq_of_beq h]
    rfl

theorem mark_plain {c : Char} {cs : List Char} (h : ¬ (c == '"' || c == '\'') = true)
    (hcomment : ∀ cs', c = '/' → cs = '*' :: cs' → False) :
    mark (c :: cs) = (c, .plain) :: mark cs := by
  rw [mark.eq_3 c cs hcomment, if_neg h]

theorem scan_induct {P C : List Char → Prop} {Q : Char → List Char → Prop} (nil : P [])
    (opened : ∀ cs, C cs → P ('/' :: '*' :: cs))
    (quote : ∀ c cs, (c == '"' || c == '\'') = true → Q c cs → P (c :: cs))
    (char : ∀ c cs, (∀ cs', c = '/' → cs = '*' :: cs' → False) →
      ¬ (c == '"' || c == '\'') = true → P cs → P (c :: cs))
    (commentNil : C []) (closed : ∀ cs, P cs → C ('*' :: '/' :: cs))
    (comment : ∀ c cs, (∀ cs', c = '*' → cs = '/' :: cs' → False) → C cs → C (c :: cs))
    (quotedNil : ∀ q, Q q []) (escaped : ∀ q c cs, Q q cs → Q q ('\\' :: c :: cs))
    (quoted : ∀ q c cs, (∀ d cs', c = '\\' → cs = d :: cs' → False) → P cs → Q q cs → Q q (c :: cs))
    (cs : List Char) : P cs :=
  mark.induct C P Q commentNil closed comment nil opened (fun c cs _ => quote c cs) char quotedNil
    escaped quoted cs

theorem unmark_append (ms ms' : Marked) : unmark (ms ++ ms') = unmark ms ++ unmark ms' :=
  List.map_append

theorem unmark_mark (cs : List Char) : unmark (mark cs) = cs := by
  -- Each part of the scanner loses nothing if the part that goes on behind it does not.
  induction cs using scan_induct (C := fun cs => unmark (mark.inComment cs) = cs)
    (Q := fun q cs => unmark (mark.inQuotes q cs) = cs) with
  | nil => rfl
  | opened cs ih => simpa [mark, unmark] using ih
  | quote c cs hquote ih =>
    rw [mark_quote hquote]
    simpa [unmark] using ih
  | char c cs hcomment hquote ih =>
    rw [mark_plain hquote hcomment]
    simpa [unmark] using ih
  | commentNil => rfl
  | closed cs ih => simpa [mark.inComment, unmark] using ih
  | comment c cs hend ih =>
    rw [mark.inComment.eq_3 c cs hend]
    simpa [unmark] using ih
  | quotedNil q => rfl
  | escaped q c cs ih => simpa [mark.inQuotes, unmark] using ih
  | quoted q c cs hescape ihmark ihquotes =>
    rw [mark.inQuotes.eq_3 q c cs hescape]
    split
    · simpa [unmark] using ihmark
    · simpa [unmark] using ihquotes

/--
What stands in front of a plain character is scanned as if nothing came behind it, and what stands
behind it as if nothing came in front.
-/
def Splits (scan : List Char → Marked) (cs : List Char) : Prop :=
  ∀ before rest c, scan cs = before ++ (c, .plain) :: rest →
    ∃ cs₁ cs₂, cs = cs₁ ++ c :: cs₂ ∧ before = scan cs₁ ∧ rest = mark cs₂

theorem Splits.append {scan scan' : List Char → Marked} {cs : List Char} (h : Splits scan' cs)
    (ms : Marked) (hms : ∀ e ∈ ms, e.2 ≠ .plain)
    (hscan : ∀ cs₁, cs₁ <+: cs → scan (unmark ms ++ cs₁) = ms ++ scan' cs₁) :
    Splits scan (unmark ms ++ cs) := by
  intro before rest c heq
  rw [hscan cs (List.prefix_refl cs)] at heq
  have hbefore : ∃ before', before = ms ++ before' ∧
      scan' cs = before' ++ (c, .plain) :: rest := by
    obtain ⟨before', hbefore, hrest⟩ | ⟨extra, rfl, hover⟩ := List.append_eq_append_iff.mp heq
    · exact ⟨before', hbefore, hrest⟩
    · cases extra with
      | nil => exact ⟨[], by simp, hover.symm⟩
      | cons e extra =>
        obtain ⟨rfl, -⟩ := List.cons.inj hover
        exact absurd rfl (hms _ (List.mem_append_right before List.mem_cons_self))
  obtain ⟨before', rfl, hrest⟩ := hbefore
  obtain ⟨cs₁, cs₂, rfl, rfl, rfl⟩ := h before' rest c hrest
  exact ⟨unmark ms ++ cs₁, cs₂, (List.append_assoc _ _ _).symm,
    (hscan cs₁ (List.prefix_append cs₁ _)).symm, rfl⟩

theorem splits_mark (cs : List Char) : Splits mark cs := by
  -- A scan of a text begins like a scan of its front: the second character that a comment mark or an
  -- escape needs is not there for the front if it is not there for the text.
  have hnext {cs cs₁ : List Char} {d : Char} (hle : cs₁ <+: cs)
      (h : ∀ cs', cs = d :: cs' → False) : ∀ cs', cs₁ = d :: cs' → False := by
    rintro cs' rfl
    obtain ⟨more, rfl⟩ := hle
    exact h (cs' ++ more) rfl
  induction cs using scan_induct (C := Splits mark.inComment)
    (Q := fun q => Splits (mark.inQuotes q)) with
  | nil =>
    intro before rest c h
    simp [mark] at h
  | opened cs ih =>
    exact ih.append [('/', .comment), ('*', .comment)] (by simp) fun cs₁ _ => by
      rw [unmark]
      rfl
  | quote c cs hquote ih =>
    exact ih.append [(c, .quoted)] (by simp) fun cs₁ _ => mark_quote hquote cs₁
  | char c cs hcomment hquote ih =>
    intro before rest d heq
    rw [mark_plain hquote hcomment] at heq
    cases before with
    | nil =>
      cases heq
      exact ⟨[], cs, rfl, rfl, rfl⟩
    | cons e before =>
      obtain ⟨rfl, hrest⟩ := List.cons.inj heq
      obtain ⟨cs₁, cs₂, rfl, rfl, rfl⟩ := ih before rest d hrest
      refine ⟨c :: cs₁, cs₂, rfl, (mark_plain hquote ?_).symm, rfl⟩
      exact fun cs' hc => hnext (List.prefix_append cs₁ _) (fun cs' => hcomment cs' hc) cs'
  | commentNil =>
    intro before rest c h
    simp [mark.inComment] at h
  | closed cs ih =>
    exact ih.append [('*', .comment), ('/', .comment)] (by simp) fun cs₁ _ => by
      rw [unmark]
      rfl
  | comment c cs hend ih =>
    exact ih.append [(c, .comment)] (by simp) fun cs₁ hle =>
      mark.inComment.eq_3 c cs₁ fun cs' hc => hnext hle (fun cs' => hend cs' hc) cs'
  | quotedNil q =>
    intro before rest c h
    simp [mark.inQuotes] at h
  | escaped q c cs ih =>
    exact ih.append [('\\', .quoted), (c, .quoted)] (by simp) fun cs₁ _ => by
      rw [unmark]
      rfl
  | quoted q c cs hescape ihmark ihquotes =>
    have hstep (cs₁ : List Char) (hle : cs₁ <+: cs) : mark.inQuotes q (c :: cs₁) =
        (c, .quoted) :: if c == q || c == '\n' then mark cs₁ else mark.inQuotes q cs₁ :=
      mark.inQuotes.eq_3 q c cs₁ fun d cs' hc => hnext hle (fun cs' => hescape d cs' hc) cs'
    by_cases hclose : (c == q || c == '\n') = true
    · exact ihmark.append [(c, .quoted)] (by simp) fun cs₁ hle => by
        rw [unmark, List.map_singleton, List.singleton_append, hstep cs₁ hle, if_pos hclose]
        rfl
    · exact ihquotes.append [(c, .quoted)] (by simp) fun cs₁ hle => by
        rw [unmark, List.map_singleton, List.singleton_append, hstep cs₁ hle, if_neg hclose]
        rfl

theorem splitPrelude_eq_some {depth : Nat} {ms before rest : Marked}
    (h : splitPrelude? depth ms = some (before, rest)) :
    ms = before ++ rest ∧ ∃ c more, rest = (c, .plain) :: more := by
  induction ms generalizing depth before with
  | nil => cases h
  | cons e ms ih =>
    obtain ⟨c, m⟩ := e
    have hmore {depth : Nat}
        (h : ((splitPrelude? depth ms).map fun p => ((c, m) :: p.1, p.2)) = some (before, rest)) :
        (c, m) :: ms = before ++ rest ∧ ∃ c more, rest = (c, .plain) :: more := by
      obtain ⟨p, hsplit, heq⟩ := Option.map_eq_some_iff.mp h
      cases heq
      obtain ⟨rfl, hrest⟩ := ih hsplit
      exact ⟨rfl, hrest⟩
    rw [splitPrelude?] at h
    split at h
    · exact hmore h
    · next hplain =>
      split at h
      · exact hmore h
      · split at h
        · exact hmore h
        · split at h
          · cases h
            obtain rfl : m = .plain := by simpa using hplain
            exact ⟨rfl, c, ms, rfl⟩
          · exact hmore h

theorem splitBlock_eq {depth : Nat} {ms block rest : Marked} (h : splitBlock depth ms = (block, rest)) :
    ms = block ++ rest ∧ (rest = [] ∨ ∃ front c, block = front ++ [(c, .plain)]) := by
  induction ms generalizing depth block with
  | nil =>
    cases h
    exact ⟨rfl, .inl rfl⟩
  | cons e ms ih =>
    obtain ⟨c, m⟩ := e
    have hmore {depth : Nat}
        (h : ((c, m) :: (splitBlock depth ms).1, (splitBlock depth ms).2) = (block, rest)) :
        (c, m) :: ms = block ++ rest ∧ (rest = [] ∨ ∃ front c, block = front ++ [(c, .plain)]) := by
      cases h
      obtain ⟨hms, hrest⟩ := @ih depth _ rfl
      refine ⟨congrArg ((c, m) :: ·) hms, hrest.imp id ?_⟩
      rintro ⟨front, d, hfront⟩
      exact ⟨(c, m) :: front, d, by rw [hfront, List.cons_append]⟩
    rw [splitBlock] at h
    split at h
    · exact hmore h
    · next hplain =>
      split at h
      · exact hmore h
      · split at h
        · split at h
          · cases h
            obtain rfl : m = .plain := by simpa using hplain
            exact ⟨rfl, .inr ⟨[], c, rfl⟩⟩
          · exact hmore h
        · exact hmore h

def Resumes (ms : Marked) : Prop :=
  ∃ comment cs, ms = comment ++ mark cs ∧ ∀ e ∈ comment, e.2 = .comment

theorem resumes_mark (cs : List Char) : Resumes (mark cs) :=
  ⟨[], cs, rfl, by simp⟩

theorem resumes_inComment (cs : List Char) : Resumes (mark.inComment cs) := by
  induction cs with
  | nil => exact resumes_mark []
  | cons c cs ih =>
    by_cases hend : ∃ cs', c = '*' ∧ cs = '/' :: cs'
    · obtain ⟨cs, rfl, rfl⟩ := hend
      exact ⟨[('*', .comment), ('/', .comment)], cs, rfl, by simp⟩
    · obtain ⟨comment, rest, heq, hcomment⟩ := ih
      rw [mark.inComment.eq_3 c cs fun cs' hc hcs => hend ⟨cs', hc, hcs⟩, heq]
      refine ⟨(c, .comment) :: comment, rest, rfl, ?_⟩
      simpa using hcomment

theorem resumes_cons {c : Char} {m : Mark} {ms : Marked} (h : Resumes ((c, m) :: ms)) :
    (m = .quoted → (c == '"' || c == '\'') = true) ∧ (m ≠ .quoted → Resumes ms) ∧
      (m ≠ .comment → ∃ cs, (c, m) :: ms = mark cs) := by
  obtain ⟨comment, cs, heq, hcomment⟩ := h
  cases comment with
  | cons e comment =>
    obtain ⟨rfl, rfl⟩ := List.cons.inj heq
    obtain ⟨hm, hrest⟩ := List.forall_mem_cons.mp hcomment
    obtain rfl : m = .comment := hm
    exact ⟨by simp, fun _ => ⟨comment, cs, rfl, hrest⟩, fun h => absurd rfl h⟩
  | nil =>
    rw [List.nil_append] at heq
    refine ⟨?_, ?_, fun _ => ⟨cs, heq⟩⟩
    · rintro rfl
      rw [mark.eq_def] at heq
      split at heq
      · cases heq
      · cases heq
      · split at heq
        · next hquote =>
          cases heq
          exact hquote
        · cases heq
    · intro hm
      rw [mark.eq_def] at heq
      split at heq
      · cases heq
      · next cs' =>
        cases heq
        obtain ⟨comment, rest, hrest, hcomment⟩ := resumes_inComment cs'
        exact ⟨('*', .comment) :: comment, rest, by rw [hrest]; rfl, by simpa using hcomment⟩
      · split at heq
        · cases heq
          exact absurd rfl hm
        · cases heq
          exact resumes_mark _

theorem piecesOf_step {e : Char × Mark} {ms : Marked} (h : Resumes (e :: ms)) :
    ∃ piece taken tail, e :: ms = taken ++ tail ∧ unmark taken = piece.text ∧ Resumes tail ∧
      (∀ p b, piece = .rule p b → ∃ after, taken = mark p ++ after) ∧
      ∀ fuel, piecesOf (fuel + 1) (e :: ms) = piece :: piecesOf fuel tail := by
  obtain ⟨c, m⟩ := e
  obtain ⟨hquoted, htail, hmark⟩ := resumes_cons h
  by_cases hkept : (m == .comment || Text.isBlank c || (m == .plain && c == '\x7d')) = true
  · have hm : m ≠ .quoted := by
      rintro rfl
      rcases Bool.or_eq_true_iff.mp (hquoted rfl) with hc | hc
      · rw [eq_of_beq hc] at hkept
        exact absurd hkept (by decide)
      · rw [eq_of_beq hc] at hkept
        exact absurd hkept (by decide)
    refine ⟨.kept [c], [(c, m)], ms, rfl, rfl, htail hm, by simp, fun fuel => ?_⟩
    rw [piecesOf, if_pos hkept]
  · have hm : m ≠ .comment := by
      rintro rfl
      exact hkept rfl
    obtain ⟨cs, hcs⟩ := hmark hm
    cases hsplit : splitPrelude? 0 ((c, m) :: ms) with
    | none =>
      refine ⟨.kept (unmark ((c, m) :: ms)), (c, m) :: ms, [], (List.append_nil _).symm, rfl,
        resumes_mark [], by simp, fun fuel => ?_⟩
      have hnil : piecesOf fuel [] = [] := by cases fuel <;> rfl
      rw [hnil, piecesOf, if_neg hkept, hsplit]
    | some found =>
      obtain ⟨before, rest⟩ := found
      obtain ⟨hms, d, more, rfl⟩ := splitPrelude_eq_some hsplit
      obtain ⟨p, cs₂, rfl, rfl, rfl⟩ := splits_mark cs before more d (hcs ▸ hms)
      obtain ⟨block, tail, hblock⟩ : ∃ block tail, splitBlock 0 ((d, .plain) :: mark cs₂) =
        (block, tail) := ⟨_, _, rfl⟩
      obtain ⟨hrest, htail⟩ := splitBlock_eq hblock
      have htail : Resumes tail := by
        rcases htail with rfl | ⟨front, d', rfl⟩
        · exact resumes_mark []
        · have : mark (p ++ d :: cs₂) = mark p ++ front ++ (d', .plain) :: tail := by
            rw [← hcs, hms, hrest]
            simp
          obtain ⟨_, cs', -, -, rfl⟩ := splits_mark _ _ _ _ this
          exact resumes_mark cs'
      by_cases hend : d = ';'
      · subst hend
        refine ⟨.kept (p ++ [';']), mark p ++ [(';', .plain)], mark cs₂, ?_, ?_, resumes_mark cs₂,
          by simp, fun fuel => ?_⟩
        · simpa using hms
        · rw [unmark_append, unmark_mark]
          rfl
        · rw [piecesOf, if_neg hkept, hsplit]
          simp only [unmark_mark]
      · have hstep (fuel : Nat) : piecesOf (fuel + 1) ((c, m) :: ms) =
            (if m == .plain && c == '@' then .kept (p ++ unmark block)
              else .rule p (unmark block)) :: piecesOf fuel tail := by
          rw [piecesOf, if_neg hkept, hsplit]
          simp only [hblock, unmark_mark]
          split
          · next heq =>
            cases heq
            exact absurd rfl hend
          · split <;> rfl
        have heq : (c, m) :: ms = (mark p ++ block) ++ tail := by
          rw [hms, hrest, List.append_assoc]
        have htext : unmark (mark p ++ block) = p ++ unmark block := by
          rw [unmark_append, unmark_mark]
        by_cases hat : (m == .plain && c == '@') = true
        · refine ⟨.kept (p ++ unmark block), mark p ++ block, tail, heq, htext, htail, by simp,
            fun fuel => ?_⟩
          rw [hstep, if_pos hat]
        · refine ⟨.rule p (unmark block), mark p ++ block, tail, heq, htext, htail, ?_,
            fun fuel => ?_⟩
          · rintro p' b' hrule
            cases hrule
            exact ⟨block, rfl⟩
          · rw [hstep, if_neg hat]

/--
A rule is found where its prelude stands, behind the text of the pieces in front of it, and the sheet
is marked there as the prelude is marked on its own.
-/
theorem mark_of_pieces {css : List Char} {front back : List Piece} {p b : List Char}
    (h : pieces css = front ++ .rule p b :: back) :
    ∃ before after, mark css = before ++ (mark p ++ after) ∧
      unmark before = front.flatMap Piece.text := by
  have hrun (fuel : Nat) (ms : Marked) (hms : Resumes ms) (front : List Piece)
      (h : piecesOf fuel ms = front ++ .rule p b :: back) :
      ∃ before after, ms = before ++ (mark p ++ after) ∧
        unmark before = front.flatMap Piece.text := by
    induction fuel generalizing ms front with
    | zero => simp [piecesOf] at h
    | succ fuel ih =>
      cases ms with
      | nil => simp [piecesOf] at h
      | cons e ms =>
        obtain ⟨piece, taken, tail, heq, htext, htail, hrule, hstep⟩ := piecesOf_step hms
        rw [hstep] at h
        cases front with
        | nil =>
          obtain ⟨rfl, -⟩ := List.cons.inj h
          obtain ⟨after, rfl⟩ := hrule p b rfl
          exact ⟨[], after ++ tail, by simpa using heq, rfl⟩
        | cons first front =>
          obtain ⟨rfl, hfront⟩ := List.cons.inj h
          obtain ⟨before, after, rfl, hbefore⟩ := ih tail htail front hfront
          refine ⟨taken ++ before, after, by simpa using heq, ?_⟩
          rw [unmark_append, htext, hbefore, List.flatMap_cons]
  exact hrun _ _ (resumes_mark css) front h

end Polyglot.Style
