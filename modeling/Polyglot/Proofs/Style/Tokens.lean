import Polyglot.Config.File
import Polyglot.Proofs.Style.Cuts
import Polyglot.Proofs.Style.Spans

/-!
What scoping puts in the place of scope pseudo-classes. It is the attribute selector itself, in every sheet,
if and only if no backslash starts an escape in what the configuration lets scope ids start with.
-/

namespace Polyglot.Style

/--
A scope pseudo-class between the text in front of it and the text behind it: no colon stands right before it
and no word character right behind it.
-/
structure Token (front word rest : List Char) : Prop where
  word : PseudoScope word
  front : front.getLast? ≠ some ':'
  rest : ∀ c ∈ rest.head?, Text.isWord c = false

/--
A text, behind another one, with something put in the place of each token. All other characters are kept.
-/
inductive Swapped (swap : List Char → List Char) : List Char → List Char → List Char → Prop where
  | nil (front : List Char) : Swapped swap front [] []
  | kept {front cs ds : List Char} {c : Char}
      (hc : ∀ word rest, c :: cs = word ++ rest → ¬ Token front word rest)
      (hcs : Swapped swap (front ++ [c]) cs ds) : Swapped swap front (c :: cs) (c :: ds)
  | token {front word rest ds : List Char} (htoken : Token front word rest)
      (hrest : Swapped swap (front ++ word) rest ds) : Swapped swap front (word ++ rest) (swap word ++ ds)

def HasToken (front cs : List Char) : Prop :=
  ∃ before word rest, cs = before ++ (word ++ rest) ∧ Token (front ++ before) word rest

/--
A selector and what becomes of it. One that holds the attribute selector stays as it is, one without tokens
is put behind it.
-/
inductive Confines (attr : List Char) (swap : List Char → List Char) (selector : List Char) :
    List Char → Prop where
  | held (hattr : attr <:+: selector) : Confines attr swap selector selector
  | behind (hattr : ¬ attr <:+: selector) (hnone : ¬ HasToken [] selector) :
      Confines attr swap selector (attr ++ ' ' :: selector)
  | swapped {result : List Char} (hattr : ¬ attr <:+: selector) (htoken : HasToken [] selector)
      (hswapped : Swapped swap [] selector result) : Confines attr swap selector result

/--
A piece of a sheet and what becomes of it.
-/
inductive Scopes (attr : List Char) (swap : List Char → List Char) : Piece → List Char → Prop where
  | kept (text : List Char) : Scopes attr swap (.kept text) text
  | rule {selectors block : List Char} {results : List (List Char)}
      (hresults : List.Forall₂ (Confines attr swap) (splitSelectors (Text.trim selectors)) results) :
      Scopes attr swap (.rule selectors block)
        (Text.join [',', ' '] results ++ Text.blankEnd selectors ++ block)

/--
A sheet and what becomes of it.
-/
def Scoped (attr : List Char) (swap : List Char → List Char) (css result : List Char) : Prop :=
  ∃ texts, List.Forall₂ (Scopes attr swap) (pieces css) texts ∧ result = texts.flatten

section Cut

variable {front cs word rest : List Char} {c : Char}

theorem pseudoScope_append (h : PseudoScope word) (rest : List Char) : pseudoScope? (word ++ rest) =
    if rest.head?.any Text.isWord then none else some (word, rest) := by
  have hafter := Text.after_append word rest
  rcases h with rfl | rfl
  · have hother : Text.after? ":root".toList (":scope".toList ++ rest) = none := rfl
    simp only [pseudoScope?, hafter, hother]
    split <;> rfl
  · have hother : Text.after? ":scope".toList (":root".toList ++ rest) = none := rfl
    simp only [pseudoScope?, hafter, hother]
    rfl

theorem Token.pseudoScope (h : Token front word rest) : pseudoScope? (word ++ rest) = some (word, rest) := by
  rw [pseudoScope_append h.word, if_neg]
  rw [Option.any_eq_true]
  rintro ⟨c, hc, hword⟩
  rw [h.rest c hc] at hword
  cases hword

theorem Token.ne_nil (h : Token front word rest) : word ≠ [] := by
  rcases h.word with rfl | rfl <;> exact List.cons_ne_nil _ _

theorem Swapped.eq_nil {swap : List Char → List Char} {ds : List Char} (h : Swapped swap front cs ds)
    (hcs : cs = []) : ds = [] := by
  cases h with
  | nil => rfl
  | kept _ _ => cases hcs
  | token htoken _ => exact absurd (List.append_eq_nil_iff.mp hcs).1 htoken.ne_nil

theorem token_of_pseudoScope (h : pseudoScope? cs = some (word, rest)) (hfront : front.getLast? ≠ some ':') :
    cs = word ++ rest ∧ Token front word rest := by
  obtain ⟨heq, hword⟩ := pseudoScope_eq_some h
  rw [heq, pseudoScope_append hword] at h
  split at h
  · cases h
  · next hany =>
    refine ⟨heq, hword, hfront, fun c hc => ?_⟩
    rw [hc] at hany
    simpa using hany

theorem not_hasToken_nil (front : List Char) : ¬ HasToken front [] := by
  rintro ⟨before, word, rest, heq, htoken⟩
  obtain ⟨-, hempty⟩ := List.append_eq_nil_iff.mp heq.symm
  exact htoken.ne_nil (List.append_eq_nil_iff.mp hempty).1

theorem hasToken_cons (hc : ∀ word rest, c :: cs = word ++ rest → ¬ Token front word rest) :
    HasToken front (c :: cs) ↔ HasToken (front ++ [c]) cs := by
  constructor
  · rintro ⟨before, word, rest, heq, htoken⟩
    cases before with
    | nil =>
      rw [List.append_nil] at htoken
      exact absurd htoken (hc word rest heq)
    | cons d before =>
      obtain ⟨rfl, htail⟩ := List.cons.inj heq
      rw [List.append_cons] at htoken
      exact ⟨before, word, rest, htail, htoken⟩
  · rintro ⟨before, word, rest, rfl, htoken⟩
    rw [← List.append_cons] at htoken
    exact ⟨c :: before, word, rest, rfl, htoken⟩

theorem swapped_of_cut (swap : List Char → List Char) {fuel : Nat} {before : Char} {read tail : List Char}
    {cuts : List (List Char × List Char)} (h : cutPseudoScopes.go fuel before read cs = (cuts, tail))
    (hfuel : cs.length ≤ fuel) (hbefore : before = ':' ↔ front.getLast? = some ':') :
    (∃ ds, Swapped swap front cs ds ∧
      read.reverse ++ ds = cuts.flatMap (fun cut => cut.1 ++ swap cut.2) ++ tail) ∧
    (cuts = [] ↔ ¬ HasToken front cs) := by
  induction fuel generalizing before read cs cuts front with
  | zero =>
    obtain rfl := List.eq_nil_of_length_eq_zero (Nat.le_zero.mp hfuel)
    cases h
    exact ⟨⟨[], .nil front, by simp⟩, iff_of_true rfl (not_hasToken_nil front)⟩
  | succ fuel ih =>
    cases cs with
    | nil =>
      cases h
      exact ⟨⟨[], .nil front, by simp⟩, iff_of_true rfl (not_hasToken_nil front)⟩
    | cons c cs =>
      rw [cutPseudoScopes.go] at h
      split at h
      · next found rest hfound =>
        split at hfound
        · cases hfound
        · next hcolon =>
          have hfront : front.getLast? ≠ some ':' := fun hlast => hcolon (beq_iff_eq.mpr (hbefore.mpr hlast))
          obtain ⟨heq, htoken⟩ := token_of_pseudoScope hfound hfront
          obtain ⟨more, tail', hgo⟩ : ∃ more tail', cutPseudoScopes.go fuel 'e' [] rest = (more, tail') :=
            ⟨_, _, rfl⟩
          rw [hgo] at h
          cases h
          have hlast : 'e' = ':' ↔ (front ++ found).getLast? = some ':' := by
            refine iff_of_false (by decide) ?_
            rcases htoken.word with rfl | rfl <;> simp
          have hshort : rest.length ≤ fuel := by
            have hlength := congrArg List.length heq
            have hpos := List.length_pos_iff.mpr htoken.ne_nil
            simp only [List.length_cons, List.length_append] at hlength hfuel
            omega
          obtain ⟨⟨ds, hswapped, hds⟩, -⟩ := ih hgo hshort hlast
          rw [heq]
          refine ⟨⟨_, .token htoken hswapped, ?_⟩, iff_of_false (List.cons_ne_nil _ _) (not_not.mpr ?_)⟩
          · rw [List.flatMap_cons, List.append_assoc, ← hds]
            simp
          · exact ⟨[], found, rest, rfl, by rwa [List.append_nil]⟩
      · next hnone =>
        have hc : ∀ word rest, c :: cs = word ++ rest → ¬ Token front word rest := by
          intro word rest heq htoken
          have hcolon : ¬ (before == ':') = true := fun h => htoken.front (hbefore.mp (beq_iff_eq.mp h))
          rw [if_neg hcolon, heq, htoken.pseudoScope] at hnone
          cases hnone
        have hlast : c = ':' ↔ (front ++ [c]).getLast? = some ':' := by simp
        obtain ⟨⟨ds, hswapped, hds⟩, hcuts⟩ := ih h (Nat.le_of_succ_le_succ hfuel) hlast
        refine ⟨⟨_, .kept hc hswapped, ?_⟩, by rw [hcuts, hasToken_cons hc]⟩
        rw [← hds]
        simp

end Cut

section Sheets

variable {attr id : List Char} {swap : List Char → List Char}

theorem gives_confines (hswap : ∀ parts, Substitution.parse attr = .ok parts →
      swap = fun word => Substitution.spell word parts) (selector : List Char) :
    Gives (fun e => Substitution.parse attr = .error e) (Confines attr swap selector)
      (scopeSelector attr selector) := by
  rw [scopeSelector]
  split
  · next hheld => exact .held (Text.contains_iff.mp hheld)
  · next hheld =>
    have hattr : ¬ attr <:+: selector := fun h => hheld (Text.contains_iff.mpr h)
    obtain ⟨cuts, tail, hcut⟩ : ∃ cuts tail, cutPseudoScopes selector = (cuts, tail) := ⟨_, _, rfl⟩
    have hcolon : ' ' = ':' ↔ ([] : List Char).getLast? = some ':' := by simp
    obtain ⟨⟨ds, hswapped, hds⟩, hcuts⟩ := swapped_of_cut swap hcut (Nat.le_refl _) hcolon
    rw [hcut]
    cases cuts with
    | nil => exact .behind hattr (hcuts.mp rfl)
    | cons cut cuts =>
      have htoken : HasToken [] selector := not_not.mp fun h => List.cons_ne_nil _ _ (hcuts.mpr h)
      cases hparse : Substitution.parse attr with
      | error e => exact rfl
      | ok parts =>
        obtain rfl := hswap parts hparse
        rw [List.reverse_nil, List.nil_append] at hds
        rw [hds] at hswapped
        exact .swapped hattr htoken hswapped

theorem gives_scopes (hswap : ∀ parts, Substitution.parse attr = .ok parts →
      swap = fun word => Substitution.spell word parts) (piece : Piece) :
    Gives (fun e => Substitution.parse attr = .error e) (Scopes attr swap piece) (piece.scoped attr) := by
  cases piece with
  | kept text => exact .kept text
  | rule selectors block =>
    have hresults := gives_mapM (gives_confines hswap) (splitSelectors (Text.trim selectors))
    have hjoined : Gives (fun e => Substitution.parse attr = .error e)
        (fun text => ∃ results,
          List.Forall₂ (Confines attr swap) (splitSelectors (Text.trim selectors)) results ∧
            text = Text.join [',', ' '] results) (scopeSelectors attr (Text.trim selectors)) :=
      hresults.map fun results h => ⟨results, h, rfl⟩
    refine hjoined.map ?_
    rintro _ ⟨results, h, rfl⟩
    exact .rule h

theorem gives_scoped (hswap : ∀ parts, Substitution.parse (attributeSelector id) = .ok parts →
      swap = fun word => Substitution.spell word parts) (css : List Char) :
    Gives (fun e => Substitution.parse (attributeSelector id) = .error e)
      (Scoped (attributeSelector id) swap css) (scopeSheet id css) :=
  (gives_mapM (gives_scopes hswap) (pieces css)).map fun texts htexts => ⟨texts, htexts, rfl⟩

end Sheets

/-!
The digest in a scope id is made of letters and digits, so that it starts no escape of its own, but it ends
one that is begun in front of it.
-/

section Ids

def IsPlainSign (c : Char) : Prop :=
  Text.isAsciiLetter c ∨ Text.isAsciiDigit c

theorem IsPlainSign.not_lax {c : Char} (h : IsPlainSign c) : ¬ Substitution.Lax c := by
  intro hlax
  rcases h with h | h
  · rw [hlax.letter] at h
    cases h
  · rw [hlax.digit] at h
    cases h

theorem sign_of_mem_encode {c : Char} {bytes : List UInt8} (h : c ∈ Digest.Base64.encode bytes) :
    c = '=' ∨ ∃ n, c = Digest.Base64.sign n := by
  induction bytes using Digest.Base64.encode.induct with
  | case1 => cases h
  | case2 a =>
    simp only [Digest.Base64.encode, List.mem_cons, List.not_mem_nil, or_false] at h
    rcases h with rfl | rfl | rfl | rfl
    · exact .inr ⟨_, rfl⟩
    · exact .inr ⟨_, rfl⟩
    · exact .inl rfl
    · exact .inl rfl
  | case3 a b =>
    simp only [Digest.Base64.encode, List.mem_cons, List.not_mem_nil, or_false] at h
    rcases h with rfl | rfl | rfl | rfl
    · exact .inr ⟨_, rfl⟩
    · exact .inr ⟨_, rfl⟩
    · exact .inr ⟨_, rfl⟩
    · exact .inl rfl
  | case4 a b c rest ih =>
    simp only [Digest.Base64.encode, List.mem_cons] at h
    rcases h with rfl | rfl | rfl | rfl | h
    · exact .inr ⟨_, rfl⟩
    · exact .inr ⟨_, rfl⟩
    · exact .inr ⟨_, rfl⟩
    · exact .inr ⟨_, rfl⟩
    · exact ih h

theorem isPlainSign_of_mem_digestName {c : Char} {salt : String} (h : c ∈ (digestName salt).toList) :
    IsPlainSign c := by
  have hsign (n : Nat) : IsPlainSign (Digest.Base64.sign n) ∨
      Digest.Base64.sign n = '+' ∨ Digest.Base64.sign n = '/' := by
    have hsigns : ∀ n < 62, Text.isAsciiLetter (Digest.Base64.sign n) ∨
        Text.isAsciiDigit (Digest.Base64.sign n) := by decide
    by_cases hn : n < 62
    · exact .inl (hsigns n hn)
    · refine .inr ?_
      rw [Digest.Base64.sign, if_neg (by omega), if_neg (by omega), if_neg hn]
      split
      · exact .inl rfl
      · exact .inr rfl
  rw [digestName, String.toList_ofList] at h
  obtain ⟨d, hd, rfl⟩ := List.mem_map.mp h
  split
  · exact .inl rfl
  · next hplain =>
    simp only [Bool.or_eq_true, beq_iff_eq, not_or] at hplain
    rcases sign_of_mem_encode hd with rfl | ⟨n, rfl⟩
    · exact absurd rfl hplain.2
    · rcases hsign n with h | h | h
      · exact h
      · exact absurd h hplain.1.1
      · exact absurd h hplain.1.2

theorem digestName_ne_nil (salt : String) : (digestName salt).toList ≠ [] := by
  obtain ⟨b, bytes, hmd5⟩ : ∃ b bytes, Digest.md5 (Text.Utf8.encode salt) = b :: bytes := ⟨_, _, rfl⟩
  rw [digestName, String.toList_ofList, hmd5]
  intro hnil
  have hempty := List.map_eq_nil_iff.mp hnil
  match bytes with
  | [] => cases hempty
  | [_] => cases hempty
  | _ :: _ :: _ => cases hempty

theorem literal_attributeSelector_iff {start salt : String} :
    Substitution.Literal (attributeSelector (start ++ digestName salt).toList) ↔
      Substitution.Literal start.toList := by
  have hsigns : ∀ c ∈ (digestName salt).toList, IsPlainSign c := fun c => isPlainSign_of_mem_digestName
  obtain ⟨c, cs, hdigest⟩ := List.exists_cons_of_ne_nil (digestName_ne_nil salt)
  rw [hdigest] at hsigns
  have hbehind : Substitution.Literal (c :: (cs ++ [']'])) := by
    refine Substitution.literal_of_not_mem fun hmem => ?_
    rw [← List.cons_append, List.mem_append] at hmem
    rcases hmem with hmem | hmem
    · rcases hsigns _ hmem with h | h <;> cases h
    · simp at hmem
  have htext : attributeSelector (start ++ digestName salt).toList =
      '[' :: (start.toList ++ c :: (cs ++ [']'])) := by
    simp [attributeSelector, String.toList_append, hdigest]
  have hbracket : Substitution.Literal (attributeSelector (start ++ digestName salt).toList) ↔
      Substitution.Literal (start.toList ++ c :: (cs ++ [']'])) := by
    rw [htext]
    exact and_iff_right fun h => absurd h (by decide)
  rw [hbracket, Substitution.literal_append_cons (hsigns c List.mem_cons_self).not_lax,
    and_iff_left hbehind]

end Ids

section Root

theorem pieces_root : pieces ":root\x7b\x7d".toList = [.rule ":root".toList "\x7b\x7d".toList] := rfl

theorem selectors_root : splitSelectors (Text.trim ":root".toList) = [":root".toList] := rfl

theorem not_infix_root (id : List Char) : ¬ attributeSelector id <:+: ":root".toList :=
  fun h => absurd (h.mem List.mem_cons_self) (by decide)

theorem scopeSheet_root (id : List Char) : scopeSheet id ":root\x7b\x7d".toList =
    (Substitution.parse (attributeSelector id)).map fun parts =>
      Substitution.spell ":root".toList parts ++ "\x7b\x7d".toList := by
  have hheld : Text.contains (attributeSelector id) ":root".toList = false := by
    rw [Bool.eq_false_iff, ne_eq, Text.contains_iff]
    exact not_infix_root id
  have hselector : scopeSelector (attributeSelector id) ":root".toList =
      (Substitution.parse (attributeSelector id)).map fun parts =>
        Substitution.spell ":root".toList parts := by
    have hcut : cutPseudoScopes ":root".toList = ([([], ":root".toList)], []) := rfl
    rw [scopeSelector, hheld, hcut, if_neg Bool.false_ne_true]
    simp only [List.flatMap_cons, List.flatMap_nil, List.nil_append, List.append_nil]
  rw [scopeSheet, pieces_root, List.mapM_cons, List.mapM_nil, Piece.scoped, scopeSelectors, selectors_root,
    List.mapM_cons, List.mapM_nil, hselector]
  have hblank : Text.blankEnd ":root".toList = [] := rfl
  rw [hblank]
  cases Substitution.parse (attributeSelector id) with
  | error e => rfl
  | ok parts =>
    change Except.ok ((Substitution.spell ":root".toList parts ++ [] ++ "\x7b\x7d".toList) ++ []) = _
    rw [List.append_nil, List.append_nil]
    rfl

theorem token_root : Token [] ":root".toList [] :=
  ⟨.inr rfl, nofun, nofun⟩

theorem eq_of_swapped_root {result : List Char} {swap : List Char → List Char}
    (h : Swapped swap [] ":root".toList result) : result = swap ":root".toList := by
  generalize hroot : ":root".toList = cs at h
  cases h with
  | nil => cases hroot
  | kept hc _ => exact absurd token_root (hc _ [] (by rw [List.append_nil, hroot]))
  | @token _ word rest ds htoken hrest =>
    obtain ⟨rfl, rfl⟩ : word = ":root".toList ∧ rest = [] := by
      rcases htoken.word with rfl | rfl
      · cases hroot
      · exact ⟨rfl, List.self_eq_append_right.mp hroot⟩
    rw [hrest.eq_nil rfl, List.append_nil, List.append_nil]

theorem eq_of_scoped_root {id result : List Char} {swap : List Char → List Char}
    (h : Scoped (attributeSelector id) swap ":root\x7b\x7d".toList result) :
    result = swap ":root".toList ++ "\x7b\x7d".toList := by
  obtain ⟨texts, htexts, rfl⟩ := h
  rw [pieces_root] at htexts
  cases htexts with
  | cons htext hnil =>
    cases hnil
    cases htext with
    | rule hresults =>
      rw [selectors_root] at hresults
      cases hresults with
      | cons hresult hnil =>
        cases hnil
        cases hresult with
        | held hattr => exact absurd hattr (not_infix_root id)
        | behind _ hnone => exact absurd ⟨[], _, [], rfl, token_root⟩ hnone
        | swapped _ _ hswapped =>
          obtain rfl := eq_of_swapped_root hswapped
          have hblank : Text.blankEnd ":root".toList = [] := rfl
          rw [hblank]
          simp [Text.join]

end Root

/--
With the scope ids of a configuration every sheet can be scoped, with the attribute selector itself in the
place of each scope pseudo-class, if and only if no backslash in what they start with has a letter, a digit,
another backslash or nothing behind it.
-/
theorem scopeSheet_literal_iff (l : Config.Loaded) (source : String) :
    let id := (l.settings.component.naming.name source).toList
    (∀ css, ∃ result, scopeSheet id css = .ok result ∧
      Scoped (attributeSelector id) (fun _ => attributeSelector id) css result) ↔
        Substitution.Literal l.config.component.scopeStart.toList := by
  intro id
  have hliteral : Substitution.Literal (attributeSelector id) ↔
      Substitution.Literal l.config.component.scopeStart.toList := literal_attributeSelector_iff
  rw [← hliteral]
  constructor
  · intro h
    obtain ⟨result, hresult, hscoped⟩ := h ":root\x7b\x7d".toList
    rw [scopeSheet_root, eq_of_scoped_root hscoped] at hresult
    obtain ⟨parts, hparse, hspell⟩ := map_eq_ok.mp hresult
    have hshort : ":root".toList.length ≤ 5 := by decide
    refine (Substitution.parse_spells_iff hshort ⟨':', rfl, by decide⟩).mp ?_
    exact ⟨parts, hparse, List.append_cancel_right hspell⟩
  · intro h css
    have hparse := Substitution.parse_of_literal h
    have hswap : ∀ parts, Substitution.parse (attributeSelector id) = .ok parts →
        (fun _ => attributeSelector id) = fun word => Substitution.spell word parts := by
      intro parts hparts
      rw [hparse] at hparts
      cases hparts
      exact funext fun word => (Substitution.spell_chars word _).symm
    have hscoped := gives_scoped hswap css
    cases hsheet : scopeSheet id css with
    | ok result =>
      rw [hsheet] at hscoped
      exact ⟨result, rfl, hscoped⟩
    | error e =>
      rw [hsheet] at hscoped
      exact absurd (hparse.symm.trans hscoped) nofun

/--
A configuration whose scope ids no sheet with a scope pseudo-class can be scoped with.
-/
example : ∃ c, Config.ofValue (.ofFields [("version", .int 1),
      ("component", .ofFields [("scope_prefix", .str "\\q")])]) = .ok c ∧
    (scopeSheet (c.component.settings.naming.name "").toList ":root\x7b\x7d".toList).isOk = false :=
  ⟨_, rfl, by decide +kernel⟩

end Polyglot.Style
