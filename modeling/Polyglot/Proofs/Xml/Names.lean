import Polyglot.Proofs.Xml.Mapping
import Polyglot.Xml.Reader

/-!
The names in trees that are read: a name begins with a letter or an underscore, or with the brace in
front of its namespace, and no attribute is given twice.
-/

namespace Polyglot.Xml

theorem nodup_of_enter {s inner : Scope} {written : List (QName × List Char)}
    {attrs : List (String × String)} (h : enter? s written = some (inner, attrs)) :
    (attrs.map (·.1)).Nodup := by
  simp only [enter?, Option.bind_eq_bind, Option.bind_eq_some_iff] at h
  obtain ⟨values, -, inner', -, attrs', -, h⟩ := h
  split at h
  · cases h
  · next hlength =>
    cases h
    simp only [Bool.or_eq_true, bne_iff_ne, not_or, not_not] at hlength
    exact Text.nodup_of_length_eraseDups hlength.2

def BeginsName (name : String) : Prop :=
  ∃ c cs, name.toList = c :: cs ∧ isNameStart c

theorem beginsName_of_takeName {cs name rest : List Char} (h : takeName? cs = some (name, rest)) :
    BeginsName (String.ofList name) := by
  cases cs with
  | nil => cases h
  | cons c cs =>
    rw [takeName?] at h
    split at h
    · next hc =>
      cases h
      exact ⟨c, _, String.toList_ofList, hc⟩
    · cases h

theorem beginsName_of_takeQName {cs rest : List Char} {q : QName}
    (h : takeQName? cs = some (q, rest)) : BeginsName q.name := by
  simp only [takeQName?, Option.bind_eq_bind, Option.bind_eq_some_iff] at h
  obtain ⟨⟨first, behind⟩, hfirst, h⟩ := h
  split at h
  · obtain ⟨⟨name, rest'⟩, hname, h⟩ := Option.bind_eq_some_iff.mp h
    split at h
    · cases h
    · cases h
      exact beginsName_of_takeName hname
  · cases h
    exact beginsName_of_takeName hfirst

theorem head_of_elementName {s : Scope} {q : QName} {tag : String} (hq : BeginsName q.name)
    (h : s.elementName? q = some tag) : ∀ c ∈ tag.toList.head?, c ≠ '@' ∧ c ≠ '#' := by
  have hname : ∀ c ∈ q.name.toList.head?, c ≠ '@' ∧ c ≠ '#' := by
    obtain ⟨d, ds, hd, hstart⟩ := hq
    rw [hd]
    rintro c hc
    obtain rfl := Option.some.inj hc
    refine ⟨?_, ?_⟩ <;> rintro rfl <;> exact absurd hstart (by decide)
  have hspace (uri : String) : ∀ c ∈ ("\x7b" ++ uri ++ "\x7d" ++ q.name).toList.head?,
      c ≠ '@' ∧ c ≠ '#' := by simp
  rw [Scope.elementName?] at h
  split at h
  · obtain ⟨uri, -, rfl⟩ := Option.map_eq_some_iff.mp h
    exact hspace uri
  · split at h
    · cases h
      split
      · exact hname
      · exact hspace _
    · cases h
      exact hname

theorem mem_assemble {items : List Item} {c : Element × List Char} (h : c ∈ (assemble items).2) :
    .element c.1 ∈ items := by
  induction items with
  | nil => cases h
  | cons item items ih =>
    cases item with
    | text cs => exact List.mem_cons_of_mem _ (ih h)
    | element e =>
      rcases List.mem_cons.mp h with rfl | h
      · exact List.mem_cons_self
      · exact List.mem_cons_of_mem _ (ih h)

theorem named_of_take (fuel : Nat) :
    (∀ s cs e rest, takeElement? fuel s cs = some (e, rest) → e.Named) ∧
      ∀ s cs items rest, takeItems? fuel s cs = some (items, rest) →
        ∀ e, .element e ∈ items → e.Named := by
  induction fuel with
  | zero => exact ⟨by simp [takeElement?], by simp [takeItems?]⟩
  | succ fuel ih =>
    obtain ⟨ihElement, ihItems⟩ := ih
    constructor
    · intro s cs e rest h
      simp only [takeElement?, Option.bind_eq_bind, Option.bind_eq_some_iff] at h
      obtain ⟨⟨q, behind⟩, hq, ⟨written, closed, behind'⟩, -, ⟨inner, attrs⟩, henter, tag, htag, h⟩ := h
      have hhead := head_of_elementName (beginsName_of_takeQName hq) htag
      have hnodup := nodup_of_enter henter
      split at h
      · cases h
        exact .mk hhead hnodup (by simp)
      · obtain ⟨⟨items, left⟩, hitems, h⟩ := Option.bind_eq_some_iff.mp h
        dsimp only at h
        split at h
        · obtain ⟨⟨end', left'⟩, -, h⟩ := Option.bind_eq_some_iff.mp h
          dsimp only at h
          split at h
          · split at h
            · cases h
              exact .mk hhead hnodup fun c hc => ihItems _ _ _ _ hitems _ (mem_assemble hc)
            · cases h
          · cases h
        · cases h
    · intro s cs items rest h
      -- An item in front of what is read behind it.
      have hcons {item : Item} (hitem : ∀ e, item = .element e → e.Named) {s : Scope}
          {cs : List Char} (h : ((takeItems? fuel s cs).bind fun p => some (item :: p.1, p.2)) =
            some (items, rest)) : ∀ e, .element e ∈ items → e.Named := by
        obtain ⟨⟨more, left⟩, hmore, h⟩ := Option.bind_eq_some_iff.mp h
        cases h
        intro e he
        rcases List.mem_cons.mp he with heq | he
        · exact hitem e heq.symm
        · exact ihItems _ _ _ _ hmore e he
      rw [takeItems?.eq_def] at h
      dsimp only at h
      split at h
      · cases h
      · cases h
        simp
      · next heq _ =>
        cases heq
        split at h
        · cases h
          simp
        · obtain ⟨behind, -, h⟩ := Option.bind_eq_some_iff.mp h
          exact ihItems _ _ _ _ h
        · obtain ⟨⟨body, tail⟩, -, h⟩ := Option.bind_eq_some_iff.mp h
          dsimp only at h
          split at h
          · cases h
          · exact hcons (by simp) h
        · obtain ⟨behind, -, h⟩ := Option.bind_eq_some_iff.mp h
          exact ihItems _ _ _ _ h
        · obtain ⟨⟨e, behind⟩, he, h⟩ := Option.bind_eq_some_iff.mp h
          have hnamed := ihElement _ _ _ _ he
          exact hcons (by rintro _ ⟨⟩; exact hnamed) h
        · obtain ⟨⟨found, behind⟩, -, h⟩ := Option.bind_eq_some_iff.mp h
          dsimp only at h
          split at h
          · exact hcons (by simp) h
          · obtain ⟨text, -, h⟩ := Option.bind_eq_some_iff.mp h
            split at h
            · exact hcons (by simp) h
            · obtain ⟨⟨inner, left⟩, hinner, h⟩ := Option.bind_eq_some_iff.mp h
              dsimp only at h
              split at h
              · cases h
              · obtain ⟨⟨more, left'⟩, hmore, h⟩ := Option.bind_eq_some_iff.mp h
                cases h
                intro e he
                rcases List.mem_append.mp he with he | he
                · exact ihItems _ _ _ _ hinner e he
                · exact ihItems _ _ _ _ hmore e he
        · split at h
          · cases h
          · exact hcons (by simp) h

theorem named_of_read {s : String} {e : Element} (h : read? s = some e) : e.Named := by
  simp only [read?, Option.bind_eq_bind] at h
  split at h
  on_goal 1 => split at h
  -- With a declaration, without one, and with a target that only looks like one, the root is read alike.
  all_goals
    obtain ⟨cs, -, h⟩ := Option.bind_eq_some_iff.mp h
    obtain ⟨⟨scope, rest⟩, -, h⟩ := Option.bind_eq_some_iff.mp h
    dsimp only at h
    split at h
    · obtain ⟨⟨root, behind⟩, hroot, h⟩ := Option.bind_eq_some_iff.mp h
      obtain ⟨left, -, h⟩ := Option.bind_eq_some_iff.mp h
      split at h
      · cases h
        exact (named_of_take _).1 _ _ _ _ hroot
      · cases h
    · cases h

end Polyglot.Xml
