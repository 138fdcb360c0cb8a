import Polyglot.Component.Reference
import Polyglot.Proofs.Location.Normal

/-!
References along a chain of files: what a file refers to is where it would be if the reference were
written down in the document that refers to the file, from there.
-/

namespace Polyglot

namespace Text

theorem startsWith_iff {start cs : List Char} : startsWith start cs ↔ ∃ rest, cs = start ++ rest := by
  rw [startsWith, Option.isSome_iff_exists]
  constructor
  · rintro ⟨rest, h⟩
    exact ⟨rest, eq_append_of_after h⟩
  · rintro ⟨rest, rfl⟩
    exact ⟨rest, after_append start rest⟩

end Text

namespace Url

def IsScheme (scheme : List Char) : Prop :=
  scheme = "http:".toList ∨ scheme = "https:".toList

theorem isWeb_iff {s : String} :
    isWeb s ↔ ∃ scheme, IsScheme scheme ∧ ∃ rest, s.toList = scheme ++ '/' :: '/' :: rest := by
  rw [isWeb, Bool.or_eq_true, Text.startsWith_iff, Text.startsWith_iff]
  simp [IsScheme]

theorem IsScheme.relative {scheme : List Char} (h : IsScheme scheme) :
    scheme ≠ [] ∧ Path.isAbsolute scheme = false ∧ '/' ∉ scheme := by
  rcases h with rfl | rfl <;> decide

end Url

namespace Component

open Polyglot.Path

variable {p : Place} {s t : String}

/--
A reference that is a relative path and no address of the web.
-/
structure IsRelative (s : String) : Prop where
  relative : isAbsolute s.toList = false
  notWeb : Url.isWeb s = false

theorem isWeb_normalize (cs : List Char) : Url.isWeb (String.ofList (normalize cs)) = false := by
  rw [Bool.eq_false_iff]
  intro hweb
  obtain ⟨scheme, hscheme, rest, heq⟩ := Url.isWeb_iff.mp hweb
  obtain ⟨hne, hrelative, -⟩ := hscheme.relative
  exact normalize_ne_doubled cs hrelative hne rest (by simpa using heq)

theorem IsRelative.beside (hs : IsRelative s) (ht : IsRelative t) :
    IsRelative (String.ofList (join (dirName s.toList) t.toList)) := by
  obtain ⟨k, hsplit⟩ := split_of_relative hs.relative
  refine ⟨?_, ?_⟩
  · rw [String.toList_ofList]
    exact isAbsolute_of_join (isAbsolute_dirName hs.relative) ht.relative
  · rw [Bool.eq_false_iff]
    intro hweb
    obtain ⟨scheme, hscheme, rest, heq⟩ := Url.isWeb_iff.mp hweb
    have hslash (cs : List Char) : '/' :: cs ≠ t.toList := by
      intro h
      have := ht.relative
      rw [← h] at this
      cases this
    rw [String.toList_ofList, join, if_neg (by simp [ht.relative])] at heq
    split at heq
    · next hend =>
      obtain hnil : dirName s.toList = [] := by simpa [hsplit.clear] using hend
      rw [hnil, List.nil_append] at heq
      have := Url.isWeb_iff.mpr ⟨scheme, hscheme, rest, heq⟩
      rw [ht.notWeb] at this
      cases this
    · -- The slashes of the address do not stand where the directory and the reference meet.
      obtain ⟨x, hx, hrest⟩ | ⟨x, hx, hrest⟩ := List.append_eq_append_iff.mp heq
      · cases x with
        | nil => exact hslash rest (List.cons.inj hrest).2.symm
        | cons c x =>
          obtain ⟨rfl, -⟩ := List.cons.inj hrest
          exact hscheme.relative.2.2 (by rw [hx]; simp)
      · rcases x with - | ⟨c, - | ⟨d, x⟩⟩
        · exact hslash rest (List.cons.inj hrest).2
        · obtain ⟨rfl, -⟩ := List.cons.inj hrest
          exact hsplit.clear (by rw [hx]; simp)
        · obtain ⟨rfl, hmore⟩ := List.cons.inj hrest
          obtain ⟨rfl, -⟩ := List.cons.inj hmore
          have htext : s.toList = scheme ++ '/' :: '/' :: (x ++ (List.replicate k '/' ++ baseName s.toList)) :=
            hsplit.text.trans (by rw [hx]; simp)
          have := Url.isWeb_iff.mpr ⟨scheme, hscheme, _, htext⟩
          rw [hs.notWeb] at this
          cases this

/--
A document that has been read from a file.
-/
structure Place.IsFile (p : Place) : Prop where
  read : p.fromLocation
  notWeb : Url.isWeb p.location = false

theorem resolve_of_relative (hp : p.IsFile) (hs : IsRelative s) :
    resolve p s = .ok (String.ofList (normalize (join (dirName p.location.toList) s.toList))) := by
  have hinline : p.isInline = false := by simp [Place.isInline, hp.read]
  rw [resolve, if_neg (by simp [hs.notWeb]), if_neg (by simp [hp.notWeb]), if_neg (by simp [hinline])]

/--
Finding a reference from the file that another one leads to is finding the reference that joins them from
the first file. What is found from any file is a normal path.
-/
theorem resolve_chain (hp : p.IsFile) (hs : IsRelative s) (hname : IsName (baseName s.toList))
    (ht : IsRelative t) : ∃ l k, resolve p s = .ok l ∧ resolve { p with location := l } t = .ok k ∧
      resolve p (String.ofList (join (dirName s.toList) t.toList)) = .ok k ∧
      ∀ (q : Place) reference, q.IsFile → IsRelative reference →
        ∃ found, resolve q reference = .ok found ∧ normalize found.toList = found.toList := by
  have hfirst := resolve_of_relative hp hs
  have hnext : Place.IsFile { p with location := String.ofList (normalize (join
      (dirName p.location.toList) s.toList)) } := ⟨hp.read, isWeb_normalize _⟩
  refine ⟨_, _, hfirst, resolve_of_relative hnext ht, ?_, fun q reference hq h => ?_⟩
  · rw [resolve_of_relative hp (hs.beside ht), String.toList_ofList, String.toList_ofList,
      normalize_join_dirName hs.relative ht.relative hname]
  · exact ⟨_, resolve_of_relative hq h, by rw [String.toList_ofList, normalize_normalize]⟩

/--
From a page in one directory a part in another one, and from there a part above it.
-/
theorem page_chain : Place.IsFile ⟨"/w//page/a.vue", true, "/source/"⟩ ∧ IsRelative "../b/./c.vue" ∧
    IsName (baseName "../b/./c.vue".toList) ∧ IsRelative "..//d.vue" ∧
    resolve ⟨"/w//page/a.vue", true, "/source/"⟩ "../b/./c.vue" = .ok "/w/b/c.vue" ∧
    resolve ⟨"/w/b/c.vue", true, "/source/"⟩ "..//d.vue" = .ok "/w/d.vue" ∧
    resolve ⟨"/w//page/a.vue", true, "/source/"⟩ "../b/./..//d.vue" = .ok "/w/d.vue" := by
  have hfile : Place.IsFile ⟨"/w//page/a.vue", true, "/source/"⟩ := ⟨rfl, by decide +kernel⟩
  have hs : IsRelative "../b/./c.vue" := ⟨by decide +kernel, by decide +kernel⟩
  have hname : IsName (baseName "../b/./c.vue".toList) :=
    ⟨by decide +kernel, by decide +kernel, by decide +kernel, by decide +kernel⟩
  have ht : IsRelative "..//d.vue" := ⟨by decide +kernel, by decide +kernel⟩
  obtain ⟨l, k, hl, hk, hjoined, -⟩ := resolve_chain hfile hs hname ht
  have hfirst : resolve ⟨"/w//page/a.vue", true, "/source/"⟩ "../b/./c.vue" = .ok "/w/b/c.vue" := by
    decide +kernel
  obtain rfl : "/w/b/c.vue" = l := Except.ok.inj (hfirst.symm.trans hl)
  have hsecond : resolve ⟨"/w/b/c.vue", true, "/source/"⟩ "..//d.vue" = .ok "/w/d.vue" := by
    decide +kernel
  obtain rfl : "/w/d.vue" = k := Except.ok.inj (hsecond.symm.trans hk)
  have hpath : String.ofList (join (dirName "../b/./c.vue".toList) "..//d.vue".toList) = "../b/./..//d.vue" := by
    decide +kernel
  rw [hpath] at hjoined
  exact ⟨hfile, hs, hname, ht, hfirst, hsecond, hjoined⟩

end Component

end Polyglot
