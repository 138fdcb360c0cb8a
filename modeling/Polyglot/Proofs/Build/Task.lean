import Mathlib.Data.List.Nodup
import Polyglot.Build.Task
import Polyglot.Proofs.Hub.Settling
import Polyglot.Proofs.Hub.World
import Polyglot.Proofs.Location.World

/-!
What there is to build: each file right in the directory of a language, once, in the order of languages and
names, and no two of them have the same output. In a run of the build task every item is tried once, in
order, whatever has come of the ones before it, and put down once, with what was made of it or with why it
failed.
-/

namespace Polyglot

namespace World

variable {w : World} {p : AbsPath} {n : String}

theorem mem_insertName {ns : List String} {k : String} : k ∈ insertName n ns ↔ k = n ∨ k ∈ ns := by
  induction ns with
  | nil => simp [insertName]
  | cons m ms ih =>
    rw [insertName]
    split
    · next heq =>
      rw [heq, List.mem_cons, or_self_left]
    · split
      · exact List.mem_cons
      · rw [List.mem_cons, ih, List.mem_cons, or_left_comm]

theorem pairwise_insertName {ns : List String} (h : ns.Pairwise (· < ·)) :
    (insertName n ns).Pairwise (· < ·) := by
  induction ns with
  | nil => exact List.pairwise_singleton _ _
  | cons m ms ih =>
    obtain ⟨hm, hms⟩ := List.pairwise_cons.mp h
    rw [insertName]
    split
    · exact h
    · next hne =>
      split
      · next hlt =>
        refine List.pairwise_cons.mpr ⟨fun k hk => ?_, h⟩
        rcases List.mem_cons.mp hk with rfl | hk
        · exact hlt
        · exact String.lt_trans hlt (hm k hk)
      · next hge =>
        refine List.pairwise_cons.mpr ⟨fun k hk => ?_, ih hms⟩
        rcases mem_insertName.mp hk with rfl | hk
        · exact Std.lt_of_le_of_ne (String.not_lt.mp hge) (Ne.symm hne)
        · exact hm k hk

theorem pairwise_children (w : World) (p : AbsPath) : (w.children p).Pairwise (· < ·) := by
  have hfold (names ns : List String) (h : ns.Pairwise (· < ·)) :
      (names.foldl (fun ns n => insertName n ns) ns).Pairwise (· < ·) := by
    induction names generalizing ns with
    | nil => exact h
    | cons n names ih => exact ih _ (pairwise_insertName h)
  exact hfold _ [] .nil

theorem mem_children : n ∈ w.children p ↔ ∃ e ∈ w.entries, ∃ rest, e.1 = p ++ n :: rest := by
  have hfold (names ns : List String) :
      n ∈ names.foldl (fun ns n => insertName n ns) ns ↔ n ∈ names ∨ n ∈ ns := by
    induction names generalizing ns with
    | nil => simp
    | cons m names ih => rw [List.foldl_cons, ih, mem_insertName, List.mem_cons, or_assoc, or_left_comm]
  rw [children, hfold, List.mem_filterMap]
  simp only [List.not_mem_nil, or_false]
  refine exists_congr fun e => and_congr_right fun _ => ?_
  split
  · next hprefix =>
    obtain ⟨rest, hrest⟩ := List.isPrefixOf_iff_prefix.mp hprefix
    rw [← hrest, List.drop_left, List.head?_eq_some_iff]
    simp
  · next hno =>
    refine iff_of_false nofun ?_
    rintro ⟨rest, heq⟩
    exact hno (List.isPrefixOf_iff_prefix.mpr ⟨_, heq.symm⟩)

theorem exists_entry_of_isFile (h : w.isFile p) : ∃ e ∈ w.entries, e.1 = p := by
  rw [isFile, bytes?] at h
  split at h
  · next bytes hentry =>
    obtain ⟨e, he, -⟩ := Option.map_eq_some_iff.mp hentry
    exact ⟨e, List.mem_of_find?_eq_some he, by simpa using List.find?_some he⟩
  · cases h

end World

namespace Build

variable {w : World} {source output : AbsPath} {i : Item}

/--
The item for a file with a name in the directory of a language.
-/
def itemOf (source output : AbsPath) (lang name : String) : Item :=
  ⟨source ++ [lang, name], output ++ [lang, name ++ "." ++ lang], lang⟩

/--
The order in which items are built: by language and then by name.
-/
def Before (i j : Item) : Prop :=
  i.lang < j.lang ∨ i.lang = j.lang ∧ i.source.name < j.source.name

theorem mem_itemsOf {lang : String} : i ∈ itemsOf w source output lang ↔
    ∃ name, w.isFile (source ++ [lang, name]) ∧ i = itemOf source output lang name := by
  have hpath (name : String) : source ++ [lang] ++ [name] = source ++ [lang, name] := by simp
  rw [itemsOf, List.mem_map]
  simp only [hpath, List.mem_filter]
  constructor
  · rintro ⟨name, ⟨-, hfile⟩, rfl⟩
    exact ⟨name, hfile, rfl⟩
  · rintro ⟨name, hfile, rfl⟩
    obtain ⟨e, he, heq⟩ := World.exists_entry_of_isFile hfile
    exact ⟨name, ⟨World.mem_children.mpr ⟨e, he, [], by rw [heq, hpath]⟩, hfile⟩, rfl⟩

theorem mem_collect : i ∈ collect w source output ↔ ∃ lang name, Language.isName lang ∧
    w.isDirectory (source ++ [lang]) ∧ w.isFile (source ++ [lang, name]) ∧
    i = itemOf source output lang name := by
  rw [collect, List.mem_flatMap]
  simp only [mem_itemsOf, directories, List.mem_filter]
  constructor
  · rintro ⟨lang, ⟨⟨-, hdirectory⟩, hlang⟩, name, hfile, rfl⟩
    exact ⟨lang, name, hlang, hdirectory, hfile, rfl⟩
  · rintro ⟨lang, name, hlang, hdirectory, hfile, rfl⟩
    obtain ⟨e, he, heq⟩ := World.exists_entry_of_isFile hfile
    have hchild : lang ∈ w.children source := World.mem_children.mpr ⟨e, he, [name], heq⟩
    exact ⟨lang, ⟨⟨hchild, hdirectory⟩, hlang⟩, name, hfile, rfl⟩

theorem pairwise_collect (w : World) (source output : AbsPath) :
    (collect w source output).Pairwise Before := by
  rw [collect, List.pairwise_flatMap]
  constructor
  · intro lang _
    refine List.pairwise_map.mpr (((World.pairwise_children w _).filter _).imp fun {n k} hlt => ?_)
    refine .inr ⟨rfl, ?_⟩
    simpa [AbsPath.name] using hlt
  · refine (((World.pairwise_children w source).filter _).filter _).imp fun {a b} hlt i hi j hj => ?_
    obtain ⟨_, -, rfl⟩ := mem_itemsOf.mp hi
    obtain ⟨_, -, rfl⟩ := mem_itemsOf.mp hj
    exact .inl hlt

theorem nodup_outputs (w : World) (source output : AbsPath) :
    ((collect w source output).map (·.output)).Nodup := by
  have hitems : (collect w source output).Nodup := (pairwise_collect w source output).imp fun hbefore => by
    rintro rfl
    rcases hbefore with hlt | ⟨-, hlt⟩
    · exact String.lt_irrefl _ hlt
    · exact String.lt_irrefl _ hlt
  refine hitems.map_on fun i hi j hj heq => ?_
  obtain ⟨lang, name, -, -, -, rfl⟩ := mem_collect.mp hi
  obtain ⟨lang', name', -, -, -, rfl⟩ := mem_collect.mp hj
  have hends := List.append_cancel_left heq
  simp only [List.cons.injEq, and_true] at hends
  obtain ⟨rfl, hname⟩ := hends
  obtain rfl : name = name' := by simpa [String.ext_iff] using hname
  rfl

end Build

namespace Build

open Hub (Machine)

variable {K X : Type} {m : Machine K X} {fuel : Nat} {s s' s'' : Site K X} {i : Item} {is : List Item}

def Task.put (t : Task) : Except ItemError Artifact → Task
  | .ok a => { t with artifacts := t.artifacts ++ [a] }
  | .error e => { t with errors := t.errors ++ [e] }

def errorOf (f : Failure) (i : Item) : ItemError :=
  ⟨f.kind, f.message, i.label⟩

def notes (i : Item) : Except ItemError Artifact → List Log.Record
  | .ok _ => [⟨20, logger, i.label ++ " ... OK"⟩]
  | .error e => [⟨40, logger, i.label ++ " failed because: " ++ e.message⟩, ⟨10, logger, "Traceback"⟩]

/--
What the hub's answer for an item leads to: a result, and new files. The text of an answer is saved to the
output of the item. No file changes if that fails, or if there is no answer.
-/
inductive Handles (w : World) (i : Item) :
    Except Failure Envelope → Except ItemError Artifact → World → Prop where
  | built {e : Envelope} {w' : World} (hsave : w.save [] i.output.text e.payload.text = (w', .ok ()))
      (hfile : w'.bytes? (AbsPath.resolve [] i.output.text) = some (Text.Utf8.encode e.payload.text)) :
      Handles w i (.ok e) (.ok ⟨i.lang, i.output.text⟩) w'
  | unsaved {e : Envelope} {w' : World} {f : FileError}
      (hsave : w.save [] i.output.text e.payload.text = (w', .error f))
      (hsame : ∀ q, w'.bytes? q = w.bytes? q) : Handles w i (.ok e) (.error (errorOf (.file f) i)) w'
  | refused {f : Failure} : Handles w i (.error f) (.error (errorOf f i)) w

/--
A try of an item: the hub is asked to translate the file of the item to its language.
-/
inductive Tries (m : Machine K X) (fuel : Nat) (s : Site K X) (i : Item) (r : Except ItemError Artifact) :
    Site K X → Prop where
  | intro {hub : Hub.State K X} {answer : Except Failure Envelope} {w : World}
      (hserve : Hub.serve m fuel s.hub ⟨.transpile, .ofFields [("location", .str i.source.text),
        ("output_lang", .str i.lang), ("debug", .bool s.task.debug),
        ("executer_options", .map s.task.executerOptions)]⟩ = (hub, answer))
      (hhandles : Handles s.hub.world i answer r w) :
      Tries m fuel s i r ⟨{ hub with world := w, records := hub.records ++ notes i r }, s.task.put r⟩

/--
Items are tried in order, each on the site that the try of the one before it has left.
-/
inductive Works (m : Machine K X) (fuel : Nat) :
    Site K X → List Item → List (Except ItemError Artifact) → Site K X → Prop where
  | nil (s : Site K X) : Works m fuel s [] [] s
  | cons {s s' s'' : Site K X} {i : Item} {is : List Item} {r : Except ItemError Artifact}
      {rs : List (Except ItemError Artifact)} (htries : Tries m fuel s i r s')
      (hrest : Works m fuel s' is rs s'') : Works m fuel s (i :: is) (r :: rs) s''

theorem fail_eq (s : Site K X) (i : Item) (f : Failure) : s.fail i f =
    ⟨{ s.hub with records := s.hub.records ++ notes i (.error (errorOf f i)) },
      s.task.put (.error (errorOf f i))⟩ := by
  simp [Site.fail, Site.log, Hub.State.record, notes, errorOf, Task.put]

theorem tries_attempt (m : Machine K X) (fuel : Nat) (s : Site K X) (i : Item) :
    ∃ r, Tries m fuel s i r (Site.attempt m fuel s i) := by
  have hworld := Hub.world_serve m fuel s.hub (s.task.ask i)
  rw [Site.attempt, Site.make]
  cases hserve : Hub.serve m fuel s.hub (s.task.ask i) with
  | mk hub answer =>
    rw [hserve] at hworld
    cases answer with
    | error f =>
      refine ⟨.error (errorOf f i), ?_⟩
      have htries := Tries.intro hserve (.refused (f := f))
      dsimp only
      rw [fail_eq]
      rwa [← hworld] at htries
    | ok e =>
      dsimp only
      rw [hworld]
      cases hsave : s.hub.world.save [] i.output.text e.payload.text with
      | mk w saved =>
        cases saved with
        | ok _ =>
          refine ⟨.ok ⟨i.lang, i.output.text⟩, ?_⟩
          have htries := Tries.intro hserve (.built hsave (World.bytes_of_save hsave))
          exact htries
        | error f =>
          refine ⟨.error (errorOf (.file f) i), ?_⟩
          have htries := Tries.intro hserve (.unsaved hsave (World.bytes_of_unsaved hsave))
          dsimp only [Except.mapError]
          rwa [fail_eq]

theorem works_foldl (m : Machine K X) (fuel : Nat) (s : Site K X) (is : List Item) :
    ∃ rs, Works m fuel s is rs (is.foldl (Site.attempt m fuel) s) := by
  induction is generalizing s with
  | nil => exact ⟨[], .nil s⟩
  | cons i is ih =>
    obtain ⟨r, htries⟩ := tries_attempt m fuel s i
    obtain ⟨rs, hrest⟩ := ih (Site.attempt m fuel s i)
    exact ⟨r :: rs, .cons htries hrest⟩

/--
The request for an item has an end.
-/
def Ends (m : Machine K X) (fuel : Nat) (s : Site K X) (i : Item) : Prop :=
  ∃ r, (Hub.submit m fuel s.hub [s.task.ask i]).2 = [some r]

theorem exists_fuel (m : Machine K X) (s : Site K X) (is : List Item) : ∃ enough, ∀ fuel, enough ≤ fuel →
    is.foldl (Site.attempt m fuel) s = is.foldl (Site.attempt m enough) s ∧
    (m.settings.coalesce = false → ∀ front i back, is = front ++ i :: back →
      Ends m fuel (front.foldl (Site.attempt m fuel) s) i) := by
  induction is generalizing s with
  | nil => exact ⟨0, fun fuel _ => ⟨rfl, fun _ front i back h => by simp at h⟩⟩
  | cons i is ih =>
    obtain ⟨first, hfirst⟩ := Hub.exists_fuel m s.hub (s.task.ask i)
    obtain ⟨rest, hrest⟩ := ih (Site.attempt m first s i)
    have hattempt {fuel : Nat} (hfuel : first ≤ fuel) : Site.attempt m fuel s i = Site.attempt m first s i := by
      rw [Site.attempt, Site.make, Site.attempt, Site.make, Hub.serve, (hfirst fuel hfuel).1, ← Hub.serve]
    refine ⟨max first rest, fun fuel hfuel => ⟨?_, fun hm front j back h => ?_⟩⟩
    · rw [List.foldl_cons, List.foldl_cons, hattempt (by omega), (hrest fuel (by omega)).1,
        hattempt (Nat.le_max_left first rest), (hrest _ (Nat.le_max_right first rest)).1]
    · cases front with
      | nil =>
        obtain ⟨rfl, rfl⟩ := List.cons.inj h
        exact (hfirst fuel (by omega)).2 hm
      | cons k front =>
        obtain ⟨rfl, rfl⟩ := List.cons.inj h
        rw [List.foldl_cons, hattempt (by omega)]
        exact (hrest fuel (by omega)).2 hm front j back rfl

theorem Tries.task {r : Except ItemError Artifact} (h : Tries m fuel s i r s') : s'.task = s.task.put r := by
  cases h
  rfl

def error? : Except ItemError Artifact → Option ItemError
  | .ok _ => none
  | .error e => some e

/--
The account of a run: each result has gone to one of its two lists, at the end of what was there.
-/
theorem Works.task {rs : List (Except ItemError Artifact)} (h : Works m fuel s is rs s') :
    s'.task = { s.task with
      artifacts := s.task.artifacts ++ rs.filterMap Except.toOption
      errors := s.task.errors ++ rs.filterMap error? } := by
  induction h with
  | nil s => simp
  | @cons s s' s'' i is r rs htries hrest ih =>
    rw [ih, htries.task]
    cases r <;> simp [Task.put, List.filterMap_cons, Except.toOption, error?]

theorem Works.length {rs : List (Except ItemError Artifact)} (h : Works m fuel s is rs s') :
    rs.length = is.length := by
  induction h with
  | nil s => rfl
  | cons _ _ ih => rw [List.length_cons, List.length_cons, ih]

theorem task_of_prepare {p : Site K X} (h : s.prepare = .ok p) : p.hub.world = s.hub.world ∧
    p.task.phase = .prepared ∧ p.task.items = collect s.hub.world s.task.source s.task.output ∧
    p.task.artifacts = s.task.artifacts ∧ p.task.errors = s.task.errors := by
  rw [Site.prepare] at h
  dsimp only at h
  split at h
  · cases h
  · cases h
    exact ⟨rfl, rfl, rfl, rfl, rfl⟩

/--
A fresh task that has been prepared runs, whatever the hub does: its items are the files right in the
directories of languages, in order and with different outputs; each of them is tried once, and is an artifact
or an error in the end; and the task has failed if there is an error. There is a number of ticks that is enough
for all requests of the run.
-/
theorem run_of_prepare (m : Machine K X) {p : Site K X}
    (hartifacts : s.task.artifacts = []) (herrors : s.task.errors = []) (h : s.prepare = .ok p) :
    (∀ i, i ∈ p.task.items ↔ ∃ lang name, Language.isName lang ∧
      s.hub.world.isDirectory (s.task.source ++ [lang]) ∧
      s.hub.world.isFile (s.task.source ++ [lang, name]) ∧
      i = itemOf s.task.source s.task.output lang name) ∧
    p.task.items.Pairwise Before ∧ (p.task.items.map (·.output)).Nodup ∧
    (∀ fuel, ∃ f rs worked, p.run m fuel = .ok f ∧ Works m fuel p p.task.items rs worked ∧
      f.hub = worked.hub ∧ rs.length = p.task.items.length ∧
      f.task.artifacts = rs.filterMap Except.toOption ∧ f.task.errors = rs.filterMap error? ∧
      f.task.phase = if f.task.errors = [] then .finished else .failed) ∧
    ∃ enough, ∀ fuel, enough ≤ fuel → p.run m fuel = p.run m enough ∧
      (m.settings.coalesce = false → ∀ front i back, p.task.items = front ++ i :: back →
        ∃ rs s, Works m fuel p front rs s ∧ Ends m fuel s i) := by
  obtain ⟨-, hphase, hitems, hartifacts', herrors'⟩ := task_of_prepare h
  have hrun (fuel : Nat) := Site.run.eq_def m fuel p
  simp only [hphase, ne_eq, not_true_eq_false, ↓reduceIte] at hrun
  refine ⟨fun i => by rw [hitems, mem_collect], by rw [hitems]; exact pairwise_collect _ _ _,
    by rw [hitems]; exact nodup_outputs _ _ _, fun fuel => ?_, ?_⟩
  · obtain ⟨rs, hworks⟩ := works_foldl m fuel p p.task.items
    have htask := hworks.task
    rw [hartifacts', hartifacts, herrors', herrors, List.nil_append, List.nil_append] at htask
    refine ⟨_, rs, _, hrun fuel, hworks, rfl, hworks.length, ?_, ?_, ?_⟩
    · dsimp only
      rw [htask]
    · dsimp only
      rw [htask]
    · simp only [List.length_eq_zero_iff]
  · obtain ⟨enough, henough⟩ := exists_fuel m p p.task.items
    refine ⟨enough, fun fuel hfuel => ⟨?_, fun hm front i back hitem => ?_⟩⟩
    · rw [hrun, hrun, (henough fuel hfuel).1]
    · obtain ⟨rs, hworks⟩ := works_foldl m fuel p front
      exact ⟨rs, _, hworks, (henough fuel hfuel).2 hm front i back hitem⟩

def mixed : Site Unit Unit where
  hub := {
    registry := ({} : Registry Unit).setTranspiler "md" "html" ()
    world := { entries := [(["s", "json", "c.md"], .file []), (["s", "html", "b.md"], .file [42]),
      (["s", "html", "a.xyz"], .file []), (["s", "no name", "d.md"], .file []), (["s", "e.md"], .file [])] }
    ext := () }
  task := { source := ["s"], output := ["o"] }

def marking : Machine Unit Unit where
  perform _ r := .answer (.output (.str (r.text ++ "!")) .null) r.compilerOptions r.executerOptions

/--
The file in the middle is built although the one before it has failed.
-/
theorem mixed_failed : ∃ p f, mixed.prepare = .ok p ∧ p.task.items =
      [itemOf ["s"] ["o"] "html" "a.xyz", itemOf ["s"] ["o"] "html" "b.md", itemOf ["s"] ["o"] "json" "c.md"] ∧
    p.run marking 99 = .ok f ∧ f.task.artifacts = [⟨"html", "/o/html/b.md.html"⟩] ∧
    f.task.errors.map (·.item) = ["html/a.xyz", "json/c.md"] ∧ f.task.phase = .failed ∧
    f.hub.world.bytes? ["o", "html", "b.md.html"] = some [42, 33] ∧
    f.hub.world.bytes? ["o", "html", "a.xyz.html"] = none := by
  obtain ⟨p, hprepare, hitems, hmade⟩ : ∃ p, mixed.prepare = .ok p ∧ p.task.items =
      [itemOf ["s"] ["o"] "html" "a.xyz", itemOf ["s"] ["o"] "html" "b.md", itemOf ["s"] ["o"] "json" "c.md"] ∧
      (p.run marking 99).toOption.map (fun f => (f.task.artifacts, f.task.errors.map (·.item),
        f.hub.world.bytes? ["o", "html", "b.md.html"], f.hub.world.bytes? ["o", "html", "a.xyz.html"])) =
      some ([⟨"html", "/o/html/b.md.html"⟩], ["html/a.xyz", "json/c.md"], some [42, 33], none) :=
    ⟨_, rfl, by decide +kernel, by decide +kernel⟩
  obtain ⟨-, -, -, hruns, -⟩ := run_of_prepare marking rfl rfl hprepare
  obtain ⟨f, rs, worked, hrun, -, -, -, -, -, hphase⟩ := hruns 99
  rw [hrun] at hmade
  simp only [Except.toOption, Option.map_some, Option.some.injEq, Prod.mk.injEq] at hmade
  obtain ⟨hartifacts, herrors, hbuilt, hrefused⟩ := hmade
  have hfailed : f.task.errors ≠ [] := by
    intro hnil
    rw [hnil] at herrors
    cases herrors
  rw [if_neg hfailed] at hphase
  exact ⟨p, f, hprepare, hitems, hrun, hartifacts, herrors, hphase, hbuilt, hrefused⟩

end Build

end Polyglot
