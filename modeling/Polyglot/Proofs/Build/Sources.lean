import Polyglot.Proofs.Build.Task

/-!
What a build does to the files that it is made from. An item is saved over the source of another one only
if the output directory is the source directory itself, and the one source is named as what comes of the
other; every other source is as it was.
-/

namespace Polyglot.Build

open Hub (Machine)

variable {K X : Type} {m : Machine K X} {fuel : Nat} {s : Site K X} {i j : Item} {q : AbsPath}

theorem output_eq_source_iff {source output : AbsPath} {lang name lang' name' : String} :
    (itemOf source output lang name).output = (itemOf source output lang' name').source ↔
      output = source ∧ lang = lang' ∧ name' = name ++ "." ++ lang := by
  rw [itemOf, itemOf]
  constructor
  · intro h
    obtain ⟨hdirectory, hends⟩ := List.append_inj' h rfl
    simp only [List.cons.injEq, and_true] at hends
    exact ⟨hdirectory, hends.1, hends.2.symm⟩
  · rintro ⟨rfl, rfl, rfl⟩
    rfl

theorem named_output {w : World} {source output : AbsPath} (hw : w.Named) (houtput : output.Named)
    (hi : i ∈ collect w source output) : i.output.Named := by
  obtain ⟨lang, name, -, -, hfile, rfl⟩ := mem_collect.mp hi
  obtain ⟨e, he, hpath⟩ := World.exists_entry_of_isFile hfile
  have hnames := hw e he
  rw [hpath] at hnames
  have hlang := hnames lang (by simp)
  have hname := hnames name (by simp)
  intro n hn
  rcases List.mem_append.mp hn with hn | hn
  · exact houtput n hn
  · simp only [List.mem_cons, List.not_mem_nil, or_false] at hn
    rcases hn with rfl | rfl
    · exact hlang
    · have hname' := List.length_pos_iff.mpr hname.nonempty
      have hlang' := List.length_pos_iff.mpr hlang.nonempty
      have hdot : ".".toList.length = 1 := rfl
      refine Path.isName_of_length ?_ (by simp [String.toList_append, hname.whole, hlang.whole])
      rw [String.toList_append, String.toList_append, List.length_append, List.length_append]
      omega

theorem bytes_attempt (m : Machine K X) (fuel : Nat) (s : Site K X) (h : q ≠ AbsPath.resolve [] i.output.text) :
    (Site.attempt m fuel s i).hub.world.bytes? q = s.hub.world.bytes? q := by
  rw [Site.attempt, Site.make]
  have hworld := Hub.world_serve m fuel s.hub (s.task.ask i)
  generalize Hub.serve m fuel s.hub (s.task.ask i) = served at hworld
  obtain ⟨hub, outcome⟩ := served
  rw [← hworld]
  cases outcome with
  | error f => rfl
  | ok e =>
    have hsave : (hub.world.save [] i.output.text e.payload.text).1.bytes? q = hub.world.bytes? q :=
      World.bytes_save_of_ne h
    dsimp only
    cases hsaved : hub.world.save [] i.output.text e.payload.text with
    | mk world saved =>
      rw [hsaved] at hsave
      cases saved <;> exact hsave

theorem bytes_foldl (m : Machine K X) (fuel : Nat) (s : Site K X) {is : List Item}
    (h : ∀ i ∈ is, q ≠ AbsPath.resolve [] i.output.text) :
    (is.foldl (Site.attempt m fuel) s).hub.world.bytes? q = s.hub.world.bytes? q := by
  induction is generalizing s with
  | nil => rfl
  | cons i is ih =>
    obtain ⟨hi, his⟩ := List.forall_mem_cons.mp h
    rw [List.foldl_cons, ih _ his, bytes_attempt m fuel s hi]

/--
A build of a configuration saves an item to the source of one of its items only if the directories of
sources and outputs are the same and the source is named as the output of a file beside it. Each source
that no item is saved to is as it was before.
-/
theorem sources_of_run (m : Machine K X) (fuel : Nat) {hub : Hub.State K X} {c : Config} {project : AbsPath}
    {file : Option AbsPath} {debug : Bool} {p : Site K X} (hworld : hub.world.Named) (hproject : project.Named)
    (h : Site.prepare ⟨hub, .ofConfig ⟨c, c.directories.resolve project, file⟩ debug⟩ = .ok p) :
    (∀ i ∈ p.task.items, ∀ j ∈ p.task.items, i.output = j.source ↔
      (c.directories.resolve project).output = (c.directories.resolve project).source ∧ i.lang = j.lang ∧
        j.source.name = i.source.name ++ "." ++ i.lang) ∧
    ∃ f, p.run m fuel = .ok f ∧ ∀ j ∈ p.task.items, (∀ i ∈ p.task.items, i.output ≠ j.source) →
      (hub.world.bytes? j.source).isSome ∧ f.hub.world.bytes? j.source = hub.world.bytes? j.source := by
  obtain ⟨hsame, hphase, hitems, -, -⟩ := task_of_prepare h
  have hrun := Site.run.eq_def m fuel p
  rw [if_neg (by simp [hphase])] at hrun
  refine ⟨fun i hi j hj => ?_, _, hrun, fun j hj hfree => ⟨?_, ?_⟩⟩
  · rw [hitems] at hi hj
    obtain ⟨lang, name, -, -, -, rfl⟩ := mem_collect.mp hi
    obtain ⟨lang', name', -, -, -, rfl⟩ := mem_collect.mp hj
    rw [output_eq_source_iff]
    simp [itemOf, AbsPath.name, Task.ofConfig]
  · rw [hitems] at hj
    obtain ⟨lang, name, -, -, hfile, rfl⟩ := mem_collect.mp hj
    exact hfile
  · have houtput : (c.directories.resolve project).output.Named := (hproject.resolve _).resolve _
    have hkept : ∀ i ∈ p.task.items, j.source ≠ AbsPath.resolve [] i.output.text := by
      intro i hi
      have hnamed := named_output hworld houtput (hitems ▸ hi)
      rw [AbsPath.resolve_text hnamed]
      exact Ne.symm (hfree i hi)
    rw [← hsame]
    exact bytes_foldl m fuel p hkept

def paired : Hub.State Unit Unit where
  registry := ({} : Registry Unit).setTranspiler "md" "html" ()
  world := { entries := [(["src", "html", "a.md"], .file [42]), (["src", "html", "a.md.html"], .file [60])] }
  ext := ()

def stamping : Machine Unit Unit where
  perform _ r := .answer (.output (.str "x") .null) r.compilerOptions r.executerOptions

/--
With the usual directories the sources are kept.
-/
theorem paired_kept : ∃ p f,
    Site.prepare ⟨paired, .ofConfig ⟨{}, Config.Directories.resolve {} [], none⟩ false⟩ = .ok p ∧
    p.run stamping 99 = .ok f ∧ p.task.items.length = 2 ∧
    ∀ j ∈ p.task.items, f.hub.world.bytes? j.source = paired.world.bytes? j.source := by
  have hworld : paired.world.Named := by
    simp only [World.Named, AbsPath.Named, paired, List.forall_mem_cons]
    refine ⟨?_, ?_, nofun⟩ <;> refine ⟨?_, ?_, ?_, nofun⟩ <;> constructor <;> decide
  obtain ⟨p, hprepare, hlength⟩ : ∃ p,
      Site.prepare ⟨paired, .ofConfig ⟨{}, Config.Directories.resolve {} [], none⟩ false⟩ = .ok p ∧
      p.task.items.length = 2 := ⟨_, rfl, by decide +kernel⟩
  have hproject : AbsPath.Named [] := nofun
  obtain ⟨hplaces, f, hrun, hkept⟩ := sources_of_run stamping 99 (c := {}) hworld hproject hprepare
  refine ⟨p, f, hprepare, hrun, hlength, fun j hj => (hkept j hj fun i hi heq => ?_).2⟩
  have hsame := ((hplaces i hi j hj).mp heq).1
  exact absurd hsame (by decide +kernel)

/--
A configuration may have one directory for both, and then a source may be lost.
-/
theorem paired_lost : ∃ c p f i j,
    Config.ofValue (.ofFields [("version", .int 1), ("paths", .ofFields [("output_dir", .str "src")])]) = .ok c ∧
    Site.prepare ⟨paired, .ofConfig ⟨c, c.directories.resolve [], none⟩ false⟩ = .ok p ∧
    p.run stamping 99 = .ok f ∧ i ∈ p.task.items ∧ j ∈ p.task.items ∧ i.output = j.source ∧
    paired.world.bytes? j.source = some [60] ∧ f.hub.world.bytes? j.source = some [120] := by
  refine ⟨_, _, _, itemOf ["src"] ["src"] "html" "a.md", itemOf ["src"] ["src"] "html" "a.md.html",
    rfl, rfl, rfl, ?_, ?_, rfl, rfl, ?_⟩
  · decide +kernel
  · decide +kernel
  · decide +kernel

end Polyglot.Build
