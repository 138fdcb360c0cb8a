import Polyglot.Config.File
import Polyglot.Proofs.Config.Reader

/-!
Loading configurations. Whatever a file holds, it is well-formed and gives a configuration that can be used, or
what is wrong with it is told, but for a few faults of files, paths and numbers, which come out as they are.
-/

namespace Polyglot.Config

section Texts

structure Writes (s : String) (c : Config) : Prop where
  describes : ∃ es, parse s = .ok (.map es) ∧ Describes es c
  sound : c.Sound

variable {s : String} {c : Config} {e : ConfigError}

end Texts

section Files

/--
Where the file of a configuration is looked for: there is a place for each name that is not blank, as long as
no null character makes it none.
-/
inductive Sought (project : AbsPath) (root : String) : Value → AbsPath → Prop where
  | mk {s : String} (hs : ¬ Text.allBlank s.toList) (hroot : ¬ holdsNul root) (hname : ¬ holdsNul s) :
      Sought project root (.str s) ((project.resolve root).resolve (s ++ ".json"))

/--
The text of a file that can be read.
-/
inductive Holds (w : World) (p : AbsPath) : String → Prop where
  | mk {bytes : List UInt8} {cs : List Char} (hshort : ¬ w.isTooLong p) (hbytes : w.bytes? p = some bytes)
      (hcs : Text.Utf8.decode? bytes = some cs) : Holds w p (String.ofList (Text.unixLines cs))

def Directories.HoldNul (d : Directories) : Prop :=
  holdsNul d.root ∨ holdsNul d.source ∨ holdsNul d.output

/--
What a configuration is loaded from: the default one from nothing, any other from what the file of its name says.
-/
inductive Loads (w : World) (project : AbsPath) (root : String) : Value → Loaded → Prop where
  | default : Loads w project root .null ⟨{}, ({} : Directories).resolve project, none⟩
  | file {name : Value} {p : AbsPath} {s : String} {c : Config} (hsought : Sought project root name p)
      (hholds : Holds w p s) (hwrites : Writes s c) (hnul : ¬ c.directories.HoldNul) :
      Loads w project root name ⟨c, c.directories.resolve project, some p⟩

variable {w : World} {project p : AbsPath} {root s : String} {name : Value} {e : ConfigError}

theorem sound_default : ({} : Config).Sound :=
  have h : ofValue (.map [(.str "version", .int 1)]) = .ok {} := rfl
  sound_of_ofValue h

theorem Sought.unique {q : AbsPath} (h : Sought project root name p) (h' : Sought project root name q) :
    p = q := by
  cases h
  cases h'
  rfl

theorem Holds.unique {s' : String} (h : Holds w p s) (h' : Holds w p s') : s = s' := by
  obtain ⟨-, hbytes, hcs⟩ := h
  obtain ⟨-, hbytes', hcs'⟩ := h'
  obtain rfl := Option.some.inj (hbytes.symm.trans hbytes')
  obtain rfl := Option.some.inj (hcs.symm.trans hcs')
  rfl

theorem Loads.written {l : Loaded} (h : Loads w project root name l) (hsought : Sought project root name p) :
    ∃ s, Holds w p s ∧ Writes s l.config := by
  cases h with
  | default => cases hsought
  | file hsought' hholds hwrites _ =>
    obtain rfl := hsought'.unique hsought
    exact ⟨_, hholds, hwrites⟩

theorem Loads.sound {l : Loaded} (h : Loads w project root name l) : l.config.Sound := by
  cases h with
  | default => exact sound_default
  | file _ _ hwrites _ => exact hwrites.sound

example : load { entries := [(["p", "configs", "c.json"], .file [0xff])] } ["p"] "configs" (.str "c") =
    .error .notUtf8 := by rfl

end Files

end Polyglot.Config
