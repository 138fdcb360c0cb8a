import Polyglot.Cli.Session

/-!
The program: it reads the files around the current directory, runs one command line over them, and
writes the files that have changed. Directories whose name starts with a dot are left alone.
-/

namespace Polyglot

/--
The entries at and below an entry of a directory. What cannot be read is left out.
-/
partial def entriesBelow (path : AbsPath) (e : IO.FS.DirEntry) : IO (List (AbsPath × Entry)) := do
  if e.fileName.startsWith "." then return []
  let path := path ++ [e.fileName]
  try
    if ← e.path.isDir then
      let mut found := [(path, Entry.directory)]
      for below in ← e.path.readDir do
        found := found ++ (← entriesBelow path below)
      return found
    else
      let bytes ← IO.FS.readBinFile e.path
      return [(path, .file bytes.toList)]
  catch _ => return []

/--
The entries below the project of a directory. The directory itself is there in any case.
-/
def readWorld (current : AbsPath) : IO World := do
  let here ← IO.currentDir
  let mut project := current
  for k in List.range (current.length + 1) do
    let above : AbsPath := current.take k
    let path := here / (above.text ++ "/")
    let marked ← (path / "pyproject.toml").pathExists
    if marked || (← (path / "configs" / "preos").isDir) then project := above
  let mut entries := [(current, Entry.directory)]
  for e in ← (here / (project.text ++ "/")).readDir do
    entries := entries ++ (← entriesBelow project e)
  return { entries, current }

def writeChanges (before after : World) : IO Unit := do
  let here ← IO.currentDir
  for (path, entry) in after.entries do
    match entry with
    | .directory =>
      unless before.isDirectory path do IO.FS.createDirAll (here / path.text)
    | .file bytes =>
      unless before.bytes? path == some bytes do
        IO.FS.createDirAll (here / path.parent.text)
        IO.FS.writeBinFile (here / path.text) (ByteArray.mk bytes.toArray)

end Polyglot

open Polyglot in
def main (args : List String) : IO UInt32 := do
  let current := AbsPath.resolve [] (← IO.currentDir).toString
  let world ← readWorld current
  let (session, status) := Cli.Session.run { world } args
  writeChanges world session.world
  (← IO.getStdout).putStr session.out
  (← IO.getStderr).putStr session.err
  return status.toUInt32
