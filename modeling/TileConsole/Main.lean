import TileConsole.Command.Build
import TileConsole.Command.Play

namespace TileConsole

-- A path as the operating system takes it. Arguments are valid texts.
def systemPath (path : Text) : String :=
  path.toString?.getD ""

-- What the operating system has under a path. What exists but cannot be read is
-- taken for a directory.
def entry? (path : Text) : IO (Option StorageEntry) := do
  try
    return some (.file (← IO.FS.readBinFile (systemPath path)).toList)
  catch _ =>
    try
      discard (IO.FS.realPath (systemPath path))
      return some .directory
    catch _ => return none

def addEntry (storage : Storage) (path : Text) : IO Storage := do
  match ← entry? path with
  | some entry => return storage.install path entry
  | none => return storage

-- Adds what the operating system has under a path and on the way to it.
def addPath (storage : Storage) (path : Text) : IO Storage := do
  (Path.ofText path).stages.foldlM addEntry storage

-- Writes the files that a command changed.
def writeChanges (before after : Storage) (paths : List Text) : IO Unit :=
  paths.forM fun path => do
    let changed := after.find? path
    if changed != before.find? path then
      match changed with
      | some (.file content) => IO.FS.writeBinFile (systemPath path) ⟨content.toArray⟩
      | _ => pure ()

-- Shows what a command printed and reported, and leaves its files on disk.
def finish (before : Storage) (paths : List Text) (outcome : Outcome) : IO UInt32 := do
  writeChanges before outcome.storage paths
  (← IO.getStdout).write ⟨outcome.output.toBytes.toArray⟩
  (← IO.getStderr).write ⟨outcome.report.toBytes.toArray⟩
  return UInt32.ofNat outcome.status

def runBuild (arguments : List Text) : IO UInt32 := do
  let paths := BuildCommand.paths arguments
  let storage ← paths.foldlM addPath .empty
  finish storage paths (BuildCommand.run "birthasm" arguments storage)

def runPlay (arguments : List Text) : IO UInt32 := do
  let paths := PlayCommand.paths arguments
  let storage ← paths.foldlM addPath .empty
  finish storage paths (PlayCommand.run "birth" arguments storage).outcome

end TileConsole

open TileConsole

-- The first argument names the command: `birthasm` builds a cartridge and
-- `birth` plays one.
def main (arguments : List String) : IO UInt32 := do
  match arguments with
  | "birthasm" :: rest => runBuild (rest.map Text.ofString)
  | "birth" :: rest => runPlay (rest.map Text.ofString)
  | _ =>
    IO.eprintln "usage: birthasm arguments, or birth arguments"
    return 2
