import SheetLint.Program

/-!
# The program on the files of a machine

Everything here reads the surroundings of the program or writes its answer. The part of the disk
that a run can reach is read into a volume first: the directories on the way to the root, the tree
below the root, and whatever the links in it lead to. A link is kept with the place that it leads
to. What cannot be read is left out.
-/

namespace SheetLint

open Text

/-- The part of the disk that is read so far, and the directories whose entries are in it. -/
structure Snapshot where
  volume : Volume
  complete : List String

namespace Snapshot

def start : Snapshot := ⟨.empty, []⟩

/-- The disk's own path of an entry. -/
def onDisk (directory name : String) := ({ root := directory, fileName := name } : IO.FS.DirEntry).path

def pathIn (directory name : String) : Path := Path.join (bytesOf directory) (bytesOf name)

def keep (snapshot : Snapshot) (changed : Option Volume) : Snapshot :=
  { snapshot with volume := changed.getD snapshot.volume }

def addDirectory (snapshot : Snapshot) (path : Path) : Snapshot :=
  snapshot.keep (snapshot.volume.makeDirectory? [] path)

/-- A target that leads nowhere, since no entry has such a name. -/
def nowhere : Path := [0]

/-- What a link stands for: the resolved path, or a target that fails in the same way. -/
def linkTarget (directory name : String) : IO Path := do
  try
    return bytesOf (← IO.FS.realPath (onDisk directory name)).toString
  catch _ =>
    try
      let _ ← (onDisk directory name).metadata
      return nowhere
    catch
    | .noFileOrDirectory .. => return nowhere
    | _ => return bytesOf name

/-- Read one entry, but of a directory only that it is there. The answer is the path of the
directory that the entry is or leads to. -/
def addEntry (snapshot : Snapshot) (directory name : String) : IO (Snapshot × Option String) := do
  try
    let entry := onDisk directory name
    let path := pathIn directory name
    match (← entry.symlinkMetadata).type with
    | .dir => return (snapshot.addDirectory path, some (← IO.FS.realPath entry).toString)
    | .symlink =>
      let target ← linkTarget directory name
      let next := snapshot.keep (snapshot.volume.makeLink? [] path target)
      if ← entry.isDir then return (next, some (shown target))
      else if ← entry.pathExists then
        let content ← IO.FS.readBinFile entry
        return (next.keep (next.volume.write? [] target content.toList), none)
      else return (next, none)
    | _ =>
      let content ← IO.FS.readBinFile entry
      return (snapshot.keep (snapshot.volume.write? [] path content.toList), none)
  catch _ => return (snapshot, none)

/-- Read a directory and all that can be reached from it. -/
partial def addTree (snapshot : Snapshot) (directory : String) : IO Snapshot := do
  if snapshot.complete.contains directory then return snapshot
  let mut snapshot := { snapshot.addDirectory (bytesOf directory) with
    complete := directory :: snapshot.complete }
  let entries ← try (onDisk directory ".").readDir catch _ => pure #[]
  for entry in entries do
    let (next, inside) ← snapshot.addEntry directory entry.fileName
    snapshot := next
    if let some inside := inside then
      snapshot ← snapshot.addTree inside
  return snapshot

/-- Read the entries that a path names one after the other, and the tree that it ends in. -/
def addRoot (snapshot : Snapshot) (base root : String) : IO Snapshot := do
  let mut snapshot := snapshot.addDirectory (bytesOf base)
  let mut directory := some (if root.startsWith "/" then "/" else base)
  for name in (split '/' root.toList).map String.ofList do
    if let some place := directory then
      if name == "" || name == "." then
        pure ()
      else if name == ".." then
        directory ← try pure (some (← IO.FS.realPath (onDisk place name)).toString)
          catch _ => pure none
      else
        let (next, inside) ← snapshot.addEntry place name
        snapshot := next
        directory := inside
  match directory with
  | some place => snapshot.addTree place
  | none => return snapshot

end Snapshot

/-- Whether standard output is to be coloured. -/
def wantsColour : IO Bool := do
  if (← IO.getEnv "CLICOLOR_FORCE").any (· != "0") then return true
  if (← IO.getEnv "NO_COLOR").isSome then return false
  if (← IO.getEnv "CLICOLOR") == some "0" then return false
  (← IO.getStdout).isTty

def readSurroundings (arguments : List String) : IO Surroundings := do
  let base := (← IO.currentDir).toString
  let volume ← match Options.ofArguments arguments with
    | .ok options =>
      let root := shown options.config.root
      pure (← Snapshot.start.addRoot base root).volume
    | .error _ => pure .empty
  return {
    volume
    base := (Path.names (bytesOf base)).filter (· ≠ []) |>.reverse
    coloured := ← wantsColour
    logLevel := (← IO.getEnv "RUST_LOG").bind LogLevel.ofName? }

end SheetLint

def main (arguments : List String) : IO UInt32 := do
  let out := SheetLint.runProgram arguments (← SheetLint.readSurroundings arguments)
  IO.print out.stdout
  IO.eprint out.stderr
  return UInt32.ofNat out.status
