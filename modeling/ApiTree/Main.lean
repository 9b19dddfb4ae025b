import ApiTree.Command.Run

/-!
# The program

Runs a command line in the working directory. What the command can read is read before it runs, and
what it has written is written after it has ended; the command itself works on a disk that is a value.
-/

set_option autoImplicit false

namespace ApiTree.Program

/-- A location as the file system writes it. -/
def textOf (location : List String) : String := "/" ++ String.intercalate "/" location

/-- What stands at a location; a link is what it leads to. -/
def entryAt? (location : List String) : IO (Option DiskEntry) := do
  let path := (← IO.currentDir) / textOf location
  if ← path.isDir then return some .directory
  try return some (.file (← IO.FS.readBinFile path))
  catch _ => return none

/-- The disk with what stands at a location. -/
def look (disk : Disk) (location : List String) : IO Disk := do
  match ← entryAt? location with
  | some entry => return { disk with entries := Entries.put location entry disk.entries }
  | none => return disk

/-- The disk with what stands at the locations that a path passes, and the last of them. -/
def approach (disk : Disk) (path : FilePath) : IO (Disk × List String) := do
  let mut location := if path.anchor = .relative then disk.home else []
  let mut disk := disk
  for name in path.segments do
    location := if name = ".." then location.dropLast else location ++ [name]
    disk ← look disk location
  return (disk, location)

/-- The disk with the directories and the files of a tree below a location. Directories behind links
are not entered. -/
partial def lookBelow (disk : Disk) (location : List String) : IO Disk := do
  let directory := (← IO.currentDir) / textOf location
  let mut disk := disk
  for item in ← directory.readDir do
    let inner := location ++ [item.fileName]
    if ← item.path.isDir then
      disk ← look disk inner
      unless (← item.path.symlinkMetadata).type matches .symlink do
        disk ← lookBelow disk inner
    else if Text.endsWith item.fileName ".yml" then
      disk ← look disk inner
  return disk

/-- The disk with the tree at a path, if a directory stands there. -/
def lookAround (disk : Disk) (path : FilePath) : IO Disk := do
  let (disk, location) ← approach disk path
  if ← ((← IO.currentDir) / textOf location).isDir then lookBelow disk location else return disk

/-- The disk as far as a command can read it: the project file, the tree and the directory of the
documents. -/
def snapshot (args : List String) (environment : Environment) : IO Disk := do
  let disk := Disk.empty (FilePath.ofText (← IO.currentDir).toString).segments
  match Command.Request.ofArguments args with
  | .perform common action =>
    let (disk, _) ← approach disk (Settings.usualFile disk)
    let (disk, _) ← approach disk (FilePath.ofText (common.config.getD "."))
    match Command.settingsOf disk environment common action with
    | .ok settings => lookAround (← lookAround disk settings.root) settings.outputDir
    | .error _ => return disk
  | _ => return disk

/-- Write a file. It is complete from the moment it has its name. -/
def writeFile (location : List String) (content : ByteArray) : IO Unit := do
  let directory := location.dropLast
  IO.FS.createDirAll (textOf directory)
  let draft := textOf (directory ++ ["." ++ location.getLast?.getD "" ++ ".tmp"])
  IO.FS.writeBinFile draft content
  IO.FS.rename draft (textOf location)

/-- Write the files that are new or changed. -/
def save (before after : Disk) : IO Unit := do
  for (location, entry) in after.entries do
    match entry with
    | .file content =>
      unless (Entries.get? location before.entries).any (·.holds content) do
        writeFile location content
    | .directory => pure ()

/-- The variables of the environment that commands look at. -/
def readEnvironment : IO Environment := do
  let mut environment := []
  for name in Settings.variableNames.map Prod.fst ++ ["NO_COLOR", "TERM"] do
    if let some text ← IO.getEnv name then environment := environment ++ [(name, text)]
  return environment

end ApiTree.Program

/-- Run the command that the arguments write. -/
def main (args : List String) : IO UInt32 := do
  let environment ← ApiTree.Program.readEnvironment
  let disk ← ApiTree.Program.snapshot args environment
  let stdout ← IO.getStdout
  let outcome := ApiTree.Command.run args environment (← stdout.isTty) disk
  ApiTree.Program.save disk outcome.disk
  stdout.putStr outcome.stdout
  (← IO.getStderr).putStr outcome.stderr
  return UInt32.ofNat outcome.exitCode.toNat
