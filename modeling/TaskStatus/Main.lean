import TaskStatus.Run

/-!
# The command line

Gathers what a run is given from the operating system and carries out what it says. The
file system is asked about one directory: what is in it, what its entries are, and the
content of the backup that is the latest of them.
-/

namespace TaskStatus.Main

/-- The number of a failure of the operating system, and the words that come with it. -/
def numbered? : IO.Error → Option (UInt32 × String)
  | .alreadyExists _ code details | .otherError code details | .resourceBusy code details
  | .resourceVanished code details | .unsupportedOperation code details
  | .hardwareFault code details | .unsatisfiedConstraints code details
  | .illegalOperation code details | .protocolError code details | .timeExpired code details
  | .interrupted _ code details | .noFileOrDirectory _ code details
  | .invalidArgument _ code details | .permissionDenied _ code details
  | .resourceExhausted _ code details | .inappropriateType _ code details
  | .noSuchThing _ code details => some (code, details)
  | .unexpectedEof | .userError _ => none

/-- A failure of the operating system, told by its number, which some requests give negated. The
words that come with it count only where there are none of the system's own. -/
def ioError (e : IO.Error) : IoError :=
  match numbered? e with
  | none => .other (toString e)
  | some (code, details) =>
    let number := min code.toNat (0 - code).toNat
    match number with
    | 2 => .notFound
    | 5 => .inputOutput
    | 13 => .permissionDenied
    | 20 => .notADirectory
    | 21 => .isADirectory
    | 28 => .noSpace
    | 36 => .nameTooLong
    | 40 => .tooManyLinks
    | _ => .other s!"{details} (os error {number})"

/-- The result of an action, or why it failed. -/
def attempt {α : Type} (action : IO α) : IO (Except IoError α) := do
  try
    return .ok (← action)
  catch e =>
    return .error (ioError e)

/-- The text of a path; only such paths can be handed to the operating system. -/
def pathText (p : Path) : String := p.bytes.text?.getD p.display

/-- The names of the entries of a directory. -/
def listDirectory (p : Path) : IO (List Name) := do
  let entries ← ((← IO.currentDir) / pathText p).readDir
  return entries.toList.filterMap fun e ↦
    let b := Bytes.ofText e.fileName
    if h : IsName b then some ⟨b, h⟩ else none

/-- What a path leads to. -/
def examine (p : Path) : IO Metadata := do
  let m ← ((← IO.currentDir) / pathText p).metadata
  match m.type with
  | .file =>
    let nanos := m.modified.nsec.toNat
    if h : nanos < 1000000000 then return .file ⟨m.modified.sec, nanos, h⟩ else return .other
  | _ => return .other

/-- The content of a file. -/
def content (p : Path) : IO Bytes := do
  return (← IO.FS.readBinFile (pathText p)).data.toList

/-- The answers of the file system on a directory, its entries and its latest backup. -/
def snapshot (dir : Path) : IO FileSystem := do
  let names ← attempt (listDirectory dir)
  let paths := (names.toOption.getD []).map dir.join
  let examined ← paths.mapM fun p ↦ return (p, ← attempt (examine p))
  let known : FileSystem := {
    list := fun _ ↦ names
    stat := fun p ↦ (examined.lookup p).getD (.error .notFound)
    read := fun _ ↦ .error .notFound }
  match Backup.locate known dir with
  | none => return known
  | some b =>
    let bytes ← attempt (content b.path)
    return { known with read := fun _ ↦ bytes }

/-- The answers of a file system in which nothing is looked for. -/
def nothing : FileSystem where
  list _ := .error .notFound
  stat _ := .error .notFound
  read _ := .error .notFound

/-- The directory that a run looks into. -/
def directory (environment : Environment) (args : List Bytes) : Option Path :=
  match Request.parse args with
  | .status o => environment.backupDirectory o.directory
  | .unclear => environment.defaultDirectory
  | .help | .version => none

/-- Runs the program and gives its exit status. If nothing can be written to standard
output, it is a run in which that is so. -/
def execute (args : List Bytes) : IO UInt32 := do
  let environment : Environment := {
    home := (← IO.getEnv "HOME").map Bytes.ofText
    userProfile := (← IO.getEnv "USERPROFILE").map Bytes.ofText }
  let files ← match directory environment args with
    | some dir => snapshot dir
    | none => pure nothing
  let setting : Setting := { environment, files }
  let stdout ← IO.getStdout
  let written ← attempt do
    stdout.putStr (setting.run args).output
    stdout.flush
  let outcome := match written with
    | .ok () => setting.run args
    | .error e => { setting with fault := some e }.run args
  outcome.log.forM fun e ↦ IO.eprintln e.line
  return outcome.exitCode.toUInt32

end TaskStatus.Main

/-- The program. -/
def main (args : List String) : IO UInt32 :=
  TaskStatus.Main.execute (args.map TaskStatus.Bytes.ofText)
