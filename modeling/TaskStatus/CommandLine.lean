import TaskStatus.Path.Basic
import TaskStatus.Report

/-!
# The command line

The arguments are bytes. One by one they are told apart by what they look like, and then
gathered into options from first to last: the mode and the directory may be chosen once,
diagnostics may be asked for any number of times, and nothing may follow two dashes. The
first argument that asks for help or for the version is obeyed, unless something before it
was wrong.

An argument list that is wrong is not refused: `Options.fallback` says what is done then.

Help and version are texts that are shown instead of the status. The version names the
release and the stamp of the build.
-/

namespace TaskStatus

/-- What is asked for on the command line. -/
structure Options where
  /-- Write an object for Waybar. -/
  waybar : Bool := false
  /-- Look for backups in this directory. -/
  directory : Option Path := none
  /-- How much to tell on standard error. -/
  verbosity : Nat := 0
  deriving DecidableEq

namespace Options

/-- How the status is written. -/
def mode (o : Options) : Mode := if o.waybar then .waybar else .text

end Options

/-- What one argument looks like. -/
inductive Argument where
  /-- The flag for Waybar. -/
  | waybar
  /-- Flags for diagnostics, and how many. -/
  | verbose (count : Nat)
  /-- A directory. -/
  | directory (d : Bytes)
  /-- The next argument is a directory. -/
  | directoryNext
  /-- Help is asked for. -/
  | help
  /-- The version is asked for. -/
  | version
  /-- No flag follows. -/
  | stop
  /-- None of these. -/
  | unknown
  deriving DecidableEq

namespace Argument

/-- The byte of a dash. -/
def dash : UInt8 := 0x2D

/-- The letter for diagnostics. -/
def verboseLetter : UInt8 := 0x76

/-- The letter for help. -/
def helpLetter : UInt8 := 0x68

/-- The letter for the version. -/
def versionLetter : UInt8 := 0x56

/-- The flag for Waybar. -/
def waybarFlag : Bytes := Bytes.ofText "--waybar"

/-- The long flag for diagnostics. -/
def verboseFlag : Bytes := Bytes.ofText "--verbose"

/-- The flag before a directory. -/
def directoryFlag : Bytes := Bytes.ofText "--backup-dir"

/-- The flag with the sign `=`, which attaches a directory to it. -/
def attachedFlag : Bytes := directoryFlag ++ [0x3D]

/-- The long flag for help. -/
def helpFlag : Bytes := Bytes.ofText "--help"

/-- The long flag for the version. -/
def versionFlag : Bytes := Bytes.ofText "--version"

/-- What the letters behind a dash ask for, after some that asked for diagnostics. A letter
for help or for the version counts at once, whatever follows it. -/
def ofLetters (count : Nat) : Bytes → Argument
  | [] => if count = 0 then .unknown else .verbose count
  | b :: bs =>
    if b = verboseLetter then ofLetters (count + 1) bs
    else if b = helpLetter then .help
    else if b = versionLetter then .version
    else .unknown

/-- What an argument looks like. -/
def ofBytes (a : Bytes) : Argument :=
  if a = waybarFlag then .waybar
  else if a = verboseFlag then .verbose 1
  else if a = directoryFlag then .directoryNext
  else if a = helpFlag then .help
  else if a = versionFlag then .version
  else if a = [dash, dash] then .stop
  else
    match attachedFlag.isPrefixOf? a with
    | some [] => .unknown
    | some d => .directory d
    | none =>
      match a with
      | b :: letters => if b = dash then ofLetters 0 letters else .unknown
      | [] => .unknown

/-- Whether an argument can be the directory that the one before it announces: it must not
be empty and must not look like a flag; a single dash does not. -/
def isValue (a : Bytes) : Bool := a = [dash] || (a ≠ [] && a.head? ≠ some dash)

end Argument

/-- What the arguments ask for. -/
inductive Request where
  /-- Report the status. -/
  | status (o : Options)
  /-- Show the help. -/
  | help
  /-- Show the version. -/
  | version
  /-- They cannot be understood. -/
  | unclear
  deriving DecidableEq

namespace Request

/-- The greatest verbosity that is counted. -/
def maxVerbosity : Nat := 255

/-- What some arguments ask for that follow others. -/
def ofArguments (o : Options) : List Bytes → Request
  | [] => .status o
  | a :: rest =>
    match Argument.ofBytes a with
    | .waybar => if o.waybar then .unclear else ofArguments { o with waybar := true } rest
    | .verbose n =>
      ofArguments { o with verbosity := min maxVerbosity (o.verbosity + n) } rest
    | .directory d =>
      if o.directory.isSome then .unclear else ofArguments { o with directory := some ⟨d⟩ } rest
    | .directoryNext =>
      match rest with
      | d :: rest =>
        if o.directory.isSome ∨ ¬ Argument.isValue d then .unclear
        else ofArguments { o with directory := some ⟨d⟩ } rest
      | [] => .unclear
    | .help => .help
    | .version => .version
    | .stop => if rest = [] then .status o else .unclear
    | .unknown => .unclear

/-- What the arguments ask for. -/
def parse (args : List Bytes) : Request := ofArguments {} args

end Request

/-- The options that stand in for an argument list that cannot be understood: only a first
argument that is exactly the flag for Waybar counts. There are none if the first argument is
not text. -/
def Options.fallback (args : List Bytes) : Option Options :=
  match args with
  | [] => some {}
  | a :: _ => if a.text?.isSome then some { waybar := a = Argument.waybarFlag } else none

/-! ### Help and version -/

/-- The lines of the help. -/
def helpLines : List String := [
  "Print the active Super Productivity task from its latest backup",
  "",
  "Usage: sp-status [OPTIONS]",
  "",
  "Options:",
  "      --waybar            Emit a Waybar JSON object instead of plain text",
  "      --backup-dir <DIR>  Read backups from DIR instead of ~/.config/superProductivity/backups",
  "  -v, --verbose...        Log diagnostics to stderr (-v debug, -vv trace)",
  "  -h, --help              Print help",
  "  -V, --version           Print version"]

/-- The help. -/
def helpText : String := String.join (helpLines.map (· ++ "\n"))

/-- The release of the program. -/
def release : String := "0.1.0"

/-- The version of a program whose build was stamped. -/
def versionText (stamp : String) : String := "sp-status " ++ release ++ "+git." ++ stamp ++ "\n"

end TaskStatus
