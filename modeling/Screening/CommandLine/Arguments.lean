/-!
# The arguments of the command line

Three commands, each with one path and some options:

* `inspect FILE [--json] [--rows N] [--cols N]`
* `convert DIR [--no-write]`
* `records FILE [--limit N] [--hex N]`

`-v` or `--verbose` may stand anywhere, and `--help` too.  An option that takes a number takes it
as the next argument or behind an equals sign; an option is given at most once; `--` makes a path
of whatever follows.

Arguments are read from the left, and the first that does not fit decides.
-/

set_option autoImplicit false

namespace Screening.CommandLine

/-- What is to be done. -/
inductive Command where
  /-- Show one file, as a report or as JSON. -/
  | inspect (file : String) (json : Bool) (rows cols : Nat)
  /-- Decode a directory, writing reports or not. -/
  | convert (directory : String) (writeReports : Bool)
  /-- List the records of any file. -/
  | records (file : String) (limit : Option Nat) (hex : Nat)
  deriving DecidableEq, Repr

/-- What arguments ask for. -/
inductive Request where
  /-- To do something, with all notes shown or only the important ones. -/
  | run (command : Command) (verbose : Bool)
  /-- To explain the usage. -/
  | help
  /-- To show the version. -/
  | version
  /-- Nothing that could be done. -/
  | misuse
  deriving DecidableEq, Repr

/-! ## Options -/

/-- The commands by name. -/
inductive Verb where
  /-- Show one file. -/
  | inspect
  /-- Decode a directory. -/
  | convert
  /-- List records. -/
  | records
  deriving DecidableEq, Repr

/-- The command of a name. -/
def Verb.ofName? : String → Option Verb
  | "inspect" => some .inspect
  | "convert" => some .convert
  | "records" => some .records
  | _ => none

/-- The options of a command that take nothing. -/
def Verb.flags : Verb → List String
  | .inspect => ["json"]
  | .convert => ["no-write"]
  | .records => []

/-- The options of a command that take a number. -/
def Verb.numbers : Verb → List String
  | .inspect => ["rows", "cols"]
  | .convert => []
  | .records => ["limit", "hex"]

/-- What was given to a command so far. -/
structure Given where
  /-- The path. -/
  path : Option String
  /-- The options that take nothing. -/
  flags : List String
  /-- The options that take a number, with their numbers. -/
  numbers : List (String × Nat)
  deriving DecidableEq, Repr

/-- Nothing was given yet. -/
def Given.nothing : Given := ⟨none, [], []⟩

/-- The bound of the numbers that options take. -/
def numberLimit : Nat := UInt64.size

/-- The number that an argument spells: digits, with a plus sign in front or without. -/
def number? (argument : String) : Option Nat :=
  let digits := match argument.toList with
    | '+' :: rest => rest
    | all => all
  let n := digits.foldl (fun n digit => 10 * n + (digit.toNat - '0'.toNat)) 0
  if !digits.isEmpty && digits.all Char.isDigit && n < numberLimit then some n else none

/-- Adds the path, if there is none yet; the empty path is none. -/
def Given.addPath? (given : Given) (path : String) : Option Given :=
  if given.path.isNone ∧ path ≠ "" then some { given with path := some path } else none

/-- Adds an option that takes nothing, if it was not given yet. -/
def Given.addFlag? (given : Given) (name : String) : Option Given :=
  if name ∈ given.flags then none else some { given with flags := name :: given.flags }

/-- Adds an option with its number, if it was not given yet. -/
def Given.addNumber? (given : Given) (name argument : String) : Option Given := do
  let n ← number? argument
  if (given.numbers.lookup name).isSome then none
  else some { given with numbers := (name, n) :: given.numbers }

/-- What an argument is, by the way it begins. -/
inductive Shape where
  /-- Two dashes alone. -/
  | separator
  /-- A name behind two dashes, and what stands behind an equals sign. -/
  | long (name : String) (value : Option String)
  /-- Letters behind one dash. -/
  | short (letters : List Char)
  /-- Anything else. -/
  | plain
  deriving DecidableEq, Repr

/-- What an argument is; a dash alone is a path. -/
def Shape.of (argument : String) : Shape :=
  match argument.toList with
  | ['-', '-'] => .separator
  | '-' :: '-' :: rest =>
    let name := String.ofList (rest.takeWhile (· ≠ '='))
    match rest.dropWhile (· ≠ '=') with
    | _ :: value => .long name (some (String.ofList value))
    | [] => .long name none
  | '-' :: letter :: letters => .short (letter :: letters)
  | _ => .plain

/-! ## Reading the arguments -/

/-- The command that was given, if it has its path. -/
def Verb.command? (verb : Verb) (given : Given) : Option Command := do
  let path ← given.path
  let number (name : String) (otherwise : Nat) := (given.numbers.lookup name).getD otherwise
  match verb with
  | .inspect =>
    return .inspect path (given.flags.contains "json") (number "rows" 5) (number "cols" 5)
  | .convert => return .convert path (!given.flags.contains "no-write")
  | .records => return .records path (given.numbers.lookup "limit") (number "hex" 16)

/-- The request of a command once all its arguments are read. -/
def finish (verb : Verb) (given : Given) (verbose : Bool) : Request :=
  match verb.command? given with
  | some command => .run command (verbose || given.flags.contains "verbose")
  | none => .misuse

/-- Letters behind one dash: the one for more notes, at most once, the one for help, and in front of
the command the one for the version. -/
def shortFlags (inFront : Bool) (flags : List String) : List Char → Except Request (List String)
  | [] => .ok flags
  | 'v' :: letters =>
    if "verbose" ∈ flags then .error .misuse else shortFlags inFront ("verbose" :: flags) letters
  | 'h' :: _ => .error .help
  | 'V' :: _ => .error (if inFront then .version else .misuse)
  | _ => .error .misuse

/-- Reads what follows two dashes: paths and nothing else. -/
def readPaths (verb : Verb) (verbose : Bool) : Given → List String → Request
  | given, [] => finish verb given verbose
  | given, path :: rest =>
    match given.addPath? path with
    | some given => readPaths verb verbose given rest
    | none => .misuse

/-- Reads the arguments of a command. -/
def readCommand (verb : Verb) (verbose : Bool) : Given → List String → Request
  | given, [] => finish verb given verbose
  | given, argument :: rest =>
    match Shape.of argument with
    | .separator => readPaths verb verbose given rest
    | .plain =>
      match given.addPath? argument with
      | some given => readCommand verb verbose given rest
      | none => .misuse
    | .short letters =>
      match shortFlags false given.flags letters with
      | .ok flags => readCommand verb verbose { given with flags } rest
      | .error request => request
    | .long name value =>
      if name = "help" then
        if value.isNone then .help else .misuse
      else if name ∈ "verbose" :: verb.flags then
        match value, given.addFlag? name with
        | none, some given => readCommand verb verbose given rest
        | _, _ => .misuse
      else if name ∈ verb.numbers then
        match value, rest with
        | some value, rest =>
          match given.addNumber? name value with
          | some given => readCommand verb verbose given rest
          | none => .misuse
        | none, next :: rest =>
          match given.addNumber? name next with
          | some given => readCommand verb verbose given rest
          | none => .misuse
        | none, [] => .misuse
      else .misuse

/-- Reads the name of a command that is to be explained. -/
def readHelp : List String → Request
  | [] => .help
  | [name] => if (Verb.ofName? name).isSome || name = "help" then .help else .misuse
  | _ => .misuse

/-- Reads arguments from the first one. -/
def readFrom (flags : List String) : List String → Request
  | [] => .misuse
  | argument :: rest =>
    match Shape.of argument with
    | .separator => .misuse
    | .short letters =>
      match shortFlags true flags letters with
      | .ok flags => readFrom flags rest
      | .error request => request
    | .long "help" none => .help
    | .long "version" none => .version
    | .long "verbose" none =>
      if "verbose" ∈ flags then .misuse else readFrom ("verbose" :: flags) rest
    | .long .. => .misuse
    | .plain =>
      match Verb.ofName? argument with
      | some verb => readCommand verb (!flags.isEmpty) .nothing rest
      | none => if argument = "help" then readHelp rest else .misuse

/-- What the arguments of the program ask for. -/
def Request.ofArguments (arguments : List String) : Request := readFrom [] arguments

end Screening.CommandLine
