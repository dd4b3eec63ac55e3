import Quill.Program
import Quill.Text.Escaped
import Quill.Tree.Text

/-!
# The command line

The arguments are read first, and either they ask for one thing or they are
refused; only then is a file read, at most one. What a command does is a report:
the exit code and the two output texts.
-/

namespace Quill

/-- What the arguments ask for. -/
inductive Invocation where
  | usage
  | version
  | run (path : String) (limit : Option Nat)
  | lex (path : String)
  | parse (path : String)
  deriving DecidableEq, Repr

/-- Why arguments are refused. -/
inductive UsageError where
  /-- The value of a depth option of `run` is no number. -/
  | badDepth (value : String)
  | unknownRunOption (arg : String)
  | secondPath (arg : String)
  | missingPath
  | missingLexPath
  | missingParsePath
  /-- The first argument is an option that there is not. -/
  | unknownOption (arg : String)
  /-- Something follows the path of a program. -/
  | extraArgument (arg : String)
  deriving DecidableEq, Repr

/-- Why a file cannot be read. -/
inductive ReadFailure where
  | notFound
  | denied
  | notUtf8
  /-- Any other reason, with its number and its words in the operating
  system. -/
  | system (code : Nat) (reason : String)
  deriving DecidableEq, Repr

/-- What a command leaves. -/
structure Report where
  exit : Nat
  stdout : String
  stderr : String
  deriving DecidableEq, Repr

/-- The help text, line by line. -/
def usageLines : List String :=
  ["Quill interpreter",
    "",
    "Usage: quill <command> [options]",
    "       quill <file>",
    "",
    "Commands:",
    "  run <file>       Run a Quill program",
    "  lex <file>       Tokenize and display tokens",
    "  parse <file>     Parse and display top-level statements",
    "  help             Show this help message",
    "  version          Show version information",
    "",
    "Run options:",
    "  --max-depth=N    Fail once user function calls nest deeper than N",
    "",
    "Environment:",
    "  RUST_LOG         Enable diagnostic logging (e.g. RUST_LOG=quill_eval=debug)"]

def usageText : String :=
  String.join (usageLines.map (· ++ "\n"))

namespace Report

def success (stdout : String) : Report :=
  ⟨0, stdout, ""⟩

def failure (stderr : String) : Report :=
  ⟨1, "", stderr⟩

end Report

/-- The argument is written like an option. -/
def isOption (arg : String) : Bool :=
  arg.toList.head? = some '-'

/-- The value of a depth option, if the argument is one. -/
def depthOption? (arg : String) : Option String :=
  let option := "--max-depth=".toList
  if option.isPrefixOf arg.toList then
    some (String.ofList (arg.toList.drop option.length))
  else none

/-- Reads a depth: a number below `2 ^ 64`. -/
def depth? (value : String) : Option Nat :=
  (Decimal.natural? value).filter (· < 0x10000000000000000)

/-- Reads the arguments of `run` from left to right, after a path and a limit
that are read already. The first argument that does not fit is refused. -/
def runArgs (path : Option String) (limit : Option Nat) :
    List String → Except UsageError Invocation
  | [] =>
    match path with
    | some path => .ok (.run path limit)
    | none => .error .missingPath
  | arg :: args =>
    match depthOption? arg with
    | some value =>
      match depth? value with
      | some depth => runArgs path (some depth) args
      | none => .error (.badDepth value)
    | none =>
      if isOption arg then .error (.unknownRunOption arg)
      else
        match path with
        | none => runArgs (some arg) limit args
        | some _ => .error (.secondPath arg)

/-- Reads the arguments of the command line. Words that are no command name a
program. -/
def Invocation.ofArgs : List String → Except UsageError Invocation
  | [] => .ok .usage
  | command :: args =>
    match command with
    | "run" => runArgs none none args
    | "lex" =>
      match args with
      | [] => .error .missingLexPath
      | path :: _ => .ok (.lex path)
    | "parse" =>
      match args with
      | [] => .error .missingParsePath
      | path :: _ => .ok (.parse path)
    | "help" | "--help" | "-h" => .ok .usage
    | "version" | "--version" | "-V" => .ok .version
    | _ =>
      if isOption command then .error (.unknownOption command)
      else
        match args with
        | [] => .ok (.run command none)
        | arg :: _ => .error (.extraArgument arg)

def UsageError.report : UsageError → Report
  | .badDepth value =>
    .failure ("error: invalid --max-depth value '" ++ value ++ "'\n")
  | .unknownRunOption arg =>
    .failure ("error: unknown option '" ++ arg ++ "'\n")
  | .secondPath arg =>
    .failure ("error: unexpected argument '" ++ arg ++
      "'\nUsage: quill run <file> [--max-depth=N]\n")
  | .missingPath =>
    .failure
      "error: missing file path\nUsage: quill run <file> [--max-depth=N]\n"
  | .missingLexPath => .failure "Usage: quill lex <file>\n"
  | .missingParsePath => .failure "Usage: quill parse <file>\n"
  | .unknownOption arg => ⟨1, usageText, "Unknown option: " ++ arg ++ "\n\n"⟩
  | .extraArgument arg =>
    .failure ("error: unexpected argument '" ++ arg ++
      "'\nUsage: quill <file>\n")

/-- Why the file at `path` cannot be read, in words. -/
def ReadFailure.message (path : String) : ReadFailure → String
  | .notFound => "cannot find file '" ++ path ++ "'"
  | .denied => "permission denied reading '" ++ path ++ "'"
  | .notUtf8 => "'" ++ path ++ "' is not valid UTF-8"
  | .system code reason =>
    "error reading '" ++ path ++ "': " ++ reason ++ " (os error " ++
      code.repr ++ ")"

def Diagnostic.report (d : Diagnostic) (stdout : String) : Report :=
  ⟨1, stdout, d.text ++ "\n"⟩

/-- The tokens of a source text, one on a line. -/
def lexReport (path source : String) : Report :=
  match scan source with
  | .error e => (Diagnostic.parsing e).report ""
  | .ok ts =>
    let line (t : Token) : String :=
      "  " ++ t.kind.label ++ ": " ++ escapedText t.text ++ " @ " ++
        t.line.repr ++ "\n"
    .success ("Tokens for '" ++ path ++ "' (" ++ ts.length.repr ++
      " tokens):\n" ++ String.join (ts.map line))

/-- A number at the right of a column of the given width. -/
def padded (width n : Nat) : String :=
  String.ofList (List.replicate (width - n.repr.length) ' ') ++ n.repr

/-- The statements of a source text, one on a line. -/
def parseReport (path source : String) : Report :=
  match Program.ofSource source with
  | .error e => (Diagnostic.parsing e).report ""
  | .ok p =>
    let line (s : Stmt) : String :=
      "  " ++ padded 4 s.line ++ " | " ++ s.summary ++ "\n"
    .success ("Parse result for '" ++ path ++ "' (" ++ p.length.repr ++
      " statements):\n" ++ String.join (p.map line))

/-- Runs a source text: what it prints, and the diagnostic it ends with, if
any. -/
def runReport (limit : Option Nat) (n : Nat) (source : String) :
    Option Report :=
  (runSource limit n source).map fun f =>
    match f.diagnostic with
    | none => .success f.machine.output
    | some d => d.report f.machine.output

/-- The file that is to be read. -/
def Invocation.path? : Invocation → Option String
  | .usage | .version => none
  | .run path _ | .lex path | .parse path => some path

/-- The file that the arguments ask for, if they ask for one. -/
def neededPath? (args : List String) : Option String :=
  match Invocation.ofArgs args with
  | .ok invocation => invocation.path?
  | .error _ => none

/-- What the command line does with `args`, where `read` gives the contents of
files; nothing if the budget is spent. -/
def commandLine (n : Nat) (read : String → Except ReadFailure String)
    (args : List String) : Option Report :=
  let withFile (path : String) (f : String → Option Report) : Option Report :=
    match read path with
    | .ok source => f source
    | .error e => some (.failure ("error: " ++ e.message path ++ "\n"))
  match Invocation.ofArgs args with
  | .error e => some e.report
  | .ok .usage => some (.success usageText)
  | .ok .version => some (.success "quill 0.1.0\n")
  | .ok (.run path limit) => withFile path (runReport limit n)
  | .ok (.lex path) => withFile path fun source => some (lexReport path source)
  | .ok (.parse path) =>
    withFile path fun source => some (parseReport path source)

end Quill
