import DiagramText.CommandLine.Application
import DiagramText.CommandLine.Arguments
import DiagramText.CommandLine.Directory

/-! A session: one run of the program from its arguments to its exit code. Every command reads one
text at most and then writes one, to a file or to standard output. -/
namespace DiagramText.CommandLine

def versionText : String := "diagrammer 0.1.0"
def verboseGreeting : String := "Diagrammer v0.1.0"

def helpText : String := Text.joinLines [
  "Parse, validate and regenerate Mermaid-style diagram source",
  "",
  "Usage: diagrammer [OPTIONS] <COMMAND>",
  "",
  "Commands: parse, generate, format, validate, detect, types, help",
  "Options: --verbose, --log-level <LOG_LEVEL>, --log-format <LOG_FORMAT>, --indent <INDENT>"]

/-- Where a text comes from or goes to: a file, or the standard stream. -/
inductive Channel where
  | file (path : String)
  | standard
deriving DecidableEq, Repr

/-- A dash stands for the standard stream, as does no path at all. -/
def Channel.ofPath : Option String → Channel
  | none => .standard
  | some path => if path = "-" then .standard else .file path

/-- The channel that a command reads, if it reads any. -/
def Command.input? : Command → Option Channel
  | .parse input _ | .generate input _ | .format input _ => some (.ofPath input)
  | .validate input _ _ _ => some (.ofPath input)
  | .detect input => some (.ofPath input)
  | .types _ => none

/-- What a command has to say: a text for a channel, remarks, and why it fails if it does. -/
structure Response where
  text : Option String
  channel : Channel
  remarks : List String
  failure : Option String
deriving DecidableEq, Repr

namespace Response

def say (channel : Channel) (text : String) : Response := ⟨some text, channel, [], none⟩
def fail (reason : String) : Response := ⟨none, .standard, [], some reason⟩

def ofResult (output : Option String) : Except Failure String → Response
  | .ok text => say (.ofPath output) text
  | .error e => fail e.message

end Response

/-- Standard output is no terminal as far as colours go, so that they have to be asked for. -/
def ColourChoice.palette (muted : Bool) : ColourChoice → Palette
  | .always => if muted then .muted else .full
  | .auto | .never => .plain

/-- The variables of the environment. -/
abbrev Environment := List (String × String)

/-- Whether the environment switches colours off. -/
def Environment.mutesColours (env : Environment) : Bool := (env.lookup "NO_COLOR").getD "" != ""

def respond (app : Application) (env : Environment) (now : Instant) (content : String) :
    Command → Response
  | .parse _ output => .ofResult output (app.parseToJson now content)
  | .generate _ output => .ofResult output (app.generateFromJson now content)
  | .format _ output => .ofResult output (app.formatSource now content)
  | .validate _ json suggest colour =>
    let (isValid, report) := app.validationReport content json suggest (colour.palette env.mutesColours)
    { Response.say .standard report with
      failure := if isValid then none else some "Validation failed" }
  | .detect _ =>
    match app.registry.detect content with
    | .ok d => .say .standard d.name
    | .error e =>
      { Response.fail e.message with
        remarks := ["Could not detect diagram type: " ++ e.message] }
  | .types json => .say .standard (app.typesListing json)

/-- Text for standard output ends with a line break, if there is any. -/
def terminated (text : String) : String :=
  if text = "" ∨ text.toList.getLast? = some '\n' then text else text ++ "\n"

/-- The format of log records: the environment's word comes before that of the arguments. -/
def loggingRemarks (env : Environment) (args : Arguments) : List String :=
  match LogFormat.ofText ((env.lookup "DIAGRAMMER_LOG_FORMAT").getD args.logFormat.name) with
  | .ok _ => []
  | .error e => ["Warning: Failed to initialize logging: Invalid log format: " ++ e]

def greeting (args : Arguments) : List String := if args.verbose then [verboseGreeting] else []

/-- What a verbose run says before it does its work. -/
def progress (args : Arguments) (content : String) : List String :=
  if !args.verbose then []
  else match args.command.input? with
    | some _ => ["Read " ++ toString content.utf8ByteSize ++ " bytes of input"]
    | none => ["Listing supported diagram types"]

def application (args : Arguments) : Application :=
  .ofLayout { Layout.usual with indent := args.indent }

def readFailure (path reason : String) : String :=
  "Failed to read input file '" ++ path ++ "': " ++ reason

def writeFailure (path reason : String) : String :=
  "Failed to write output file '" ++ path ++ "': " ++ reason

/-- What surrounds a run. -/
structure World where
  stdin : String
  files : Directory
  env : Environment

/-- What a run leaves behind. -/
structure Outcome where
  exit : Nat
  stdout : String
  stderr : List String
  files : Directory

def errorLine (reason : String) : String := "Error: " ++ reason

def Command.readInput (w : World) (c : Command) : Except String String :=
  match c.input? with
  | some (.file path) =>
    match Directory.read w.files w.stdin path with
    | .ok text => .ok text
    | .error e => .error (readFailure path e.message)
  | some .standard => .ok w.stdin
  | none => .ok ""

/-- Writes what there is to write; a failure of the command comes after that. -/
def deliver (w : World) (said : List String) (r : Response) : Outcome :=
  let said := said ++ r.remarks
  let finish (said : List String) (stdout : String) (files : Directory) : Outcome :=
    match r.failure with
    | some reason => ⟨1, stdout, said ++ [errorLine reason], files⟩
    | none => ⟨0, stdout, said, files⟩
  match r.text, r.channel with
  | none, _ => finish said "" w.files
  | some text, .standard => finish said (terminated text) w.files
  | some text, .file path =>
    match Directory.write w.files path text with
    | .ok left =>
      let said := said ++ (Text.lines left.stderr.toList).map String.ofList
      finish said left.stdout left.files
    | .error e => ⟨1, "", said ++ [errorLine (writeFailure path e.message)], w.files⟩

def run (now : Instant) (w : World) (args : List String) : Outcome :=
  match Arguments.read args with
  | .error .version => ⟨0, terminated versionText, [], w.files⟩
  | .error .help => ⟨0, terminated helpText, [], w.files⟩
  | .error .wrong => ⟨2, "", [helpText], w.files⟩
  | .ok args =>
    let said := loggingRemarks w.env args ++ greeting args
    match args.command.readInput w with
    | .error reason => ⟨1, "", said ++ [errorLine reason], w.files⟩
    | .ok content =>
      deliver w (said ++ progress args content)
        (respond (application args) w.env now content args.command)

end DiagramText.CommandLine
