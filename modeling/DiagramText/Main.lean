import DiagramText.CommandLine.Session
import Std.Time.DateTime.Timestamp

/-! The program itself: fetches what a command reads, lets the session decide, and writes what it
says. -/
namespace DiagramText.CommandLine

/-- The time of the system's clock. -/
def currentInstant : IO Instant := do
  let t ← Std.Time.Timestamp.now
  pure ((Instant.ofNanoseconds? t.toNanosecondsSinceUnixEpoch.val).getD .epoch)

/-- The system's words for a failure, with its number. -/
def reasonOf : IO.Error → String
  | .noFileOrDirectory _ code details => details ++ " (os error " ++ toString code ++ ")"
  | .permissionDenied _ code details => details ++ " (os error " ++ toString code ++ ")"
  | .inappropriateType _ code details => details ++ " (os error " ++ toString code ++ ")"
  | .invalidArgument _ code details => details ++ " (os error " ++ toString code ++ ")"
  | .resourceExhausted _ code details => details ++ " (os error " ++ toString code ++ ")"
  | .noSuchThing _ code details => details ++ " (os error " ++ toString code ++ ")"
  | e => toString e

/-- The variables that a session looks at. -/
def environment : IO Environment :=
  ["DIAGRAMMER_LOG_FORMAT", "NO_COLOR"].filterMapM fun name => do
    pure ((← IO.getEnv name).map (name, ·))

/-- The text that a command reads. -/
def fetch (c : Command) : IO (Except String String) := do
  match c.input? with
  | none => pure (.ok "")
  | some .standard => .ok <$> (← IO.getStdin).readToEnd
  | some (.file path) =>
    try .ok <$> IO.FS.readFile path
    catch e => pure (.error (readFailure path (reasonOf e)))

def complain (reason : String) : IO UInt32 := do
  IO.eprintln (errorLine reason)
  pure 1

/-- Writes the text where it belongs, and tells whether that worked. -/
def store (r : Response) : IO (Option String) := do
  match r.text, r.channel with
  | none, _ => pure none
  | some text, .standard =>
    IO.print (terminated text)
    pure none
  | some text, .file path =>
    try
      IO.FS.writeFile path text
      pure none
    catch e => pure (some (writeFailure path (reasonOf e)))

def perform (args : Arguments) : IO UInt32 := do
  let env ← environment
  for line in loggingRemarks env args ++ greeting args do
    IO.eprintln line
  match ← fetch args.command with
  | .error reason => complain reason
  | .ok content =>
    for line in progress args content do
      IO.eprintln line
    let now ← currentInstant
    let r := respond (application args) env now content args.command
    for line in r.remarks do
      IO.eprintln line
    match ← store r with
    | some reason => complain reason
    | none =>
      match r.failure with
      | some reason => complain reason
      | none => pure 0

end DiagramText.CommandLine

open DiagramText.CommandLine in
def main (args : List String) : IO UInt32 := do
  match Arguments.read args with
  | .error .version =>
    IO.print (terminated versionText)
    pure 0
  | .error .help =>
    IO.print (terminated helpText)
    pure 0
  | .error .wrong =>
    IO.eprintln helpText
    pure 2
  | .ok args => perform args
