import DiagramText.Json.Basic
import DiagramText.Text.Digits
import DiagramText.Text.Split

/-! The arguments of the program. Options come with one dash or two; a value follows its option or
is attached to it; no option may be given twice. Options of the program stand before the command,
those of a command behind it. -/
namespace DiagramText.CommandLine

inductive Level where
  | trace
  | debug
  | info
  | warn
  | error
deriving DecidableEq, Repr

def Level.names : List (String × Level) :=
  [("trace", .trace), ("debug", .debug), ("info", .info), ("warn", .warn), ("error", .error)]

/-- How log records are written. -/
inductive LogFormat where
  | compact
  | pretty
  | json
deriving DecidableEq, Repr

namespace LogFormat

def names : List (String × LogFormat) :=
  [("compact", .compact), ("pretty", .pretty), ("json", .json)]

def name : LogFormat → String
  | .compact => "compact"
  | .pretty => "pretty"
  | .json => "json"

/-- The format of that name, whatever the case of its ASCII letters. -/
def ofText (s : String) : Except String LogFormat :=
  match names.lookup (Text.lower s) with
  | some f => .ok f
  | none => .error ("Unknown log format: " ++ s)

end LogFormat

inductive ColourChoice where
  | auto
  | always
  | never
deriving DecidableEq, Repr

def ColourChoice.names : List (String × ColourChoice) :=
  [("auto", .auto), ("always", .always), ("never", .never)]

inductive Command where
  | parse (input output : Option String)
  | generate (input output : Option String)
  | format (input output : Option String)
  | validate (input : Option String) (json suggest : Bool) (colour : ColourChoice)
  | detect (input : Option String)
  | types (json : Bool)
deriving DecidableEq, Repr

structure Arguments where
  verbose : Bool
  level : Level
  logFormat : LogFormat
  indent : Nat
  command : Command
deriving DecidableEq, Repr

/-- Why a command line is not carried out. -/
inductive Usage where
  | version
  | help
  | wrong
deriving DecidableEq, Repr

/-- An option: its long name, its letter if it has one, and what values it takes if it takes one. -/
structure OptionSpec where
  name : String
  letter : Option Char
  accepts : Option (String → Bool)

/-- The options that were given, with their values. -/
abbrev Given := List (String × Option String)

namespace Arguments

def isNumeral (s : String) : Bool :=
  let digits := match s.toList with
    | '+' :: cs => cs
    | cs => cs
  !digits.isEmpty && digits.all Text.isDigit && Text.natOf digits ≤ Json.maxWord

def isPath (s : String) : Bool := s != ""

def oneOf (names : List (String × α)) (s : String) : Bool := (names.lookup s).isSome

def programOptions : List OptionSpec := [
  ⟨"verbose", some 'v', none⟩,
  ⟨"log-level", none, some (oneOf Level.names)⟩,
  ⟨"log-format", none, some (oneOf LogFormat.names)⟩,
  ⟨"indent", none, some isNumeral⟩]

def inputOption : OptionSpec := ⟨"input", some 'i', some isPath⟩
def outputOption : OptionSpec := ⟨"output", some 'o', some isPath⟩
def jsonOption : OptionSpec := ⟨"json", none, none⟩
def suggestOption : OptionSpec := ⟨"suggest", none, none⟩
def colourOption : OptionSpec := ⟨"color", none, some (oneOf ColourChoice.names)⟩

def commandOptions : List (String × List OptionSpec) := [
  ("parse", [inputOption, outputOption]),
  ("generate", [inputOption, outputOption]),
  ("format", [inputOption, outputOption]),
  ("validate", [inputOption, jsonOption, suggestOption, colourOption]),
  ("detect", [inputOption]),
  ("types", [jsonOption])]

def give (given : Given) (name : String) (value : Option String) : Except Usage Given :=
  if (given.lookup name).isSome then .error .wrong else .ok (given ++ [(name, value)])

def giveValue (given : Given) (name : String) (accepts : String → Bool) (value : String) :
    Except Usage Given :=
  if accepts value then give given name (some value) else .error .wrong

/-- A lone dash is a value, anything else that starts with one is not. -/
def isValue (arg : String) : Bool := arg = "-" || arg.toList.head? != some '-'

/-- A value that stands in an argument of its own. -/
def takeValue (given : Given) (name : String) (accepts : String → Bool) :
    List String → Except Usage (Given × List String)
  | [] => .error .wrong
  | arg :: args =>
    if isValue arg then (giveValue given name accepts arg).map (·, args) else .error .wrong

/-- An option with two dashes; `attached` is what follows an equals sign. -/
def takeLong (specs : List OptionSpec) (given : Given) (name : String) (attached : Option String)
    (args : List String) : Except Usage (Given × List String) :=
  match specs.find? (·.name = name), attached with
  | none, _ => .error .wrong
  | some ⟨_, _, none⟩, none => (give given name none).map (·, args)
  | some ⟨_, _, none⟩, some _ => .error .wrong
  | some ⟨_, _, some accepts⟩, some value => (giveValue given name accepts value).map (·, args)
  | some ⟨_, _, some accepts⟩, none => takeValue given name accepts args

/-- Letters behind one dash; one that takes a value takes what is left of the argument. -/
def takeLetters (specs : List OptionSpec) (version : Bool) (given : Given) (args : List String) :
    List Char → Except Usage (Given × List String)
  | [] => .ok (given, args)
  | c :: cs =>
    match specs.find? (·.letter = some c) with
    | none =>
      if c = 'h' then .error .help
      else if c = 'V' ∧ version then .error .version
      else .error .wrong
    | some ⟨name, _, none⟩ => do
      let given ← give given name none
      takeLetters specs version given args cs
    | some ⟨name, _, some accepts⟩ =>
      match cs with
      | [] => takeValue given name accepts args
      | '=' :: value => (giveValue given name accepts (String.ofList value)).map (·, args)
      | value => (giveValue given name accepts (String.ofList value)).map (·, args)

/-- One argument that starts with a dash, and those that it takes with it. -/
def takeOption (specs : List OptionSpec) (version : Bool) (given : Given) (arg : String)
    (args : List String) : Except Usage (Given × List String) :=
  match arg.toList with
  | '-' :: '-' :: cs =>
    let (name, attached) := match Text.cut? '=' cs with
      | some (name, value) => (String.ofList name, some (String.ofList value))
      | none => (String.ofList cs, none)
    if name = "help" ∧ attached = none then .error .help
    else if name = "version" ∧ attached = none ∧ version then .error .version
    else takeLong specs given name attached args
  | '-' :: cs => takeLetters specs version given args cs
  | _ => .error .wrong

/-- Options up to the first argument that is none. Every option is at least one argument long. -/
def takeOptions (specs : List OptionSpec) (version : Bool) :
    Nat → Given → List String → Except Usage (Given × List String)
  | 0, given, args => .ok (given, args)
  | _ + 1, given, [] => .ok (given, [])
  | fuel + 1, given, arg :: args =>
    if arg = "--" ∨ isValue arg then .ok (given, arg :: args)
    else do
      let (given, args) ← takeOption specs version given arg args
      takeOptions specs version fuel given args

def isGiven (given : Given) (name : String) : Bool := (given.lookup name).isSome
def valueOf? (given : Given) (name : String) : Option String := (given.lookup name).join

def natOfNumeral (s : String) : Nat :=
  Text.natOf (s.toList.filter Text.isDigit)

def choice (given : Given) (name : String) (names : List (String × α)) (usual : α) : α :=
  ((valueOf? given name).bind fun value => names.lookup value).getD usual

def commandOf? (name : String) (given : Given) : Option Command :=
  let input := valueOf? given "input"
  let output := valueOf? given "output"
  match name with
  | "parse" => some (.parse input output)
  | "generate" => some (.generate input output)
  | "format" => some (.format input output)
  | "validate" => some (.validate input (isGiven given "json") (isGiven given "suggest")
      (choice given "color" ColourChoice.names .auto))
  | "detect" => some (.detect input)
  | "types" => some (.types (isGiven given "json"))
  | _ => none

/-- The command and its options; nothing but options may follow. -/
def readCommand (name : String) (args : List String) : Except Usage Command :=
  match commandOptions.lookup name with
  | none => .error .wrong
  | some specs => do
    let (given, rest) ← takeOptions specs false args.length [] args
    if rest = [] ∨ rest = ["--"] then
      match commandOf? name given with
      | some command => .ok command
      | none => .error .wrong
    else .error .wrong

/-- Asking for help is answered if it is about the program or one of its commands. -/
def readHelp : List String → Usage
  | [] => .help
  | [name] => if name = "help" ∨ (commandOptions.lookup name).isSome then .help else .wrong
  | _ => .wrong

def read (args : List String) : Except Usage Arguments := do
  let (given, rest) ← takeOptions programOptions true args.length [] args
  match rest with
  | [] => .error .wrong
  | "help" :: rest => .error (readHelp rest)
  | name :: rest =>
    let command ← readCommand name rest
    pure {
      verbose := isGiven given "verbose"
      level := choice given "log-level" Level.names .warn
      logFormat := choice given "log-format" LogFormat.names .compact
      indent := ((valueOf? given "indent").map natOfNumeral).getD 4
      command }

end Arguments
end DiagramText.CommandLine
