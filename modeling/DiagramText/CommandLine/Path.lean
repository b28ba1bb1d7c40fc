import DiagramText.Table
import DiagramText.Text.Split

/-! Paths: where a path leads, and why it leads nowhere. A path is walked piece by piece, from the
directory of a run or from the root. Of the rest of the system only the directories at the root
and the devices that stand for streams are known. -/
namespace DiagramText.CommandLine

/-- The text files of a directory that has no other below it. -/
abbrev Directory := Table String

inductive PathError where
  | missing
  | noStream
  | notDirectory
  | isDirectory
  | noSpace
  | nameTooLong
deriving DecidableEq, Repr

def PathError.message : PathError → String
  | .missing => "No such file or directory (os error 2)"
  | .noStream => "No such device or address (os error 6)"
  | .notDirectory => "Not a directory (os error 20)"
  | .isDirectory => "Is a directory (os error 21)"
  | .noSpace => "No space left on device (os error 28)"
  | .nameTooLong => "File name too long (os error 36)"

/-- What a path can name that is neither a file nor a directory. -/
inductive Device where
  /-- Gives nothing and takes everything. -/
  | null
  /-- Takes nothing. -/
  | full
  | stdin
  | stdout
  | stderr
  /-- The terminal of a run that has none. -/
  | terminal
deriving DecidableEq, Repr

/-- The ways from the root to the devices. -/
def Device.ways : List (List String × Device) := [
  (["dev", "null"], .null), (["dev", "full"], .full), (["dev", "tty"], .terminal),
  (["dev", "stdin"], .stdin), (["dev", "stdout"], .stdout), (["dev", "stderr"], .stderr),
  (["dev", "fd", "0"], .stdin), (["dev", "fd", "1"], .stdout), (["dev", "fd", "2"], .stderr),
  (["proc", "self", "fd", "0"], .stdin), (["proc", "self", "fd", "1"], .stdout),
  (["proc", "self", "fd", "2"], .stderr)]

/-- The directories that every system has at its root. -/
def rootNames : List String := [
  "bin", "boot", "dev", "etc", "home", "lib", "media", "mnt", "opt", "proc", "root", "run", "sbin",
  "srv", "sys", "tmp", "usr", "var"]

/-- A directory that a path can pass through. -/
inductive Folder where
  /-- The directory of the run. -/
  | here
  /-- One of those that the directory of the run lies in. -/
  | above
  /-- One that is known by its way from the root. -/
  | system (way : List String)
deriving DecidableEq, Repr

namespace Folder

/-- The directory that holds this one; the root holds itself. -/
def parent : Folder → Folder
  | .here | .above => .above
  | .system way => .system way.dropLast

/-- Whether a way from the root ends at a directory. -/
def isWay (way : List String) : Bool :=
  rootNames.any (way = [·]) || Device.ways.any fun (w, _) => way.isPrefixOf w && way != w

end Folder

/-- What a path leads to. -/
inductive Place where
  | folder (f : Folder)
  | file (name : String)
  | device (d : Device)
  /-- A name that nothing in the directory has yet. -/
  | vacant (f : Folder) (name : String)
deriving DecidableEq, Repr

namespace Place

def isNameTooLong (name : String) : Bool := 255 < name.utf8ByteSize
def isPathTooLong (path : String) : Bool := 4095 < path.utf8ByteSize

/-- What has the name in a directory. -/
def named (d : Directory) (f : Folder) (name : String) : Place :=
  match f with
  | .here => if d.contains name then .file name else .vacant .here name
  | .above => .vacant .above name
  | .system way =>
    if Folder.isWay (way ++ [name]) then .folder (.system (way ++ [name]))
    else match Device.ways.lookup (way ++ [name]) with
      | some stream => .device stream
      | none => .vacant f name

/-- One piece of a path further; only directories can be passed through. -/
def step (d : Directory) (p : Place) (piece : String) : Except PathError Place :=
  match p with
  | .folder f =>
    if piece = "" ∨ piece = "." then .ok p
    else if piece = ".." then .ok (.folder f.parent)
    else if isNameTooLong piece then .error .nameTooLong
    else .ok (named d f piece)
  | .file _ | .device _ => .error .notDirectory
  | .vacant _ _ => .error .missing

def start (path : String) : Place :=
  .folder (if path.toList.head? = some '/' then .system [] else .here)

def pieces (path : String) : List String := (Text.pieces '/' path.toList).map String.ofList

/-- Where a path leads. -/
def ofPath (d : Directory) (path : String) : Except PathError Place :=
  if isPathTooLong path then .error .nameTooLong else (pieces path).foldlM (step d) (start path)

/-- Where a text goes that is written to a path. A path that ends with a slash is the path of a
directory, whatever has its last name. -/
def ofTarget (d : Directory) (path : String) : Except PathError Place :=
  if !isPathTooLong path && path.toList.getLast? = some '/' then do
    let way := ((pieces path).reverse.dropWhile (· = "")).tail.reverse
    let _ ← (way ++ ["."]).foldlM (step d) (start path)
    .error .isDirectory
  else ofPath d path

end Place
end DiagramText.CommandLine
