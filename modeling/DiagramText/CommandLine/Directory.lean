import DiagramText.CommandLine.Path

/-! Reading and writing by path: the files of a directory, and the streams that devices stand for.
Whatever is made outside the directory is not seen. -/
namespace DiagramText.CommandLine

/-- What a text leaves behind that was written to a path. -/
structure Written where
  files : Directory
  stdout : String
  stderr : String
deriving DecidableEq, Repr

namespace Directory

/-- The text that a path gives, with what standard input holds. -/
def read (d : Directory) (stdin path : String) : Except PathError String := do
  match ← Place.ofPath d path with
  | .folder _ => .error .isDirectory
  | .file name => .ok ((d.get? name).getD "")
  | .device .stdin => .ok stdin
  | .device .terminal => .error .noStream
  | .device _ => .ok ""
  | .vacant _ _ => .error .missing

def write (d : Directory) (path text : String) : Except PathError Written := do
  match ← Place.ofTarget d path with
  | .folder _ => .error .isDirectory
  | .file name | .vacant .here name => .ok ⟨d.insert name text, "", ""⟩
  | .device .stdout => .ok ⟨d, text, ""⟩
  | .device .stderr => .ok ⟨d, "", text⟩
  | .device .full => if text = "" then .ok ⟨d, "", ""⟩ else .error .noSpace
  | .device .terminal => .error .noStream
  | .device _ | .vacant _ _ => .ok ⟨d, "", ""⟩

end Directory
end DiagramText.CommandLine
