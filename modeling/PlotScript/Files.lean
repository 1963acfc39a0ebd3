import PlotScript.Fault
import PlotScript.Text.Lines

/-! The files that a script can reach, and what stands against reading at any other path. -/

namespace PlotScript

/-- Texts by their exact path. -/
abbrev Files := List (String × String)

namespace Files

/-- The most bytes that a path can have. -/
def longestPath : Nat := 4095

/-- The most bytes that one name on a path can have. -/
def longestName : Nat := 255

/-- Whether a name on a path neither stays in a directory nor climbs out of it. -/
def isProper (name : String) : Bool :=
  name ≠ "" && name ≠ "." && name ≠ ".."

/-- Why a path that leads to none of the files cannot be read. It may be no path at all, or too
long. If it only stays or climbs it leads to a directory; else there is nothing of its first
proper name. -/
def whyMissing (path : String) : Fault :=
  if path.toList.contains '\x00' then .invalidPath
  else if longestPath < path.utf8ByteSize then .pathTooLong
  else
    match (path.splitOn "/").find? isProper with
    | some name => if longestName < name.utf8ByteSize then .pathTooLong else .fileNotFound
    | none => if path.isEmpty then .fileNotFound else .isDirectory

/-- The text of a file, with every line break a newline. -/
def read (files : Files) (path : String) : Except Fault String :=
  match files.lookup path with
  | some text => .ok (Text.unifyNewlines text)
  | none => .error (whyMissing path)

end Files
end PlotScript
