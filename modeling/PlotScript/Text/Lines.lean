/-! Lines of a text. A text read from a file has one kind of line break; a text in memory
may have any of ten, and a carriage return with a newline after it counts as one. -/

namespace PlotScript.Text

/-- The characters that end a line. -/
def isLineBreak (c : Char) : Bool :=
  ['\n', '\r', '\x0b', '\x0c', '\x1c', '\x1d', '\x1e', '\u0085', '\u2028', '\u2029'].contains c

/-- The lines of `text`, where `line` holds what was read of the first one, last character
first. A line break at the very end opens no further line. -/
def linesFrom (line : List Char) : List Char → List String
  | [] => if line.isEmpty then [] else [String.ofList line.reverse]
  | '\r' :: '\n' :: rest => String.ofList line.reverse :: linesFrom [] rest
  | c :: rest =>
    if isLineBreak c then String.ofList line.reverse :: linesFrom [] rest
    else linesFrom (c :: line) rest

def splitLines (text : String) : List String :=
  linesFrom [] text.toList

/-- Every carriage return, with the newline after it if there is one, becomes a newline. -/
def newlinesOnly : List Char → List Char
  | [] => []
  | '\r' :: '\n' :: rest => '\n' :: newlinesOnly rest
  | c :: rest => (if c = '\r' then '\n' else c) :: newlinesOnly rest

def unifyNewlines (text : String) : String :=
  String.ofList (newlinesOnly text.toList)

end PlotScript.Text
