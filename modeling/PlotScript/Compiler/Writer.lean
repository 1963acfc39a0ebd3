import PlotScript.Compiler.Cursor

/-! Writing to the last entry. The entry and its text are looked up before what is to be
written is worked out, so a fault of theirs comes first. -/

namespace PlotScript.Compile

def lastEntry : Compile Entry := do
  match (← get).openEntries? with
  | none => throw .noTarget
  | some entries =>
    match entries.back? with
    | some entry => return entry
    | none => throw .outOfRange

def setLastEntry (entry : Entry) : Compile Unit :=
  modify fun c =>
    match c.openEntries? with
    | some entries => c.setOpenEntries (entries.pop.push entry)
    | none => c

def updateLastEntry (update : Entry → Entry) : Compile Unit := do
  setLastEntry (update (← lastEntry))

def appendEntry (entry : Entry) : Compile Unit := do
  let c ← get
  match c.openEntries? with
  | some entries => set (c.setOpenEntries (entries.push entry))
  | none => throw .unsupported

/-- A blank entry at the end of the document, which is written to from then on. -/
def openBlank : Compile Unit := do
  let c ← get
  match c.document with
  | some entries => set { c with document := some (entries.push Entry.blank), target := .document }
  | none => throw .unknownKey

/-- The text of the last entry. -/
def latex : Compile String := do
  match (← lastEntry).latex? with
  | some text => return text
  | none => throw .unknownKey

def setLatex (text : String) : Compile Unit :=
  updateLastEntry (Entry.setLatex text)

/-- Writes what an action works out. -/
def emitFrom (piece : Compile String) : Compile Unit := do
  let old ← latex
  let added ← piece
  setLatex (old ++ added)

def emit (text : String) : Compile Unit :=
  emitFrom (return text)

/-- The first character of a name, with the others as its subscript. -/
def subscript (name : String) : Compile String :=
  match name.toList with
  | [] => throw .outOfRange
  | [_] => return name
  | c :: rest => return c.toString ++ "_\x7b" ++ String.ofList rest ++ "\x7d"

end PlotScript.Compile
