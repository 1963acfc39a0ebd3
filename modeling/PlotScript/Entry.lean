import PlotScript.Text.Quoted

/-! Entries of a document: expressions, folders and notes. Every expression has a text and a
folder; a folder or a note gets them only when something is written there later. -/

namespace PlotScript

/-- What a folder or a note may be given afterwards, in the order of giving. -/
inductive Extra
  | latex (text : String)
  | folder (inside : Option Nat)
  deriving DecidableEq, Repr

/-- An entry. `inside` is the id of the folder that it lies in. -/
inductive Entry
  | expression (id : Nat) (latex : String) (inside : Option Nat)
  | folder (id : Nat) (title : Option String) (extras : List Extra)
  | note (id : Nat) (text : String) (extras : List Extra)
  deriving DecidableEq, Repr

namespace Extra

def latex? : List Extra → Option String
  | [] => none
  | .latex text :: _ => some text
  | .folder _ :: rest => latex? rest

def setLatex (text : String) : List Extra → List Extra
  | [] => [.latex text]
  | .latex _ :: rest => .latex text :: rest
  | .folder inside :: rest => .folder inside :: setLatex text rest

def setFolder (inside : Option Nat) : List Extra → List Extra
  | [] => [.folder inside]
  | .folder _ :: rest => .folder inside :: rest
  | .latex text :: rest => .latex text :: setFolder inside rest

@[simp] theorem latex?_setLatex (text : String) (extras : List Extra) :
    latex? (setLatex text extras) = some text := by
  induction extras with
  | nil => rfl
  | cons extra rest ih =>
    cases extra with
    | latex _ => rfl
    | folder _ => exact ih

end Extra

namespace Entry

/-- A blank expression. -/
def blank : Entry := .expression 1 "" none

def id : Entry → Nat
  | .expression id _ _ | .folder id _ _ | .note id _ _ => id

def latex? : Entry → Option String
  | .expression _ latex _ => some latex
  | .folder _ _ extras | .note _ _ extras => Extra.latex? extras

def setId (id : Nat) : Entry → Entry
  | .expression _ latex inside => .expression id latex inside
  | .folder _ title extras => .folder id title extras
  | .note _ text extras => .note id text extras

def setLatex (latex : String) : Entry → Entry
  | .expression id _ inside => .expression id latex inside
  | .folder id title extras => .folder id title (Extra.setLatex latex extras)
  | .note id text extras => .note id text (Extra.setLatex latex extras)

def setFolder (inside : Option Nat) : Entry → Entry
  | .expression id latex _ => .expression id latex inside
  | .folder id title extras => .folder id title (Extra.setFolder inside extras)
  | .note id text extras => .note id text (Extra.setFolder inside extras)

def setTitle (title : String) : Entry → Entry
  | .folder id _ extras => .folder id (some title) extras
  | entry => entry

@[simp] theorem latex?_setLatex (latex : String) (entry : Entry) :
    (entry.setLatex latex).latex? = some latex := by
  cases entry <;> simp [setLatex, latex?]

/-- The id of a folder is written as a text; outside of all folders stands the number zero. -/
def folderText : Option Nat → String
  | none => "0"
  | some id => Text.documentQuoted id.repr

def field (name value : String) : String :=
  Text.documentQuoted name ++ ": " ++ value

def textField (name value : String) : String :=
  field name (Text.documentQuoted value)

def extraField : Extra → String
  | .latex text => textField "latex" text
  | .folder inside => field "folderId" (folderText inside)

def fields : Entry → List String
  | .expression id latex inside => [
      textField "type" "expression", field "id" id.repr, textField "color" "#c74440",
      textField "latex" latex, textField "lineStyle" "SOLID", textField "lineOpacity" "1",
      textField "lineWidth" "2.5", field "folderId" (folderText inside)]
  | .folder id title extras =>
      [textField "type" "folder", field "id" id.repr, textField "name" ""] ++
        title.toList.map (textField "title") ++ extras.map extraField
  | .note id text extras =>
      [textField "type" "text", field "id" id.repr, textField "text" text] ++
        extras.map extraField

/-- The entry as an object of the document. -/
def render (entry : Entry) : String :=
  "\x7b" ++ ", ".intercalate entry.fields ++ "\x7d"

end Entry

/-- The whole document with the given entries, for a graphing calculator to read. -/
def renderDocument (entries : Array Entry) : String :=
  "\x7b\"version\": 11, \"randomSeed\": \"038ada9396ae4919ad0383b8fe134eb0\", " ++
  "\"graph\": \x7b\"viewport\": \x7b\"xmin\": -10, \"ymin\": -7.595766129032258, " ++
  "\"xmax\": 10, \"ymax\": 7.595766129032258\x7d\x7d, \"expressions\": \x7b\"list\": [" ++
  ", ".intercalate (entries.toList.map Entry.render) ++
  "]\x7d, \"includeFunctionParametersInRandomSeed\": true\x7d"

end PlotScript
