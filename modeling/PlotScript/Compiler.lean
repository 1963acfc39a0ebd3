import PlotScript.Entry
import PlotScript.Library
import PlotScript.Place
import PlotScript.Scope
import PlotScript.Token.Lexer

/-! The state of a compilation. Its tokens may grow while they are read, since macros and
imports put tokens in; the current token is kept apart from the place it was read at. -/

namespace PlotScript

/-- A macro: the body is the text that a call puts in. -/
structure MacroDef where
  name : String
  body : String
  parameters : List String
  deriving DecidableEq, Repr

/-- Where text is written: nowhere yet, at the end of the document, or at the end of the
entries of a document that was given up since. -/
inductive Target
  | nowhere
  | document
  | discarded (entries : Array Entry)
  deriving DecidableEq, Repr

structure Compiler where
  code : String
  lines : List String
  tokens : Array Token
  current : Option Token
  position : Int := 0
  line : Int := 0
  names : Table := Table.initial
  scope : List String := []
  functions : List String := []
  macros : List MacroDef := []
  /-- The name assigned last, which an object made by a macro takes. -/
  objectName : String := ""
  lastId : Nat := 0
  /-- The folder that new entries lie in. -/
  folder : Option Nat := none
  document : Option (Array Entry) := none
  target : Target := .nowhere
  printed : Array String := #[]
  files : Files := []
  deriving Repr

/-- A compilation that may end with a fault; the state is kept either way. -/
abbrev Compile := EStateM Fault Compiler

namespace Compiler

/-- A compiler for a script. A character that starts no token ends the script, and a newline
follows the last token. -/
def ofCode (files : Files) (code : String) : Except Fault Compiler :=
  let reading := Lexer.read code
  match reading.ending with
  | .overlong => .error .numeralTooLong
  | _ => .ok {
      code
      lines := Text.splitLines code
      tokens := (reading.tokens ++ [Token.newline]).toArray
      current := reading.tokens.head?
      files }

/-- The entries that text is written to. -/
def openEntries? (c : Compiler) : Option (Array Entry) :=
  match c.target with
  | .nowhere => none
  | .document => c.document
  | .discarded entries => some entries

def setOpenEntries (c : Compiler) (entries : Array Entry) : Compiler :=
  match c.target with
  | .nowhere => c
  | .document => { c with document := some entries }
  | .discarded _ => { c with target := .discarded entries }

/-- A fresh document. Text still goes to the entries that it went to before. -/
def withFreshDocument (c : Compiler) : Compiler :=
  let target := match c.target, c.document with
    | .document, some entries => .discarded entries
    | target, _ => target
  { c with document := some #[], target, position := 0 }

/-- The text of all tokens with spaces between them. -/
def joinedTokens (c : Compiler) : String :=
  " ".intercalate (c.tokens.toList.map Token.shown)

/-- The code and its lines, made anew from the tokens. -/
def withJoinedCode (c : Compiler) : Compiler :=
  { c with code := c.joinedTokens, lines := Text.splitLines c.joinedTokens }

/-- More steps forward than can be made before the tokens end. -/
def stepsLeft (c : Compiler) : Nat :=
  (c.tokens.size - c.position).toNat + 2

end Compiler
end PlotScript
