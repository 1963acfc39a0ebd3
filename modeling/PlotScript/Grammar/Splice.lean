import PlotScript.Grammar.Term
import PlotScript.Text.Substitute

/-! Forms that put tokens in: calls of macros and imports of modules. Both make the code and
its lines anew from all tokens. -/

namespace PlotScript.Grammar
open Compile

/-- The placeholder of a parameter in the body of a macro. -/
def placeholder (parameter : String) : String :=
  "\x7b" ++ parameter ++ "\x7d"

def rejoinCode : Compile Unit :=
  modify Compiler.withJoinedCode

/-- The name for an object that a macro makes: the one assigned last, else one made up from
the name of the macro. -/
def nameObject (m : MacroDef) : Compile String := do
  if (← get).objectName = "" then
    modify fun c => { c with objectName := m.name ++ "Object" }
  return (← get).objectName

/-- The text of a call, given that of the parameters before. Each parameter starts from the
body again, so the last one counts. A parameter for the name of the object takes the mark and
the bracket of the call out; any other takes the current token, unless that closes the call. -/
def expansion (m : MacroDef) : List String → String → Compile String
  | [], text => return text
  | parameter :: others, text => do
    if parameter = "__name__" then
      let name ← nameObject m
      retreat
      retreat
      dropToken
      dropToken
      expansion m others (Text.substitute m.body (placeholder parameter) (" " ++ name))
    else if ← currentIs ")" then
      expansion m others text
    else
      let argument ← wordText (← current)
      expansion m others (Text.substitute m.body (placeholder parameter) argument)

/-- A call of a macro. Its text is read and put in between two newlines. -/
def macroCall : Compile Bool := do
  unless ← nextIs "!" do return false
  let t ← current
  match (← get).macros.find? fun m => t.is m.name with
  | none => fail "Macro not defined"
  | some m =>
    advance
    advance
    unless ← currentIs "(" do fail "Expected ( after macro name"
    advance
    let text ← expansion m m.parameters m.body
    advance
    spliceAfter [Token.newline]
    let tokens ← readTokens text
    spliceAfter (Token.newline :: tokens)
    rejoinCode
    return true

/-- A module as a namespace of its name. -/
def moduleTokens (name : String) (tokens : List Token) : List Token :=
  [.word .keyword "ns", .word .name name, .word .mark "\x7b", Token.newline] ++ tokens ++
    [Token.newline, .word .mark "\x7d"]

/-- Puts in a module with the given text, three tokens further on. -/
def spliceModule (name text : String) : Compile Unit := do
  advance
  advance
  advance
  let tokens ← readTokens text
  spliceAfter (moduleTokens name tokens)
  rejoinCode

/-- Puts in a module from the file at a path. -/
def openModule (path name : String) : Compile Unit := do
  match (← get).files.read path with
  | .ok text => spliceModule name text
  | .error e => throw e

/-- An import of a module by its name. A module that is not found is passed over. -/
def importModule : Compile Bool := do
  unless ← currentIs "import" do return false
  advance
  let name ← wordText (← current)
  match Library.find (← get).files name with
  | .ok text => spliceModule name text
  | .error .fileNotFound => print "file not found"
  | .error e => throw e
  return true

end PlotScript.Grammar
