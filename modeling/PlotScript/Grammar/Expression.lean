import PlotScript.Grammar.Splice

/-! Expressions. An opening bracket is first taken for a point; if that fails with a mistake,
position and text go back and the bracket is read as one around an expression. -/

namespace PlotScript.Grammar
open Compile

/-- Back to before a position, with the text as it was. -/
def rewind (position : Int) (text : String) : Compile Unit := do
  modify fun c => { c with position := position - 1 }
  setLatex text

/-- Whether the current token, or the end of the tokens, can end an expression. -/
def atEnd (closers : List String) : Compile Bool := do
  match (← get).current with
  | none => return true
  | some t => return t.isNewline || t.isOneOf closers

/-- An expression that begins with a point; true if it was read to its end. -/
def pointFirst (down : Descent) : Compile Bool := do
  let text ← latex
  let position := (← get).position
  let attempt : Compile Bool := do
    if ← point down then
      operation down
      atEnd [",", "]", ")"]
    else
      rewind position text
      return false
  tryCatch attempt fun
    | .diagnostic _ => do
      rewind position text
      return false
    | e => throw e

/-- An expression in brackets. -/
def bracketed (down : Descent) : Compile Unit := do
  emit "\\left("
  advance
  down.tryExpression
  unless ← currentIs ")" do fail "Expected )"
  emit "\\right)"
  advance

/-- The first part of an expression that is not in brackets. -/
def term (down : Descent) : Compile Bool :=
  firstOf [call down, macroCall, value down, list down, point down, comprehension down,
    block down]

/-- The first part of an expression. -/
def operand (down : Descent) : Compile Bool := do
  if ← currentIs "(" then
    bracketed down
    return true
  term down

def expressionFrom (down : Descent) : Compile Verdict := do
  if ← pointFirst down then return .accepted
  advance
  unless ← operand down do return .refused
  operation down
  if ← atEnd [",", "]", ")", "\x7d"] then return .accepted
  return .dangling

end PlotScript.Grammar
