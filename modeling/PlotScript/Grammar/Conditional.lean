import PlotScript.Grammar.Term

/-! Conditionals: a chain of conditions with their values, and perhaps a value for all other
cases. The chain ends quietly where the tokens end. -/

namespace PlotScript.Grammar
open Compile

def comparisons : List String := ["<", ">", "==", "<=", ">=", "!="]

/-- Two values with a comparison between them. -/
def condition (down : Descent) : Compile Unit := do
  unless ← value down do fail "Expected value"
  let t ← current
  unless t.isOneOf comparisons do fail ("Unexpected operator type for if: " ++ t.shown)
  emit t.shown
  advance
  unless ← value down do fail ("Expected value after " ++ t.shown)

/-- Passes over all that is written as a newline, a name of that text included. -/
def skipBlank : Compile Unit :=
  skipWhile fun t => t.is "\n"

/-- A value in braces; `opening` is done behind the first brace. -/
def branch (down : Descent) (opening : Compile Unit) : Compile Unit := do
  unless ← currentIs "\x7b" do fail "Expected \x7b"
  advance
  opening
  skipBlank
  unless ← value down do fail "If branches must be values"
  skipBlank
  unless ← currentIs "\x7d" do fail "Expected \x7d"
  advance

def otherwise (down : Descent) : Compile Bool := do
  unless ← currentIs "else" do return false
  advance
  branch down (pure ())
  return true

/-- What follows a branch: a further condition, a last value, or nothing. -/
def chainTail (further last : Compile Bool) : Compile Unit :=
  endingQuietly do
    if ← currentIs "elif" then
      emit ","
      discard further
    else if ← currentIs "else" then
      emit ","
      discard last

/-- A further condition with its value, and the rest of the chain. -/
def furtherCondition (down : Descent) : Nat → Compile Bool
  | 0 => throw .exhausted
  | rounds + 1 => do
    unless ← currentIs "elif" do return false
    advance
    condition down
    branch down (emit ":")
    chainTail (furtherCondition down rounds) (otherwise down)
    return true

def conditional (down : Descent) : Compile Bool := do
  unless ← currentIs "if" do return false
  advance
  emit "\\left\\\x7b"
  condition down
  branch down (emit ":")
  chainTail (furtherCondition down down.rounds) (otherwise down)
  emit "\\right\\\x7d"
  return true

end PlotScript.Grammar
