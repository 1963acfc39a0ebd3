import PlotScript.Grammar.Conditional
import PlotScript.Grammar.Definition
import PlotScript.Grammar.Expression

/-! Statements, and the two levels of reading tied together. -/

namespace PlotScript.Grammar
open Compile

/-- Gives the open entry the next id and the current folder. -/
def stampEntry : Compile Unit := do
  modify fun c => { c with lastId := c.lastId + 1 }
  let c ← get
  updateLastEntry (Entry.setId c.lastId)
  updateLastEntry (Entry.setFolder c.folder)

/-- A statement and the token behind it. Where the tokens have ended there is nothing to do. -/
def statementFrom (down : Descent) (fresh : Bool) : Compile Unit := do
  if (← get).current.isNone then return
  skipNewlines
  if fresh then openBlank
  stampEntry
  let expression : Compile Bool := return (← expressionFrom down) = .accepted
  unless ← firstOf [namespaceBlock down, function down, expression, note, macroDefinition,
      importModule, conditional down] do
    fail "Expected statement"
  advance

mutual

/-- Reads an expression with a budget of levels. -/
def expressionWithin : Nat → Compile Verdict
  | 0, c => .error .exhausted c
  | levels + 1, c =>
    expressionFrom ⟨levels, expressionWithin levels, statementWithin levels⟩ c

/-- Reads a statement with a budget of levels. -/
def statementWithin : Nat → Bool → Compile Unit
  | 0, _, c => .error .exhausted c
  | levels + 1, fresh, c =>
    statementFrom ⟨levels, expressionWithin levels, statementWithin levels⟩ fresh c

end

/-- Everything below a budget of levels. -/
def descent (levels : Nat) : Descent :=
  ⟨levels, expressionWithin levels, statementWithin levels⟩

theorem expressionWithin_succ (levels : Nat) :
    expressionWithin (levels + 1) = expressionFrom (descent levels) := rfl

theorem statementWithin_succ (levels : Nat) :
    statementWithin (levels + 1) = statementFrom (descent levels) := rfl

end PlotScript.Grammar
