import PlotScript.Compiler.Names

/-! Expressions and statements contain each other. Each form of the grammar is described with
the two of them given one level further down, and the levels are counted off from a budget. -/

namespace PlotScript.Grammar

/-- What came of reading an expression: it was read to a place where an expression can end,
there was none, or it was read but goes on with something that cannot end it. -/
inductive Verdict
  | accepted
  | refused
  | dangling
  deriving DecidableEq, Repr

/-- The reading of expressions and statements one level further down, and how many rounds a
repetition on this level may take. A statement is `fresh` if it opens an entry of its own. -/
structure Descent where
  rounds : Nat
  expression : Compile Verdict
  statement : (fresh : Bool) → Compile Unit

/-- Whether a whole expression was read. -/
def Descent.acceptsExpression (down : Descent) : Compile Bool :=
  return (← down.expression) = .accepted

/-- Reads an expression, if there is one. -/
def Descent.tryExpression (down : Descent) : Compile Unit := do
  let _ ← down.expression

end PlotScript.Grammar
