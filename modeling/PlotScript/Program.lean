import PlotScript.Grammar.Statement

/-! Programs: statements up to the end of the tokens, and the document that comes of them. -/

namespace PlotScript

/-- Levels and rounds for a script. Without macros and imports each level and each round goes
on to a later token; what they put in may take as many again. -/
def Compiler.budget (c : Compiler) : Nat :=
  4 * c.tokens.size + 1000000

namespace Compile
open Grammar

/-- One statement of a program; true at the end. A statement behind a newline ends quietly
where the tokens end. -/
def programStatement (down : Descent) : Compile Bool := do
  match (← get).current with
  | none => return true
  | some t =>
    if t.isNewline then endingQuietly (down.statement true) else down.statement true
    return false

/-- A whole program, written to a fresh document. -/
def program (down : Descent) : Compile Unit := do
  modify Compiler.withFreshDocument
  loop (programStatement down) down.rounds

/-- A fresh document with one blank entry to write to. -/
def beginEntry : Compile Unit := do
  modify Compiler.withFreshDocument
  openBlank

/-- The macros as they are listed behind a document. -/
def macroListing (macros : List MacroDef) : String :=
  "[" ++ ", ".intercalate (macros.map fun m =>
    "\x7b'name': " ++ Text.quoted m.name ++ ", 'latex': " ++ Text.quoted m.body ++
    ", 'args': [" ++ ", ".intercalate (m.parameters.map Text.quoted) ++ "]\x7d") ++ "]"

/-- Compiles the script and gives the document to be copied; without tokens there is none. -/
def run : Compile (Option String) := do
  let c ← get
  if c.tokens.isEmpty then return none
  set { c with line := c.line + 1 }
  program (descent c.budget)
  let document := renderDocument ((← get).document.getD #[])
  print ("Copied:  " ++ document)
  print (macroListing (← get).macros)
  return some document

end Compile
end PlotScript
