import PlotScript.Grammar.Descent

/-! The parts of an expression: operators, lists, values, calls, points, comprehensions and
blocks. Each form looks at the current token first and leaves everything as it is when the
form does not begin there. -/

namespace PlotScript.Grammar
open Compile

def operators : List String := ["^", "=", "->", "-", "+", "/", "*", "<", ">", "<=", ">="]

/-- An operator. There is none where the tokens have ended. -/
def operator : Compile Bool := do
  match (← get).current with
  | none => return false
  | some t =>
    if t.isOneOf operators then
      emit (if t.is "->" then "\\to " else t.shown)
      advance
      return true
    return false

/-- An operator and the expression behind it, if there is an operator. -/
def operation (down : Descent) : Compile Unit := do
  if ← operator then down.tryExpression

/-- One item of a list with the comma behind it; true at the closing bracket. -/
def listItem (down : Descent) : Compile Bool := do
  if ← currentIs "]" then return true
  down.tryExpression
  if ← currentIs "]" then return true
  unless ← currentIs "," do fail "expressions must be separated by a ','"
  emit ","
  advance
  return false

/-- Expressions in square brackets. -/
def list (down : Descent) : Compile Bool := do
  unless ← currentIs "[" do return false
  emit "\\left["
  advance
  loop (listItem down) down.rounds
  emit "\\right]"
  advance
  return true

/-- The brackets behind a value that picks from a list. -/
def listAccess (down : Descent) : Compile Bool := do
  if ← currentIs "[" then list down else return false

/-- A name: where nothing is written yet and an equals sign follows it is bound; with a dot
behind it the expression after the dot is read in its scope. -/
def nameValue (down : Descent) (name : String) : Compile Unit := do
  if (← latex) = "" then
    if ← nextIs "=" then define name
  unless ← isBound (← get).scope name do fail ("Variable " ++ name ++ " not defined")
  if ← nextIs "." then
    advance
    advance
    down.tryExpression
    popScope
  else emitName name

/-- A numeral or a name, perhaps with a minus in front. Where the tokens have ended anything
counts as a value, and so does a lone plus. -/
def value (down : Descent) : Compile Bool := do
  match (← get).current with
  | none => return true
  | some t =>
    unless t.isKind .name || t.isNumeral || t.isOneOf ["-", "+"] do return false
    if t.is "-" then
      emit "-"
      advance
    let t ← current
    match t.name? with
    | some name => nameValue down name
    | none => emit t.shown
    advance
    discard (listAccess down)
    return true

/-- One further argument of a call with the comma in front; true at the closing bracket. -/
def callArgument (down : Descent) (function : String) : Compile Bool := do
  if ← currentIs ")" then return true
  unless ← currentIs "," do fail "Expected ',' after parameter"
  emit ","
  advance
  unless ← down.acceptsExpression do fail ("Expected expression after " ++ function)
  return false

/-- The head of a call: a function of the script is called by its subscripted name. -/
def callHead (functions : List String) (function : String) : Compile String := do
  if ["polygon", "rgb", "hsv"].contains function then
    return "\\operatorname\x7b" ++ function ++ "\x7d\\left("
  if functions.contains function then return (← subscript function) ++ "\\left("
  return "\\" ++ function ++ "\\left("

/-- A call of a function of the script or of a built-in one. -/
def call (down : Descent) : Compile Bool := do
  let functions := (← get).functions
  match (← current).text? with
  | none => return false
  | some function =>
    unless functions.contains function || builtinFunctions.contains function do return false
    emitFrom (callHead functions function)
    advance
    unless ← currentIs "(" do fail "Expected '('"
    advance
    unless ← down.acceptsExpression do fail "Expected expression"
    loop (callArgument down function) down.rounds
    emit "\\right)"
    advance
    return true

/-- Two coordinates in brackets. The closing bracket is written before it is looked for. -/
def point (down : Descent) : Compile Bool := do
  unless ← currentIs "(" do return false
  advance
  emit "\\left("
  unless ← down.acceptsExpression do fail "Points must have two coordinates"
  unless ← currentIs "," do fail "Expected ',' in point"
  emit ","
  advance
  unless ← down.acceptsExpression do fail "Points must have two coordinates"
  emit "\\right)"
  unless ← currentIs ")" do fail "Expected ')'"
  advance
  return true

/-- The text of a token that is not a numeral. -/
def wordText (t : Token) : Compile String :=
  match t.text? with
  | some text => return text
  | none => throw .notText

/-- A name, the word `for`, and a name with the list that it runs over. Begins at a name, or
where a comma follows. -/
def comprehension (down : Descent) : Compile Bool := do
  let t ← current
  unless t.isKind .name do
    unless ← nextIs "," do return false
  emitFrom (wordText t)
  advance
  unless ← currentIs "for" do fail "Expected 'for'"
  emit "\\operatorname\x7bfor\x7d"
  advance
  match (← current).name? with
  | none => fail "Expected identifier after 'for'"
  | some name =>
    emit name
    advance
    unless ← currentIs "=" do fail "expected '=' "
    advance
    emit "="
    unless ← list down do fail (name ++ " must be a list, not")
    advance
    return true

/-- One statement of a block; true at the closing brace. -/
def blockStatement (down : Descent) : Compile Bool := do
  if ← currentIs "\x7d" then return true
  down.statement false
  return false

/-- Statements in braces, written to the entry that is open. -/
def block (down : Descent) : Compile Bool := do
  unless ← currentIs "\x7b" do return false
  advance
  loop (blockStatement down) down.rounds
  advance
  return true

end PlotScript.Grammar
