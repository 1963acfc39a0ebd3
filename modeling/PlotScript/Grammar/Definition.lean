import PlotScript.Grammar.Term

/-! Definitions: functions, macros, namespaces and notes. -/

namespace PlotScript.Grammar
open Compile

/-- One parameter of a function; true behind the closing bracket. Without parameters the
bracket is not passed. -/
def functionParameter : Compile Bool := do
  if ← currentIs ")" then return true
  match (← current).name? with
  | none => fail "Expected parameter"
  | some name =>
    emitFrom do subscript ((← innermost) ++ name)
    addName (← get).scope name .unset
    advance
    if ← currentIs ")" then
      emit "\\right)"
      advance
      return true
    unless ← currentIs "," do fail "Expected ',' between parameters"
    emit ","
    advance
    return false

/-- A function with its parameters and its value. The closing brace stays current. -/
def function (down : Descent) : Compile Bool := do
  unless ← currentIs "fn" do return false
  advance
  match (← current).name? with
  | none => fail "Expected function name after defintion"
  | some name =>
    emitFrom (subscript name)
    emit "\\left("
    addName (← get).scope name (.table [])
    pushScope name
    modify fun c => { c with functions := c.functions ++ [name] }
    advance
    unless ← currentIs "(" do fail "Expected ("
    advance
    loop functionParameter (← get).stepsLeft
    unless ← currentIs "\x7b" do fail "Expected \x7b after function definition"
    emit "="
    advance
    skipNewlines
    unless ← down.acceptsExpression do fail "Expected Statement"
    skipNewlines
    unless ← currentIs "\x7d" do fail "'\x7d' was not closed"
    popScope
    return true

/-- Changes the macro that was defined last. -/
def updateLastMacro (update : MacroDef → MacroDef) : Compile Unit :=
  modify fun c => { c with macros := c.macros.dropLast ++ c.macros.getLast?.toList.map update }

def appendBody (text : String) : Compile Unit :=
  updateLastMacro fun m => { m with body := m.body ++ text }

/-- One parameter of a macro; true behind the closing bracket. A comma goes into the body. -/
def macroParameter : Compile Bool := do
  if ← currentIs ")" then return true
  match (← current).name? with
  | none => fail "Expected parameter"
  | some name =>
    addName (← get).scope name (.table [])
    updateLastMacro fun m => { m with parameters := m.parameters ++ [name] }
    advance
    if ← currentIs ")" then
      advance
      return true
    unless ← currentIs "," do fail "Expected ',' between parameters"
    appendBody ","
    advance
    return false

/-- Takes tokens into the body up to the brace that closes it; `depth` braces are open inside. -/
def macroBody : Nat → Nat → Compile Unit
  | 0, _ => throw .exhausted
  | steps + 1, depth => do
    let t ← current
    if t.is "\x7d" && depth = 0 then return
    appendBody t.shown
    advance
    macroBody steps (if t.is "\x7b" then depth + 1 else if t.is "\x7d" then depth - 1 else depth)

/-- A macro. The first character of what was taken, mostly a newline, is not part of its body.
The closing brace stays current. -/
def macroDefinition : Compile Bool := do
  unless ← currentIs "macro" do return false
  advance
  match (← current).name? with
  | none => fail "Expected identifier after macro"
  | some name =>
    modify fun c => { c with macros := c.macros ++ [⟨name, "", []⟩] }
    addName (← get).scope name (.table [])
    pushScope name
    advance
    unless ← currentIs "!" do fail "Macro names must end in !"
    advance
    unless ← currentIs "(" do fail "Expected ("
    advance
    loop macroParameter (← get).stepsLeft
    unless ← currentIs "\x7b" do fail "Expected \x7b after function definition"
    advance
    macroBody (← get).stepsLeft 0
    updateLastMacro fun m => { m with body := String.ofList (m.body.toList.drop 1) }
    popScope
    return true

/-- One statement of a namespace with the newlines behind it; true at the closing brace. -/
def namespaceStatement (down : Descent) : Compile Bool := do
  if ← currentIs "\x7d" then return true
  down.statement true
  skipNewlines
  return false

/-- A namespace becomes a folder, and the entries from there on lie in it. It ends quietly
where the tokens end. -/
def namespaceBlock (down : Descent) : Compile Bool := do
  unless ← currentIs "ns" do return false
  let id := (← get).lastId
  updateLastEntry fun _ => .folder id none []
  advance
  match (← current).name? with
  | none => fail "Expected identifier"
  | some name =>
    reopenScope name
    pushScope name
    updateLastEntry (Entry.setTitle name)
    modify fun c => { c with folder := some c.lastId }
    advance
    unless ← currentIs "\x7b" do fail "Expected \x7b after namespace definition"
    advance
    endingQuietly (loop (namespaceStatement down) down.rounds)
    popScope
    advance
    return true

/-- A note is an entry of its own behind the one that is open. -/
def note : Compile Bool := do
  let t ← current
  unless t.isKind .note do return false
  appendEntry (.note 1 t.shown [])
  advance
  return true

end PlotScript.Grammar
