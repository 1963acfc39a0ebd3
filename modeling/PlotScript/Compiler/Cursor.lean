import PlotScript.Compiler

/-! Moving over the tokens, and reporting mistakes at the place that was reached. A newline
counts when it is left behind, so the line number is that of the current token. -/

namespace PlotScript.Compile

def print (text : String) : Compile Unit :=
  modify fun c => { c with printed := c.printed.push text }

/-- Reports a mistake on the current line. -/
def fail {α : Type} (message : String) : Compile α := do
  let c ← get
  match Diagnostic.locate message c.lines c.line with
  | .ok d => throw (.diagnostic d)
  | .error e => throw e

def current : Compile Token := do
  match (← get).current with
  | some t => return t
  | none => throw .noToken

def currentIs (text : String) : Compile Bool :=
  return (← current).is text

/-- The token some steps ahead. -/
def peek (steps : Int) : Compile (Option Token) := do
  let c ← get
  return Place.get? c.tokens (c.position + steps)

/-- Whether the token after the current one has the given text. -/
def nextIs (text : String) : Compile Bool := do
  match ← peek 1 with
  | some t => return t.is text
  | none => throw .outOfRange

/-- Goes to the token at a place, or to no token if there is none. -/
def moveTo (place : Int) : Compile Unit :=
  modify fun c =>
    match Place.get? c.tokens place with
    | some t => { c with current := some t, position := place }
    | none => { c with current := none }

/-- One token forward. -/
def advance : Compile Unit := do
  if (← current).isNewline then modify fun c => { c with line := c.line + 1 }
  moveTo ((← get).position + 1)

/-- One token back. -/
def retreat : Compile Unit := do
  if (← current).isNewline then modify fun c => { c with line := c.line - 1 }
  moveTo ((← get).position - 1)

/-- Runs `round` until it says that it is done, at most the given number of times. -/
def loop (round : Compile Bool) : Nat → Compile Unit
  | 0 => throw .exhausted
  | rounds + 1 => do
    if ← round then return
    loop round rounds

/-- Passes over the tokens that satisfy a test. -/
def skipWhile (test : Token → Bool) : Compile Unit := do
  loop skipOne (← get).stepsLeft
where
  skipOne : Compile Bool := do
    if test (← current) then
      advance
      return false
    return true

def skipNewlines : Compile Unit :=
  skipWhile Token.isNewline

/-- Goes to a place that must exist. -/
def seek (place : Int) : Compile Unit := do
  modify fun c => { c with position := place }
  match Place.get? (← get).tokens place with
  | some t => modify fun c => { c with current := some t }
  | none => throw .outOfRange

/-- Takes the token at the current position out. -/
def dropToken : Compile Unit := do
  let c ← get
  match Place.erase? c.tokens c.position with
  | some tokens => set { c with tokens }
  | none => throw .outOfRange

/-- Takes the last token out. -/
def popToken : Compile Token := do
  let c ← get
  match c.tokens.back? with
  | some t =>
    set { c with tokens := c.tokens.pop }
    return t
  | none => throw .outOfRange

/-- Puts tokens in behind the current position. -/
def spliceAfter (block : List Token) : Compile Unit :=
  modify fun c => { c with tokens := Place.splice c.tokens (c.position + 1) block }

/-- Reads a further text. Where it cannot be read on, the position is left there. -/
def readTokens (text : String) : Compile (List Token) := do
  let reading := Lexer.read text
  match reading.ending with
  | .finished => return reading.tokens
  | .unknown c =>
    modify fun s => { s with position := reading.consumed }
    fail ("Unknown character: " ++ c.toString ++ " at " ++ toString (← get).line ++ ": " ++
      reading.consumed.repr)
  | .overlong =>
    modify fun s => { s with position := reading.consumed }
    throw .numeralTooLong

/-- The first attempt that succeeds; those after it are not made. -/
def firstOf : List (Compile Bool) → Compile Bool
  | [] => return false
  | attempt :: others => do
    if ← attempt then return true
    firstOf others

/-- A mismatch ends the action quietly. -/
def endingQuietly (action : Compile Unit) : Compile Unit :=
  tryCatch action fun e => if e.isMismatch then pure () else throw e

end PlotScript.Compile
