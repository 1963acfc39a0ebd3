import PlotScript.Place
import PlotScript.Style

/-! What can go wrong. A diagnostic is a mistake in the script, shown with its line; every
other fault is named by its cause. -/

namespace PlotScript

/-- A mistake in a script: its message, the number of its line and the text of that line. -/
structure Diagnostic where
  message : String
  line : Int
  source : String
  deriving DecidableEq, Repr

inductive Fault
  | diagnostic (d : Diagnostic)
  | noToken
  | noTarget
  | notTable
  | notText
  | outOfRange
  | unknownKey
  | unsupported
  | numeralTooLong
  | fileNotFound
  | invalidPath
  | pathTooLong
  | isDirectory
  | endOfInput
  | exhausted
  deriving DecidableEq, Repr

namespace Diagnostic

/-- A mistake on a line of a text. Lines count from one; at zero and below they count back from
the end. There is no report without such a line. -/
def locate (message : String) (lines : List String) (line : Int) : Except Fault Diagnostic :=
  match Place.get? lines.toArray (line - 1) with
  | some source => .ok ⟨message, line, source⟩
  | none => .error .outOfRange

def summary (d : Diagnostic) : String :=
  "Syntax Error: " ++ d.message

/-- The report for the script called `file`: a caret for each character of the line and one
more. -/
def render (file : String) (d : Diagnostic) : String :=
  "\nTraceback (most recent call last):\nFile " ++
  Style.blue ++ "\"<" ++ file ++ ">\"" ++ Style.plain ++ ", line " ++
  Style.blue ++ toString d.line ++ Style.plain ++ ", in " ++
  Style.blue ++ "<module>" ++ Style.plain ++ ":\n    " ++ d.source ++ "\n    " ++
  "".pushn '^' (d.source.length + 1) ++
  "\nSyntax Error: " ++ Style.red ++ d.message ++ Style.plain

end Diagnostic

namespace Fault

/-- Something of one kind stood where another was needed. -/
def isMismatch : Fault → Bool
  | .noToken | .noTarget | .notTable | .notText => true
  | _ => false

end Fault

/-- An action whose holder may have run out of tokens. `held` is the token that the holder
shows: no holder at all is a fault of its own, and a mismatch without a token is a quiet end. -/
def endQuietly {ε α τ : Type} (isMismatch : ε → Bool) (unheld : ε) (held : Option (Option τ))
    (result : Except ε α) : Except ε Unit :=
  match result with
  | .ok _ => .ok ()
  | .error e =>
    if isMismatch e then
      match held with
      | none => .error unheld
      | some none => .ok ()
      | some (some _) => .error e
    else .error e

end PlotScript
