import PlotScript.Program
import PlotScript.Scope.Printed

/-! What happens around a compilation, in order: text that is shown, commands of the terminal
and texts put on the clipboard. -/

namespace PlotScript

inductive Event
  | shown (text : String)
  | command (name : String)
  | copied (text : String)
  deriving DecidableEq, Repr

namespace Event

def line (text : String) : Event := .shown (text ++ "\n")

def shown? : Event → Option String
  | .shown text => some text
  | _ => none

def command? : Event → Option String
  | .command name => some name
  | _ => none

def copied? : Event → Option String
  | .copied text => some text
  | _ => none

end Event

/-- The events of a compilation and the fault that ended it, if one did. -/
structure Transcript where
  events : List Event
  fault : Option Fault
  deriving Repr

namespace Transcript

/-- All that is shown. -/
def shownText (events : List Event) : String :=
  String.join (events.filterMap Event.shown?)

end Transcript

namespace Compiler

/-- The lines printed so far. -/
def printedEvents (c : Compiler) : List Event :=
  c.printed.toList.map Event.line

/-- A mistake is shown, in debug mode with all names, before the terminal waits. -/
def mistakeEvents (c : Compiler) (file : String) (debug : Bool) (d : Diagnostic) : List Event :=
  [Event.line (d.render file)] ++
  (if debug then
    [Event.line (Style.purple ++ " Debug Info: " ++ Style.plain), Event.line c.names.printed]
  else []) ++
  [.command "pause"]

/-- Compiles the script called `file`. -/
def execute (c : Compiler) (file : String) (debug : Bool) : Transcript :=
  match Compile.run c with
  | .ok document c => ⟨c.printedEvents ++ document.toList.map Event.copied, none⟩
  | .error (.diagnostic d) c =>
    ⟨c.printedEvents ++ c.mistakeEvents file debug d, some (.diagnostic d)⟩
  | .error fault c => ⟨c.printedEvents, some fault⟩

end Compiler
end PlotScript
