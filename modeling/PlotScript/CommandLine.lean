import PlotScript.Transcript

/-! The command line: it takes the path of a script, shows that it is at work, and compiles. -/

namespace PlotScript.CommandLine

/-- How the command ended: at its end, by leaving early, or with a fault. -/
inductive Ending
  | finished
  | exited
  | failed (fault : Fault)
  deriving DecidableEq, Repr

structure Outcome where
  args : List String
  events : List Event
  ending : Ending
  deriving Repr

def clear : Event := .command "cls"

/-- The hint for a command without a path, and the question for one. -/
def askForPath : List Event := [
  Event.line (Style.red ++
    "Failed to start compilation. Are you sure you have passed in the file?\nHint: try " ++
    Style.plain ++ Style.yellow ++ "py interpreter.py foo.graphlang" ++ Style.plain),
  .shown "Input file path: "]

/-- The first line of the input, unless the input is empty. -/
def firstLine? (input : String) : Option String :=
  if input.isEmpty then none else some (String.ofList (input.toList.takeWhile (· ≠ '\n')))

/-- Ten frames, each with thirteen dots more than the one before. -/
def frames : List Event :=
  (List.range 10).flatMap fun i =>
    [clear, Event.line (Style.green ++ "Compiling" ++ "".pushn '.' (13 * i) ++ Style.plain)]

/-- Compiles the text of the script at a path. -/
def compileScript (files : Files) (path text : String) : List Event × Ending :=
  match Compiler.ofCode files text with
  | .error fault => ([], .failed fault)
  | .ok c =>
    let transcript := c.execute path false
    (transcript.events, (transcript.fault.map Ending.failed).getD .finished)

def start (args : List String) (input : String) (files : Files) : Outcome :=
  match args with
  | [] =>
    match firstLine? input with
    | none => ⟨[], clear :: askForPath, .failed .endOfInput⟩
    | some path => ⟨[path], clear :: askForPath, .exited⟩
  | path :: _ =>
    let looking := [clear, Event.line (Style.blue ++ "Looking for - " ++ path ++ Style.plain)]
    match files.read path with
    | .error .fileNotFound =>
      ⟨args, looking ++ [Event.line (Style.red ++
        "Failed to start compilation. Are you sure the file exists?" ++ Style.plain)], .exited⟩
    | .error fault => ⟨args, looking, .failed fault⟩
    | .ok text =>
      let (events, ending) := compileScript files path text
      ⟨args, looking ++ [clear] ++ frames ++ events, ending⟩

end PlotScript.CommandLine
