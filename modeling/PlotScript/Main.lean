import PlotScript.CommandLine

/-! The program itself: it fetches the files that a script needs and plays the events of the
command line at the terminal. -/

namespace PlotScript.Terminal

def readText? (path : String) : IO (Option String) := do
  try
    return some (← IO.FS.readFile path)
  catch _ =>
    return none

/-- The names that stand behind the word `import`. -/
def importedNames (c : Compiler) : List String :=
  let tokens := c.tokens.toList
  (tokens.zip (tokens.drop 1)).filterMap fun (t, next) =>
    if t.is "import" then next.text? else none

/-- The names that a script imports when it is compiled with the given files. -/
def namesNeeded (files : Files) (text : String) : List String :=
  match Compiler.ofCode files text with
  | .error _ => []
  | .ok c =>
    match Compile.run c with
    | .ok _ c => importedNames c
    | .error _ c => importedNames c

/-- Adds the modules that a script needs, and then those that they need. -/
partial def fetchModules (files : Files) (text : String) : IO Files := do
  let mut found := files
  for name in namesNeeded files (Text.unifyNewlines text) do
    let path := Library.localPath name
    if (found.lookup path).isNone then
      if let some text ← readText? path then found := (path, text) :: found
  if found.length = files.length then return files
  fetchModules found text

def fetchFiles (args : List String) : IO Files := do
  match args with
  | [] => return []
  | path :: _ =>
    match ← readText? path with
    | none => return []
    | some text => fetchModules [(path, text)] text

/-- Shows an event. A copied text is shown as well, so nothing is to be done for it. -/
def play : Event → IO Unit
  | .shown text => do
    IO.print text
    (← IO.getStdout).flush
  | .command name => do
    if name = "cls" then IO.print (Style.escape "0" ++ "\x1b[2J\x1b[H")
    if name = "pause" then discard (← IO.getStdin).getLine
  | .copied _ => return

end PlotScript.Terminal

open PlotScript in
def main (args : List String) : IO UInt32 := do
  let files ← Terminal.fetchFiles args
  if args.isEmpty then
    (CommandLine.clear :: CommandLine.askForPath).forM Terminal.play
    let input ← (← IO.getStdin).getLine
    return if (CommandLine.start [] input files).ending = .exited then 0 else 1
  let outcome := CommandLine.start args "" files
  outcome.events.forM Terminal.play
  return match outcome.ending with
    | .failed _ => 1
    | _ => 0
