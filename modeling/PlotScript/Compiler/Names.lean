import PlotScript.Compiler.Writer
import PlotScript.Text.Quoted

/-! Names and the path of scopes that they are looked up along. -/

namespace PlotScript.Compile

def pushScope (name : String) : Compile Unit :=
  modify fun c => { c with scope := c.scope ++ [name] }

def popScope : Compile Unit := do
  let c ← get
  if c.scope.isEmpty then throw .outOfRange
  set { c with scope := c.scope.dropLast }

/-- The name of the innermost scope. -/
def innermost : Compile String := do
  match (← get).scope.getLast? with
  | some name => return name
  | none => throw .outOfRange

def resolve (path : List String) : Compile Binding := do
  match (← get).names.resolve path with
  | .ok value => return value
  | .error e => throw e

def setNames (names : Except Fault Table) : Compile Unit :=
  match names with
  | .ok names => modify fun c => { c with names }
  | .error e => throw e

/-- Binds a name at a path, making the scopes on the way. -/
def addName (path : List String) (name : String) (value : Binding) : Compile Unit := do
  setNames ((← get).names.add path name value)

/-- Binds a name at a path that exists. -/
def assignName (path : List String) (name : String) (value : Binding) : Compile Unit := do
  setNames ((← get).names.assign path name value)

/-- Checks that a name could be bound at a path. -/
def checkAssignable (path : List String) : Compile Unit := do
  match ← resolve path with
  | .table _ => return
  | _ => throw .notTable

/-- Whether a name is bound at the top or along a path. A top name with a dot behind it opens
its scope. -/
def isBound (path : List String) (name : String) : Compile Bool := do
  if (← get).names.has name then
    if ← nextIs "." then pushScope name
    return true
  match (← get).names.boundAlong path name with
  | .ok found => return found
  | .error e => throw e

/-- Binds the name of an assignment in the current scope. -/
def define (name : String) : Compile Unit := do
  addName (← get).scope name .unset
  modify fun c => { c with objectName := name }
  print ("\x7b'__name__': " ++ Text.quoted name ++ "\x7d")

/-- Writes a name as it is called in the current scope. -/
def emitName (name : String) : Compile Unit :=
  tryCatch (emitFrom do subscript ((← innermost) ++ name)) fun
    | .outOfRange => emitFrom (subscript name)
    | e => throw e

/-- Prepares a namespace. A name of the current scope is emptied in the scope around it; a
current scope that does not exist yet only needs a table around it. -/
def reopenScope (name : String) : Compile Unit := do
  let c ← get
  match c.names.resolve c.scope with
  | .ok (.table t) =>
    if Table.has t name then assignName c.scope.dropLast name (.table [])
  | .ok _ => throw .unsupported
  | .error .unknownKey => checkAssignable c.scope.dropLast
  | .error e => throw e

end PlotScript.Compile
