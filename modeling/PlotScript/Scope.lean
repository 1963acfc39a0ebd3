import PlotScript.Decimal
import PlotScript.Fault

/-! Scopes of names. A table binds names in the order in which they were first bound, and a
bound name may itself hold a table; a path of names leads through tables to a binding. -/

namespace PlotScript

inductive Binding
  | unset
  | number (value : Int)
  | decimal (value : Decimal)
  | truth (value : Bool)
  | text (value : String)
  | list (items : List Binding)
  | table (names : List (String × Binding))
  deriving Inhabited, Repr

abbrev Table := List (String × Binding)

namespace Table

def find? : Table → String → Option Binding
  | [], _ => none
  | (own, value) :: rest, name => if own = name then some value else find? rest name

def has (t : Table) (name : String) : Bool :=
  (t.find? name).isSome

/-- A name that is bound keeps its place; another goes to the end. -/
def bind : Table → String → Binding → Table
  | [], name, value => [(name, value)]
  | (own, old) :: rest, name, value =>
    if own = name then (own, value) :: rest else (own, old) :: bind rest name value

@[simp] theorem find?_bind_self (t : Table) (name : String) (value : Binding) :
    find? (bind t name value) name = some value := by
  induction t with
  | nil => simp [bind, find?]
  | cons entry rest ih =>
    simp only [bind]
    split
    · next h => simp [find?, h]
    · next h => simpa [find?, h] using ih

theorem find?_bind_of_ne (t : Table) {name other : String} (value : Binding)
    (h : other ≠ name) : find? (bind t name value) other = find? t other := by
  induction t with
  | nil => simp [bind, find?, Ne.symm h]
  | cons entry rest ih =>
    simp only [bind]
    split
    · next hn => simp [find?, hn, Ne.symm h]
    · simp only [find?, ih]

end Table

/-- Whether `part` occurs somewhere in a text. -/
def occursIn (part : List Char) : List Char → Bool
  | [] => part.isEmpty
  | c :: cs => part.isPrefixOf (c :: cs) || occursIn part cs

def Binding.isText (text : String) : Binding → Bool
  | .text own => own = text
  | _ => false

/-- Whether a name occurs in a binding: as a bound name of a table, as an item of a list, or
inside a text. -/
def Binding.mentions (name : String) : Binding → Except Fault Bool
  | .table t => .ok (Table.has t name)
  | .list items => .ok (items.any (Binding.isText name))
  | .text s => .ok (occursIn name.toList s.toList)
  | _ => .error .notTable

def Binding.member (name : String) : Binding → Except Fault Binding
  | .table t =>
    match Table.find? t name with
    | some value => .ok value
    | none => .error .unknownKey
  | _ => .error .notTable

/-- The binding at the end of a path. -/
def Binding.resolve : List String → Binding → Except Fault Binding
  | [], b => .ok b
  | name :: path, b =>
    match b.member name with
    | .ok next => next.resolve path
    | .error e => .error e

namespace Table

def resolve (path : List String) (t : Table) : Except Fault Binding :=
  (Binding.table t).resolve path

/-- Binds a name in the table at the end of a path. Tables that are missing on the way are
made; anything else than a table on the way is a fault, and then nothing is made. -/
def add : List String → String → Binding → Table → Except Fault Table
  | [], name, value, t => .ok (t.bind name value)
  | step :: path, name, value, t =>
    match t.find? step with
    | none => (add path name value []).map fun inner => t.bind step (.table inner)
    | some (.table inner) =>
      (add path name value inner).map fun inner => t.bind step (.table inner)
    | some _ => .error .notTable

/-- Binds a name in the table at the end of a path that exists. -/
def assign : List String → String → Binding → Table → Except Fault Table
  | [], name, value, t => .ok (t.bind name value)
  | step :: path, name, value, t =>
    match t.find? step with
    | none => .error .unknownKey
    | some (.table inner) =>
      (assign path name value inner).map fun inner => t.bind step (.table inner)
    | some _ => .error .notTable

/-- Whether a name is bound in one of the scopes along a path, the outermost table itself not
counted. A path that breaks off binds nothing, whatever was found before. -/
def boundAlong (path : List String) (name : String) (t : Table) : Except Fault Bool :=
  go path false (.table t)
where
  go : List String → Bool → Binding → Except Fault Bool
    | [], found, _ => .ok found
    | step :: path, found, b => do
      if ← b.mentions step then
        let next ← b.member step
        let here ← next.mentions name
        go path (found || here) next
      else return false

end Table

/-- Functions that every script may call. -/
def builtinFunctions : List String := [
  "hsv", "rgb", "sin", "cos", "tan", "csc", "sec", "cot", "arcsin", "arcos", "arctangent",
  "arccosecant", "arcsecant", "arccotangent", "mean", "median", "min", "max", "quartile",
  "quantile", "stdev", "stdevp", "varp", "mad", "cov", "covp", "corr", "spearman", "stats",
  "count", "total", "join", "sort", "shuffle", "unique", "histogram", "dotplot", "boxplot",
  "random", "exp", "ln", "log", "int", "sum", "prod", "tone", "lcm", "sqrt", "polygon"]

/-- Names that every script may use: the functions and the coordinates. -/
def builtinNames : List String := builtinFunctions ++ ["X", "Y", "x", "y"]

def Table.initial : Table := builtinNames.map fun name => (name, .unset)

/-- The table without the built-in names that nothing was bound to. -/
def Table.withoutBuiltins (t : Table) : Table :=
  t.filter fun (name, value) =>
    match value with
    | .unset => !builtinNames.contains name
    | _ => true

end PlotScript
