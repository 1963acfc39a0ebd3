import PlotScript.Scope
import PlotScript.Text.Quoted

/-! Tables as people read them: names sorted, on one line where it fits into eighty columns,
else one name a line with what it holds indented behind it. -/

namespace PlotScript

def pageWidth : Nat := 80

mutual

/-- The binding with the names of every table in it sorted. -/
def Binding.sorted : Binding → Binding
  | .table t => .table ((sortedEach t).mergeSort fun a b => a.1 ≤ b.1)
  | .list items => .list (sortedItems items)
  | b => b

def sortedEach : List (String × Binding) → List (String × Binding)
  | [] => []
  | (name, value) :: rest => (name, value.sorted) :: sortedEach rest

def sortedItems : List Binding → List Binding
  | [] => []
  | item :: rest => item.sorted :: sortedItems rest

end

mutual

/-- The binding on one line. -/
def Binding.flat : Binding → String
  | .unset => "None"
  | .number n => toString n
  | .decimal d => d.text
  | .truth b => if b then "True" else "False"
  | .text s => Text.quoted s
  | .list items => "[" ++ ", ".intercalate (flatItems items) ++ "]"
  | .table t => "\x7b" ++ ", ".intercalate (flatEach t) ++ "\x7d"

def flatEach : List (String × Binding) → List String
  | [] => []
  | (name, value) :: rest => (Text.quoted name ++ ": " ++ value.flat) :: flatEach rest

def flatItems : List Binding → List String
  | [] => []
  | item :: rest => item.flat :: flatItems rest

end

/-- Whether a line from column `indent` on, with `allowance` columns behind it, is on the page. -/
def fitsPage (indent allowance : Nat) (line : String) : Bool :=
  line.length + indent + allowance ≤ pageWidth

/-- The break between two entries of a table or a list that starts in column `indent`. -/
def entryBreak (indent : Nat) : String :=
  ",\n" ++ "".pushn ' ' (indent + 1)

mutual

/-- The binding from column `indent` on, with `allowance` columns kept free behind it. -/
def Binding.wrapped (indent allowance : Nat) : Binding → String
  | .table t =>
    let line := (Binding.table t).flat
    if fitsPage indent allowance line then line
    else "\x7b" ++ wrappedEach indent allowance t ++ "\x7d"
  | .list items =>
    let line := (Binding.list items).flat
    if fitsPage indent allowance line then line
    else "[" ++ wrappedItems indent allowance items ++ "]"
  | b => b.flat

def wrappedEach (indent allowance : Nat) : List (String × Binding) → String
  | [] => ""
  | [(name, value)] =>
    let key := Text.quoted name ++ ": "
    key ++ value.wrapped (indent + 1 + key.length) (allowance + 1)
  | (name, value) :: next :: rest =>
    let key := Text.quoted name ++ ": "
    key ++ value.wrapped (indent + 1 + key.length) 1 ++ entryBreak indent ++
      wrappedEach indent allowance (next :: rest)

def wrappedItems (indent allowance : Nat) : List Binding → String
  | [] => ""
  | [item] => item.wrapped (indent + 1) (allowance + 1)
  | item :: next :: rest =>
    item.wrapped (indent + 1) 1 ++ entryBreak indent ++
      wrappedItems indent allowance (next :: rest)

end

def Table.printed (t : Table) : String :=
  (Binding.table t).sorted.wrapped 0 0

end PlotScript
