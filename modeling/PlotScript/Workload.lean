import PlotScript.Program

/-! Scripts of any size that exercise one part of the language each. A workload has a usual
size and a script for every size. -/

namespace PlotScript

structure Workload where
  usualSize : Nat
  script : Nat → String

namespace Workload

def joinLines (lines : List String) : String := "\n".intercalate lines

/-- The lines that `part` gives for each number below `size`. -/
def each (size : Nat) (part : Nat → List String) : List String :=
  (List.range size).flatMap part

/-- Takes the texts in turn, and from the first again after the last. -/
def cycle (texts : List String) (size : Nat) : List String :=
  each size fun i => texts[i % texts.length]?.toList

/-- A text in braces. -/
def braced (text : String) : String := "\x7b" ++ text ++ "\x7d"

def opening (head : String) : String := head ++ " \x7b"

def closing : String := "\x7d"

/-- One line of every kind of token. -/
def tokenLines : List String := [
  "1,2,3,4,5,6,7,8,9,0,1,2,3,4,5,6,7,8,9,0",
  "a = [1,2,3,4,5,6,7,8,9,0]",
  "b = (1,2) + (3,4) - (5,6)",
  "fn F(a, b, c) " ++ braced " a + b * c ",
  "ns N " ++ braced " x = 1 ",
  "# comment",
  "'n'",
  "if x < 1 " ++ braced "1" ++ " else " ++ braced "2"]

def tokens : Workload where
  usualSize := 100
  script n := joinLines (cycle tokenLines n)

/-- A note, then conditionals, functions and actions in turn. -/
def wholeScript : Workload where
  usualSize := 100
  script n := joinLines <| "\"top level note\"" :: each n fun i =>
    if i % 3 = 0 then
      ["if x < " ++ i.repr ++ " " ++ braced i.repr ++ " else " ++ braced (i + 1).repr]
    else if i % 3 = 1 then
      [opening ("fn F" ++ i.repr ++ "(a, b, c, d)"), "a + b + c + d", closing]
    else ["a" ++ i.repr ++ " = " ++ i.repr ++ " -> " ++ i.repr ++ " + 1"]

/-- One script for each mistake. -/
def mistakes : List String := [
  "fn 1",
  "fn f 1",
  "fn f(a b) " ++ braced "a",
  "fn f(a) a",
  joinLines ["fn f(a) \x7b", "a", "b"],
  "ns 1",
  "ns A 1",
  "y = undefinedVar",
  "if x " ++ braced "1",
  "if x < 1 1",
  "macro M(a)",
  "macro M! 1",
  "macro M!(a b)",
  "macro M!(a) a",
  "Missing!()",
  "[1 2]",
  "sin 1",
  "fn f(a) " ++ braced " fn ",
  "if x < 1 " ++ braced "[1]"]

/-- How many scripts with a mistake are usually compiled. -/
def usualMistakes : Nat := 100

/-- Conditionals of four branches each. -/
def conditionals : Workload where
  usualSize := 100
  script n := joinLines <| each n fun i => [
    "if x < " ++ i.repr ++ " " ++ braced i.repr ++
    " elif x > " ++ (100 + i).repr ++ " " ++ braced (i + 1).repr ++
    " elif x < " ++ (200 + i).repr ++ " " ++ braced (i + 2).repr ++
    " else " ++ braced (i + 3).repr]

/-- Functions, and a namespace that calls them. -/
def functions : Workload where
  usualSize := 100
  script n := joinLines <|
    each n (fun i =>
      [opening ("fn Func" ++ i.repr ++ "(a, b, c)"), "a + b * c - sin(a) + cos(b)", closing]) ++
    [opening "ns Calls"] ++
    each n (fun i => [
      "r" ++ i.repr ++ " = Func" ++ i.repr ++ "(1, 2, 3) + polygon((0, 0), (1, 1))",
      "c" ++ i.repr ++ " = rgb(" ++ i.repr ++ ", " ++ (i + 1).repr ++ ", " ++
        (i + 2).repr ++ ")"]) ++
    [closing]

/-- An imported module in front of a namespace of long lists. -/
def imports : Workload where
  usualSize := 100
  script n := joinLines <|
    ["import colors", "", "", "", opening "ns Extra"] ++
    each n (fun i =>
      ["e" ++ i.repr ++ " = [" ++ ", ".intercalate ((List.range 20).map Nat.repr) ++ "]"]) ++
    [closing]

/-- Macros with parameters, and one that makes an object. -/
def macros : Workload where
  usualSize := 30
  script n := joinLines <|
    each n (fun i =>
      [opening ("macro M" ++ i.repr ++ "!(p, q, s)"), "a b c d e f g h i j k l m n o p q r\x7d"]) ++
    [opening "macro Box!(__name__)", "ns " ++ braced "__name__" ++ " " ++ braced "w = 1",
      closing, "Box!()"]

/-- A namespace, then notes, actions, references to it and brackets in turn. -/
def mixture : Workload where
  usualSize := 100
  script n := joinLines <|
    [opening "ns Lib", "base = 1", closing] ++
    each n (fun i => [
      "'note number " ++ i.repr ++ "'",
      "act" ++ i.repr ++ " = " ++ i.repr ++ " -> " ++ i.repr ++ " + 1",
      "val" ++ i.repr ++ " = Lib.base + " ++ i.repr,
      "",
      "par" ++ i.repr ++ " = (1 + 2) * " ++ i.repr])

/-- The assignments of one member of a namespace, in five kinds. -/
def member (i : Nat) : List String :=
  let head := "v" ++ i.repr ++ " = "
  match i % 5 with
  | 0 => [head ++ i.repr ++ " + " ++ (i + 1).repr ++ " * 2 - 3"]
  | 1 => [head ++ "(" ++ i.repr ++ ", " ++ (i + 1).repr ++ ")"]
  | 2 => [head ++ "[" ++ ", ".intercalate ((List.range 4).map fun k => (i + k).repr) ++ "]"]
  | 3 => [head ++ "-" ++ i.repr ++ "^2"]
  | _ => [head ++ "[1, 2, 3]", "w" ++ i.repr ++ " = v" ++ i.repr ++ "[1]"]

def namespaces : Workload where
  usualSize := 100
  script n := joinLines <|
    [opening "ns Shapes"] ++ each n member ++ [closing] ++
    [opening "ns Other", "a = 1", "b = a + 2", closing]

/-- Compiles a script; a fault leaves what was done before it. -/
def compile (script : String) : Except Fault (Compiler × Option Fault) := do
  let c ← Compiler.ofCode [] script
  match Compile.run c with
  | .ok _ c => return (c, none)
  | .error fault c => return (c, some fault)

/-- The functions of a script in alphabetical order. -/
def sortedFunctions (c : Compiler) : List String :=
  c.functions.mergeSort fun a b => a ≤ b

/-- How many names are usually bound. -/
def usualNames : Nat := 100

/-- Binds names in a scope of their own, and adds up how long they are when written and how
many are bound. -/
def bindNames (size : Nat) : Compile (Nat × Nat) := do
  let mut length := 0
  let mut bound := 0
  for i in List.range size do
    let name := "nm" ++ i.repr
    Compile.addName ["outer", "inner"] name .unset
    length := length + (← Compile.subscript name).length
    if ← Compile.isBound ["outer", "inner"] name then bound := bound + 1
  return (length, bound)

end Workload
end PlotScript
