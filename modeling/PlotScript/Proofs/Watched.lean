import PlotScript.Program
import PlotScript.Proofs.Progress

/-! Programs under watch. Wherever a form of the grammar is entered or left, a watch may stop the
program. The states that a program goes through there are those in which it can be stopped. -/

namespace PlotScript
open Compile Grammar

inductive Form
  | statement (fresh : Bool)
  | namespaceBlock | function | note | macroDefinition | importModule
  | conditional | furtherCondition | otherwise | condition
  | expression | operator | call | macroCall | value | list | listAccess | point | comprehension
  | block
  deriving DecidableEq, Repr

/-- A form is left with a result or with a fault. -/
inductive Moment
  | entering (form : Form)
  | leaving (form : Form)
  deriving DecidableEq, Repr

abbrev Watch := Moment → Compiler → Bool

/-- The watch that lets everything pass. -/
def Watch.never : Watch := fun _ _ => false

namespace Watched

/-- Stops with a fault that no form reports and none passes over. -/
def pause (watch : Watch) (moment : Moment) : Compile Unit := do
  if watch moment (← get) then throw .endOfInput

def watched {α : Type} (watch : Watch) (form : Form) (body : Compile α) : Compile α := do
  pause watch (.entering form)
  let result ← tryCatch body fun e => do
    pause watch (.leaving form)
    throw e
  pause watch (.leaving form)
  return result

/-- Opens an entry of its own for a statement, unless it goes on with the one that is open, and
gives the entry the next id. -/
def openStamped (fresh : Bool) : Compile Unit := do
  if fresh then openBlank
  stampEntry

section forms
variable (watch : Watch) (down : Descent)

-- The forms that are made of other forms. All others only go on to the descent.

def operation : Compile Unit := do
  if ← watched watch .operator operator then down.tryExpression

def listAccess : Compile Bool :=
  watched watch .listAccess do
    if ← currentIs "[" then watched watch .list (list down) else return false

def value : Compile Bool :=
  watched watch .value do
    match (← get).current with
    | none => return true
    | some t =>
      unless t.isKind .name || t.isNumeral || t.isOneOf ["-", "+"] do return false
      if t.is "-" then
        emit "-"
        advance
      let t ← current
      match t.name? with
      | some name => nameValue down name
      | none => emit t.shown
      advance
      discard (listAccess watch down)
      return true

def comprehension : Compile Bool :=
  watched watch .comprehension do
    let t ← current
    unless t.isKind .name do
      unless ← nextIs "," do return false
    emitFrom (wordText t)
    advance
    unless ← currentIs "for" do fail "Expected 'for'"
    emit "\\operatorname\x7bfor\x7d"
    advance
    match (← current).name? with
    | none => fail "Expected identifier after 'for'"
    | some name =>
      emit name
      advance
      unless ← currentIs "=" do fail "expected '=' "
      advance
      emit "="
      unless ← watched watch .list (list down) do fail (name ++ " must be a list, not")
      advance
      return true

def condition : Compile Unit :=
  watched watch .condition do
    unless ← value watch down do fail "Expected value"
    let t ← current
    unless t.isOneOf comparisons do fail ("Unexpected operator type for if: " ++ t.shown)
    emit t.shown
    advance
    unless ← value watch down do fail ("Expected value after " ++ t.shown)

def branch (opening : Compile Unit) : Compile Unit := do
  unless ← currentIs "\x7b" do fail "Expected \x7b"
  advance
  opening
  skipBlank
  unless ← value watch down do fail "If branches must be values"
  skipBlank
  unless ← currentIs "\x7d" do fail "Expected \x7d"
  advance

def otherwise : Compile Bool :=
  watched watch .otherwise do
    unless ← currentIs "else" do return false
    advance
    branch watch down (pure ())
    return true

def furtherCondition : Nat → Compile Bool
  | 0 => throw .exhausted
  | rounds + 1 =>
    watched watch .furtherCondition do
      unless ← currentIs "elif" do return false
      advance
      condition watch down
      branch watch down (emit ":")
      chainTail (furtherCondition rounds) (otherwise watch down)
      return true

def conditional : Compile Bool :=
  watched watch .conditional do
    unless ← currentIs "if" do return false
    advance
    emit "\\left\\\x7b"
    condition watch down
    branch watch down (emit ":")
    chainTail (furtherCondition watch down down.rounds) (otherwise watch down)
    emit "\\right\\\x7d"
    return true

def pointFirst : Compile Bool := do
  let text ← latex
  let position := (← get).position
  let attempt : Compile Bool := do
    if ← watched watch .point (point down) then
      operation watch down
      atEnd [",", "]", ")"]
    else
      rewind position text
      return false
  tryCatch attempt fun
    | .diagnostic _ => do
      rewind position text
      return false
    | e => throw e

def term : Compile Bool :=
  firstOf [watched watch .call (call down), watched watch .macroCall macroCall, value watch down,
    watched watch .list (list down), watched watch .point (point down), comprehension watch down,
    watched watch .block (block down)]

def operand : Compile Bool := do
  if ← currentIs "(" then
    bracketed down
    return true
  term watch down

def expressionFrom : Compile Verdict :=
  watched watch .expression do
    if ← pointFirst watch down then return .accepted
    advance
    unless ← operand watch down do return .refused
    operation watch down
    if ← atEnd [",", "]", ")", "\x7d"] then return .accepted
    return .dangling

def statementFrom (fresh : Bool) : Compile Unit :=
  watched watch (.statement fresh) do
    if (← get).current.isNone then return
    skipNewlines
    openStamped fresh
    let expression : Compile Bool := return (← expressionFrom watch down) = .accepted
    unless ← firstOf [watched watch .namespaceBlock (namespaceBlock down),
        watched watch .function (function down), expression, watched watch .note note,
        watched watch .macroDefinition macroDefinition, watched watch .importModule importModule,
        conditional watch down] do
      fail "Expected statement"
    advance

end forms

/-- Everything below a budget of levels, under watch. -/
def descent (watch : Watch) : Nat → Descent
  | 0 => ⟨0, throw .exhausted, fun _ => throw .exhausted⟩
  | levels + 1 =>
    ⟨levels + 1, expressionFrom watch (descent watch levels),
      statementFrom watch (descent watch levels)⟩

section never

@[simp] theorem watched_never {α : Type} (form : Form) (body : Compile α) :
    watched .never form body = body := by
  funext c
  simp only [watched, pause, Watch.never, bind_apply, get_apply, Bool.false_eq_true, if_false,
    pure_apply, tryCatch_apply, throw_apply]
  cases body c <;> rfl

variable (down : Descent)

@[simp] theorem operation_never : operation .never down = Grammar.operation down := by
  simp [operation, Grammar.operation]

@[simp] theorem listAccess_never : listAccess .never down = Grammar.listAccess down := by
  simp [listAccess, Grammar.listAccess]

@[simp] theorem value_never : value .never down = Grammar.value down := by
  unfold value
  simp only [watched_never, listAccess_never]
  rfl

@[simp] theorem comprehension_never : comprehension .never down = Grammar.comprehension down := by
  unfold comprehension
  simp only [watched_never]
  rfl

@[simp] theorem condition_never : condition .never down = Grammar.condition down := by
  unfold condition Grammar.condition
  simp only [watched_never, value_never]

@[simp] theorem branch_never (opening : Compile Unit) :
    branch .never down opening = Grammar.branch down opening := by
  unfold branch Grammar.branch
  simp only [value_never]

@[simp] theorem otherwise_never : otherwise .never down = Grammar.otherwise down := by
  unfold otherwise Grammar.otherwise
  simp only [watched_never, branch_never]

@[simp] theorem furtherCondition_never (rounds : Nat) :
    furtherCondition .never down rounds = Grammar.furtherCondition down rounds := by
  induction rounds with
  | zero => rfl
  | succ rounds ih =>
    unfold furtherCondition Grammar.furtherCondition
    simp only [watched_never, condition_never, branch_never, otherwise_never, ih]

@[simp] theorem conditional_never : conditional .never down = Grammar.conditional down := by
  unfold conditional Grammar.conditional
  simp only [watched_never, condition_never, branch_never, furtherCondition_never, otherwise_never]

@[simp] theorem pointFirst_never : pointFirst .never down = Grammar.pointFirst down := by
  unfold pointFirst
  simp only [watched_never, operation_never]
  rfl

@[simp] theorem operand_never : operand .never down = Grammar.operand down := by
  unfold operand Grammar.operand term Grammar.term
  simp only [watched_never, value_never, comprehension_never]

@[simp] theorem expressionFrom_never :
    expressionFrom .never down = Grammar.expressionFrom down := by
  unfold expressionFrom Grammar.expressionFrom
  simp only [watched_never, pointFirst_never, operand_never, operation_never]

@[simp] theorem statementFrom_never (fresh : Bool) :
    statementFrom .never down fresh = Grammar.statementFrom down fresh := by
  unfold statementFrom Grammar.statementFrom openStamped
  simp only [watched_never, expressionFrom_never, conditional_never]
  cases fresh <;> simp only [Bool.false_eq_true, if_true, if_false, bind_assoc]

/-- A watch that lets everything pass changes nothing. -/
theorem descent_never (levels : Nat) : descent .never levels = Grammar.descent levels := by
  induction levels with
  | zero => rfl
  | succ levels ih =>
    unfold descent
    rw [ih]
    have hexpression := expressionFrom_never (Grammar.descent levels)
    have hstatement := funext (statementFrom_never (Grammar.descent levels))
    rw [hexpression, hstatement]
    rfl

end never
end Watched

/-- The script can come into a state at a moment, with whatever budget. -/
def Reached (files : Files) (code : String) (moment : Moment) (s : Compiler) : Prop :=
  ∃ c levels watch, Compiler.ofCode files code = .ok c ∧
    (∀ m s', watch m s' = true → m = moment) ∧
    program (Watched.descent watch levels) { c with line := c.line + 1 } = .error .endOfInput s

end PlotScript
