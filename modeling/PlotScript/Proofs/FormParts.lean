import PlotScript.Proofs.Naming
import PlotScript.Proofs.Watched

/-! Forms of the grammar in parts. An expression first tries to read a point and goes back if that
fails, a namespace makes a folder before its statements are read, and a statement tries one form
after the other. -/

namespace PlotScript
open Compile Grammar

/-- A point and the operation behind it, and whether the expression ends there. -/
def attempt (point : Compile Bool) (operation : Compile Unit) : Compile (Option Bool) := do
  if ← point then
    operation
    return some (← atEnd [",", "]", ")"])
  return none

/-- Without a token there is nothing to attempt. -/
theorem attempt_of_none {down : Descent} {c : Compiler} (h : c.current = none) :
    attempt (point down) (operation down) c = .error .noToken c := by
  simp [attempt, point, currentIs, current, h]

/-- Does something else where an attempt finds nothing or ends with a mistake. -/
def retrying (attempt : Compile (Option Bool)) (back : Compile Bool) : Compile Bool := do
  match ← tryCatch attempt fun
    | .diagnostic _ => return none
    | e => throw e with
  | some done => return done
  | none => back

theorem retrying_apply (x : Compile (Option Bool)) (back : Compile Bool) (c : Compiler) :
    retrying x back c = match x c with
      | .ok (some done) d => .ok done d
      | .ok none d => back d
      | .error (.diagnostic _) d => back d
      | .error e d => .error e d := by
  unfold retrying
  rw [bind_apply, tryCatch_apply]
  cases x c with
  | ok found d => cases found <;> rfl
  | error e d => cases e <;> rfl

/-- It makes no difference whether going back is part of the attempt, if it makes no mistake. -/
theorem retrying_attempt (point back : Compile Bool) (operation : Compile Unit)
    (hback : ∀ c d m, back c ≠ .error (.diagnostic m) d) :
    retrying (attempt point operation) back =
      tryCatch (point >>= fun found =>
        if found = true then operation >>= fun _ => atEnd [",", "]", ")"] else back) fun
        | .diagnostic _ => back
        | e => throw e := by
  funext c
  rw [retrying_apply, attempt, tryCatch_apply, bind_apply, bind_apply]
  cases point c with
  | error e d => cases e <;> rfl
  | ok found d =>
    cases found with
    | true =>
      simp only [if_true, bind_apply]
      cases operation d with
      | error e d => cases e <;> rfl
      | ok _ d =>
        dsimp only
        cases atEnd [",", "]", ")"] d with
        | error e d => cases e <;> rfl
        | ok done d => rfl
    | false =>
      simp only [Bool.false_eq_true, if_false, pure_apply]
      cases hrun : back d with
      | ok _ d => rfl
      | error e d =>
        cases e with
        | diagnostic m => exact absurd hrun (hback _ _ _)
        | _ => rfl

theorem rewind_ne_diagnostic (position : Int) (text : String) (c d : Compiler) (m : Diagnostic) :
    (rewind position text >>= fun _ => pure false) c ≠ .error (.diagnostic m) d := by
  simp only [rewind, setLatex, updateLastEntry, setLastEntry, bind_apply, modify_apply]
  cases hopen : Compiler.openEntries? { c with position := position - 1 } with
  | none => simp [lastEntry, hopen]
  | some entries => cases hback : entries.back? <;> simp [lastEntry, hopen, hback]

theorem Watched.pointFirst_eq (watch : Watch) (down : Descent) :
    Watched.pointFirst watch down = (do
      let text ← latex
      let position := (← get).position
      retrying (attempt (watched watch .point (point down)) (Watched.operation watch down)) (do
        rewind position text
        return false)) := by
  refine congrArg (latex >>= ·) (funext fun text => ?_)
  refine congrArg (get >>= ·) (funext fun c => ?_)
  exact (retrying_attempt _ _ _ (rewind_ne_diagnostic c.position text)).symm

theorem Grammar.pointFirst_eq (down : Descent) : pointFirst down = (do
    let text ← latex
    let position := (← get).position
    retrying (attempt (point down) (operation down)) (do
      rewind position text
      return false)) := by
  rw [← Watched.pointFirst_never, Watched.pointFirst_eq, Watched.watched_never,
    Watched.operation_never]

/-- An expression that does not begin with a point. -/
def Watched.operandFirst (watch : Watch) (down : Descent) : Compile Verdict := do
  unless ← operand watch down do return .refused
  operation watch down
  if ← atEnd [",", "]", ")", "\x7d"] then return .accepted
  return .dangling

theorem Watched.operandFirst_never (down : Descent) :
    operandFirst .never down = (do
      unless ← Grammar.operand down do return .refused
      Grammar.operation down
      if ← atEnd [",", "]", ")", "\x7d"] then return .accepted
      return .dangling) := by
  unfold operandFirst
  rw [operand_never, operation_never]

theorem Watched.expressionFrom_eq (watch : Watch) (down : Descent) :
    expressionFrom watch down = watched watch .expression (do
      if ← pointFirst watch down then return .accepted
      advance
      operandFirst watch down) := rfl

/-- The name of a namespace, which becomes the innermost scope. -/
def enterScope : Compile String := do
  advance
  match (← current).name? with
  | none => fail "Expected identifier"
  | some name =>
    reopenScope name
    pushScope name
    return name

/-- A namespace up to its name. The open entry becomes a folder of that title, and what follows
lies in there. -/
def openNamespace : Compile Unit := do
  let id := (← get).lastId
  updateLastEntry fun _ => .folder id none []
  let name ← enterScope
  updateLastEntry (Entry.setTitle name)
  modify fun c => { c with folder := some c.lastId }

/-- A namespace behind its name. -/
def namespaceBody (down : Descent) : Compile Bool := do
  advance
  unless ← currentIs "\x7b" do fail "Expected \x7b after namespace definition"
  advance
  endingQuietly (loop (namespaceStatement down) down.rounds)
  popScope
  advance
  return true

theorem namespaceBlock_eq (down : Descent) :
    namespaceBlock down = (do
      unless ← currentIs "ns" do return false
      openNamespace
      namespaceBody down) := by
  unfold namespaceBlock openNamespace enterScope namespaceBody
  refine congrArg (currentIs "ns" >>= ·) (funext fun found => ?_)
  cases found
  · rfl
  · simp only [if_true, bind_assoc]
    refine congrArg (get >>= ·) (funext fun c => ?_)
    refine congrArg (updateLastEntry _ >>= ·) (funext fun _ => ?_)
    refine congrArg (advance >>= ·) (funext fun _ => ?_)
    refine congrArg (current >>= ·) (funext fun t => ?_)
    cases t.name? with
    | none => exact (fail_bind _ _).symm
    | some name => simp only [bind_assoc, pure_bind]

/-- A statement whose expression is read in the given way. -/
def Watched.statementWith (watch : Watch) (down : Descent) (expression : Compile Verdict)
    (fresh : Bool) : Compile Unit :=
  watched watch (.statement fresh) do
    if (← get).current.isNone then return
    skipNewlines
    openStamped fresh
    let accepts : Compile Bool := return (← expression) = .accepted
    unless ← firstOf [watched watch .namespaceBlock (namespaceBlock down),
        watched watch .function (function down), accepts, watched watch .note note,
        watched watch .macroDefinition macroDefinition, watched watch .importModule importModule,
        conditional watch down] do
      fail "Expected statement"
    advance

theorem Grammar.statementFrom_eq (down : Descent) (fresh : Bool) :
    statementFrom down fresh = Watched.statementWith .never down (expressionFrom down) fresh := by
  rw [← Watched.statementFrom_never, ← Watched.expressionFrom_never]
  rfl

end PlotScript
