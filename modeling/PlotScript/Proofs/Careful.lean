import PlotScript.Proofs.Stopping

/-! The careful reading. It stops where something may stay open: where a statement or the rest of a
conditional breaks off, where an attempt is given up inside a scope, and where an entry would be
made while another one is written. -/

namespace PlotScript
open Compile Grammar

namespace Careful

/-- A mismatch stops the reading. -/
def heeding {α : Type} (action : Compile α) : Compile α :=
  tryCatch action fun e => throw (if e.isMismatch then .endOfInput else e)

def chainTail (further last : Compile Bool) : Compile Unit :=
  heeding do
    if ← currentIs "elif" then
      emit ","
      discard further
    else if ← currentIs "else" then
      emit ","
      discard last

def furtherCondition (down : Descent) : Nat → Compile Bool
  | 0 => throw .exhausted
  | rounds + 1 => do
    unless ← currentIs "elif" do return false
    advance
    condition down
    branch down (emit ":")
    chainTail (furtherCondition down rounds) (otherwise down)
    return true

def conditional (down : Descent) : Compile Bool := do
  unless ← currentIs "if" do return false
  advance
  emit "\\left\\\x7b"
  condition down
  branch down (emit ":")
  chainTail (furtherCondition down down.rounds) (otherwise down)
  emit "\\right\\\x7d"
  return true

/-- Goes back to where an attempt began, unless it was given up inside a scope. -/
def back (start : Compiler) (text : String) : Compile Bool := do
  if start.scope.length < (← get).scope.length then throw .endOfInput
  rewind start.position text
  return false

/-- A form that makes entries of its own, which only a fresh statement may begin with. -/
def apart (fresh : Bool) (test : Token → Bool) (form : Compile Bool) : Compile Bool := do
  if !fresh && (← get).current.any test then throw .endOfInput
  form

/-- A statement with its entry, from where its first token is current. -/
def begunStatement (down : Descent) (fresh : Bool) : Compile Unit := do
  Watched.openStamped fresh
  let accepts : Compile Bool := return (← expressionWith back down) = .accepted
  unless ← firstOf [apart fresh (Token.is · "ns") (namespaceBlock down), function down, accepts,
      apart fresh (Token.isKind · .note) note, macroDefinition, importModule, conditional down] do
    fail "Expected statement"
  advance

def statementFrom (down : Descent) (fresh : Bool) : Compile Unit := do
  if (← get).current.isNone then return
  skipNewlines
  heeding (begunStatement down fresh)

/-- Everything below a budget of levels, read with care. -/
def descent : Nat → Descent
  | 0 => ⟨0, throw .exhausted, fun _ => throw .exhausted⟩
  | levels + 1 => ⟨levels + 1, expressionWith back (descent levels), statementFrom (descent levels)⟩

/-! As long as it does not stop, it reads as it is read otherwise. -/

theorem heeding_apply {α : Type} (x : Compile α) (c : Compiler) :
    heeding x c = match x c with
      | .ok a d => .ok a d
      | .error e d => .error (if e.isMismatch then .endOfInput else e) d := by
  unfold heeding
  rw [tryCatch_apply]
  cases x c <;> rfl

theorem isMismatch_heeded (e : Fault) :
    Fault.isMismatch (if e.isMismatch then .endOfInput else e) = false := by
  cases e <;> rfl

theorem imitates_heeding {α : Type} {x y : Compile α} (h : Imitates x y) :
    Imitates (heeding x) y := by
  intro c
  rw [heeding_apply]
  rcases h c with hsame | ⟨d, hstop⟩
  · rw [hsame]
    cases y c with
    | ok a d => exact .inl rfl
    | error e d =>
      cases hmismatch : e.isMismatch with
      | true => exact .inr ⟨d, by simp only [hmismatch, if_true]⟩
      | false => exact .inl (by simp only [hmismatch, Bool.false_eq_true, if_false])
  · rw [hstop]
    exact .inr ⟨d, rfl⟩

/-- What would end quietly stops. -/
theorem imitates_endingQuietly (x : Compile Unit) : Imitates (heeding x) (endingQuietly x) := by
  intro c
  unfold endingQuietly
  rw [heeding_apply, tryCatch_apply]
  cases x c with
  | ok a d => exact .inl rfl
  | error e d =>
    cases hmismatch : e.isMismatch with
    | true => exact .inr ⟨d, by simp only [hmismatch, if_true]⟩
    | false => exact .inl (by simp [hmismatch])

theorem imitates_chainTail {further further' : Compile Bool} (h : Imitates further further')
    (last : Compile Bool) :
    Imitates (chainTail further last) (Grammar.chainTail further' last) := by
  refine .trans (y := Grammar.chainTail further last) (imitates_endingQuietly _) ?_
  exact .endingQuietly (.andThen _ fun _ => .ite (.andThen _ fun _ => h.discard) (.refl _))

theorem imitates_conditional (down : Descent) :
    Imitates (conditional down) (Grammar.conditional down) := by
  have hfurther : ∀ rounds,
      Imitates (furtherCondition down rounds) (Grammar.furtherCondition down rounds) := by
    intro rounds
    induction rounds with
    | zero => exact .refl _
    | succ rounds ih =>
      refine .andThen _ fun _ => .ite (.andThen _ fun _ => .andThen _ fun _ => ?_) (.refl _)
      exact .andThen _ fun _ => (imitates_chainTail ih _).bind fun _ => .refl _
  refine .andThen _ fun _ => .ite (.andThen _ fun _ => .andThen _ fun _ => ?_) (.refl _)
  refine .andThen _ fun _ => .andThen _ fun _ => ?_
  exact (imitates_chainTail (hfurther _) _).bind fun _ => .refl _

theorem apart_apply (fresh : Bool) (test : Token → Bool) (form : Compile Bool) (c : Compiler) :
    apart fresh test form c = .error .endOfInput c ∨
      (fresh = false → c.current.any test = false) ∧ apart fresh test form c = form c := by
  cases fresh with
  | true => exact .inr ⟨by simp, by simp [apart]⟩
  | false =>
    cases htest : c.current.any test with
    | true => exact .inl (by simp [apart, htest])
    | false => exact .inr ⟨fun _ => rfl, by simp [apart, htest]⟩

theorem imitates_apart {form form' : Compile Bool} (h : Imitates form form') (fresh : Bool)
    (test : Token → Bool) : Imitates (apart fresh test form) form' := by
  intro c
  rcases apart_apply fresh test form c with hstop | ⟨-, hform⟩
  · exact .inr ⟨c, hstop⟩
  · rw [hform]
    exact h c

theorem back_apply (start : Compiler) (text : String) (d : Compiler) :
    back start text d = .error .endOfInput d ∨
      d.scope.length ≤ start.scope.length ∧
        back start text d = (rewind start.position text >>= fun _ => pure false) d := by
  by_cases hinside : start.scope.length < d.scope.length
  · exact .inl (by simp [back, hinside])
  · exact .inr ⟨Nat.le_of_not_lt hinside, by simp [back, hinside]⟩

theorem descent_below (levels : Nat) : Below (descent levels) (Grammar.descent levels) := by
  induction levels with
  | zero => exact ⟨rfl, .refl _, fun _ => .refl _⟩
  | succ levels ih =>
    have hexpression : Imitates (expressionWith back (descent levels))
        (expressionFrom (Grammar.descent levels)) := by
      refine imitates_expressionWith ih fun start text c => ?_
      exact (back_apply start text c).symm.imp And.right fun hstop => ⟨c, hstop⟩
    refine ⟨rfl, hexpression, fun fresh => ?_⟩
    have hstatement : Imitates (statementFrom (descent levels) fresh) (Watched.statementWith .never
        (Grammar.descent levels) (expressionFrom (Grammar.descent levels)) fresh) := by
      simp only [Watched.statementWith, Watched.watched_never, Watched.conditional_never]
      refine .andThen _ fun _ => .ite (.refl _) (.andThen _ fun _ => imitates_heeding ?_)
      refine .andThen _ fun _ => .orFail (.firstOf_cons ?_ ?_) _ (.refl _)
      · exact imitates_apart (imitates_namespaceBlock ih) fresh _
      refine .firstOf_cons (imitates_function ih) (.firstOf_cons ?_ ?_)
      · exact hexpression.bind fun _ => .refl _
      refine .firstOf_cons (imitates_apart (.refl _) fresh _) ?_
      refine .firstOf_cons (.refl _) (.firstOf_cons (.refl _) (.firstOf_cons ?_ (.refl _)))
      exact .trans (imitates_conditional _) (PlotScript.imitates_conditional ih)
    rw [← statementFrom_eq] at hstatement
    exact hstatement

end Careful
end PlotScript
