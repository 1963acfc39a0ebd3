import PlotScript.Proofs.Effects

/-! Readings that may stop. Where the expressions and statements one level down do what they would
do otherwise, or stop with a fault that nothing passes over, so does every form made of them. -/

namespace PlotScript
open Compile Grammar

/-- The first action does what the second does, or it stops. -/
def Imitates {α : Type} (x y : Compile α) : Prop :=
  ∀ c, x c = y c ∨ ∃ d, x c = .error .endOfInput d

namespace Imitates
variable {α β : Type}

theorem refl (x : Compile α) : Imitates x x := fun _ => .inl rfl

theorem bind {x y : Compile α} {f g : α → Compile β} (hx : Imitates x y)
    (hf : ∀ a, Imitates (f a) (g a)) : Imitates (x >>= f) (y >>= g) := by
  intro c
  rw [bind_apply, bind_apply]
  rcases hx c with hsame | ⟨d, hstop⟩
  · rw [hsame]
    cases y c with
    | ok a d => exact hf a d
    | error e d => exact .inl rfl
  · rw [hstop]
    exact .inr ⟨d, rfl⟩

theorem trans {x y z : Compile α} (hxy : Imitates x y) (hyz : Imitates y z) : Imitates x z := by
  intro c
  rcases hxy c with hsame | hstop
  · rw [hsame]
    exact hyz c
  · exact .inr hstop

/-- What comes of an imitation comes of the other action too. -/
theorem eq_ok {x y : Compile α} (h : Imitates x y) {c d : Compiler} {a : α}
    (hrun : x c = .ok a d) : y c = .ok a d := by
  rcases h c with hsame | ⟨s, hstop⟩
  · rw [← hsame]
    exact hrun
  · rw [hstop] at hrun
    cases hrun

/-- What follows an action that both have in common. -/
theorem andThen {f g : α → Compile β} (x : Compile α) (hf : ∀ a, Imitates (f a) (g a)) :
    Imitates (x >>= f) (x >>= g) :=
  (refl x).bind hf

theorem ite {p : Prop} [Decidable p] {x y x' y' : Compile α} (hx : Imitates x x')
    (hy : Imitates y y') : Imitates (if p then x else y) (if p then x' else y') := by
  split
  · exact hx
  · exact hy

theorem discard {x y : Compile α} (hx : Imitates x y) :
    Imitates (Functor.discard x) (Functor.discard y) := by
  intro c
  rw [discard_apply, discard_apply]
  rcases hx c with hsame | ⟨d, hstop⟩
  · rw [hsame]
    exact .inl rfl
  · rw [hstop]
    exact .inr ⟨d, rfl⟩

theorem endingQuietly {x y : Compile Unit} (hx : Imitates x y) :
    Imitates (Compile.endingQuietly x) (Compile.endingQuietly y) := by
  intro c
  unfold Compile.endingQuietly
  rw [tryCatch_apply, tryCatch_apply]
  rcases hx c with hsame | ⟨d, hstop⟩
  · rw [hsame]
    exact .inl rfl
  · rw [hstop]
    exact .inr ⟨d, rfl⟩

theorem retrying {x y : Compile (Option Bool)} {back back' : Compile Bool} (hx : Imitates x y)
    (hback : Imitates back back') :
    Imitates (PlotScript.retrying x back) (PlotScript.retrying y back') := by
  intro c
  rw [retrying_apply, retrying_apply]
  rcases hx c with hsame | ⟨d, hstop⟩
  · rw [hsame]
    cases y c with
    | ok found d =>
      cases found with
      | none => exact hback d
      | some done => exact .inl rfl
    | error e d =>
      cases e with
      | diagnostic m => exact hback d
      | _ => exact .inl rfl
  -- going back is for mistakes only, and a stop is none
  · rw [hstop]
    exact .inr ⟨d, rfl⟩

theorem loop {x y : Compile Bool} (h : Imitates x y) (rounds : Nat) :
    Imitates (Compile.loop x rounds) (Compile.loop y rounds) := by
  induction rounds with
  | zero => exact .refl _
  | succ rounds ih => exact h.bind fun _ => .ite (.refl _) ih

theorem orFail {x y : Compile Bool} {rest rest' : Compile α} (h : Imitates x y) (message : String)
    (hrest : Imitates rest rest') :
    Imitates
      (do
        unless ← x do fail message
        rest)
      (do
        unless ← y do fail message
        rest') :=
  h.bind fun _ => .ite hrest (.andThen _ fun _ => hrest)

theorem firstOf_cons {x y : Compile Bool} {xs ys : List (Compile Bool)} (h : Imitates x y)
    (hs : Imitates (firstOf xs) (firstOf ys)) : Imitates (firstOf (x :: xs)) (firstOf (y :: ys)) :=
  h.bind fun _ => .ite (.refl _) hs

end Imitates

/-- An expression that begins with a point, with a way to go back to where the attempt began. -/
def pointFirstWith (back : Compiler → String → Compile Bool) (down : Descent) : Compile Bool := do
  let text ← latex
  let start ← get
  retrying (attempt (point down) (operation down)) (back start text)

def expressionWith (back : Compiler → String → Compile Bool) (down : Descent) :
    Compile Verdict := do
  if ← pointFirstWith back down then return .accepted
  advance
  unless ← operand down do return .refused
  operation down
  if ← atEnd [",", "]", ")", "\x7d"] then return .accepted
  return .dangling

/-- Two descents, the first of which may stop. -/
structure Below (down wild : Descent) : Prop where
  rounds : down.rounds = wild.rounds
  expression : Imitates down.expression wild.expression
  statement : ∀ fresh, Imitates (down.statement fresh) (wild.statement fresh)

/-! A watch only stops what is read. -/

section watched
open Watched
variable {down wild : Descent} (watch : Watch)

theorem imitates_watched {α : Type} {x y : Compile α} (h : Imitates x y) (form : Form) :
    Imitates (watched watch form x) y := by
  intro c
  rcases watched_cases watch form x c with ⟨-, hstop⟩ | ⟨-, hstop⟩ | hsame
  · exact .inr ⟨_, hstop⟩
  · exact .inr ⟨_, hstop⟩
  · rw [hsame]
    exact h c

theorem imitates_form {α : Type} {x y : Compile α} (h : Imitates x y) (form : Form) :
    Imitates (watched watch form x) (watched .never form y) := by
  rw [watched_never]
  exact imitates_watched watch h form

/-- Imitation is kept when actions are put together. -/
def Imitates.congruence : Congruence watch .never where
  Rel := Imitates
  pure _ := .refl _
  bind := .bind
  exhausted := .refl _
  fail _ := .refl _
  endingQuietly := .endingQuietly
  look _ := .andThen _
  current := .refl _
  nextIs _ := .refl _
  advance := .refl _
  emitFrom _ := .refl _
  watched _ h := imitates_form watch h _

def Imitates.naming : NamingCongruence watch .never where
  toCongruence := Imitates.congruence watch
  latex := .refl _
  pushScope _ := .refl _
  popScope := .refl _
  addName _ _ _ := .refl _
  isBound _ _ := .refl _
  define _ := .refl _
  emitName _ := .refl _
  addFunction _ := .refl _
  addMacro _ := .refl _
  updateLastMacro _ := .refl _

/-- Without a watch of their own the other forms do just the same. -/
def Imitates.forms : FormCongruence watch .never :=
  (Imitates.naming watch).forms (fun _ => .refl _) (.refl _) (.refl _) (.refl _) (.refl _)

theorem Below.descends (h : Below down wild) :
    (Imitates.congruence watch).Descends down wild :=
  ⟨⟨h.rounds, h.expression⟩, h.statement⟩

variable (h : Below down wild)
include h

theorem imitates_watched_value : Imitates (Watched.value watch down) (Grammar.value wild) := by
  rw [← Watched.value_never]
  exact (Imitates.naming watch).value (h.descends watch).toReads

theorem imitates_operandFirst :
    Imitates (Watched.operandFirst watch down) (Watched.operandFirst .never wild) :=
  (Imitates.forms watch).operandFirst (h.descends watch) fun hbody => imitates_form watch hbody _

theorem imitates_watched_expressionFrom :
    Imitates (Watched.expressionFrom watch down) (Grammar.expressionFrom wild) := by
  have hattempt := (Imitates.congruence watch).attempt (h.descends watch).toReads
  rw [← Watched.expressionFrom_never, Watched.expressionFrom_eq, Watched.expressionFrom_eq,
    Watched.pointFirst_eq, Watched.pointFirst_eq]
  refine imitates_form watch (.bind ?_ fun _ => .ite (.refl _) (.andThen _ fun _ => ?_)) _
  · exact .andThen _ fun _ => .andThen _ fun _ => .retrying hattempt (.refl _)
  · exact imitates_operandFirst watch h

/-- A statement, however its expression is read. -/
theorem imitates_statementWith {expression expression' : Compile Verdict}
    (hexpression : Imitates expression expression') (fresh : Bool) :
    Imitates (Watched.statementWith watch down expression fresh)
      (Watched.statementWith .never wild expression' fresh) :=
  (Imitates.forms watch).statementWith (h.descends watch) hexpression fresh

end watched

/-- Under watch all is read as it is read otherwise, or the reading is stopped. -/
theorem Watched.descent_below (watch : Watch) (levels : Nat) :
    Below (Watched.descent watch levels) (Grammar.descent levels) := by
  induction levels with
  | zero => exact ⟨rfl, .refl _, fun _ => .refl _⟩
  | succ levels ih =>
    have hexpression := imitates_watched_expressionFrom watch ih
    refine ⟨rfl, hexpression, fun fresh => ?_⟩
    have hstatement := imitates_statementWith watch ih hexpression fresh
    rw [← statementFrom_eq] at hstatement
    exact hstatement

section forms
variable {down wild : Descent} (h : Below down wild)
include h

theorem imitates_function : Imitates (function down) (function wild) :=
  (Imitates.naming .never).function (h.descends .never).toReads

theorem imitates_namespaceBlock : Imitates (namespaceBlock down) (namespaceBlock wild) :=
  (Imitates.naming .never).namespaceBlock (.refl _) (h.descends .never)

theorem imitates_conditional : Imitates (conditional down) (conditional wild) := by
  rw [← Watched.conditional_never, ← Watched.conditional_never]
  exact (Imitates.forms .never).conditional (h.descends .never).toReads

/-- An expression that begins with a point, however the reading goes back. -/
theorem imitates_attempt :
    Imitates (attempt (point down) (operation down)) (attempt (point wild) (operation wild)) := by
  have hattempt := (Imitates.congruence .never).attempt (h.descends .never).toReads
  simp only [Watched.watched_never, Watched.operation_never] at hattempt
  exact hattempt

theorem imitates_expressionWith {back : Compiler → String → Compile Bool}
    (hback : ∀ (start : Compiler) text, Imitates (back start text) (do
      rewind start.position text
      return false)) :
    Imitates (expressionWith back down) (expressionFrom wild) := by
  have hrest := imitates_operandFirst .never h
  rw [Watched.operandFirst_never, Watched.operandFirst_never] at hrest
  have hfirst : Imitates (pointFirstWith back down) (pointFirst wild) := by
    rw [pointFirst_eq]
    exact .andThen _ fun _ => .andThen _ fun c => (imitates_attempt h).retrying (hback c _)
  exact hfirst.bind fun _ => .ite (.refl _) (.andThen _ fun _ => hrest)

theorem imitates_runWith : Imitates (runWith down) (runWith wild) := by
  have hround : Imitates (programStatement down) (programStatement wild) :=
    (Imitates.congruence .never).programStatement (h.descends .never)
  have hprogram : Imitates (program down) (program wild) := by
    unfold program
    rw [h.rounds]
    exact .andThen _ fun _ => hround.loop _
  exact .andThen _ fun c => .ite (.refl _) (.andThen _ fun _ => hprogram.bind fun _ => .refl _)

end forms

/-- A run that ends with a fault, with its first state and its last. -/
structure Failure where
  first : Compiler
  fault : Fault
  last : Compiler

/-- The failure of a script that needs no files. -/
def failure? (down : Nat → Descent) (code : String) : Option Failure :=
  match Compiler.ofCode [] code with
  | .error _ => none
  | .ok c =>
    match runWith (down c.budget) c with
    | .ok _ _ => none
    | .error e s => some ⟨c, e, s⟩

theorem runWith_of_failure? {down : Nat → Descent} {code : String} {f : Failure}
    (h : failure? down code = some f) :
    Compiler.ofCode [] code = .ok f.first ∧
      runWith (down f.first.budget) f.first = .error f.fault f.last := by
  unfold failure? at h
  split at h
  · cases h
  · next c' hcode =>
    split at h
    · cases h
    · next hrun =>
      cases h
      exact ⟨hcode, hrun⟩

theorem runWith_ne_error_of_failure? {down : Nat → Descent} {code : String} {c : Compiler}
    (h : failure? down code = none) (hcode : Compiler.ofCode [] code = .ok c) (e : Fault)
    (s : Compiler) : runWith (down c.budget) c ≠ .error e s := by
  intro hrun
  simp [failure?, hcode, hrun] at h

end PlotScript
