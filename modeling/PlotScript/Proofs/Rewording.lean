import PlotScript.Proofs.Effects

/-! Scripts in other words. Once the tokens of a script are read, its code is not looked at again,
and its lines are looked at only to show the one that a mistake is on. So a script in other words,
with the same tokens and no fewer lines, compiles to the same document. -/

namespace PlotScript
open Compile Grammar

/-- The state with the code in other words. -/
def Compiler.reworded (c : Compiler) (code : String) (lines : List String) : Compiler :=
  { c with code, lines }

/-- The second state is the first in other words, with no fewer lines. -/
def Reworded (c d : Compiler) : Prop :=
  ∃ code lines, d = c.reworded code lines ∧ c.lines.length ≤ lines.length

/-- The same fault, though a mistake may be shown with another line. -/
inductive Likewise : Fault → Fault → Prop
  | same (e : Fault) : Likewise e e
  | mistake (message : String) (line : Int) (source source' : String) :
    Likewise (.diagnostic ⟨message, line, source⟩) (.diagnostic ⟨message, line, source'⟩)

/-- Both end in the same way, unless the first had no line to show. -/
inductive EndsLikewise {α : Type} :
    EStateM.Result Fault Compiler α → EStateM.Result Fault Compiler α → Prop
  | ok {a : α} {c d : Compiler} (h : Reworded c d) : EndsLikewise (.ok a c) (.ok a d)
  | error {e f : Fault} {c d : Compiler} (he : Likewise e f) (h : Reworded c d) :
    EndsLikewise (.error e c) (.error f d)
  | unshown (c : Compiler) (r : EStateM.Result Fault Compiler α) :
    EndsLikewise (.error .outOfRange c) r

/-- The action does the same on a state in other words. -/
def Heedless {α : Type} (x : Compile α) : Prop :=
  ∀ ⦃c d⦄, Reworded c d → EndsLikewise (x c) (x d)

/-- A result with the code in other words. -/
def rewording {α : Type} (code : String) (lines : List String) :
    EStateM.Result Fault Compiler α → EStateM.Result Fault Compiler α
  | .ok a c => .ok a (c.reworded code lines)
  | .error e c => .error e (c.reworded code lines)

/-- The action does not look at the code at all. -/
def Blind {α : Type} (x : Compile α) : Prop :=
  ∀ c code lines, x (c.reworded code lines) = rewording code lines (x c)

theorem Reworded.refl (c : Compiler) : Reworded c c := ⟨c.code, c.lines, rfl, Nat.le_refl _⟩

/-- An action that does not look at the code does not change it either. -/
theorem Blind.heedless {α : Type} {x : Compile α} (hx : Blind x) : Heedless x := by
  rintro c _ ⟨code, lines, rfl, hlines⟩
  have hkept : x c = rewording c.code c.lines (x c) := hx c c.code c.lines
  rw [hx]
  cases hrun : x c with
  | ok a d =>
    rw [hrun] at hkept
    injection hkept with _ hd
    exact .ok ⟨code, lines, rfl, congrArg Compiler.lines hd ▸ hlines⟩
  | error e d =>
    rw [hrun] at hkept
    injection hkept with _ hd
    exact .error (.same e) ⟨code, lines, rfl, congrArg Compiler.lines hd ▸ hlines⟩

namespace Blind
variable {α β : Type}

protected theorem pure (a : α) : Blind (pure a : Compile α) := fun _ _ _ => rfl

protected theorem throw (e : Fault) : Blind (throw e : Compile α) := fun _ _ _ => rfl

protected theorem bind {x : Compile α} {f : α → Compile β} (hx : Blind x)
    (hf : ∀ a, Blind (f a)) : Blind (x >>= f) := by
  intro c code lines
  rw [bind_apply, bind_apply, hx]
  cases x c with
  | ok a d => exact hf a d code lines
  | error e d => rfl

/-- A look at parts of the state beside the code. -/
protected theorem get_bind {f : Compiler → Compile α}
    (hf : ∀ c code lines, f (c.reworded code lines) = f c) (h : ∀ c, Blind (f c)) :
    Blind (get >>= f) := by
  intro c code lines
  show f (c.reworded code lines) (c.reworded code lines) = rewording code lines (f c c)
  rw [hf]
  exact h c c code lines

protected theorem modify {f : Compiler → Compiler}
    (hf : ∀ c code lines, f (c.reworded code lines) = (f c).reworded code lines) :
    Blind (modify f) := by
  intro c code lines
  rw [modify_apply, modify_apply, hf]
  rfl

protected theorem ite {p : Prop} [Decidable p] {x y : Compile α} (hx : Blind x) (hy : Blind y) :
    Blind (if p then x else y) := by
  split
  · exact hx
  · exact hy

protected theorem tryCatch {x : Compile α} {handle : Fault → Compile α} (hx : Blind x)
    (hhandle : ∀ e, Blind (handle e)) : Blind (tryCatch x handle) := by
  intro c code lines
  rw [tryCatch_apply, tryCatch_apply, hx]
  cases x c with
  | ok a d => rfl
  | error e d => exact hhandle e d code lines

/-! The cursor. -/

protected theorem current : Blind current := by
  refine .get_bind (fun _ _ _ => rfl) fun c => ?_
  split
  · exact .pure _
  · exact .throw _

protected theorem currentIs (text : String) : Blind (currentIs text) :=
  Blind.current.bind fun _ => .pure _

protected theorem nextIs (text : String) : Blind (nextIs text) := by
  have hpeek : Blind (peek 1) := .get_bind (fun _ _ _ => rfl) fun _ => .pure _
  refine hpeek.bind fun next => ?_
  cases next with
  | none => exact .throw _
  | some t => exact .pure _

protected theorem moveTo (place : Int) : Blind (moveTo place) := by
  refine .modify fun c code lines => ?_
  cases hplace : Place.get? c.tokens place <;> simp [Compiler.reworded, hplace]

protected theorem advance : Blind advance :=
  Blind.current.bind fun _ => .ite
    ((Blind.modify fun _ _ _ => rfl).bind fun _ => .get_bind (fun _ _ _ => rfl) fun _ => .moveTo _)
    (.get_bind (fun _ _ _ => rfl) fun _ => .moveTo _)

protected theorem retreat : Blind retreat :=
  Blind.current.bind fun _ => .ite
    ((Blind.modify fun _ _ _ => rfl).bind fun _ => .get_bind (fun _ _ _ => rfl) fun _ => .moveTo _)
    (.get_bind (fun _ _ _ => rfl) fun _ => .moveTo _)

protected theorem dropToken : Blind dropToken := by
  intro c code lines
  have htokens : (c.reworded code lines).tokens = c.tokens := rfl
  have hposition : (c.reworded code lines).position = c.position := rfl
  simp only [Compile.dropToken, bind_apply, get_apply, htokens, hposition]
  cases Place.erase? c.tokens c.position <;> rfl

protected theorem spliceAfter (block : List Token) : Blind (spliceAfter block) :=
  .modify fun _ _ _ => rfl

protected theorem print (text : String) : Blind (print text) := .modify fun _ _ _ => rfl

/-! Entries. -/

protected theorem lastEntry : Blind lastEntry := by
  refine .get_bind (fun _ _ _ => rfl) fun c => ?_
  split
  · exact .throw _
  · split
    · exact .pure _
    · exact .throw _

theorem setOpenEntries_reworded (c : Compiler) (entries : Array Entry) (code : String)
    (lines : List String) : (c.reworded code lines).setOpenEntries entries =
      (c.setOpenEntries entries).reworded code lines := by
  cases htarget : c.target <;> simp [Compiler.setOpenEntries, Compiler.reworded, htarget]

protected theorem setLastEntry (entry : Entry) : Blind (setLastEntry entry) := by
  refine .modify fun c code lines => ?_
  have hsame : (c.reworded code lines).openEntries? = c.openEntries? := rfl
  rw [hsame]
  cases c.openEntries? with
  | none => rfl
  | some entries => exact setOpenEntries_reworded c _ code lines

protected theorem updateLastEntry (update : Entry → Entry) : Blind (updateLastEntry update) :=
  Blind.lastEntry.bind fun _ => .setLastEntry _

protected theorem appendEntry (entry : Entry) : Blind (appendEntry entry) := by
  intro c code lines
  have hsame : (c.reworded code lines).openEntries? = c.openEntries? := rfl
  simp only [Compile.appendEntry, bind_apply, get_apply, hsame]
  cases c.openEntries? with
  | none => rfl
  | some entries => simp only [set_apply, setOpenEntries_reworded, rewording]

protected theorem openBlank : Blind openBlank := by
  intro c code lines
  have hsame : (c.reworded code lines).document = c.document := rfl
  simp only [Compile.openBlank, bind_apply, get_apply, hsame]
  cases c.document <;> rfl

protected theorem latex : Blind latex := by
  refine Blind.lastEntry.bind fun entry => ?_
  split
  · exact .pure _
  · exact .throw _

protected theorem setLatex (text : String) : Blind (setLatex text) := .updateLastEntry _

protected theorem emitFrom {piece : Compile String} (h : Blind piece) : Blind (emitFrom piece) :=
  Blind.latex.bind fun _ => h.bind fun _ => .setLatex _

protected theorem subscript (name : String) : Blind (subscript name) := by
  unfold Compile.subscript
  split
  · exact .throw _
  · exact .pure _
  · exact .pure _

protected theorem rewind (position : Int) (text : String) : Blind (rewind position text) :=
  (Blind.modify fun _ _ _ => rfl).bind fun _ => .setLatex text

/-! Names. -/

protected theorem pushScope (name : String) : Blind (pushScope name) := .modify fun _ _ _ => rfl

protected theorem popScope : Blind popScope := by
  intro c code lines
  have hsame : (c.reworded code lines).scope = c.scope := rfl
  simp only [Compile.popScope, bind_apply, get_apply, hsame]
  cases c.scope <;> rfl

protected theorem innermost : Blind innermost := by
  refine .get_bind (fun _ _ _ => rfl) fun c => ?_
  split
  · exact .pure _
  · exact .throw _

protected theorem setNames (names : Except Fault Table) : Blind (setNames names) := by
  cases names with
  | ok names => exact .modify fun _ _ _ => rfl
  | error e => exact .throw e

protected theorem addName (path : List String) (name : String) (value : Binding) :
    Blind (addName path name value) :=
  .get_bind (fun _ _ _ => rfl) fun _ => .setNames _

protected theorem assignName (path : List String) (name : String) (value : Binding) :
    Blind (assignName path name value) :=
  .get_bind (fun _ _ _ => rfl) fun _ => .setNames _

protected theorem resolve (path : List String) : Blind (resolve path) := by
  refine .get_bind (fun _ _ _ => rfl) fun c => ?_
  split
  · exact .pure _
  · exact .throw _

protected theorem isBound (path : List String) (name : String) : Blind (isBound path name) := by
  refine .get_bind (fun _ _ _ => rfl) fun c => .ite ?_ (.get_bind (fun _ _ _ => rfl) fun d => ?_)
  · exact (Blind.nextIs _).bind fun _ => .ite ((Blind.pushScope _).bind fun _ => .pure _) (.pure _)
  · split
    · exact .pure _
    · exact .throw _

protected theorem define (name : String) : Blind (define name) := by
  refine .get_bind (fun _ _ _ => rfl) fun c => (Blind.addName _ _ _).bind fun _ => ?_
  exact (Blind.modify fun _ _ _ => rfl).bind fun _ => .print _

protected theorem emitName (name : String) : Blind (emitName name) := by
  refine .tryCatch (.emitFrom (Blind.innermost.bind fun _ => .subscript _)) fun e => ?_
  split
  · exact .emitFrom (.subscript _)
  · exact .throw _

protected theorem reopenScope (name : String) : Blind (reopenScope name) := by
  have hcheck (path : List String) : Blind (checkAssignable path) := by
    refine (Blind.resolve path).bind fun binding => ?_
    split
    · exact .pure _
    · exact .throw _
  refine .get_bind (fun _ _ _ => rfl) fun c => ?_
  split
  · exact .ite (.assignName _ _ _) (.pure _)
  · exact .throw _
  · exact hcheck _
  · exact .throw _

/-! Forms that make no mistakes. -/

protected theorem wordText (t : Token) : Blind (wordText t) := by
  unfold Grammar.wordText
  split
  · exact .pure _
  · exact .throw _

/-- What is worked out does not depend on the code. -/
theorem of_workedOut {piece : Compile String} (h : WorkedOut piece) : Blind piece := by
  cases h with
  | text text => exact .pure text
  | word t => exact .wordText t
  | subscript name => exact .subscript name
  | innermost name => exact Blind.innermost.bind fun _ => .subscript _
  | callHead functions function =>
    exact .ite (.pure _) (.ite ((Blind.subscript _).bind fun _ => .pure _) (.pure _))

protected theorem note : Blind note := by
  refine Blind.current.bind fun t => .ite ?_ (.pure _)
  exact (Blind.appendEntry _).bind fun _ => Blind.advance.bind fun _ => .pure _

protected theorem nameObject (m : MacroDef) : Blind (nameObject m) := by
  have hname : Blind (do return (← get).objectName : Compile String) :=
    .get_bind (fun _ _ _ => rfl) fun _ => .pure _
  refine .get_bind (fun _ _ _ => rfl) fun c => .ite ?_ hname
  exact (Blind.modify fun _ _ _ => rfl).bind fun _ => hname

protected theorem expansion (m : MacroDef) (parameters : List String) (text : String) :
    Blind (expansion m parameters text) := by
  induction parameters generalizing text with
  | nil => exact .pure _
  | cons parameter others ih =>
    refine .ite ?_ ?_
    · refine (Blind.nameObject m).bind fun name => ?_
      refine Blind.retreat.bind fun _ => Blind.retreat.bind fun _ => ?_
      exact Blind.dropToken.bind fun _ => Blind.dropToken.bind fun _ => ih _
    · refine (Blind.currentIs _).bind fun _ => .ite (ih _) ?_
      exact Blind.current.bind fun t => (Blind.wordText t).bind fun _ => ih _

protected theorem openStamped (fresh : Bool) : Blind (Watched.openStamped fresh) := by
  have hstamp : Blind stampEntry := by
    refine (Blind.modify fun _ _ _ => rfl).bind fun _ => .get_bind (fun _ _ _ => rfl) fun c => ?_
    exact (Blind.updateLastEntry _).bind fun _ => .updateLastEntry _
  exact .ite (Blind.openBlank.bind fun _ => hstamp) hstamp

end Blind

theorem Place.isSome_get?_iff {α : Type} (xs : Array α) (place : Int) :
    (get? xs place).isSome = true ↔ -(xs.size : Int) ≤ place ∧ place < xs.size := by
  unfold get? index?
  by_cases hplace : 0 ≤ place
  · simp only [if_pos hplace]
    split
    · next h => simpa [h.2] using by omega
    · next h => simpa using by omega
  · simp only [if_neg hplace]
    split
    · next h => simpa using by omega
    · next h => simpa using by omega

namespace Heedless
variable {α β : Type}

protected theorem pure (a : α) : Heedless (pure a : Compile α) := (Blind.pure a).heedless

protected theorem throw (e : Fault) : Heedless (throw e : Compile α) := (Blind.throw e).heedless

protected theorem bind {x : Compile α} {f : α → Compile β} (hx : Heedless x)
    (hf : ∀ a, Heedless (f a)) : Heedless (x >>= f) := by
  intro c d h
  have hend := hx h
  rw [bind_apply, bind_apply]
  generalize x c = r at hend ⊢
  generalize x d = r' at hend ⊢
  cases hend with
  | ok h' => exact hf _ h'
  | error he h' => exact .error he h'
  | unshown s _ => exact .unshown s _

/-- What follows an action that does not look at the code. -/
theorem after {x : Compile α} {f : α → Compile β} (hx : Blind x) (hf : ∀ a, Heedless (f a)) :
    Heedless (x >>= f) :=
  hx.heedless.bind hf

protected theorem get_bind {f : Compiler → Compile α}
    (hf : ∀ c code lines, f (c.reworded code lines) = f c) (h : ∀ c, Heedless (f c)) :
    Heedless (get >>= f) := by
  rintro c _ ⟨code, lines, rfl, hlines⟩
  show EndsLikewise (f c c) (f (c.reworded code lines) (c.reworded code lines))
  rw [hf]
  exact h c ⟨code, lines, rfl, hlines⟩

protected theorem ite {p : Prop} [Decidable p] {x y : Compile α} (hx : Heedless x)
    (hy : Heedless y) : Heedless (if p then x else y) := by
  split
  · exact hx
  · exact hy

/-- A mistake is one in other words too. -/
protected theorem fail (message : String) : Heedless (fail message : Compile α) := by
  rintro c _ ⟨code, lines, rfl, hlines⟩
  rw [fail_apply, fail_apply, Diagnostic.locate, Diagnostic.locate]
  have hline : (c.reworded code lines).line = c.line := rfl
  have hshown : (c.reworded code lines).lines = lines := rfl
  rw [hline, hshown]
  cases hsource : Place.get? c.lines.toArray (c.line - 1) with
  | none => exact .unshown _ _
  | some source =>
    -- A line that is there is there among more lines.
    have hthere : (Place.get? c.lines.toArray (c.line - 1)).isSome = true :=
      Option.isSome_of_mem hsource
    have hthere' : (Place.get? lines.toArray (c.line - 1)).isSome = true := by
      rw [Place.isSome_get?_iff, List.size_toArray] at hthere ⊢
      omega
    obtain ⟨source', hsource'⟩ := Option.isSome_iff_exists.mp hthere'
    rw [hsource']
    exact .error (.mistake message c.line source source') ⟨code, lines, rfl, hlines⟩

protected theorem orFail {x : Compile Bool} {rest : Compile α} (hx : Heedless x)
    (message : String) (hrest : Heedless rest) :
    Heedless (do
      unless ← x do fail message
      rest) :=
  hx.bind fun _ => .ite hrest ((Heedless.fail message).bind fun _ => hrest)

protected theorem loop {round : Compile Bool} (h : Heedless round) (rounds : Nat) :
    Heedless (loop round rounds) := by
  induction rounds with
  | zero => exact .throw _
  | succ rounds ih => exact h.bind fun _ => .ite (.pure _) ih

/-- A mismatch is one in other words too. -/
protected theorem endingQuietly {x : Compile Unit} (hx : Heedless x) :
    Heedless (endingQuietly x) := by
  intro c d h
  have hend := hx h
  unfold Compile.endingQuietly
  rw [tryCatch_apply, tryCatch_apply]
  generalize x c = r at hend ⊢
  generalize x d = r' at hend ⊢
  cases hend with
  | ok h' => exact .ok h'
  | unshown s _ => exact .unshown s _
  | @error e _ _ _ he h' =>
    cases he with
    | mistake m line source source' => exact .error (.mistake m line source source') h'
    | same => exact Heedless.ite (.pure ()) (.throw e) h'

/-- An attempt is given up in other words too. -/
protected theorem retrying {x : Compile (Option Bool)} {back : Compile Bool} (hx : Heedless x)
    (hback : Heedless back) : Heedless (retrying x back) := by
  -- Only a mistake is caught here. Without its line it would be another fault and pass, which is
  -- why the first script may not have more lines than the second.
  intro c d h
  have hend := hx h
  rw [retrying_apply, retrying_apply]
  generalize x c = r at hend ⊢
  generalize x d = r' at hend ⊢
  cases hend with
  | unshown s _ => exact .unshown s _
  | @ok found _ _ h' =>
    cases found with
    | none => exact hback h'
    | some done => exact .ok h'
  | @error e _ _ _ he h' =>
    cases he with
    | mistake m line source source' => exact hback h'
    | same =>
      cases e with
      | diagnostic m => exact hback h'
      | _ => exact .error (.same _) h'

/-! Forms without expressions. -/

/-- From the tokens alone the code is made anew. -/
protected theorem rejoinCode : Heedless rejoinCode := by
  rintro c _ ⟨code, lines, rfl, -⟩
  exact .ok (.refl _)

protected theorem readTokens (text : String) : Heedless (readTokens text) := by
  unfold Compile.readTokens
  dsimp only
  split
  · exact .pure _
  · refine .after (.modify fun _ _ _ => rfl) fun _ => ?_
    exact .get_bind (fun _ _ _ => rfl) fun _ => .fail _
  · exact .after (.modify fun _ _ _ => rfl) fun _ => .throw _

protected theorem spliceModule (name text : String) : Heedless (spliceModule name text) := by
  refine .after .advance fun _ => .after .advance fun _ => .after .advance fun _ => ?_
  exact (Heedless.readTokens text).bind fun _ => .after (.spliceAfter _) fun _ => .rejoinCode

protected theorem importModule : Heedless importModule := by
  refine .after (.currentIs _) fun _ => .ite ?_ (.pure _)
  refine .after .advance fun _ => .after .current fun t => .after (.wordText t) fun name => ?_
  refine .get_bind (fun _ _ _ => rfl) fun c => ?_
  split
  · exact (Heedless.spliceModule _ _).bind fun _ => .pure _
  · exact .after (.print _) fun _ => .pure _
  · exact .throw _

protected theorem macroCall : Heedless macroCall := by
  refine .after (.nextIs _) fun _ => .ite ?_ (.pure _)
  refine .after .current fun t => .get_bind (fun _ _ _ => rfl) fun c => ?_
  split
  · exact .fail _
  · refine .after .advance fun _ => .after .advance fun _ => ?_
    refine (Blind.currentIs _).heedless.orFail _ (.after .advance fun _ => ?_)
    refine .after (.expansion _ _ _) fun text => .after .advance fun _ => ?_
    refine .after (.spliceAfter _) fun _ => (Heedless.readTokens text).bind fun tokens => ?_
    exact .after (.spliceAfter _) fun _ => Heedless.rejoinCode.bind fun _ => .pure _

protected theorem openNamespace : Heedless openNamespace := by
  have henter : Heedless enterScope := by
    refine .after .advance fun _ => .after .current fun t => ?_
    cases t.name? with
    | none => exact .fail _
    | some name => exact .after (.reopenScope _) fun _ => .after (.pushScope _) fun _ => .pure _
  refine .get_bind (fun _ _ _ => rfl) fun c => .after (.updateLastEntry _) fun _ => ?_
  refine henter.bind fun name => .after (.updateLastEntry _) fun _ => ?_
  exact (Blind.modify fun _ _ _ => rfl).heedless

/-! Forms with expressions and statements further down. -/

theorem sameView_reworded (c : Compiler) (code : String) (lines : List String) :
    SameView c (c.reworded code lines) :=
  ⟨rfl, rfl, rfl, rfl⟩

/-- Doing the same in other words is kept when actions are put together. -/
def congruence : Congruence .never .never where
  Rel x _ := Heedless x
  pure := .pure
  bind := .bind
  exhausted := @fun _ => @Heedless.throw _ .exhausted
  fail := .fail
  endingQuietly := .endingQuietly
  look hf h := .get_bind (fun c code lines => hf c _ (sameView_reworded c code lines)) h
  current := Blind.current.heedless
  nextIs text := (Blind.nextIs text).heedless
  advance := Blind.advance.heedless
  emitFrom h := (Blind.emitFrom (.of_workedOut h)).heedless
  watched _ h := by rwa [Watched.watched_never]

def naming : NamingCongruence .never .never where
  toCongruence := congruence
  latex := Blind.latex.heedless
  pushScope name := (Blind.pushScope name).heedless
  popScope := Blind.popScope.heedless
  addName path name value := (Blind.addName path name value).heedless
  isBound path name := (Blind.isBound path name).heedless
  define name := (Blind.define name).heedless
  emitName name := (Blind.emitName name).heedless
  addFunction _ := (Blind.modify fun _ _ _ => rfl).heedless
  addMacro _ := (Blind.modify fun _ _ _ => rfl).heedless
  updateLastMacro _ := (Blind.modify fun _ _ _ => rfl).heedless

def forms : FormCongruence .never .never :=
  naming.forms (fun fresh => (Blind.openStamped fresh).heedless) .openNamespace
    Blind.note.heedless .macroCall .importModule

section down
variable {down : Descent} (h : congruence.Descends down down)
include h

protected theorem expressionFrom : Heedless (expressionFrom down) := by
  have hattempt : Heedless (attempt (Watched.watched .never .point (point down))
      (Watched.operation .never down)) :=
    congruence.attempt h.toReads
  have hrest : Heedless (Watched.operandFirst .never down) :=
    forms.operandFirst h fun hbody => by rwa [Watched.watched_never]
  rw [← Watched.expressionFrom_never, Watched.expressionFrom_eq, Watched.watched_never,
    Watched.pointFirst_eq]
  refine Heedless.bind ?_ fun _ => .ite (.pure _) (.after .advance fun _ => hrest)
  refine .after .latex fun text => .get_bind (fun _ _ _ => rfl) fun c => ?_
  exact hattempt.retrying (.after (.rewind _ _) fun _ => .pure _)

protected theorem statementFrom (fresh : Bool) : Heedless (statementFrom down fresh) := by
  have hown : forms.Rel (expressionFrom down) (expressionFrom down) :=
    Heedless.expressionFrom h
  rw [statementFrom_eq]
  exact forms.statementWith h hown fresh

end down

/-- The levels of the reading, one on top of the other. -/
protected theorem descent (levels : Nat) :
    congruence.Descends (descent levels) (descent levels) := by
  induction levels with
  | zero => exact ⟨⟨rfl, Heedless.throw _⟩, fun _ => Heedless.throw _⟩
  | succ levels ih =>
    exact ⟨⟨rfl, Heedless.expressionFrom ih⟩, fun fresh => Heedless.statementFrom ih fresh⟩

protected theorem program {down : Descent} (h : congruence.Descends down down) :
    Heedless (program down) := by
  have hround : Heedless (programStatement down) := congruence.programStatement h
  exact .after (.modify fun c code lines => by cases c; rfl) fun _ => hround.loop _

protected theorem runWith {down : Descent} (h : congruence.Descends down down) :
    Heedless (runWith down) := by
  rintro c _ ⟨code, lines, rfl, hlines⟩
  have hdocument : Heedless (do
      program down
      let document := renderDocument ((← get).document.getD #[])
      print ("Copied:  " ++ document)
      print (macroListing (← get).macros)
      return some document) := by
    refine (Heedless.program h).bind fun _ => .get_bind (fun _ _ _ => rfl) fun d => ?_
    refine .after (.print _) fun _ => .get_bind (fun _ _ _ => rfl) fun e => ?_
    exact .after (.print _) fun _ => .pure _
  have htokens : (c.reworded code lines).tokens = c.tokens := rfl
  unfold PlotScript.runWith
  simp only [bind_apply, get_apply, htokens]
  by_cases hempty : c.tokens.isEmpty = true
  · rw [if_pos hempty, if_pos hempty]
    exact .ok ⟨code, lines, rfl, hlines⟩
  · rw [if_neg hempty, if_neg hempty]
    exact hdocument ⟨code, lines, rfl, hlines⟩

/-- A script in other words compiles to the same document. -/
protected theorem run : Heedless run := by
  rintro c _ ⟨code, lines, rfl, hlines⟩
  -- the number of levels comes from the tokens alone
  have hbudget : (c.reworded code lines).budget = c.budget := by
    unfold Compiler.budget
    rfl
  rw [run_eq_runWith, run_eq_runWith, hbudget]
  exact Heedless.runWith (Heedless.descent c.budget) ⟨code, lines, rfl, hlines⟩

end Heedless
end PlotScript
