import PlotScript.Proofs.FormParts

/-! Relations that every form of the grammar respects. A form is put together out of other actions,
so a relation that is kept when actions are put together holds between two readings of a form as
soon as it holds between what they read one level down. A property of a single action is such a
relation too, one that does not look at the second action. -/

namespace PlotScript
open Compile Grammar

/-- The texts that are worked out before they are written. -/
inductive WorkedOut : Compile String → Prop
  | text (text : String) : WorkedOut (pure text)
  | word (t : Token) : WorkedOut (wordText t)
  | subscript (name : String) : WorkedOut (subscript name)
  | innermost (name : String) : WorkedOut (do subscript ((← innermost) ++ name))
  | callHead (functions : List String) (function : String) : WorkedOut (callHead functions function)

/-- Two states that look the same to a form: it never looks at the code, the lines or the place. -/
structure SameView (c d : Compiler) : Prop where
  current : d.current = c.current
  scope : d.scope = c.scope
  functions : d.functions = c.functions
  stepsLeft : d.stepsLeft = c.stepsLeft

/-- A relation between two actions, the second perhaps under another watch, that is kept when
actions are put together as the grammar does it. -/
structure Congruence (watch watch' : Watch) where
  Rel : {α : Type} → Compile α → Compile α → Prop
  protected pure : ∀ {α : Type} (a : α), Rel (pure a) (pure a)
  protected bind : ∀ {α β : Type} {x y : Compile α} {f g : α → Compile β}, Rel x y →
    (∀ a, Rel (f a) (g a)) → Rel (x >>= f) (y >>= g)
  exhausted : ∀ {α : Type}, Rel (throw .exhausted : Compile α) (throw .exhausted)
  protected fail : ∀ {α : Type} (message : String), Rel (fail message : Compile α) (fail message)
  protected endingQuietly : ∀ {x y : Compile Unit}, Rel x y →
    Rel (endingQuietly x) (endingQuietly y)
  look : ∀ {α : Type} {f g : Compiler → Compile α}, (∀ c d, SameView c d → f d = f c) →
    (∀ c, Rel (f c) (g c)) → Rel (get >>= f) (get >>= g)
  protected current : Rel current current
  protected nextIs : ∀ text, Rel (nextIs text) (nextIs text)
  protected advance : Rel advance advance
  protected emitFrom : ∀ {piece : Compile String}, WorkedOut piece →
    Rel (emitFrom piece) (emitFrom piece)
  /-- A comprehension may be watched in another way. -/
  protected watched : ∀ {α : Type} {x y : Compile α} {form : Form}, form ≠ .comprehension →
    Rel x y → Rel (Watched.watched watch form x) (Watched.watched watch' form y)

namespace Congruence
variable {watch watch' : Watch}

section rel
variable {L : Congruence watch watch'} {α β : Type}

protected theorem Rel.pure (a : α) : L.Rel (Pure.pure a) (Pure.pure a) := L.pure a

protected theorem Rel.fail (message : String) :
    L.Rel (Compile.fail message : Compile α) (Compile.fail message) := L.fail message

protected theorem Rel.bind {x y : Compile α} {f g : α → Compile β} (hx : L.Rel x y)
    (hf : ∀ a, L.Rel (f a) (g a)) : L.Rel (x >>= f) (y >>= g) := L.bind hx hf

protected theorem Rel.endingQuietly {x y : Compile Unit} (hx : L.Rel x y) :
    L.Rel (Compile.endingQuietly x) (Compile.endingQuietly y) := L.endingQuietly hx

protected theorem Rel.discard {x y : Compile α} (hx : L.Rel x y) :
    L.Rel (Functor.discard x) (Functor.discard y) :=
  hx.bind fun _ => .pure _

protected theorem Rel.ite {p : Prop} [Decidable p] {x y x' y' : Compile α} (hx : L.Rel x x')
    (hy : L.Rel y y') : L.Rel (if p then x else y) (if p then x' else y') := by
  split
  · exact hx
  · exact hy

protected theorem Rel.orFail {x y : Compile Bool} {rest rest' : Compile α} (hx : L.Rel x y)
    (message : String) (hrest : L.Rel rest rest') :
    L.Rel
      (do
        unless ← x do fail message
        rest)
      (do
        unless ← y do fail message
        rest') :=
  hx.bind fun _ => .ite hrest ((Rel.fail message).bind fun _ => hrest)

protected theorem Rel.loop {x y : Compile Bool} (hx : L.Rel x y) (rounds : Nat) :
    L.Rel (Compile.loop x rounds) (Compile.loop y rounds) := by
  induction rounds with
  | zero => exact L.exhausted
  | succ rounds ih => exact hx.bind fun _ => .ite (.pure _) ih

theorem Rel.firstOf_nil : L.Rel (firstOf []) (firstOf []) := .pure _

theorem Rel.firstOf_cons {x y : Compile Bool} {xs ys : List (Compile Bool)} (hx : L.Rel x y)
    (hxs : L.Rel (firstOf xs) (firstOf ys)) : L.Rel (firstOf (x :: xs)) (firstOf (y :: ys)) :=
  hx.bind fun _ => .ite (.pure _) hxs

/-- The first of some attempts, related only together with what comes before it. -/
theorem Rel.firstOf_behind {x x' : Compile Unit} {y y' : Compile Bool}
    {ys ys' : List (Compile Bool)} {rest rest' : Bool → Compile α}
    (hfirst : L.Rel (x >>= fun _ => y) (x' >>= fun _ => y'))
    (hys : L.Rel (firstOf ys) (firstOf ys')) (hrest : ∀ found, L.Rel (rest found) (rest' found)) :
    L.Rel (x >>= fun _ => firstOf (y :: ys) >>= rest)
      (x' >>= fun _ => firstOf (y' :: ys') >>= rest') := by
  have hwhole := (hfirst.bind fun found => .ite (p := found = true) (.pure true) hys).bind hrest
  simpa only [firstOf, bind_assoc] using hwhole

end rel

variable (L : Congruence watch watch')

protected theorem currentIs (text : String) : L.Rel (currentIs text) (currentIs text) :=
  L.current.bind fun _ => .pure _

protected theorem emit (text : String) : L.Rel (emit text) (emit text) := L.emitFrom (.text text)

protected theorem skipWhile (test : Token → Bool) : L.Rel (skipWhile test) (skipWhile test) := by
  have hround : L.Rel (skipWhile.skipOne test) (skipWhile.skipOne test) :=
    L.current.bind fun _ => .ite (L.advance.bind fun _ => .pure _) (.pure _)
  exact L.look (fun _ _ h => by rw [h.stepsLeft]) fun _ => hround.loop _

protected theorem atEnd (closers : List String) : L.Rel (atEnd closers) (atEnd closers) := by
  refine L.look (fun _ _ h => by rw [h.current]) fun c => ?_
  cases c.current with
  | none => exact .pure _
  | some t => exact .pure _

protected theorem operator : L.Rel operator operator := by
  refine L.look (fun _ _ h => by rw [h.current]) fun c => ?_
  cases c.current with
  | none => exact .pure _
  | some t => exact .ite ((L.emit _).bind fun _ => L.advance.bind fun _ => .pure _) (.pure _)

protected theorem chainTail {further further' last last' : Compile Bool}
    (hfurther : L.Rel further further') (hlast : L.Rel last last') :
    L.Rel (chainTail further last) (chainTail further' last') := by
  refine Rel.endingQuietly ((L.currentIs _).bind fun _ => .ite ?_ ?_)
  · exact (L.emit _).bind fun _ => hfurther.discard
  · refine (L.currentIs _).bind fun _ => .ite ?_ (.pure _)
    exact (L.emit _).bind fun _ => hlast.discard

/-! The forms that go on to expressions and statements one level down. -/

/-- Two descents with related expressions. -/
structure Reads (down down' : Descent) : Prop where
  rounds : down.rounds = down'.rounds
  expression : L.Rel down.expression down'.expression

/-- Two descents with related expressions and statements. -/
structure Descends (down down' : Descent) : Prop extends L.Reads down down' where
  statement : ∀ fresh, L.Rel (down.statement fresh) (down'.statement fresh)

section down
variable {L} {down down' : Descent}

theorem Reads.tryExpression (h : L.Reads down down') :
    L.Rel down.tryExpression down'.tryExpression :=
  h.expression.bind fun _ => .pure _

theorem Reads.acceptsExpression (h : L.Reads down down') :
    L.Rel down.acceptsExpression down'.acceptsExpression :=
  h.expression.bind fun _ => .pure _

variable (L)

section expression
variable (h : L.Reads down down')
include h

protected theorem operation : L.Rel (Watched.operation watch down)
    (Watched.operation watch' down') :=
  (L.watched (by decide) L.operator).bind fun _ => .ite h.tryExpression (.pure _)

protected theorem point : L.Rel (point down) (point down') := by
  have haccepts := h.acceptsExpression
  refine (L.currentIs _).bind fun _ => .ite (L.advance.bind fun _ => ?_) (.pure _)
  refine (L.emit _).bind fun _ => haccepts.orFail _ ?_
  refine (L.currentIs _).orFail _ ((L.emit _).bind fun _ => L.advance.bind fun _ => ?_)
  refine haccepts.orFail _ ((L.emit _).bind fun _ => ?_)
  exact (L.currentIs _).orFail _ (L.advance.bind fun _ => .pure _)

protected theorem bracketed : L.Rel (bracketed down) (bracketed down') := by
  refine (L.emit _).bind fun _ => L.advance.bind fun _ => ?_
  refine h.tryExpression.bind fun _ => (L.currentIs _).orFail _ ?_
  exact (L.emit _).bind fun _ => L.advance

protected theorem attempt : L.Rel
    (attempt (Watched.watched watch .point (point down)) (Watched.operation watch down))
    (attempt (Watched.watched watch' .point (point down')) (Watched.operation watch' down')) := by
  refine (L.watched (by decide) (L.point h)).bind fun _ => .ite ?_ (.pure _)
  exact (L.operation h).bind fun _ => (L.atEnd _).bind fun _ => .pure _

protected theorem list : L.Rel (list down) (list down') := by
  have hitem : L.Rel (listItem down) (listItem down') := by
    refine (L.currentIs _).bind fun _ => .ite (.pure _) ?_
    refine h.tryExpression.bind fun _ => ?_
    refine (L.currentIs _).bind fun _ => .ite (.pure _) ((L.currentIs _).orFail _ ?_)
    exact (L.emit _).bind fun _ => L.advance.bind fun _ => .pure _
  unfold Grammar.list
  rw [h.rounds]
  refine (L.currentIs _).bind fun _ => .ite ((L.emit _).bind fun _ => ?_) (.pure _)
  refine L.advance.bind fun _ => (hitem.loop _).bind fun _ => ?_
  exact (L.emit _).bind fun _ => L.advance.bind fun _ => .pure _

protected theorem listAccess : L.Rel (Watched.listAccess watch down)
    (Watched.listAccess watch' down') := by
  refine L.watched (by decide) ((L.currentIs _).bind fun _ => .ite ?_ (.pure _))
  exact L.watched (by decide) (L.list h)

protected theorem call : L.Rel (call down) (call down') := by
  have haccepts := h.acceptsExpression
  have hargument : ∀ function,
      L.Rel (callArgument down function) (callArgument down' function) := by
    intro function
    refine (L.currentIs _).bind fun _ => .ite (.pure _) ((L.currentIs _).orFail _ ?_)
    refine (L.emit _).bind fun _ => L.advance.bind fun _ => ?_
    exact haccepts.orFail _ (.pure _)
  unfold Grammar.call
  rw [h.rounds]
  refine L.look (fun _ _ h => by rw [h.functions]) fun c => L.current.bind fun t => ?_
  cases t.text? with
  | none => exact .pure _
  | some function =>
    refine .ite ((L.emitFrom (.callHead _ _)).bind fun _ => L.advance.bind fun _ => ?_) (.pure _)
    refine (L.currentIs _).orFail _ (L.advance.bind fun _ => haccepts.orFail _ ?_)
    refine ((hargument _).loop _).bind fun _ => (L.emit _).bind fun _ => ?_
    exact L.advance.bind fun _ => .pure _

/-- A comprehension apart from its own watch. -/
theorem exists_comprehension : ∃ x y, L.Rel x y ∧
    Watched.comprehension watch down = Watched.watched watch .comprehension x ∧
    Watched.comprehension watch' down' = Watched.watched watch' .comprehension y := by
  refine ⟨_, _, ?_, rfl, rfl⟩
  refine L.current.bind fun t => .ite ?rest ((L.nextIs _).bind fun _ => .ite ?rest (.pure _))
  refine (L.emitFrom (.word t)).bind fun _ => L.advance.bind fun _ => ?_
  refine (L.currentIs _).orFail _ ((L.emit _).bind fun _ => L.advance.bind fun _ => ?_)
  refine L.current.bind fun u => ?_
  cases u.name? with
  | none => exact .fail _
  | some name =>
    refine (L.emit _).bind fun _ => L.advance.bind fun _ => ?_
    refine (L.currentIs _).orFail _ (L.advance.bind fun _ => (L.emit _).bind fun _ => ?_)
    refine (L.watched (by decide) (L.list h)).orFail _ ?_
    exact L.advance.bind fun _ => .pure _

end expression

section statement
variable (h : L.Descends down down')
include h

protected theorem block : L.Rel (block down) (block down') := by
  have hround : L.Rel (blockStatement down) (blockStatement down') :=
    (L.currentIs _).bind fun _ => .ite (.pure _) ((h.statement _).bind fun _ => .pure _)
  unfold Grammar.block
  rw [h.rounds]
  refine (L.currentIs _).bind fun _ => .ite (L.advance.bind fun _ => ?_) (.pure _)
  exact (hround.loop _).bind fun _ => L.advance.bind fun _ => .pure _

protected theorem namespaceStatement :
    L.Rel (namespaceStatement down) (namespaceStatement down') := by
  refine (L.currentIs _).bind fun _ => .ite (.pure _) ((h.statement _).bind fun _ => ?_)
  exact (L.skipWhile _).bind fun _ => .pure _

protected theorem programStatement : L.Rel (programStatement down) (programStatement down') := by
  refine L.look (fun _ _ h => by rw [h.current]) fun c => ?_
  cases c.current with
  | none => exact .pure _
  | some t =>
    refine .ite ((h.statement _).endingQuietly.bind fun _ => .pure _) ?_
    exact (h.statement _).bind fun _ => .pure _

end statement

/-! Conditionals are made of values. -/

section conditional
variable (hvalue : L.Rel (Watched.value watch down) (Watched.value watch' down'))
include hvalue

protected theorem condition : L.Rel (Watched.condition watch down)
    (Watched.condition watch' down') := by
  refine L.watched (by decide) (hvalue.orFail _ (L.current.bind fun t => ?_))
  refine .ite ?last ((Rel.fail _).bind fun _ => ?last)
  refine (L.emit _).bind fun _ => L.advance.bind fun _ => ?_
  exact hvalue.bind fun _ => .ite (.pure _) (.fail _)

protected theorem branch {opening opening' : Compile Unit} (hopening : L.Rel opening opening') :
    L.Rel (Watched.branch watch down opening) (Watched.branch watch' down' opening') := by
  refine (L.currentIs _).orFail _ (L.advance.bind fun _ => hopening.bind fun _ => ?_)
  refine (L.skipWhile _).bind fun _ => hvalue.orFail _ ((L.skipWhile _).bind fun _ => ?_)
  exact (L.currentIs _).orFail _ L.advance

protected theorem otherwise : L.Rel (Watched.otherwise watch down)
    (Watched.otherwise watch' down') := by
  refine L.watched (by decide) ((L.currentIs _).bind fun _ => .ite ?_ (.pure _))
  exact L.advance.bind fun _ => (L.branch hvalue (.pure _)).bind fun _ => .pure _

protected theorem furtherCondition (rounds : Nat) :
    L.Rel (Watched.furtherCondition watch down rounds)
      (Watched.furtherCondition watch' down' rounds) := by
  induction rounds with
  | zero => exact L.exhausted
  | succ rounds ih =>
    refine L.watched (by decide) ((L.currentIs _).bind fun _ => .ite ?_ (.pure _))
    refine L.advance.bind fun _ => (L.condition hvalue).bind fun _ => ?_
    refine (L.branch hvalue (L.emit _)).bind fun _ => ?_
    exact (L.chainTail ih (L.otherwise hvalue)).bind fun _ => .pure _

protected theorem conditional (hrounds : down.rounds = down'.rounds) :
    L.Rel (Watched.conditional watch down) (Watched.conditional watch' down') := by
  unfold Watched.conditional
  rw [hrounds]
  refine L.watched (by decide) ((L.currentIs _).bind fun _ => .ite ?_ (.pure _))
  refine L.advance.bind fun _ => (L.emit _).bind fun _ => (L.condition hvalue).bind fun _ => ?_
  refine (L.branch hvalue (L.emit _)).bind fun _ => ?_
  refine (L.chainTail (L.furtherCondition hvalue _) (L.otherwise hvalue)).bind fun _ => ?_
  exact (L.emit _).bind fun _ => .pure _

end conditional
end down
end Congruence

/-- A relation that also holds between what the forms do to names, scopes, functions and macros. -/
structure NamingCongruence (watch watch' : Watch) extends Congruence watch watch' where
  protected latex : Rel latex latex
  protected pushScope : ∀ name, Rel (pushScope name) (pushScope name)
  protected popScope : Rel popScope popScope
  protected addName : ∀ path name value, Rel (addName path name value) (addName path name value)
  protected isBound : ∀ path name, Rel (isBound path name) (isBound path name)
  protected define : ∀ name, Rel (define name) (define name)
  protected emitName : ∀ name, Rel (emitName name) (emitName name)
  addFunction : ∀ name, Rel (modify fun c => { c with functions := c.functions ++ [name] })
    (modify fun c => { c with functions := c.functions ++ [name] })
  addMacro : ∀ m, Rel (modify fun c => { c with macros := c.macros ++ [m] })
    (modify fun c => { c with macros := c.macros ++ [m] })
  protected updateLastMacro : ∀ update, Rel (updateLastMacro update) (updateLastMacro update)

namespace NamingCongruence
variable {watch watch' : Watch} (L : NamingCongruence watch watch')

protected theorem functionParameter : L.Rel functionParameter functionParameter := by
  refine (L.currentIs _).bind fun _ => .ite (.pure _) (L.current.bind fun t => ?_)
  cases t.name? with
  | none => exact .fail _
  | some name =>
    refine (L.emitFrom (.innermost name)).bind fun _ => ?_
    refine L.look (fun _ _ h => by rw [h.scope]) fun c => (L.addName _ _ _).bind fun _ => ?_
    refine L.advance.bind fun _ => (L.currentIs _).bind fun _ => .ite ?_ ?_
    · exact (L.emit _).bind fun _ => L.advance.bind fun _ => .pure _
    · refine (L.currentIs _).orFail _ ((L.emit _).bind fun _ => ?_)
      exact L.advance.bind fun _ => .pure _

protected theorem macroParameter : L.Rel macroParameter macroParameter := by
  refine (L.currentIs _).bind fun _ => .ite (.pure _) (L.current.bind fun t => ?_)
  cases t.name? with
  | none => exact .fail _
  | some name =>
    refine L.look (fun _ _ h => by rw [h.scope]) fun c => (L.addName _ _ _).bind fun _ => ?_
    refine (L.updateLastMacro _).bind fun _ => L.advance.bind fun _ => ?_
    refine (L.currentIs _).bind fun _ => .ite (L.advance.bind fun _ => .pure _) ?_
    refine (L.currentIs _).orFail _ ((L.updateLastMacro _).bind fun _ => ?_)
    exact L.advance.bind fun _ => .pure _

protected theorem macroBody (steps depth : Nat) :
    L.Rel (macroBody steps depth) (macroBody steps depth) := by
  induction steps generalizing depth with
  | zero => exact L.exhausted
  | succ steps ih =>
    refine L.current.bind fun t => .ite (.pure _) ((L.updateLastMacro _).bind fun _ => ?_)
    exact L.advance.bind fun _ => ih _

protected theorem macroDefinition : L.Rel macroDefinition macroDefinition := by
  refine (L.currentIs _).bind fun _ => .ite (L.advance.bind fun _ => ?_) (.pure _)
  refine L.current.bind fun t => ?_
  cases t.name? with
  | none => exact .fail _
  | some name =>
    refine (L.addMacro _).bind fun _ => L.look (fun _ _ h => by rw [h.scope]) fun c => ?_
    refine (L.addName _ _ _).bind fun _ => (L.pushScope _).bind fun _ => ?_
    refine L.advance.bind fun _ => (L.currentIs _).orFail _ ?_
    refine L.advance.bind fun _ => (L.currentIs _).orFail _ (L.advance.bind fun _ => ?_)
    refine L.look (fun _ _ h => by rw [h.stepsLeft]) fun c => ?_
    refine (L.macroParameter.loop _).bind fun _ => (L.currentIs _).orFail _ ?_
    refine L.advance.bind fun _ => L.look (fun _ _ h => by rw [h.stepsLeft]) fun c => ?_
    refine (L.macroBody _ _).bind fun _ => (L.updateLastMacro _).bind fun _ => ?_
    exact L.popScope.bind fun _ => .pure _

section down
variable {down down' : Descent}

section expression
variable (h : L.Reads down down')
include h

protected theorem nameValue (name : String) :
    L.Rel (nameValue down name) (nameValue down' name) := by
  have hreference : L.Rel (reference down name) (reference down' name) := by
    refine L.look (fun _ _ h => by rw [h.scope]) fun c => (L.isBound _ _).orFail _ ?_
    refine (L.nextIs _).bind fun _ => .ite (L.advance.bind fun _ => ?_) (L.emitName _)
    exact L.advance.bind fun _ => h.tryExpression.bind fun _ => L.popScope
  rw [nameValue_eq, nameValue_eq]
  refine L.latex.bind fun text => .ite ((L.nextIs _).bind fun _ => ?_) hreference
  exact .ite ((L.define _).bind fun _ => hreference) hreference

protected theorem function : L.Rel (function down) (function down') := by
  refine (L.currentIs _).bind fun _ => .ite (L.advance.bind fun _ => ?_) (.pure _)
  refine L.current.bind fun t => ?_
  cases t.name? with
  | none => exact .fail _
  | some name =>
    refine (L.emitFrom (.subscript _)).bind fun _ => (L.emit _).bind fun _ => ?_
    refine L.look (fun _ _ h => by rw [h.scope]) fun c => (L.addName _ _ _).bind fun _ => ?_
    refine (L.pushScope _).bind fun _ => (L.addFunction _).bind fun _ => ?_
    refine L.advance.bind fun _ => (L.currentIs _).orFail _ (L.advance.bind fun _ => ?_)
    refine L.look (fun _ _ h => by rw [h.stepsLeft]) fun c => ?_
    refine (L.functionParameter.loop _).bind fun _ => (L.currentIs _).orFail _ ?_
    refine (L.emit _).bind fun _ => L.advance.bind fun _ => (L.skipWhile _).bind fun _ => ?_
    refine h.acceptsExpression.orFail _ ((L.skipWhile _).bind fun _ => ?_)
    exact (L.currentIs _).orFail _ (L.popScope.bind fun _ => .pure _)

protected theorem value :
    L.Rel (Watched.value watch down) (Watched.value watch' down') := by
  have haccess := L.listAccess h
  refine L.watched (by decide) (L.look (fun _ _ h => by rw [h.current]) fun c => ?_)
  cases c.current with
  | none => exact .pure _
  | some t =>
    refine .ite (.ite ((L.emit _).bind fun _ => L.advance.bind fun _ => ?unsigned) ?unsigned)
      (.pure _)
    refine L.current.bind fun t => ?_
    cases t.name? with
    | none =>
      refine (L.emit _).bind fun _ => L.advance.bind fun _ => ?_
      exact haccess.discard.bind fun _ => .pure _
    | some name =>
      refine (L.nameValue h _).bind fun _ => L.advance.bind fun _ => ?_
      exact haccess.discard.bind fun _ => .pure _

end expression

protected theorem namespaceBlock (hopen : L.Rel openNamespace openNamespace)
    (h : L.Descends down down') : L.Rel (namespaceBlock down) (namespaceBlock down') := by
  have hbody : L.Rel (namespaceBody down) (namespaceBody down') := by
    unfold namespaceBody
    rw [h.rounds]
    refine L.advance.bind fun _ => (L.currentIs _).orFail _ (L.advance.bind fun _ => ?_)
    refine ((L.namespaceStatement h).loop _).endingQuietly.bind fun _ => ?_
    exact L.popScope.bind fun _ => L.advance.bind fun _ => .pure _
  rw [namespaceBlock_eq, namespaceBlock_eq]
  exact (L.currentIs _).bind fun _ => .ite (hopen.bind fun _ => hbody) (.pure _)

end down
end NamingCongruence

/-- A relation that holds between the two readings of each form that is not only put together out of
reading on and writing. -/
structure FormCongruence (watch watch' : Watch) extends Congruence watch watch' where
  protected value : ∀ {down down' : Descent}, toCongruence.Reads down down' →
    Rel (Watched.value watch down) (Watched.value watch' down')
  protected function : ∀ {down down' : Descent}, toCongruence.Reads down down' →
    Rel (function down) (function down')
  /-- The entry of a statement, which a namespace makes into a folder. -/
  openNamespace : ∀ {down down' : Descent}, toCongruence.Descends down down' →
    ∀ fresh, Rel
      (do
        Watched.openStamped fresh
        Watched.watched watch .namespaceBlock (namespaceBlock down))
      (do
        Watched.openStamped fresh
        Watched.watched watch' .namespaceBlock (namespaceBlock down'))
  protected note : Rel note note
  protected macroDefinition : Rel macroDefinition macroDefinition
  protected macroCall : Rel macroCall macroCall
  protected importModule : Rel importModule importModule

/-- What is left to be checked where names, scopes, functions and macros are related. -/
def NamingCongruence.forms {watch watch' : Watch} (L : NamingCongruence watch watch')
    (hopen : ∀ fresh, L.Rel (Watched.openStamped fresh) (Watched.openStamped fresh))
    (hnamespace : L.Rel openNamespace openNamespace) (hnote : L.Rel note note)
    (hcall : L.Rel macroCall macroCall) (himport : L.Rel importModule importModule) :
    FormCongruence watch watch' where
  toCongruence := L.toCongruence
  value := L.value
  function := L.function
  openNamespace h fresh := (hopen fresh).bind fun _ =>
    L.watched (by decide) (L.namespaceBlock hnamespace h)
  note := hnote
  macroDefinition := L.macroDefinition
  macroCall := hcall
  importModule := himport

namespace FormCongruence
variable {watch watch' : Watch} (L : FormCongruence watch watch') {down down' : Descent}

protected theorem conditional (h : L.Reads down down') :
    L.Rel (Watched.conditional watch down) (Watched.conditional watch' down') :=
  L.toCongruence.conditional (L.value h) h.rounds

/-- The forms that a statement can have besides a namespace. -/
theorem otherForms (h : L.Reads down down') {expression expression' : Compile Verdict}
    (hown : L.Rel expression expression') :
    L.Rel
      (firstOf [Watched.watched watch .function (function down),
        (do return (← expression) = Verdict.accepted), Watched.watched watch .note note,
        Watched.watched watch .macroDefinition macroDefinition,
        Watched.watched watch .importModule importModule, Watched.conditional watch down])
      (firstOf [Watched.watched watch' .function (function down'),
        (do return (← expression') = Verdict.accepted), Watched.watched watch' .note note,
        Watched.watched watch' .macroDefinition macroDefinition,
        Watched.watched watch' .importModule importModule, Watched.conditional watch' down']) := by
  refine .firstOf_cons (L.watched (by decide) (L.function h)) ?_
  refine .firstOf_cons (hown.bind fun _ => .pure _) ?_
  refine .firstOf_cons (L.watched (by decide) L.note) ?_
  refine .firstOf_cons (L.watched (by decide) L.macroDefinition) ?_
  refine .firstOf_cons (L.watched (by decide) L.importModule) ?_
  exact .firstOf_cons (L.conditional h) .firstOf_nil

/-- An expression that does not begin with a point. -/
theorem operandFirst (h : L.Descends down down')
    (hcomprehension : ∀ {x y : Compile Bool}, L.Rel x y →
      L.Rel (Watched.watched watch .comprehension x) (Watched.watched watch' .comprehension y)) :
    L.Rel (Watched.operandFirst watch down) (Watched.operandFirst watch' down') := by
  obtain ⟨x, y, hbody, hx, hy⟩ := L.exists_comprehension h.toReads
  have hoperand : L.Rel (Watched.operand watch down) (Watched.operand watch' down') := by
    refine (L.currentIs _).bind fun _ => .ite ?_ ?_
    · exact (L.bracketed h.toReads).bind fun _ => .pure _
    unfold Watched.term
    rw [hx, hy]
    refine .firstOf_cons (L.watched (by decide) (L.call h.toReads)) ?_
    refine .firstOf_cons (L.watched (by decide) L.macroCall) ?_
    refine .firstOf_cons (L.value h.toReads) ?_
    refine .firstOf_cons (L.watched (by decide) (L.list h.toReads)) ?_
    refine .firstOf_cons (L.watched (by decide) (L.point h.toReads)) ?_
    refine .firstOf_cons (hcomprehension hbody) ?_
    exact .firstOf_cons (L.watched (by decide) (L.block h)) .firstOf_nil
  refine hoperand.bind fun _ => .ite ((L.operation h.toReads).bind fun _ => ?_) (.pure _)
  exact (L.atEnd _).bind fun _ => .ite (.pure _) (.pure _)

/-- A statement, however its expression is read. -/
theorem statementWith (h : L.Descends down down') {expression expression' : Compile Verdict}
    (hown : L.Rel expression expression') (fresh : Bool) :
    L.Rel (Watched.statementWith watch down expression fresh)
      (Watched.statementWith watch' down' expression' fresh) := by
  refine L.watched (by rintro ⟨⟩) (L.look (fun _ _ h => by rw [h.current]) fun c => ?_)
  refine .ite (.pure _) ((L.skipWhile _).bind fun _ => ?_)
  refine .firstOf_behind (L.openNamespace h fresh) (L.otherForms h.toReads hown)
    fun _ => .ite L.advance ?_
  exact (Congruence.Rel.fail _).bind fun _ => L.advance

end FormCongruence

end PlotScript
