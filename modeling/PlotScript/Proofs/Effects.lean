import PlotScript.Proofs.Congruence
import PlotScript.Proofs.Halting

/-! What the forms of the grammar do to a state. A relation that allows a few kinds of change,
one after the other, holds between the first state and the last of everything that is read. -/

namespace PlotScript
open Compile Grammar

/-- The state that an action ends in, with a result or with a fault. -/
def stateAfter {α : Type} : EStateM.Result Fault Compiler α → Compiler
  | .ok _ c => c
  | .error _ c => c

/-- The action goes along a relation, whatever comes of it. -/
def Goes (R : Compiler → Compiler → Prop) {α : Type} (x : Compile α) : Prop :=
  ∀ c, R c (stateAfter (x c))

theorem Goes.along {R : Compiler → Compiler → Prop} {α : Type} {x : Compile α} (h : Goes R x)
    {c d : Compiler} {a : α} (hrun : x c = .ok a d) : R c d := by
  have hend := h c
  rwa [hrun] at hend

/-- Neither the tokens, the cursor, the line, the functions nor the entries change. -/
structure Quiet (c d : Compiler) : Prop where
  tokens : d.tokens = c.tokens
  current : d.current = c.current
  position : d.position = c.position
  line : d.line = c.line
  lines : d.lines = c.lines
  functions : d.functions = c.functions
  document : d.document = c.document
  target : d.target = c.target
  lastId : d.lastId = c.lastId
  folder : d.folder = c.folder

theorem Quiet.refl (c : Compiler) : Quiet c c := ⟨rfl, rfl, rfl, rfl, rfl, rfl, rfl, rfl, rfl, rfl⟩

/-- Neither the tokens nor the entries change, and a token that becomes current is one of the
tokens. -/
structure Aside (c d : Compiler) : Prop where
  tokens : d.tokens = c.tokens
  document : d.document = c.document
  target : d.target = c.target
  lastId : d.lastId = c.lastId
  folder : d.folder = c.folder
  current : ∀ t, d.current = some t → c.current = some t ∨ t ∈ c.tokens

/-- Changes that keep the current token too. -/
theorem Aside.of_current {c d : Compiler} (htokens : d.tokens = c.tokens)
    (hdocument : d.document = c.document) (htarget : d.target = c.target)
    (hlast : d.lastId = c.lastId) (hfolder : d.folder = c.folder)
    (hcurrent : d.current = c.current) : Aside c d :=
  ⟨htokens, hdocument, htarget, hlast, hfolder, fun _ h => .inl (hcurrent ▸ h)⟩

theorem Quiet.aside {c d : Compiler} (h : Quiet c d) : Aside c d :=
  .of_current h.tokens h.document h.target h.lastId h.folder h.current

/-- The relation allows one thing after another. -/
class Chained (R : Compiler → Compiler → Prop) : Prop where
  refl : ∀ c, R c c
  trans : ∀ {c d e}, R c d → R d e → R c e

/-- The relation allows one thing after another, and all changes to names, scopes and macros. -/
class Steady (R : Compiler → Compiler → Prop) : Prop where
  trans : ∀ {c d e}, R c d → R d e → R c e
  quiet : ∀ {c d}, Quiet c d → R c d

instance {R : Compiler → Compiler → Prop} [Steady R] : Chained R :=
  ⟨fun c => Steady.quiet (.refl c), Steady.trans⟩

/-- The relation allows steps forward. -/
class Stepping (R : Compiler → Compiler → Prop) : Prop extends Chained R where
  advance : Goes R advance

/-- The relation allows steps forward too. -/
class Moving (R : Compiler → Compiler → Prop) : Prop extends Steady R where
  advance : Goes R advance

instance {R : Compiler → Compiler → Prop} [Moving R] : Stepping R := ⟨Moving.advance⟩

/-- The relation allows all changes beside tokens and entries. -/
class Lenient (R : Compiler → Compiler → Prop) : Prop extends Steady R where
  aside : ∀ {c d}, Aside c d → R c d
  quiet h := aside h.aside

/-- The action works something out and leaves the state as it is. -/
def Still {α : Type} (x : Compile α) : Prop := ∀ c, stateAfter (x c) = c

section still
variable {α β : Type}

theorem Still.pure (a : α) : Still (pure a : Compile α) := fun _ => rfl

theorem Still.throw (e : Fault) : Still (throw e : Compile α) := fun _ => rfl

theorem Still.get : Still (get : Compile Compiler) := fun _ => rfl

theorem Still.bind {x : Compile α} {f : α → Compile β} (hx : Still x) (hf : ∀ a, Still (f a)) :
    Still (x >>= f) := by
  intro c
  have hfirst := hx c
  rw [bind_apply]
  cases hrun : x c with
  | error e d =>
    rw [hrun] at hfirst
    exact hfirst
  | ok a d =>
    rw [hrun] at hfirst
    obtain rfl : d = c := hfirst
    exact hf a d

theorem Still.subscript (name : String) : Still (subscript name) := by
  unfold Compile.subscript
  split
  · exact .throw _
  · exact .pure _
  · exact .pure _

theorem Still.innermost : Still innermost := by
  unfold Compile.innermost
  refine Still.get.bind fun c => ?_
  split
  · exact .pure _
  · exact .throw _

theorem Still.wordText (t : Token) : Still (wordText t) := by
  unfold Grammar.wordText
  split
  · exact .pure _
  · exact .throw _

theorem Still.callHead (functions : List String) (function : String) :
    Still (callHead functions function) := by
  unfold Grammar.callHead
  split
  · exact .pure _
  · split
    · exact (Still.subscript _).bind fun _ => .pure _
    · exact .pure _

theorem WorkedOut.still {piece : Compile String} (h : WorkedOut piece) : Still piece := by
  cases h with
  | text text => exact .pure text
  | word t => exact .wordText t
  | subscript name => exact .subscript name
  | innermost name => exact Still.innermost.bind fun _ => .subscript _
  | callHead functions function => exact .callHead functions function

end still

section chained
variable {R : Compiler → Compiler → Prop} [Chained R] {α β : Type}

protected theorem Goes.of_same {x : Compile α} (h : Still x) : Goes R x := by
  intro c
  rw [h c]
  exact Chained.refl c

@[grind .] protected theorem Goes.pure (a : α) : Goes R (pure a : Compile α) :=
  .of_same fun _ => rfl

@[grind .] protected theorem Goes.throw (e : Fault) : Goes R (throw e : Compile α) :=
  .of_same fun _ => rfl

@[grind .] protected theorem Goes.get : Goes R (get : Compile Compiler) := .of_same fun _ => rfl

/-- An action from a state that was reached from `c`, and another one behind it. -/
theorem Goes.bind_from {x : Compile α} {f : α → Compile β} {c d : Compiler}
    (hx : R c (stateAfter (x d))) (hf : ∀ a, Goes R (f a)) : R c (stateAfter ((x >>= f) d)) := by
  rw [bind_apply]
  cases hrun : x d with
  | error e d =>
    rw [hrun] at hx
    exact hx
  | ok a d =>
    rw [hrun] at hx
    exact Chained.trans hx (hf a d)

@[grind ←] protected theorem Goes.bind {x : Compile α} {f : α → Compile β} (hx : Goes R x)
    (hf : ∀ a, Goes R (f a)) : Goes R (x >>= f) :=
  fun c => Goes.bind_from (hx c) hf

@[grind ←] protected theorem Goes.map {x : Compile α} {f : α → β} (hx : Goes R x) :
    Goes R (f <$> x) :=
  .bind hx fun _ => .pure _

@[grind ←] protected theorem Goes.discard {x : Compile α} (hx : Goes R x) : Goes R (discard x) :=
  .map hx

protected theorem Goes.tryCatch {x : Compile α} {handle : Fault → Compile α} (hx : Goes R x)
    (hhandle : ∀ e, Goes R (handle e)) : Goes R (tryCatch x handle) := by
  intro c
  have hfirst := hx c
  rw [tryCatch_apply]
  cases hxc : x c with
  | ok a d =>
    rw [hxc] at hfirst
    exact hfirst
  | error e d =>
    rw [hxc] at hfirst
    exact Chained.trans hfirst (hhandle e d)

@[grind ←] protected theorem Goes.endingQuietly {x : Compile Unit} (hx : Goes R x) :
    Goes R (endingQuietly x) := by
  refine .tryCatch hx fun e => ?_
  split
  · exact .pure _
  · exact .throw e

@[grind ←] protected theorem Goes.loop {round : Compile Bool} (hround : Goes R round)
    (rounds : Nat) :
    Goes R (loop round rounds) := by
  induction rounds with
  | zero => exact .throw _
  | succ rounds ih =>
    unfold Compile.loop
    grind

protected theorem Goes.firstOf {attempts : List (Compile Bool)} (h : ∀ x ∈ attempts, Goes R x) :
    Goes R (firstOf attempts) := by
  induction attempts with
  | nil => exact .pure _
  | cons x others ih =>
    have hx : Goes R x := h x List.mem_cons_self
    have hothers : Goes R (Compile.firstOf others) :=
      ih fun y hy => h y (List.mem_cons_of_mem x hy)
    unfold Compile.firstOf
    grind

@[grind .] protected theorem Goes.fail (message : String) : Goes R (fail message : Compile α) := by
  unfold Compile.fail
  refine .bind .get fun c => ?_
  split <;> exact .throw _

omit [Chained R] in
protected theorem Goes.ite {p : Prop} [Decidable p] {x y : Compile α} (hx : Goes R x)
    (hy : Goes R y) : Goes R (if p then x else y) := by
  split
  · exact hx
  · exact hy

/-- Goes on if the first part is found, and reports a mistake if not. -/
protected theorem Goes.orFail {x : Compile Bool} {rest : Compile α} (hx : Goes R x)
    (message : String) (hrest : Goes R rest) :
    Goes R (x >>= fun found => if found = true then rest else
      (fail message : Compile PUnit) >>= fun _ => rest) :=
  hx.bind fun _ => .ite hrest ((Goes.fail message).bind fun _ => hrest)

@[grind .] protected theorem Goes.current : Goes R current := by
  unfold Compile.current
  grind

@[grind .] protected theorem Goes.currentIs (text : String) : Goes R (currentIs text) := by
  unfold Compile.currentIs
  grind

@[grind .] protected theorem Goes.nextIs (text : String) : Goes R (nextIs text) := by
  unfold Compile.nextIs peek
  grind

@[grind .] protected theorem Goes.lastEntry : Goes R lastEntry := by
  unfold Compile.lastEntry
  grind

@[grind .] protected theorem Goes.latex : Goes R latex := by
  unfold Compile.latex
  grind

/-- Where any text may be written, a text may be written behind another. -/
theorem Goes.emit_of_setLatex (h : ∀ text, Goes R (setLatex text)) (text : String) :
    Goes R (emit text) :=
  Goes.latex.bind fun _ => h _

@[grind .] protected theorem Goes.subscript (name : String) : Goes R (subscript name) :=
  .of_same (.subscript name)

@[grind .] protected theorem Goes.innermost : Goes R innermost := .of_same .innermost

@[grind .] protected theorem Goes.wordText (t : Token) : Goes R (wordText t) :=
  .of_same (.wordText t)

@[grind .] protected theorem Goes.resolve (path : List String) : Goes R (resolve path) := by
  unfold Compile.resolve
  grind

@[grind .] protected theorem Goes.checkAssignable (path : List String) :
    Goes R (checkAssignable path) := by
  unfold Compile.checkAssignable
  grind

@[grind .] protected theorem Goes.atEnd (closers : List String) : Goes R (atEnd closers) := by
  unfold Grammar.atEnd
  grind

/-- An attempt from an open state, and what is done where it fails. -/
protected theorem Goes.retrying {x : Compile (Option Bool)}
    {back : Compiler → String → Compile Bool} {next : Bool → Compile α} (hx : Goes R x)
    (hnext : ∀ done, Goes R (next done))
    (hback : ∀ c d text, c.text? = some text → R c d →
      R c (stateAfter ((back c text >>= next) d))) :
    Goes R ((do
      let text ← latex
      let c ← get
      retrying x (back c text)) >>= next) := by
  intro c
  have hlatex := Goes.latex (R := R) c
  rw [bind_apply, bind_apply]
  cases htext : latex c with
  | error e d =>
    rw [htext] at hlatex
    exact hlatex
  | ok text d =>
    obtain ⟨rfl, -⟩ := eq_of_latex htext
    have hwritten := text?_of_latex htext
    have hattempt := hx d
    simp only [bind_apply, get_apply, retrying_apply]
    cases hrun : x d with
    | error e d' =>
      rw [hrun] at hattempt
      cases e with
      | diagnostic m => exact (bind_apply d' _ _) ▸ hback d d' text hwritten hattempt
      | _ => exact hattempt
    | ok found d' =>
      rw [hrun] at hattempt
      cases found with
      | none => exact (bind_apply d' _ _) ▸ hback d d' text hwritten hattempt
      | some done => exact Chained.trans hattempt (hnext done d')

end chained

section steady
variable {R : Compiler → Compiler → Prop} [Steady R]

protected theorem Goes.modify {f : Compiler → Compiler} (h : ∀ c, Quiet c (f c)) :
    Goes R (modify f) :=
  fun c => Steady.quiet (h c)

@[grind .] protected theorem Goes.print (text : String) : Goes R (print text) :=
  .modify fun _ => ⟨rfl, rfl, rfl, rfl, rfl, rfl, rfl, rfl, rfl, rfl⟩

@[grind .] protected theorem Goes.pushScope (name : String) : Goes R (pushScope name) :=
  .modify fun _ => ⟨rfl, rfl, rfl, rfl, rfl, rfl, rfl, rfl, rfl, rfl⟩

@[grind .] protected theorem Goes.popScope : Goes R popScope := by
  intro c
  refine Steady.quiet ?_
  unfold Compile.popScope
  rw [bind_apply, get_apply]
  dsimp only
  split
  · exact .refl c
  · exact ⟨rfl, rfl, rfl, rfl, rfl, rfl, rfl, rfl, rfl, rfl⟩

@[grind .] protected theorem Goes.setNames (names : Except Fault Table) :
    Goes R (setNames names) := by
  unfold Compile.setNames
  split
  · exact .modify fun _ => ⟨rfl, rfl, rfl, rfl, rfl, rfl, rfl, rfl, rfl, rfl⟩
  · exact .throw _

@[grind .] protected theorem Goes.addName (path : List String) (name : String) (value : Binding) :
    Goes R (addName path name value) := by
  unfold Compile.addName
  grind

@[grind .] protected theorem Goes.assignName (path : List String) (name : String)
    (value : Binding) :
    Goes R (assignName path name value) := by
  unfold Compile.assignName
  grind

@[grind .] protected theorem Goes.isBound (path : List String) (name : String) :
    Goes R (isBound path name) := by
  unfold Compile.isBound
  grind

@[grind .] protected theorem Goes.define (name : String) : Goes R (define name) := by
  have hobject : Goes R (modify fun c : Compiler => { c with objectName := name }) :=
    .modify fun _ => ⟨rfl, rfl, rfl, rfl, rfl, rfl, rfl, rfl, rfl, rfl⟩
  unfold Compile.define
  grind

@[grind .] protected theorem Goes.reopenScope (name : String) : Goes R (reopenScope name) := by
  unfold Compile.reopenScope
  grind

@[grind .] protected theorem Goes.updateLastMacro (update : MacroDef → MacroDef) :
    Goes R (updateLastMacro update) :=
  .modify fun _ => ⟨rfl, rfl, rfl, rfl, rfl, rfl, rfl, rfl, rfl, rfl⟩

end steady

section stepping
variable {R : Compiler → Compiler → Prop} [Stepping R]

@[grind .] protected theorem Goes.advance : Goes R advance := Stepping.advance

@[grind .] protected theorem Goes.skipWhile (test : Token → Bool) : Goes R (skipWhile test) := by
  have hround : Goes R (skipWhile.skipOne test) := by
    unfold skipWhile.skipOne
    grind
  unfold Compile.skipWhile
  grind

@[grind .] protected theorem Goes.skipNewlines : Goes R skipNewlines := .skipWhile _

end stepping

section lenient
variable {R : Compiler → Compiler → Prop} [Lenient R]

protected theorem Goes.modify_aside {f : Compiler → Compiler} (h : ∀ c, Aside c (f c)) :
    Goes R (modify f) :=
  fun c => Lenient.aside (h c)

@[grind .] protected theorem Goes.moveTo (place : Int) : Goes R (moveTo place) := by
  refine .modify_aside fun c => ?_
  cases hplace : Place.get? c.tokens place with
  | none => exact ⟨rfl, rfl, rfl, rfl, rfl, fun _ h => by cases h⟩
  | some t =>
    refine ⟨rfl, rfl, rfl, rfl, rfl, fun _ h => .inr ?_⟩
    obtain ⟨i, -, hi⟩ := Option.bind_eq_some_iff.mp hplace
    cases h
    exact Array.mem_of_getElem? hi

instance : Moving R where
  advance := by
    have hline : Goes R (modify fun c : Compiler => { c with line := c.line + 1 }) :=
      .modify_aside fun _ => .of_current rfl rfl rfl rfl rfl rfl
    unfold Compile.advance
    grind

@[grind .] protected theorem Goes.retreat : Goes R retreat := by
  have hline : Goes R (modify fun c : Compiler => { c with line := c.line - 1 }) :=
    .modify_aside fun _ => .of_current rfl rfl rfl rfl rfl rfl
  unfold Compile.retreat
  grind

end lenient

/-- Neither the names, the scopes, the macros nor the entries change. -/
structure ReadsOnly (c d : Compiler) : Prop where
  names : d.names = c.names
  scope : d.scope = c.scope
  functions : d.functions = c.functions
  macros : d.macros = c.macros
  document : d.document = c.document
  target : d.target = c.target
  lastId : d.lastId = c.lastId
  folder : d.folder = c.folder

/-- The relation allows the cursor to move, tokens to be put in or taken out, and texts to be
printed. -/
class Splicing (R : Compiler → Compiler → Prop) : Prop extends Chained R where
  readsOnly : ∀ {c d}, ReadsOnly c d → R c d

namespace Splicing
variable {R : Compiler → Compiler → Prop} [Splicing R]

protected theorem modify {f : Compiler → Compiler} (h : ∀ c, ReadsOnly c (f c)) :
    Goes R (modify f) :=
  fun c => readsOnly (h c)

protected theorem moveTo (place : Int) : Goes R (moveTo place) := by
  refine Splicing.modify fun c => ?_
  cases Place.get? c.tokens place <;> exact ⟨rfl, rfl, rfl, rfl, rfl, rfl, rfl, rfl⟩

/-- One token forward or back, with the line counted. -/
protected theorem step (f : Compiler → Int) (place : Compiler → Int) : Goes R (do
    if (← current).isNewline then modify fun c => { c with line := f c }
    moveTo (place (← get))) := by
  have hline : Goes R (modify fun c : Compiler => { c with line := f c }) :=
    Splicing.modify fun _ => ⟨rfl, rfl, rfl, rfl, rfl, rfl, rfl, rfl⟩
  have hmove : Goes R (get >>= fun c => moveTo (place c)) :=
    Goes.get.bind fun _ => Splicing.moveTo _
  exact Goes.current.bind fun _ => .ite (hline.bind fun _ => hmove) hmove

instance : Stepping R := ⟨Splicing.step _ _⟩

protected theorem retreat : Goes R retreat := Splicing.step _ _

protected theorem spliceAfter (block : List Token) : Goes R (spliceAfter block) :=
  Splicing.modify fun _ => ⟨rfl, rfl, rfl, rfl, rfl, rfl, rfl, rfl⟩

protected theorem rejoinCode : Goes R rejoinCode :=
  Splicing.modify fun _ => ⟨rfl, rfl, rfl, rfl, rfl, rfl, rfl, rfl⟩

protected theorem dropToken : Goes R dropToken := by
  intro c
  unfold Compile.dropToken
  rw [bind_apply, get_apply]
  cases hplace : Place.erase? c.tokens c.position <;> simp only [hplace] <;>
    exact readsOnly ⟨rfl, rfl, rfl, rfl, rfl, rfl, rfl, rfl⟩

protected theorem readTokens (text : String) : Goes R (readTokens text) := by
  intro c
  rcases readTokens_cases text c with ⟨-, hread⟩ | ⟨e, position, hfault⟩
  · rw [hread]
    exact Chained.refl c
  · rw [hfault]
    exact readsOnly ⟨rfl, rfl, rfl, rfl, rfl, rfl, rfl, rfl⟩

protected theorem expansion (m : MacroDef) (parameters : List String) (text : String) :
    Goes R (expansion m parameters text) := by
  induction parameters generalizing text with
  | nil => exact .pure _
  | cons parameter others ih =>
    have hname : Goes R (nameObject m) := by
      have hset : Goes R (modify fun c : Compiler => { c with objectName := m.name ++ "Object" }) :=
        Splicing.modify fun _ => ⟨rfl, rfl, rfl, rfl, rfl, rfl, rfl, rfl⟩
      unfold nameObject
      grind
    unfold Grammar.expansion
    refine .ite ?_ ((Goes.currentIs _).bind fun _ => .ite (ih _) ?_)
    · refine hname.bind fun _ => Splicing.retreat.bind fun _ => Splicing.retreat.bind fun _ => ?_
      exact Splicing.dropToken.bind fun _ => Splicing.dropToken.bind fun _ => ih _
    · exact Goes.current.bind fun _ => (Goes.wordText _).bind fun _ => ih _

/-- Putting tokens in changes nothing else. -/
protected theorem macroCall : Goes R macroCall := by
  refine (Goes.nextIs _).bind fun _ => .ite (Goes.current.bind fun t => ?_) (.pure _)
  refine Goes.get.bind fun c => ?_
  split
  · exact .fail _
  · refine Goes.advance.bind fun _ => Goes.advance.bind fun _ => ?_
    refine (Goes.currentIs _).orFail _ (Goes.advance.bind fun _ => ?_)
    refine (Splicing.expansion _ _ _).bind fun _ => Goes.advance.bind fun _ => ?_
    refine (Splicing.spliceAfter _).bind fun _ => (Splicing.readTokens _).bind fun _ => ?_
    refine (Splicing.spliceAfter _).bind fun _ => Splicing.rejoinCode.bind fun _ => ?_
    exact .pure _

protected theorem importModule : Goes R importModule := by
  have hsplice : ∀ name text, Goes R (spliceModule name text) := by
    intro name text
    refine Goes.advance.bind fun _ => Goes.advance.bind fun _ => Goes.advance.bind fun _ => ?_
    refine (Splicing.readTokens _).bind fun _ => (Splicing.spliceAfter _).bind fun _ => ?_
    exact Splicing.rejoinCode
  have hprint : ∀ text, Goes R (print text) :=
    fun _ => Splicing.modify fun _ => ⟨rfl, rfl, rfl, rfl, rfl, rfl, rfl, rfl⟩
  refine (Goes.currentIs _).bind fun _ => .ite (Goes.advance.bind fun _ => ?_) (.pure _)
  refine Goes.current.bind fun t => (Goes.wordText t).bind fun name => Goes.get.bind fun c => ?_
  split
  · exact (hsplice _ _).bind fun _ => .pure _
  · exact (hprint _).bind fun _ => .pure _
  · exact (Goes.throw _).bind fun _ => .pure _

end Splicing

/-- The relation allows steps forward, and texts to be written behind others. -/
class Emitting (R : Compiler → Compiler → Prop) : Prop extends Stepping R where
  emit : ∀ text, Goes R (emit text)

/-- The relation allows everything that the grammar does to tokens and entries. -/
class Permits (R : Compiler → Compiler → Prop) : Prop extends Moving R where
  emit : ∀ text, Goes R (emit text)
  addNote : ∀ {c : Compiler} {entries : Array Entry} (text : String),
    c.openEntries? = some entries → R c (c.setOpenEntries (entries.push (.note 1 text [])))
  addFunction : ∀ {c : Compiler} (name : String), R c { c with functions := c.functions ++ [name] }
  openStamped : ∀ fresh, Goes R (Watched.openStamped fresh)
  openNamespace : ∀ fresh, Goes R (do
    Watched.openStamped fresh
    openNamespace)
  macroCall : Goes R macroCall
  importModule : Goes R importModule

instance {R : Compiler → Compiler → Prop} [Permits R] : Emitting R := ⟨Permits.emit⟩

/-- From wherever it came to, the reading may go back to where it was, with the text that was
written there. -/
class Retracing (R : Compiler → Compiler → Prop) : Prop extends Permits R where
  back : ∀ {c d : Compiler} {text : String}, R c d → c.text? = some text →
    R c (stateAfter ((rewind c.position text >>= fun _ => Compile.advance) d))

protected theorem Goes.enterScope {R : Compiler → Compiler → Prop} [Moving R] :
    Goes R enterScope := by
  refine Goes.advance.bind fun _ => Goes.current.bind fun t => ?_
  split
  · exact .fail _
  · exact (Goes.reopenScope _).bind fun _ => (Goes.pushScope _).bind fun _ => .pure _

protected theorem Goes.namespaceBody {R : Compiler → Compiler → Prop} [Moving R] {down : Descent}
    (hstatement : Goes R (down.statement true)) : Goes R (namespaceBody down) := by
  have hround : Goes R (namespaceStatement down) := by
    refine (Goes.currentIs _).bind fun _ => .ite (.pure _) (hstatement.bind fun _ => ?_)
    exact Goes.skipNewlines.bind fun _ => .pure _
  refine Goes.advance.bind fun _ => (Goes.currentIs _).orFail _ (Goes.advance.bind fun _ => ?_)
  refine (hround.loop _).endingQuietly.bind fun _ => Goes.popScope.bind fun _ => ?_
  exact Goes.advance.bind fun _ => .pure _

/-- The last open entry is changed, if there is one. -/
theorem updateLastEntry_cases (update : Entry → Entry) (c : Compiler) :
    stateAfter (updateLastEntry update c) = c ∨
      ∃ (entries : Array Entry) (entry : Entry), c.openEntries? = some (entries.push entry) ∧
        updateLastEntry update c = .ok () (c.setOpenEntries (entries.push (update entry))) := by
  unfold updateLastEntry
  cases hopen : c.openEntries? with
  | none =>
    refine .inl ?_
    simp [lastEntry, hopen, stateAfter]
  | some all =>
    cases hback : all.back? with
    | none =>
      refine .inl ?_
      simp [lastEntry, hopen, hback, stateAfter]
    | some entry =>
      obtain ⟨entries, rfl⟩ := Array.back?_eq_some_iff.mp hback
      exact .inr ⟨entries, entry, rfl, by simp [lastEntry, setLastEntry, hopen]⟩

protected theorem Goes.updateLastEntry {R : Compiler → Compiler → Prop} [Chained R]
    {update : Entry → Entry} (h : ∀ {c : Compiler} {entries : Array Entry} {entry : Entry},
      c.openEntries? = some (entries.push entry) →
      R c (c.setOpenEntries (entries.push (update entry)))) : Goes R (updateLastEntry update) := by
  intro c
  rcases updateLastEntry_cases update c with hsame | ⟨entries, entry, hopen, hwrite⟩
  · rw [hsame]
    exact Chained.refl c
  · rw [hwrite]
    exact h hopen

/-- A namespace begins with the making of its folder, and elsewhere nothing is done. -/
theorem namespaceBlock_cases (down : Descent) (c : Compiler) :
    stateAfter (namespaceBlock down c) = c ∨
      namespaceBlock down c = (openNamespace >>= fun _ => namespaceBody down) c := by
  rw [namespaceBlock_eq]
  cases hcurrent : c.current with
  | none =>
    left
    simp [currentIs, current, hcurrent, stateAfter]
  | some t =>
    cases his : t.is "ns" with
    | false =>
      left
      simp [currentIs, current, hcurrent, his, stateAfter]
    | true =>
      right
      simp [currentIs, current, hcurrent, his]

/-- Neither the tokens, the cursor nor the line change, and what is open stays open. -/
structure Framed (c d : Compiler) : Prop where
  tokens : d.tokens = c.tokens
  current : d.current = c.current
  position : d.position = c.position
  line : d.line = c.line
  lines : d.lines = c.lines
  isOpen : c.IsOpen → d.IsOpen

theorem Framed.setOpenEntries {c : Compiler} {entries : Array Entry}
    (h : c.openEntries? = some entries) (more : Array Entry) (entry : Entry) :
    Framed c (c.setOpenEntries (more.push entry)) := by
  have hopen := Compiler.isOpen_of_push h more entry
  unfold Compiler.setOpenEntries at hopen ⊢
  split at hopen <;> exact ⟨rfl, rfl, rfl, rfl, rfl, fun _ => hopen⟩

section framed
variable {R : Compiler → Compiler → Prop} [Moving R] (hframed : ∀ c d, Framed c d → R c d)
include hframed

theorem updateLastEntry_framed (update : Entry → Entry) : Goes R (updateLastEntry update) :=
  .updateLastEntry fun hopen => hframed _ _ (.setOpenEntries hopen _ _)

theorem openStamped_framed (fresh : Bool) : Goes R (Watched.openStamped fresh) := by
  have hblank : Goes R openBlank := by
    intro c
    apply hframed
    cases hdocument : c.document with
    | none => simpa [openBlank, hdocument, stateAfter] using ⟨rfl, rfl, rfl, rfl, rfl, id⟩
    | some entries =>
      have hrun : stateAfter (openBlank c) = { c with
          document := some (entries.push Entry.blank)
          target := .document } := by simp [openBlank, hdocument, stateAfter]
      rw [hrun]
      refine ⟨rfl, rfl, rfl, rfl, rfl, fun _ => ?_⟩
      simp [Compiler.IsOpen, Compiler.lastOpen?, Compiler.openEntries?]
  have hid : Goes R (modify fun c : Compiler => { c with lastId := c.lastId + 1 }) :=
    fun _ => hframed _ _ ⟨rfl, rfl, rfl, rfl, rfl, id⟩
  have hstamp : Goes R stampEntry :=
    hid.bind fun _ => Goes.get.bind fun _ => (updateLastEntry_framed hframed _).bind fun _ =>
      updateLastEntry_framed hframed _
  cases fresh
  · exact hstamp
  · exact hblank.bind fun _ => hstamp

/-- A relation that does not look at the entries permits whatever puts in no tokens. -/
theorem Permits.of_framed (hmacroCall : Goes R Grammar.macroCall)
    (himport : Goes R Grammar.importModule) : Permits R where
  emit := .emit_of_setLatex fun _ => updateLastEntry_framed hframed _
  addNote _ hopen := hframed _ _ (.setOpenEntries hopen _ _)
  addFunction _ := hframed _ _ ⟨rfl, rfl, rfl, rfl, rfl, id⟩
  openStamped := openStamped_framed hframed
  openNamespace fresh := by
    have hfolder : Goes R (modify fun c : Compiler => { c with folder := some c.lastId }) :=
      fun _ => hframed _ _ ⟨rfl, rfl, rfl, rfl, rfl, id⟩
    refine (openStamped_framed hframed fresh).bind fun _ => Goes.get.bind fun _ => ?_
    refine (updateLastEntry_framed hframed _).bind fun _ => Goes.enterScope.bind fun _ => ?_
    exact (updateLastEntry_framed hframed _).bind fun _ => hfolder
  macroCall := hmacroCall
  importModule := himport

end framed

section program
variable {R : Compiler → Compiler → Prop} [Steady R] {down : Descent}
  (hstatement : ∀ fresh, Goes R (down.statement fresh))
include hstatement

/-- A program goes along the relation from the fresh document on. -/
theorem program_goes (c : Compiler) :
    R c.withFreshDocument (stateAfter (program down c)) := by
  have hround : Goes R (programStatement down) := by
    refine Goes.get.bind fun c => ?_
    split
    · exact .pure _
    · exact .ite ((hstatement _).endingQuietly.bind fun _ => .pure _)
        ((hstatement _).bind fun _ => .pure _)
  exact hround.loop _ c.withFreshDocument

theorem runWith_goes {c : Compiler} (h : c.tokens.isEmpty = false) :
    R { c.withFreshDocument with line := c.line + 1 } (stateAfter (runWith down c)) := by
  have hprogram := program_goes hstatement { c with line := c.line + 1 }
  rw [runWith_of_tokens h]
  cases hrun : program down { c with line := c.line + 1 } with
  | error f d =>
    rw [hrun] at hprogram
    exact hprogram
  | ok _ d =>
    rw [hrun] at hprogram
    exact Steady.trans hprogram (Steady.quiet ⟨rfl, rfl, rfl, rfl, rfl, rfl, rfl, rfl, rfl, rfl⟩)

end program

section emitting
variable {R : Compiler → Compiler → Prop} [Emitting R] {α : Type}

protected theorem Goes.emit (text : String) : Goes R (emit text) := Emitting.emit text

/-- What was worked out is written like any other text. -/
protected theorem Goes.emitFrom {piece : Compile String} (hpiece : Still piece) :
    Goes R (emitFrom piece) := by
  intro c
  have hlatex := Goes.latex (R := R) c
  have hsame := hpiece c
  unfold Compile.emitFrom
  rw [bind_apply]
  cases htext : latex c with
  | error e d =>
    rw [htext] at hlatex
    exact hlatex
  | ok old d =>
    obtain ⟨rfl, -⟩ := eq_of_latex htext
    dsimp only
    rw [bind_apply]
    cases hadded : piece d with
    | error e d' =>
      rw [hadded] at hsame
      obtain rfl : d' = d := hsame
      exact Chained.refl d'
    | ok added d' =>
      rw [hadded] at hsame
      obtain rfl : d' = d := hsame
      have hemit := Goes.emit (R := R) added d'
      rw [Compile.emit, Compile.emitFrom, bind_apply, htext] at hemit
      exact hemit

protected theorem Goes.emitName (name : String) : Goes R (emitName name) := by
  refine .tryCatch (.emitFrom (Still.innermost.bind fun _ => .subscript _)) fun e => ?_
  split
  · exact .emitFrom (.subscript _)
  · exact .throw _

/-! The same under watch. A stop leaves the state as it is. -/

section watched
open Watched
variable {watch : Watch}

variable (watch) in
/-- A watch stops a form before it begins or behind its end, or it lets it pass. -/
theorem watched_cases (form : Form) (body : Compile α) (c : Compiler) :
    watch (.entering form) c = true ∧ watched watch form body c = .error .endOfInput c ∨
      watch (.leaving form) (stateAfter (body c)) = true ∧
        watched watch form body c = .error .endOfInput (stateAfter (body c)) ∨
      watched watch form body c = body c := by
  cases hbefore : watch (.entering form) c with
  | true => exact .inl ⟨rfl, by simp [watched, pause, hbefore]⟩
  | false =>
    right
    cases hbody : body c with
    | ok a d =>
      cases hafter : watch (.leaving form) d with
      | true => exact .inl ⟨hafter, by simp [watched, pause, hbefore, hbody, hafter, stateAfter]⟩
      | false => exact .inr (by simp [watched, pause, hbefore, hbody, hafter])
    | error e d =>
      cases hafter : watch (.leaving form) d with
      | true => exact .inl ⟨hafter, by simp [watched, pause, hbefore, hbody, hafter, stateAfter]⟩
      | false => exact .inr (by simp [watched, pause, hbefore, hbody, hafter])

/-- Watched or not, a form ends in the same state, unless it is stopped before it begins. -/
theorem stateAfter_watched (form : Form) (body : Compile α) (c : Compiler) :
    stateAfter (watched watch form body c) = c ∨
      stateAfter (watched watch form body c) = stateAfter (body c) := by
  rcases watched_cases watch form body c with ⟨-, hstop⟩ | ⟨-, hstop⟩ | hsame
  · left
    rw [hstop]
    rfl
  · right
    rw [hstop]
    rfl
  · right
    rw [hsame]

omit [Emitting R] in
protected theorem Goes.watched [Chained R] {body : Compile α} (hbody : Goes R body) (form : Form) :
    Goes R (watched watch form body) := by
  intro c
  rcases stateAfter_watched form body c with hsame | hend
  · rw [hsame]
    exact Chained.refl c
  · rw [hend]
    exact hbody c

end watched

/-- Going along a relation is kept when actions are put together. -/
def Goes.congruence (watch : Watch) (R : Compiler → Compiler → Prop) [Emitting R] :
    Congruence watch watch where
  Rel x _ := Goes R x
  pure := .pure
  bind := .bind
  exhausted := .throw _
  fail := .fail
  endingQuietly := .endingQuietly
  look _ h := .bind .get h
  current := .current
  nextIs := .nextIs
  advance := .advance
  emitFrom h := .emitFrom h.still
  watched _ h := .watched h _

section down
variable {down : Descent} (hexpression : Goes R down.expression)
include hexpression

protected theorem Goes.tryExpression : Goes R down.tryExpression :=
  hexpression.bind fun _ => .pure _

protected theorem Goes.acceptsExpression : Goes R down.acceptsExpression :=
  hexpression.bind fun _ => .pure _

end down
end emitting

section permits
open Watched
variable {R : Compiler → Compiler → Prop} [Permits R] {watch : Watch} {down : Descent}

protected theorem Goes.note : Goes R note := by
  have happend : ∀ text, Goes R (appendEntry (.note 1 text [])) := by
    intro text c
    unfold appendEntry
    cases hopen : c.openEntries? with
    | none =>
      rw [bind_apply, get_apply]
      simp only [hopen]
      exact Steady.quiet (.refl c)
    | some entries =>
      rw [bind_apply, get_apply]
      simp only [hopen]
      exact Permits.addNote text hopen
  refine Goes.current.bind fun t => .ite ?_ (.pure _)
  exact (happend _).bind fun _ => Goes.advance.bind fun _ => .pure _

/-- So it is with names, scopes, functions and macros. -/
def Goes.naming (watch : Watch) (R : Compiler → Compiler → Prop) [Permits R] :
    NamingCongruence watch watch where
  toCongruence := Goes.congruence watch R
  latex := .latex
  pushScope := .pushScope
  popScope := .popScope
  addName := .addName
  isBound := .isBound
  define := .define
  emitName := .emitName
  addFunction _ _ := Permits.addFunction _
  addMacro _ := .modify fun _ => ⟨rfl, rfl, rfl, rfl, rfl, rfl, rfl, rfl, rfl, rfl⟩
  updateLastMacro := .updateLastMacro

protected theorem Goes.value (hexpression : Goes R down.expression) : Goes R (value watch down) :=
  (Goes.naming watch R).value ⟨rfl, hexpression⟩

/-- A namespace makes a folder of the entry that was opened for it, before anything else. -/
protected theorem Goes.namespaceBlock (hstatement : ∀ fresh, Goes R (down.statement fresh))
    (fresh : Bool) :
    Goes R (do
      openStamped fresh
      watched watch .namespaceBlock (namespaceBlock down)) := by
  intro c
  have hstamped := Permits.openStamped (R := R) fresh c
  have hfolder := Permits.openNamespace (R := R) fresh c
  rw [bind_apply] at hfolder
  rw [bind_apply]
  cases hopen : openStamped fresh c with
  | error e d =>
    rw [hopen] at hstamped
    exact hstamped
  | ok _ d =>
    rw [hopen] at hstamped
    simp only [hopen] at hfolder
    dsimp only
    rcases stateAfter_watched .namespaceBlock (namespaceBlock down) d with hsame | hend
    · rw [hsame]
      exact hstamped
    · rw [hend]
      rcases namespaceBlock_cases down d with hsame | hfolded
      · rw [hsame]
        exact hstamped
      · rw [hfolded, bind_apply]
        cases hopened : openNamespace d with
        | error e d' =>
          rw [hopened] at hfolder
          exact hfolder
        | ok _ d' =>
          rw [hopened] at hfolder
          exact Steady.trans hfolder (Goes.namespaceBody (hstatement true) d')

/-- Where neither the cursor nor the text matters, going back is like any other change. -/
theorem Retracing.of_lenient [Lenient R] (hwrite : ∀ text, Goes R (setLatex text)) :
    Retracing R where
  back {_ _ text} hcd _ := by
    have hrewind : ∀ position, Goes R (rewind position text) := fun _ => Goes.bind
      (.modify_aside fun _ => .of_current rfl rfl rfl rfl rfl rfl) fun _ => hwrite text
    exact Steady.trans hcd (((hrewind _).bind fun _ => .advance) _)

end permits

/-- The relation allows each form under watch, if it allows the expressions and statements one level
down. -/
class Admits (watch : Watch) (R : Compiler → Compiler → Prop) : Prop extends Emitting R where
  value : ∀ {down : Descent}, Goes R down.expression → Goes R (Watched.value watch down)
  function : ∀ {down : Descent}, Goes R down.expression → Goes R (function down)
  namespaceBlock : ∀ {down : Descent}, (∀ fresh, Goes R (down.statement fresh)) →
      ∀ fresh, Goes R (do
    Watched.openStamped fresh
    Watched.watched watch .namespaceBlock (namespaceBlock down))
  note : Goes R note
  macroDefinition : Goes R macroDefinition
  macroCall : Goes R macroCall
  importModule : Goes R importModule

instance {watch : Watch} {R : Compiler → Compiler → Prop} [Permits R] : Admits watch R where
  value := .value
  function h := (Goes.naming watch R).function ⟨rfl, h⟩
  namespaceBlock := .namespaceBlock
  note := .note
  macroDefinition := (Goes.naming watch R).macroDefinition
  macroCall := Permits.macroCall
  importModule := Permits.importModule

/-- The relation lets the reading go back, as it is needed behind the attempt to read a point. -/
class Returning (R : Compiler → Compiler → Prop) : Prop where
  back : ∀ {c d : Compiler} {text : String}, R c d → c.text? = some text →
    R c (stateAfter ((rewind c.position text >>= fun _ => Compile.advance) d))

instance {R : Compiler → Compiler → Prop} [Retracing R] : Returning R := ⟨Retracing.back⟩

/-- Where each form is allowed, so are expressions and statements. -/
def Goes.forms (watch : Watch) (R : Compiler → Compiler → Prop) [Admits watch R] :
    FormCongruence watch watch where
  toCongruence := Goes.congruence watch R
  value h := Admits.value h.expression
  function h := Admits.function watch h.expression
  openNamespace h := Admits.namespaceBlock h.statement
  note := Admits.note watch
  macroDefinition := Admits.macroDefinition watch
  macroCall := Admits.macroCall watch
  importModule := Admits.importModule watch

section admits
open Watched
variable {R : Compiler → Compiler → Prop} {watch : Watch} [Admits watch R]

section down
variable {down : Descent} (hexpression : Goes R down.expression)
  (hstatement : ∀ fresh, Goes R (down.statement fresh))
include hexpression hstatement

protected theorem Goes.expressionFrom [Returning R] : Goes R (expressionFrom watch down) := by
  have hrest : Goes R (operandFirst watch down) :=
    (Goes.forms watch R).operandFirst ⟨⟨rfl, hexpression⟩, hstatement⟩ fun h => h.watched _
  rw [Watched.expressionFrom_eq, Watched.pointFirst_eq]
  refine .watched (.retrying ?_ (fun done => ?_) fun c d text htext hcd => ?_) _
  · exact (Goes.congruence watch R).attempt ⟨rfl, hexpression⟩
  · exact .ite (.pure _) (Goes.advance.bind fun _ => hrest)
  · have hback := Goes.bind_from (Returning.back hcd htext) fun _ => hrest
    rw [bind_assoc] at hback ⊢
    exact hback

protected theorem Goes.statementWith {expression : Compile Verdict} (hown : Goes R expression)
    (fresh : Bool) : Goes R (statementWith watch down expression fresh) := by
  have hrel : (Goes.forms watch R).Rel expression expression := hown
  exact (Goes.forms watch R).statementWith ⟨⟨rfl, hexpression⟩, hstatement⟩ hrel fresh

protected theorem Goes.statementFrom [Returning R] (fresh : Bool) :
    Goes R (statementFrom watch down fresh) :=
  .statementWith hexpression hstatement (.expressionFrom hexpression hstatement) fresh

end down

/-- Whatever the grammar does, it goes along the relation. -/
theorem goes_descent [Returning R] (watch : Watch) [Admits watch R] (levels : Nat) :
    Goes R (Watched.descent watch levels).expression ∧
      ∀ fresh, Goes R ((Watched.descent watch levels).statement fresh) := by
  induction levels with
  | zero => exact ⟨.throw _, fun _ => .throw _⟩
  | succ levels ih =>
    obtain ⟨hexpression, hstatement⟩ := ih
    exact ⟨.expressionFrom hexpression hstatement, .statementFrom hexpression hstatement⟩

end admits

theorem run_goes {R : Compiler → Compiler → Prop} [Retracing R] {c : Compiler}
    (h : c.tokens.isEmpty = false) :
    R { c.withFreshDocument with line := c.line + 1 } (stateAfter (run c)) := by
  have hstatement := (goes_descent (R := R) .never c.budget).2
  rw [Watched.descent_never] at hstatement
  rw [run_eq_runWith]
  exact runWith_goes hstatement h

theorem Reached.path {R : Compiler → Compiler → Prop} [Retracing R] {files : Files} {code : String}
    {moment : Moment} {s : Compiler} (h : Reached files code moment s) :
    ∃ c, Compiler.ofCode files code = .ok c ∧
      R { c.withFreshDocument with line := c.line + 1 } s := by
  obtain ⟨c, levels, watch, hcode, -, hrun⟩ := h
  have hpath := program_goes (goes_descent (R := R) watch levels).2 { c with line := c.line + 1 }
  rw [hrun] at hpath
  exact ⟨c, hcode, hpath⟩

end PlotScript
