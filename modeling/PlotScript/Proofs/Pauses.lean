import PlotScript.Proofs.Stopping

/-! Where a program under watch stops. No form of the grammar stops by itself, and none passes over a
stop, so the state that is left is one in which the watch stopped it. What the forms before it have
ruled out is known where a comprehension is looked for. -/

namespace PlotScript
open Compile Grammar

/-- Wherever the action stops, the state is as `P` says. -/
def StopsIn (P : Compiler → Prop) {α : Type} (x : Compile α) : Prop :=
  ∀ c d, x c = .error .endOfInput d → P d

/-- Not finding a module is no end of the input. -/
theorem Library.find_ne_endOfInput {files : Files} {name : String} {e : Fault}
    (h : Library.find files name = .error e) : e ≠ .endOfInput := by
  have hread : ∀ {path e}, files.read path = .error e → e ≠ .endOfInput := by
    intro path e hpath
    unfold Files.read Files.whyMissing at hpath
    grind
  unfold Library.find at h
  grind

namespace StopsIn
variable {P : Compiler → Prop} {α β : Type}

@[grind .] protected theorem pure (a : α) : StopsIn P (pure a : Compile α) := by
  rintro c d ⟨⟩

@[grind ←] protected theorem throw {e : Fault} (he : e ≠ .endOfInput) :
    StopsIn P (throw e : Compile α) := by
  rintro c d ⟨⟩
  exact absurd rfl he

/-- The fault of a look-up. -/
theorem throw_of {x : Except Fault β} (hx : FailsBare x) {e : Fault} (he : x = .error e) :
    StopsIn P (throw e : Compile α) := by
  refine .throw ?_
  rintro rfl
  cases hx _ he

@[grind .] protected theorem get : StopsIn P (get : Compile Compiler) := by
  rintro c d ⟨⟩

@[grind .] protected theorem modify (f : Compiler → Compiler) : StopsIn P (modify f) := by
  rintro c d ⟨⟩

@[grind .] protected theorem set (s : Compiler) : StopsIn P (set s : Compile PUnit) := by
  rintro c d ⟨⟩

@[grind ←] protected theorem bind {x : Compile α} {f : α → Compile β} (hx : StopsIn P x)
    (hf : ∀ a, StopsIn P (f a)) : StopsIn P (x >>= f) := by
  intro c d h
  rw [bind_apply] at h
  cases hrun : x c with
  | ok a c' =>
    rw [hrun] at h
    exact hf a c' d h
  | error e c' =>
    rw [hrun] at h
    cases h
    exact hx c d hrun

protected theorem ite {p : Prop} [Decidable p] {x y : Compile α} (hx : StopsIn P x)
    (hy : StopsIn P y) : StopsIn P (if p then x else y) := by
  split
  · exact hx
  · exact hy

/-- A stop is none of the faults that are seen to. -/
protected theorem tryCatch {x : Compile α} {handle : Fault → Compile α} (hx : StopsIn P x)
    (hhandle : ∀ e, e ≠ .endOfInput → StopsIn P (handle e))
    (hstop : handle .endOfInput = throw .endOfInput) : StopsIn P (tryCatch x handle) := by
  intro c d h
  rw [tryCatch_apply] at h
  cases hrun : x c with
  | ok a c' =>
    rw [hrun] at h
    cases h
  | error e c' =>
    rw [hrun] at h
    dsimp only at h
    by_cases he : e = .endOfInput
    · rw [he, hstop] at h
      cases h
      rw [he] at hrun
      exact hx c d hrun
    · exact hhandle e he c' d h

@[grind ←] protected theorem endingQuietly {x : Compile Unit} (hx : StopsIn P x) :
    StopsIn P (endingQuietly x) :=
  .tryCatch hx (fun _ he => .ite (.pure _) (.throw he)) rfl

protected theorem retrying {x : Compile (Option Bool)} {back : Compile Bool} (hx : StopsIn P x)
    (hback : StopsIn P back) : StopsIn P (retrying x back) := by
  refine StopsIn.bind (.tryCatch hx (fun e he => ?_) rfl) fun found => ?_
  · split
    · exact .pure _
    · exact .throw he
  · split
    · exact .pure _
    · exact hback

@[grind ←] protected theorem loop {round : Compile Bool} (h : StopsIn P round) (rounds : Nat) :
    StopsIn P (loop round rounds) := by
  induction rounds with
  | zero => exact .throw nofun
  | succ rounds ih => exact h.bind fun _ => .ite (.pure _) ih

@[grind .] protected theorem fail (message : String) :
    StopsIn P (fail message : Compile α) := by
  refine StopsIn.get.bind fun c => ?_
  split
  · exact .throw nofun
  · next he =>
    unfold Diagnostic.locate at he
    split at he
    · cases he
    · cases he
      exact .throw nofun

/-- A test, with a mistake where it fails. -/
protected theorem orFail {x : Compile Bool} {rest : Compile α} (hx : StopsIn P x)
    (message : String) (hrest : StopsIn P rest) :
    StopsIn P (x >>= fun found => if found = true then rest else
      (fail message : Compile PUnit) >>= fun _ => rest) :=
  hx.bind fun _ => .ite hrest ((StopsIn.fail message).bind fun _ => hrest)

protected theorem firstOf {attempts : List (Compile Bool)} (h : ∀ x ∈ attempts, StopsIn P x) :
    StopsIn P (firstOf attempts) := by
  induction attempts with
  | nil => exact .pure _
  | cons x others ih =>
    refine (h x List.mem_cons_self).bind fun _ => .ite (.pure _) ?_
    exact ih fun y hy => h y (List.mem_cons_of_mem x hy)

/-! The cursor. -/

@[grind .] protected theorem print (text : String) : StopsIn P (print text) := .modify _

@[grind .] protected theorem current : StopsIn P current := by
  unfold Compile.current
  grind

@[grind .] protected theorem currentIs (text : String) : StopsIn P (currentIs text) := by
  unfold Compile.currentIs
  grind

@[grind .] protected theorem nextIs (text : String) : StopsIn P (nextIs text) := by
  unfold Compile.nextIs peek
  grind

@[grind .] protected theorem moveTo (place : Int) : StopsIn P (moveTo place) := .modify _

@[grind .] protected theorem advance : StopsIn P advance := by
  unfold Compile.advance
  grind

@[grind .] protected theorem retreat : StopsIn P retreat := by
  unfold Compile.retreat
  grind

@[grind .] protected theorem dropToken : StopsIn P dropToken := by
  unfold Compile.dropToken
  grind

@[grind .] protected theorem spliceAfter (block : List Token) : StopsIn P (spliceAfter block) :=
  .modify _

@[grind .] protected theorem readTokens (text : String) : StopsIn P (readTokens text) := by
  unfold Compile.readTokens
  grind

/-! Writing. -/

@[grind .] protected theorem lastEntry : StopsIn P lastEntry := by
  unfold Compile.lastEntry
  grind

@[grind .] protected theorem updateLastEntry (update : Entry → Entry) :
    StopsIn P (updateLastEntry update) :=
  StopsIn.lastEntry.bind fun _ => .modify _

@[grind .] protected theorem appendEntry (entry : Entry) : StopsIn P (appendEntry entry) := by
  unfold Compile.appendEntry
  grind

@[grind .] protected theorem openBlank : StopsIn P openBlank := by
  unfold Compile.openBlank
  grind

@[grind .] protected theorem latex : StopsIn P latex := by
  unfold Compile.latex
  grind

@[grind ←] protected theorem emitFrom {piece : Compile String} (hpiece : StopsIn P piece) :
    StopsIn P (emitFrom piece) :=
  StopsIn.latex.bind fun _ => hpiece.bind fun _ => .updateLastEntry _

@[grind .] protected theorem subscript (name : String) : StopsIn P (subscript name) := by
  unfold Compile.subscript
  grind

/-! Names. -/

@[grind .] protected theorem pushScope (name : String) : StopsIn P (pushScope name) := .modify _

@[grind .] protected theorem popScope : StopsIn P popScope := by
  unfold Compile.popScope
  grind

@[grind .] protected theorem innermost : StopsIn P innermost := by
  unfold Compile.innermost
  grind

protected theorem setNames {names : Except Fault Table} (h : FailsBare names) :
    StopsIn P (setNames names) := by
  unfold Compile.setNames
  split
  · exact .modify _
  · exact .throw_of h rfl

@[grind .] protected theorem addName (path : List String) (name : String) (value : Binding) :
    StopsIn P (addName path name value) :=
  StopsIn.get.bind fun _ => .setNames (Table.add_failsBare path name value _)

protected theorem resolve (path : List String) : StopsIn P (resolve path) := by
  refine StopsIn.get.bind fun c => ?_
  split
  · exact .pure _
  · next he => exact .throw_of (Binding.resolve_failsBare path _) he

@[grind .] protected theorem isBound (path : List String) (name : String) :
    StopsIn P (isBound path name) := by
  refine StopsIn.get.bind fun c => .ite (by grind) (StopsIn.get.bind fun c => ?_)
  split
  · exact .pure _
  · next he => exact .throw_of (Table.boundAlong_failsBare path name _) he

@[grind .] protected theorem define (name : String) : StopsIn P (define name) := by
  unfold Compile.define
  grind

@[grind .] protected theorem emitName (name : String) : StopsIn P (emitName name) := by
  refine .tryCatch (.emitFrom (by grind)) (fun e he => ?_) rfl
  split
  · exact .emitFrom (.subscript name)
  · exact .throw he

@[grind .] protected theorem reopenScope (name : String) : StopsIn P (reopenScope name) := by
  refine StopsIn.get.bind fun c => ?_
  split
  · refine .ite (StopsIn.get.bind fun _ => .setNames ?_) (.pure _)
    exact Table.assign_failsBare _ _ _ _
  · exact .throw nofun
  · refine (StopsIn.resolve _).bind fun b => ?_
    grind
  · next he => exact .throw_of (Binding.resolve_failsBare c.scope _) he

/-! The forms. -/

@[grind .] protected theorem wordText (t : Token) : StopsIn P (wordText t) := by
  unfold Grammar.wordText
  grind

protected theorem callHead (functions : List String) (function : String) :
    StopsIn P (callHead functions function) := by
  unfold Grammar.callHead
  grind

theorem of_workedOut {piece : Compile String} (h : WorkedOut piece) : StopsIn P piece := by
  cases h with
  | text text => exact .pure text
  | word t => exact .wordText t
  | subscript name => exact .subscript name
  | innermost name => exact StopsIn.innermost.bind fun _ => .subscript _
  | callHead functions function => exact .callHead functions function

@[grind .] protected theorem nameObject (m : MacroDef) : StopsIn P (nameObject m) := by
  unfold Grammar.nameObject
  grind

protected theorem expansion (m : MacroDef) (parameters : List String) (text : String) :
    StopsIn P (expansion m parameters text) := by
  induction parameters generalizing text with
  | nil => exact .pure _
  | cons parameter others ih =>
    unfold Grammar.expansion
    grind

protected theorem macroCall : StopsIn P macroCall := by
  refine (StopsIn.nextIs _).bind fun _ => .ite (StopsIn.current.bind fun t => ?_) (.pure _)
  refine StopsIn.get.bind fun c => ?_
  split
  · exact .fail _
  · refine StopsIn.advance.bind fun _ => StopsIn.advance.bind fun _ => ?_
    refine (StopsIn.currentIs _).orFail _ (StopsIn.advance.bind fun _ => ?_)
    refine (StopsIn.expansion _ _ _).bind fun text => StopsIn.advance.bind fun _ => ?_
    refine (StopsIn.spliceAfter _).bind fun _ => (StopsIn.readTokens _).bind fun _ => ?_
    exact (StopsIn.spliceAfter _).bind fun _ => (StopsIn.modify _).bind fun _ => .pure _

protected theorem importModule : StopsIn P importModule := by
  have hmodule : ∀ name text, StopsIn P (spliceModule name text) := by
    intro name text
    refine StopsIn.advance.bind fun _ => StopsIn.advance.bind fun _ => ?_
    refine StopsIn.advance.bind fun _ => (StopsIn.readTokens _).bind fun _ => ?_
    exact (StopsIn.spliceAfter _).bind fun _ => .modify _
  refine (StopsIn.currentIs _).bind fun _ => .ite (StopsIn.advance.bind fun _ => ?_) (.pure _)
  refine StopsIn.current.bind fun t => (StopsIn.wordText t).bind fun name => ?_
  refine StopsIn.get.bind fun c => ?_
  split
  · exact (hmodule _ _).bind fun _ => .pure _
  · exact (StopsIn.print _).bind fun _ => .pure _
  · next he => exact (StopsIn.throw (Library.find_ne_endOfInput he)).bind fun _ => .pure _

protected theorem note : StopsIn P note := by
  unfold Grammar.note
  grind

protected theorem openStamped (fresh : Bool) : StopsIn P (Watched.openStamped fresh) := by
  unfold Watched.openStamped stampEntry
  grind

protected theorem openNamespace : StopsIn P openNamespace := by
  have henter : StopsIn P enterScope := by
    refine StopsIn.advance.bind fun _ => StopsIn.current.bind fun t => ?_
    cases t.name? with
    | none => exact .fail _
    | some name =>
      exact (StopsIn.reopenScope _).bind fun _ => (StopsIn.pushScope _).bind fun _ => .pure _
  refine StopsIn.get.bind fun c => (StopsIn.updateLastEntry _).bind fun _ => ?_
  exact henter.bind fun name => (StopsIn.updateLastEntry _).bind fun _ => .modify _

end StopsIn

/-! What is refused leaves no trace. -/

/-- The action never says no. -/
def Affirms (x : Compile Bool) : Prop := ∀ c d, x c ≠ .ok false d

namespace Affirms
variable {α : Type}

theorem pure_true : Affirms (pure true) := by
  rintro c d ⟨⟩

protected theorem bind {x : Compile α} {f : α → Compile Bool} (hf : ∀ a, Affirms (f a)) :
    Affirms (x >>= f) := by
  intro c d h
  obtain ⟨a, c', -, hrest⟩ := bind_eq_ok h
  exact hf a c' d hrest

protected theorem ite {p : Prop} [Decidable p] {x y : Compile Bool} (hx : Affirms x)
    (hy : Affirms y) : Affirms (if p then x else y) := by
  split
  · exact hx
  · exact hy

protected theorem orFail {x : Compile Bool} {rest : Compile Bool} (message : String)
    (hrest : Affirms rest) :
    Affirms (x >>= fun found => if found = true then rest else
      (fail message : Compile PUnit) >>= fun _ => rest) :=
  .bind fun _ => .ite hrest (.bind fun _ => hrest)

/-- A form that begins with a word is refused where another token stands. -/
theorem eq_of_refused {word : String} {rest : Compile Bool} (hrest : Affirms rest)
    {c d : Compiler}
    (h : (do
      unless ← currentIs word do return false
      rest) c = .ok false d) : d = c := by
  cases hcurrent : c.current with
  | none => simp [currentIs, current, hcurrent] at h
  | some t =>
    have hlook : currentIs word c = .ok (t.is word) c := by simp [currentIs, current, hcurrent]
    rw [bind_apply, hlook] at h
    dsimp only at h
    cases his : t.is word with
    | true =>
      simp only [his, if_true] at h
      exact absurd h (hrest c d)
    | false =>
      simp only [his, Bool.false_eq_true, if_false] at h
      cases h
      rfl

end Affirms

section refused
variable {down : Descent} {c d : Compiler}

theorem eq_of_list_refused (h : list down c = .ok false d) : d = c := by
  refine Affirms.eq_of_refused ?_ h
  exact .bind fun _ => .bind fun _ => .bind fun _ => .bind fun _ => .bind fun _ => .pure_true

theorem eq_of_point_refused (h : point down c = .ok false d) : d = c := by
  refine Affirms.eq_of_refused (.bind fun _ => .bind fun _ => .orFail _ (.orFail _ ?_)) h
  refine .bind fun _ => .bind fun _ => .orFail _ (.bind fun _ => .orFail _ ?_)
  exact .bind fun _ => .pure_true

/-- Whatever begins like a value is read as one. -/
theorem eq_of_value_refused (h : value down c = .ok false d) :
    d = c ∧ ∃ t, c.current = some t ∧ t.isKind .name = false := by
  unfold value at h
  rw [bind_apply, get_apply] at h
  dsimp only at h
  cases hcurrent : c.current with
  | none =>
    rw [hcurrent] at h
    cases h
  | some t =>
    rw [hcurrent] at h
    dsimp only at h
    split at h
    -- once a value has begun, it is read or a fault comes up
    · refine absurd h (Affirms.ite (.bind fun _ => .bind fun _ => ?unsigned) ?unsigned c d)
      refine .bind fun u => ?_
      split
      · exact .bind fun _ => .bind fun _ => .bind fun _ => .pure_true
      · exact .bind fun _ => .bind fun _ => .bind fun _ => .pure_true
    · next hother =>
      cases h
      refine ⟨rfl, t, rfl, ?_⟩
      simp only [Bool.or_eq_true, not_or, Bool.not_eq_true] at hother
      exact hother.1.1

/-- Where no value, list or point begins there is a token, and it is no name. -/
theorem current_of_refused {v l p : Compiler} (hvalue : value down c = .ok false v)
    (hlist : list down v = .ok false l) (hpoint : point down l = .ok false p) :
    ∃ t, p.current = some t ∧ t.isKind .name = false := by
  obtain ⟨rfl, hcurrent⟩ := eq_of_value_refused hvalue
  obtain rfl := eq_of_list_refused hlist
  obtain rfl := eq_of_point_refused hpoint
  exact hcurrent

end refused

/-- The first of some attempts ends the search, or those behind it go on from where it was refused. -/
theorem firstOf_cons_cases (x : Compile Bool) (xs : List (Compile Bool)) (c : Compiler) :
    (∃ e d, x c = .error e d ∧ firstOf (x :: xs) c = .error e d) ∨
      (∃ d, x c = .ok true d ∧ firstOf (x :: xs) c = .ok true d) ∨
      ∃ d, x c = .ok false d ∧ firstOf (x :: xs) c = firstOf xs d := by
  rw [firstOf, bind_apply]
  cases x c with
  | error e d => exact .inl ⟨e, d, rfl, rfl⟩
  | ok found d =>
    cases found with
    | true => exact .inr (.inl ⟨d, rfl, rfl⟩)
    | false => exact .inr (.inr ⟨d, rfl, rfl⟩)

/-- Of some attempts the first stops, or those behind it do. -/
theorem stops_of_firstOf {P : Compiler → Prop} {x : Compile Bool} {xs : List (Compile Bool)}
    {c s : Compiler} (hx : x c = .error .endOfInput s → P s)
    (h : firstOf (x :: xs) c = .error .endOfInput s) :
    P s ∨ ∃ d, x c = .ok false d ∧ firstOf xs d = .error .endOfInput s := by
  rcases firstOf_cons_cases x xs c with ⟨e, d, hrun, hall⟩ | ⟨d, -, hall⟩ | ⟨d, hrun, hall⟩
  · rw [hall] at h
    cases h
    exact .inl (hx hrun)
  · rw [hall] at h
    cases h
  · rw [hall] at h
    exact .inr ⟨d, hrun, h⟩

/-- The moment can come in the state: a comprehension is only looked for where no name stands. -/
def Moment.Fits : Moment → Compiler → Prop
  | .entering .comprehension, s => ∃ t, s.current = some t ∧ t.isKind .name = false
  | _, _ => True

/-- The watch stops in the state, at a moment that can come there. -/
def Watch.Stops (watch : Watch) (s : Compiler) : Prop :=
  ∃ moment, watch moment s = true ∧ moment.Fits s

section watched
open Watched
variable {watch : Watch} {α : Type}

theorem stops_of_watched {form : Form} {body : Compile α} {c s : Compiler}
    (hbody : StopsIn watch.Stops body) (hfits : (Moment.entering form).Fits c)
    (h : watched watch form body c = .error .endOfInput s) : watch.Stops s := by
  rcases watched_cases watch form body c with ⟨hbefore, hstop⟩ | ⟨hafter, hstop⟩ | hsame
  · rw [hstop] at h
    cases h
    exact ⟨.entering form, hbefore, hfits⟩
  · rw [hstop] at h
    cases h
    exact ⟨.leaving form, hafter, trivial⟩
  · rw [hsame] at h
    exact hbody c s h

/-- Nothing is asked of the states in which the other forms are entered. -/
theorem Moment.fits_entering {form : Form} (h : form ≠ .comprehension) (c : Compiler) :
    (Moment.entering form).Fits c := by
  cases form with
  | comprehension => exact absurd rfl h
  | _ => trivial

protected theorem StopsIn.watched {body : Compile α} (hbody : StopsIn watch.Stops body)
    {form : Form} (hform : form ≠ .comprehension) :
    StopsIn watch.Stops (watched watch form body) :=
  fun c _ h => stops_of_watched hbody (Moment.fits_entering hform c) h

namespace StopsIn

variable (watch) in
/-- Where an action stops is kept when actions are put together. -/
def congruence : Congruence watch watch where
  Rel x _ := StopsIn watch.Stops x
  pure := .pure
  bind := .bind
  exhausted := .throw nofun
  fail := .fail
  endingQuietly := .endingQuietly
  look _ h := StopsIn.get.bind h
  current := .current
  nextIs := .nextIs
  advance := .advance
  emitFrom h := .emitFrom (.of_workedOut h)
  watched hform hbody := .watched hbody hform

variable (watch) in
def naming : NamingCongruence watch watch where
  toCongruence := congruence watch
  latex := .latex
  pushScope := .pushScope
  popScope := .popScope
  addName := .addName
  isBound := .isBound
  define := .define
  emitName := .emitName
  addFunction _ := .modify _
  addMacro _ := .modify _
  updateLastMacro _ := .modify _

variable (watch) in
def forms : FormCongruence watch watch :=
  (naming watch).forms .openStamped .openNamespace .note .macroCall .importModule

variable {down : Descent}

/-- A comprehension that is looked for where no name stands. -/
theorem comprehension_from (h : (congruence watch).Reads down down) {c s : Compiler}
    (hfits : (Moment.entering .comprehension).Fits c)
    (hstop : comprehension watch down c = .error .endOfInput s) : watch.Stops s := by
  obtain ⟨x, _, hbody, hx, -⟩ := (congruence watch).exists_comprehension h
  rw [hx] at hstop
  exact stops_of_watched hbody hfits hstop

section down
variable (h : (congruence watch).Descends down down)
include h

/-- A comprehension is looked for where a value, a list and a point were refused. -/
protected theorem term : StopsIn watch.Stops (term watch down) := by
  have hbelow : Below down down := ⟨rfl, .refl _, fun _ => .refl _⟩
  have hcall : StopsIn watch.Stops (watched watch .call (call down)) :=
    .watched ((forms watch).call h.toReads) (by decide)
  have hexpanded : StopsIn watch.Stops (watched watch .macroCall macroCall) :=
    .watched .macroCall (by decide)
  have hlist : StopsIn watch.Stops (watched watch .list (list down)) :=
    .watched ((forms watch).list h.toReads) (by decide)
  have hpoint : StopsIn watch.Stops (watched watch .point (point down)) :=
    .watched ((forms watch).point h.toReads) (by decide)
  have hblock : StopsIn watch.Stops (watched watch .block (block down)) :=
    .watched ((forms watch).block h) (by decide)
  intro c s hstop
  rcases stops_of_firstOf (hcall _ _) hstop with hstop | ⟨_, -, hstop⟩
  · exact hstop
  rcases stops_of_firstOf (hexpanded _ _) hstop with hstop | ⟨_, -, hstop⟩
  · exact hstop
  rcases stops_of_firstOf ((forms watch).value h.toReads _ _) hstop with hstop | ⟨v, hvalue, hstop⟩
  · exact hstop
  rcases stops_of_firstOf (hlist _ _) hstop with hstop | ⟨l, hnolist, hstop⟩
  · exact hstop
  rcases stops_of_firstOf (hpoint _ _) hstop with hstop | ⟨p, hnopoint, hstop⟩
  · exact hstop
  -- under watch too a form is only refused where it is refused otherwise
  have hfits := current_of_refused ((imitates_watched_value watch hbelow).eq_ok hvalue)
    ((imitates_watched watch (.refl _) _).eq_ok hnolist)
    ((imitates_watched watch (.refl _) _).eq_ok hnopoint)
  rcases stops_of_firstOf (comprehension_from h.toReads hfits) hstop with hstop | ⟨_, -, hstop⟩
  · exact hstop
  · exact StopsIn.firstOf (List.forall_mem_singleton.mpr hblock) _ s hstop

protected theorem expressionFrom : StopsIn watch.Stops (expressionFrom watch down) := by
  have hattempt : StopsIn watch.Stops
      (attempt (watched watch .point (point down)) (operation watch down)) :=
    (forms watch).attempt h.toReads
  have hoperation : StopsIn watch.Stops (operation watch down) := (forms watch).operation h.toReads
  have hoperand : StopsIn watch.Stops (operand watch down) := by
    refine (StopsIn.currentIs _).bind fun _ => .ite ?_ (.term h)
    exact StopsIn.bind ((forms watch).bracketed h.toReads) fun _ => .pure _
  have hrest : StopsIn watch.Stops (operandFirst watch down) := by
    refine hoperand.bind fun _ => .ite (hoperation.bind fun _ => ?_) (.pure _)
    exact StopsIn.bind ((forms watch).atEnd _) fun _ => .ite (.pure _) (.pure _)
  have hback : ∀ position text, StopsIn watch.Stops (rewind position text) :=
    fun _ _ => (StopsIn.modify _).bind fun _ => .updateLastEntry _
  rw [Watched.expressionFrom_eq, Watched.pointFirst_eq]
  refine .watched (StopsIn.bind ?_ fun _ => .ite (.pure _) ?_) (by decide)
  · refine StopsIn.latex.bind fun text => StopsIn.get.bind fun c => hattempt.retrying ?_
    exact (hback _ _).bind fun _ => .pure _
  · exact StopsIn.advance.bind fun _ => hrest

protected theorem statementFrom (fresh : Bool) :
    StopsIn watch.Stops (statementFrom watch down fresh) := by
  have hown : (forms watch).Rel (expressionFrom watch down) (expressionFrom watch down) :=
    StopsIn.expressionFrom h
  exact (forms watch).statementWith h hown fresh

protected theorem program : StopsIn watch.Stops (program down) := by
  have hround : StopsIn watch.Stops (programStatement down) := (forms watch).programStatement h
  exact (StopsIn.modify _).bind fun _ => hround.loop _

end down

protected theorem descent (watch : Watch) (levels : Nat) :
    (congruence watch).Descends (descent watch levels) (descent watch levels) := by
  induction levels with
  | zero => exact ⟨⟨rfl, .throw nofun⟩, fun _ => .throw nofun⟩
  | succ levels ih => exact ⟨⟨rfl, .expressionFrom ih⟩, fun fresh => .statementFrom ih fresh⟩

end StopsIn
end watched

/-- A script only comes into states that fit the moment, since it is the watch that stops it there. -/
theorem Reached.fits {files : Files} {code : String} {moment : Moment} {s : Compiler}
    (h : Reached files code moment s) : moment.Fits s := by
  obtain ⟨c, levels, watch, -, honly, hrun⟩ := h
  obtain ⟨m, hwatch, hfits⟩ := StopsIn.program (StopsIn.descent watch levels) _ s hrun
  rw [← honly m s hwatch]
  exact hfits

end PlotScript
