import PlotScript.Proofs.Effects

/-! The same reading elsewhere. Behind other tokens, further down and in other words every form of
the grammar does the same, as long as no macro is called and nothing is imported. Only a mistake is
shown on another line. -/

namespace PlotScript
open Compile Grammar

/-- What lies in front only shifts the places from zero on. -/
theorem Place.get?_append_shifted {α : Type} (xs ys : Array α) {place : Int} (h : 0 ≤ place) :
    get? (xs ++ ys) (xs.size + place) = get? ys place := by
  obtain ⟨i, rfl⟩ := Int.eq_ofNat_of_zero_le h
  rw [← Int.natCast_add, get?_natCast, get?_natCast,
    Array.getElem?_append_right (Nat.le_add_right _ _), Nat.add_sub_cancel_left]

/-- Another place to read at: behind other tokens, so many lines further down, in other words. A
line that can be shown at the one place can be shown at the other. -/
structure Shift where
  front : Array Token
  down : Int
  code : String → String
  lines : List String → List String
  diagnostic : Diagnostic → Diagnostic
  /-- The lines that are meant, and how far the reading has come in them. -/
  Fits : List String → Int → Prop
  fits_next : ∀ {ls : List String} {line : Int}, Fits ls line → Fits ls (line + 1)
  locate : ∀ {ls : List String} {line : Int} (message : String), Fits ls line →
    Diagnostic.locate message (lines ls) (line + down) =
      (Diagnostic.locate message ls line).map diagnostic

namespace Shift

/-- The fault as it comes up at the other place. -/
def fault (s : Shift) : Fault → Fault
  | .diagnostic d => .diagnostic (s.diagnostic d)
  | e => e

theorem fault_of_isBare (s : Shift) {e : Fault} (h : e.isBare = true) : s.fault e = e := by
  cases e with
  | diagnostic d => cases h
  | _ => rfl

theorem isMismatch_fault (s : Shift) (e : Fault) : (s.fault e).isMismatch = e.isMismatch := by
  cases e <;> rfl

end Shift

namespace Compiler

/-- The state at the other place. -/
def shifted (s : Shift) (c : Compiler) : Compiler :=
  { c with
    code := s.code c.code
    lines := s.lines c.lines
    tokens := s.front ++ c.tokens
    position := s.front.size + c.position
    line := c.line + s.down }

/-- A settled state whose position is not further back than right in front of the tokens, which is
where an attempt at the first of them goes back to. -/
structure Seated (ts : Array Token) (c : Compiler) : Prop extends Settled ts c where
  position : -1 ≤ c.position

section shifted
variable (s : Shift)

theorem stepsLeft_shifted (c : Compiler) : (c.shifted s).stepsLeft = c.stepsLeft := by
  simp only [stepsLeft, shifted, Array.size_append]
  omega

theorem setOpenEntries_shifted (c : Compiler) (entries : Array Entry) :
    (c.shifted s).setOpenEntries entries = (c.setOpenEntries entries).shifted s := by
  cases htarget : c.target <;> simp [setOpenEntries, shifted, htarget]

/-- The next token is the same, also from right in front of the tokens. -/
theorem get?_shifted {c : Compiler} (h : -1 ≤ c.position) :
    Place.get? (c.shifted s).tokens ((c.shifted s).position + 1) =
      Place.get? c.tokens (c.position + 1) := by
  have hplace : (c.shifted s).position + 1 = s.front.size + (c.position + 1) :=
    Int.add_assoc _ _ _
  rw [hplace]
  exact Place.get?_append_shifted s.front c.tokens (by omega)

theorem advanced_shifted {c : Compiler} (h : -1 ≤ c.position) (t : Token) :
    (c.shifted s).advanced t = (c.advanced t).shifted s := by
  have hline : (if t.isNewline then c.line + s.down + 1 else c.line + s.down) =
      (if t.isNewline then c.line + 1 else c.line) + s.down := by
    split <;> omega
  have hplace : (s.front.size : Int) + c.position + 1 = s.front.size + (c.position + 1) :=
    Int.add_assoc _ _ _
  unfold advanced
  rw [get?_shifted s h]
  cases Place.get? c.tokens (c.position + 1) with
  | none => simp only [shifted, hline]
  | some u => simp only [shifted, hline, hplace]

end shifted
end Compiler

/-- A seated state that a shift is meant for. -/
structure Shift.Suits (s : Shift) (ts : Array Token) (c : Compiler) : Prop extends c.Seated ts where
  fits : s.Fits c.lines c.line

/-- Neither the cursor nor the lines have changed. -/
structure SamePlace (c d : Compiler) : Prop where
  tokens : d.tokens = c.tokens
  current : d.current = c.current
  position : d.position = c.position
  lines : d.lines = c.lines
  line : d.line = c.line
  isOpen : c.IsOpen → d.IsOpen

/-- The reading can go on from the second state as well as from the first. -/
structure Shift.Keeps (s : Shift) (ts : Array Token) (c d : Compiler) : Prop where
  suits : s.Suits ts d
  isOpen : c.IsOpen → d.IsOpen

section keeps
variable {s : Shift} {ts : Array Token} {c d e : Compiler}

theorem Shift.Keeps.refl (h : s.Suits ts c) : s.Keeps ts c c := ⟨h, id⟩

theorem Shift.Keeps.trans (hcd : s.Keeps ts c d) (hde : s.Keeps ts d e) : s.Keeps ts c e :=
  ⟨hde.suits, hde.isOpen ∘ hcd.isOpen⟩

theorem Shift.Keeps.of_samePlace (h : s.Suits ts c) (hd : SamePlace c d) : s.Keeps ts c d := by
  refine ⟨⟨⟨⟨hd.tokens.trans h.tokens, ?_⟩, ?_⟩, ?_⟩, hd.isOpen⟩
  · rw [hd.current, hd.position]
    exact h.current
  · rw [hd.position]
    exact h.position
  · rw [hd.lines, hd.line]
    exact h.fits

theorem SamePlace.setOpenEntries {entries : Array Entry} (h : c.openEntries? = some entries)
    (more : Array Entry) (entry : Entry) : SamePlace c (c.setOpenEntries (more.push entry)) := by
  have hopen := Compiler.isOpen_of_push h more entry
  unfold Compiler.setOpenEntries at hopen ⊢
  split at hopen <;> exact ⟨rfl, rfl, rfl, rfl, rfl, fun _ => hopen⟩

end keeps

/-- A result at the other place. -/
def Shift.moved {α : Type} (s : Shift) :
    EStateM.Result Fault Compiler α → EStateM.Result Fault Compiler α
  | .ok a c => .ok a (c.shifted s)
  | .error e c => .error (s.fault e) (c.shifted s)

/-- The action does the same at the other place, and the next one may start where it ends. -/
def Shifts {α : Type} (s : Shift) (ts : Array Token) (x : Compile α) : Prop :=
  ∀ c : Compiler, s.Suits ts c →
    x (c.shifted s) = s.moved (x c) ∧ s.Keeps ts c (stateAfter (x c))

namespace Shifts
variable {α β : Type} {s : Shift} {ts : Array Token}

protected theorem pure (a : α) : Shifts s ts (pure a : Compile α) :=
  fun _ hc => ⟨rfl, .refl hc⟩

protected theorem throw {e : Fault} (he : s.fault e = e) :
    Shifts s ts (throw e : Compile α) := by
  intro c hc
  refine ⟨?_, .refl hc⟩
  rw [throw_apply, throw_apply, Shift.moved, he]

/-- The fault of a look-up. -/
theorem throw_of {x : Except Fault β} (hx : FailsBare x) {e : Fault} (he : x = .error e) :
    Shifts s ts (throw e : Compile α) :=
  .throw (s.fault_of_isBare (hx e he))

/-- A mistake is shown if it is shown at the other place. -/
protected theorem fail (message : String) : Shifts s ts (fail message : Compile α) := by
  intro c hc
  have hlocated : Diagnostic.locate message (c.shifted s).lines (c.shifted s).line =
      (Diagnostic.locate message c.lines c.line).map s.diagnostic := s.locate message hc.fits
  rw [fail_apply, fail_apply, hlocated]
  cases hlocate : Diagnostic.locate message c.lines c.line with
  | ok d => exact ⟨rfl, .refl hc⟩
  | error e =>
    have hbare : e.isBare = true := by
      unfold Diagnostic.locate at hlocate
      split at hlocate
      · cases hlocate
      · cases hlocate
        rfl
    refine ⟨?_, .refl hc⟩
    simp only [Except.map, Shift.moved, s.fault_of_isBare hbare]

/-- What follows an action, from a state that was reached from `c`. -/
theorem bind_from {x : Compile α} {f : α → Compile β} {c d : Compiler}
    (hx : x (d.shifted s) = s.moved (x d) ∧ s.Keeps ts c (stateAfter (x d)))
    (hf : ∀ a, Shifts s ts (f a)) :
    (x >>= f) (d.shifted s) = s.moved ((x >>= f) d) ∧
      s.Keeps ts c (stateAfter ((x >>= f) d)) := by
  obtain ⟨hsame, hend⟩ := hx
  rw [bind_apply, bind_apply, hsame]
  cases hrun : x d with
  | ok a d' =>
    rw [hrun] at hend
    obtain ⟨hnext, hlast⟩ := hf a d' hend.suits
    exact ⟨hnext, hend.trans hlast⟩
  | error e d' =>
    rw [hrun] at hend
    exact ⟨rfl, hend⟩

protected theorem bind {x : Compile α} {f : α → Compile β} (hx : Shifts s ts x)
    (hf : ∀ a, Shifts s ts (f a)) : Shifts s ts (x >>= f) :=
  fun c hc => bind_from (hx c hc) hf

/-- A look at parts of the state that do not depend on what lies in front. -/
theorem get_bind {f : Compiler → Compile α} (hf : ∀ c : Compiler, f (c.shifted s) = f c)
    (h : ∀ c, Shifts s ts (f c)) : Shifts s ts (get >>= f) := by
  intro c hc
  have hstart : (get >>= f) (c.shifted s) = f c (c.shifted s) := by
    rw [bind_apply, get_apply]
    exact congrFun (hf c) _
  rw [hstart]
  exact h c c hc

protected theorem ite {p : Prop} [Decidable p] {x y : Compile α} (hx : Shifts s ts x)
    (hy : Shifts s ts y) : Shifts s ts (if p then x else y) := by
  split
  · exact hx
  · exact hy

/-- What is done about a fault must be the same at the other place. -/
protected theorem tryCatch {x : Compile α} {handle : Fault → Compile α}
    (hx : Shifts s ts x)
    (hhandle : ∀ e (c : Compiler), s.Suits ts c →
      handle (s.fault e) (c.shifted s) = s.moved (handle e c) ∧
        s.Keeps ts c (stateAfter (handle e c))) :
    Shifts s ts (tryCatch x handle) := by
  intro c hc
  obtain ⟨hsame, hend⟩ := hx c hc
  rw [tryCatch_apply, tryCatch_apply, hsame]
  cases hrun : x c with
  | ok a d =>
    rw [hrun] at hend
    exact ⟨rfl, hend⟩
  | error e d =>
    rw [hrun] at hend
    obtain ⟨hnext, hlast⟩ := hhandle e d hend.suits
    exact ⟨hnext, hend.trans hlast⟩

protected theorem endingQuietly {x : Compile Unit} (hx : Shifts s ts x) :
    Shifts s ts (Compile.endingQuietly x) := by
  refine hx.tryCatch fun e c hc => ?_
  rw [s.isMismatch_fault]
  cases e.isMismatch with
  | true => exact ⟨rfl, .refl hc⟩
  | false => exact ⟨rfl, .refl hc⟩

protected theorem loop {round : Compile Bool} (h : Shifts s ts round) (rounds : Nat) :
    Shifts s ts (Compile.loop round rounds) := by
  induction rounds with
  | zero => exact .throw rfl
  | succ rounds ih => exact h.bind fun _ => .ite (.pure _) ih

/-! The cursor. -/

/-- A step forward needs a position, but no current token that belongs to it. -/
theorem advance_from {c : Compiler} (htokens : c.tokens = ts) (hposition : -1 ≤ c.position)
    (hfits : s.Fits c.lines c.line) :
    advance (c.shifted s) = s.moved (advance c) ∧
      s.Keeps ts c (stateAfter (advance c)) := by
  cases hcurrent : c.current with
  | none =>
    have hshifted : (c.shifted s).current = none := hcurrent
    rw [advance_of_none hcurrent, advance_of_none hshifted]
    refine ⟨rfl, .refl ⟨⟨⟨htokens, fun t ht => ?_⟩, hposition⟩, hfits⟩⟩
    exact nomatch hcurrent.symm.trans ht
  | some t =>
    have hshifted : (c.shifted s).current = some t := hcurrent
    obtain ⟨hsettled, -, hopen⟩ := advanced_later (t := t) htokens hposition
    have hplace : -1 ≤ (c.advanced t).position ∧
        s.Fits (c.advanced t).lines (c.advanced t).line := by
      have hline : s.Fits c.lines (if t.isNewline then c.line + 1 else c.line) := by
        split
        · exact s.fits_next hfits
        · exact hfits
      unfold Compiler.advanced
      cases Place.get? c.tokens (c.position + 1) with
      | none => exact ⟨hposition, hline⟩
      | some u => exact ⟨Int.le_trans hposition (Int.le_add_one (Int.le_refl _)), hline⟩
    rw [advance_of_some hcurrent, advance_of_some hshifted, Compiler.advanced_shifted s hposition]
    exact ⟨rfl, ⟨⟨hsettled, hplace.1⟩, hplace.2⟩, hopen⟩

protected theorem advance : Shifts s ts advance :=
  fun _ hc => advance_from hc.tokens hc.position hc.fits

protected theorem current : Shifts s ts current := by
  refine get_bind (fun _ => rfl) fun c => ?_
  cases c.current with
  | none => exact .throw rfl
  | some t => exact .pure t

protected theorem currentIs (text : String) : Shifts s ts (currentIs text) :=
  Shifts.current.bind fun _ => .pure _

protected theorem nextIs (text : String) : Shifts s ts (nextIs text) := by
  intro c hc
  have hnext := Compiler.get?_shifted s hc.position
  unfold Compile.nextIs peek
  simp only [bind_apply, get_apply, pure_apply, hnext]
  cases Place.get? c.tokens (c.position + 1) with
  | none => exact ⟨rfl, .refl hc⟩
  | some t => exact ⟨rfl, .refl hc⟩

/-- A test that never succeeds. -/
theorem bind_false {x : Compile Bool} {f : Bool → Compile α} (hx : Shifts s ts x)
    (hfalse : ∀ c d : Compiler, s.Suits ts c → x c ≠ .ok true d) (h : Shifts s ts (f false)) :
    Shifts s ts (x >>= f) := by
  intro c hc
  obtain ⟨hsame, hend⟩ := hx c hc
  rw [bind_apply, bind_apply, hsame]
  cases hrun : x c with
  | error e d =>
    rw [hrun] at hend
    exact ⟨rfl, hend⟩
  | ok found d =>
    rw [hrun] at hend
    cases found with
    | true => exact absurd hrun (hfalse c d hc)
    | false =>
      obtain ⟨hnext, hlast⟩ := h d hend.suits
      exact ⟨hnext, hend.trans hlast⟩

/-- A word that is not among the tokens is not the current one, -/
theorem currentIs_absent {word : String} (hword : ∀ t ∈ ts, t.is word = false)
    {f : Bool → Compile α} (h : Shifts s ts (f false)) :
    Shifts s ts (currentIs word >>= f) := by
  refine (Shifts.currentIs word).bind_false (fun c d hc hrun => ?_) h
  cases hcurrent : c.current with
  | none => simp [Compile.currentIs, Compile.current, hcurrent] at hrun
  | some t =>
    obtain ⟨i, -, hi⟩ := Option.bind_eq_some_iff.mp (hc.current t hcurrent).2
    simp [Compile.currentIs, Compile.current, hcurrent, hword t (Array.mem_of_getElem? hi)] at hrun

/-- and does not come next. -/
theorem nextIs_absent {word : String} (hword : ∀ t ∈ ts, t.is word = false)
    {f : Bool → Compile α} (h : Shifts s ts (f false)) :
    Shifts s ts (nextIs word >>= f) := by
  refine (Shifts.nextIs word).bind_false (fun c d hc hrun => ?_) h
  cases hnext : Place.get? c.tokens (c.position + 1) with
  | none => simp [Compile.nextIs, peek, hnext] at hrun
  | some t =>
    obtain ⟨i, -, hi⟩ := Option.bind_eq_some_iff.mp hnext
    rw [hc.tokens] at hi
    simp [Compile.nextIs, peek, hnext, hword t (Array.mem_of_getElem? hi)] at hrun

/-! Writing, and everything else that leaves the cursor alone. -/

/-- A change that does not depend on the place and leaves it alone. -/
protected theorem modify {f : Compiler → Compiler}
    (hf : ∀ c : Compiler, f (c.shifted s) = (f c).shifted s)
    (hplace : ∀ c : Compiler, SamePlace c (f c)) : Shifts s ts (modify f) := by
  intro c hc
  rw [modify_apply, modify_apply, hf]
  exact ⟨rfl, .of_samePlace hc (hplace c)⟩

protected theorem print (text : String) : Shifts s ts (print text) :=
  .modify (fun _ => rfl) fun _ => ⟨rfl, rfl, rfl, rfl, rfl, id⟩

protected theorem lastEntry : Shifts s ts lastEntry := by
  refine get_bind (fun _ => rfl) fun c => ?_
  split
  · exact .throw rfl
  · split
    · exact .pure _
    · exact .throw rfl

protected theorem setLastEntry (entry : Entry) : Shifts s ts (setLastEntry entry) := by
  intro c hc
  have hsame : (c.shifted s).openEntries? = c.openEntries? := rfl
  unfold Compile.setLastEntry
  rw [modify_apply, modify_apply, hsame]
  cases hopen : c.openEntries? with
  | none => exact ⟨rfl, .refl hc⟩
  | some entries =>
    dsimp only
    rw [Compiler.setOpenEntries_shifted]
    exact ⟨rfl, .of_samePlace hc (.setOpenEntries hopen _ _)⟩

protected theorem updateLastEntry (update : Entry → Entry) :
    Shifts s ts (updateLastEntry update) :=
  Shifts.lastEntry.bind fun _ => .setLastEntry _

protected theorem appendEntry (entry : Entry) : Shifts s ts (appendEntry entry) := by
  intro c hc
  have hsame : (c.shifted s).openEntries? = c.openEntries? := rfl
  unfold Compile.appendEntry
  simp only [bind_apply, get_apply, hsame]
  cases hopen : c.openEntries? with
  | none => exact ⟨rfl, .refl hc⟩
  | some entries =>
    simp only [set_apply, Compiler.setOpenEntries_shifted]
    exact ⟨rfl, .of_samePlace hc (.setOpenEntries hopen _ _)⟩

protected theorem openBlank : Shifts s ts openBlank := by
  intro c hc
  have hsame : (c.shifted s).document = c.document := rfl
  unfold Compile.openBlank
  simp only [bind_apply, get_apply, hsame]
  cases c.document with
  | none => exact ⟨rfl, .refl hc⟩
  | some entries =>
    refine ⟨rfl, .of_samePlace hc ⟨rfl, rfl, rfl, rfl, rfl, fun _ => ?_⟩⟩
    simp [stateAfter, Compiler.IsOpen, Compiler.lastOpen?, Compiler.openEntries?]

protected theorem latex : Shifts s ts latex := by
  refine Shifts.lastEntry.bind fun entry => ?_
  cases entry.latex? with
  | none => exact .throw rfl
  | some text => exact .pure _

protected theorem emitFrom {piece : Compile String} (hpiece : Shifts s ts piece) :
    Shifts s ts (emitFrom piece) :=
  Shifts.latex.bind fun _ => hpiece.bind fun _ => .updateLastEntry _

protected theorem subscript (name : String) : Shifts s ts (subscript name) := by
  unfold Compile.subscript
  split
  · exact .throw rfl
  · exact .pure _
  · exact .pure _

protected theorem wordText (t : Token) : Shifts s ts (wordText t) := by
  unfold Grammar.wordText
  split
  · exact .pure _
  · exact .throw rfl

protected theorem innermost : Shifts s ts innermost := by
  refine get_bind (fun _ => rfl) fun c => ?_
  cases c.scope.getLast? with
  | none => exact .throw rfl
  | some name => exact .pure _

/-- What is worked out does not depend on the place. -/
theorem of_workedOut {piece : Compile String} (h : WorkedOut piece) : Shifts s ts piece := by
  cases h with
  | text text => exact .pure text
  | word t => exact .wordText t
  | subscript name => exact .subscript name
  | innermost name => exact Shifts.innermost.bind fun _ => .subscript _
  | callHead functions function =>
    exact .ite (.pure _) (.ite ((Shifts.subscript _).bind fun _ => .pure _) (.pure _))

protected theorem pushScope (name : String) : Shifts s ts (pushScope name) :=
  .modify (fun _ => rfl) fun _ => ⟨rfl, rfl, rfl, rfl, rfl, id⟩

protected theorem popScope : Shifts s ts popScope := by
  intro c hc
  have hscope : (c.shifted s).scope = c.scope := rfl
  unfold Compile.popScope
  simp only [bind_apply, get_apply, hscope]
  cases c.scope.isEmpty with
  | true => exact ⟨rfl, .refl hc⟩
  | false => exact ⟨rfl, .of_samePlace hc ⟨rfl, rfl, rfl, rfl, rfl, id⟩⟩

protected theorem resolve (path : List String) : Shifts s ts (resolve path) := by
  refine get_bind (fun _ => rfl) fun c => ?_
  cases hresolve : c.names.resolve path with
  | error e => exact .throw_of (Binding.resolve_failsBare path _) hresolve
  | ok value => exact .pure _

protected theorem setNames {names : Except Fault Table} (h : FailsBare names) :
    Shifts s ts (setNames names) := by
  cases names with
  | error e => exact .throw_of h rfl
  | ok names => exact .modify (fun _ => rfl) fun _ => ⟨rfl, rfl, rfl, rfl, rfl, id⟩

protected theorem addName (path : List String) (name : String) (value : Binding) :
    Shifts s ts (addName path name value) :=
  get_bind (fun _ => rfl) fun _ => .setNames (Table.add_failsBare path name value _)

protected theorem isBound (path : List String) (name : String) :
    Shifts s ts (isBound path name) := by
  refine get_bind (fun _ => rfl) fun c => .ite ?_ (get_bind (fun _ => rfl) fun c => ?_)
  · refine (Shifts.nextIs _).bind fun _ => .ite ?_ (.pure _)
    exact (Shifts.pushScope _).bind fun _ => .pure _
  · cases hbound : c.names.boundAlong path name with
    | error e => exact .throw_of (Table.boundAlong_failsBare path name _) hbound
    | ok found => exact .pure _

protected theorem define (name : String) : Shifts s ts (define name) := by
  refine get_bind (fun _ => rfl) fun c => (Shifts.addName _ _ _).bind fun _ => ?_
  refine Shifts.bind (.modify (fun _ => rfl) fun _ => ⟨rfl, rfl, rfl, rfl, rfl, id⟩) fun _ => ?_
  exact .print _

protected theorem emitName (name : String) : Shifts s ts (emitName name) := by
  have hplain : Shifts s ts (emitFrom (subscript name)) := .emitFrom (.subscript _)
  refine Shifts.tryCatch (.emitFrom (Shifts.innermost.bind fun _ => .subscript _)) fun e c hc => ?_
  cases e with
  | outOfRange => exact hplain c hc
  | _ => exact ⟨rfl, .refl hc⟩

protected theorem reopenScope (name : String) : Shifts s ts (reopenScope name) := by
  refine get_bind (fun _ => rfl) fun c => ?_
  split
  · refine .ite (get_bind (fun _ => rfl) fun _ => ?_) (.pure _)
    exact .setNames (Table.assign_failsBare _ _ _ _)
  · exact .throw rfl
  · refine (Shifts.resolve _).bind fun b => ?_
    split
    · exact .pure _
    · exact .throw rfl
  · next he => exact .throw_of (Binding.resolve_failsBare c.scope _) he

/-! Going back. -/

/-- Going back to before a token and making the step to it again. -/
theorem back_from {rest : Compile α} (hrest : Shifts s ts rest)
    {c d : Compiler} (hcd : s.Keeps ts c d) (hopen : c.IsOpen) (hposition : 0 ≤ c.position)
    (text : String) :
    (do
        rewind (c.shifted s).position text
        advance
        rest) (d.shifted s) =
      s.moved ((do
        rewind c.position text
        advance
        rest) d) ∧
      s.Keeps ts c (stateAfter ((do
        rewind c.position text
        advance
        rest) d)) := by
  let back : Compiler := Compiler.withText { d with position := c.position - 1 } text
  have hd : d.IsOpen := hcd.isOpen hopen
  have hrewind : rewind c.position text d = .ok () back :=
    setLatex_eq (c := { d with position := c.position - 1 }) hd text
  have hshift : (s.front.size : Int) + c.position - 1 = s.front.size + (c.position - 1) :=
    Int.add_sub_assoc _ _ _
  have hrewind' : rewind (c.shifted s).position text (d.shifted s) =
      .ok () (back.shifted s) := by
    have hwritten := setLatex_eq (c := { d.shifted s with
      position := (c.shifted s).position - 1 }) hd text
    refine Eq.trans hwritten ?_
    simp only [Compiler.shifted, Compiler.withText, hshift, back]
  rw [bind_apply, bind_apply, hrewind, hrewind']
  have hstill : back.IsOpen := Compiler.IsOpen.withText (c := { d with position := c.position - 1 })
    hd text
  have hplace : -1 ≤ back.position := by
    show -1 ≤ c.position - 1
    omega
  obtain ⟨hstep, hend⟩ := advance_from (s := s) (c := back) hcd.suits.tokens hplace hcd.suits.fits
  exact bind_from ⟨hstep, hend.suits, fun _ => hend.isOpen hstill⟩ fun _ => hrest

/-- An attempt that goes back to where it began if it fails, and then makes a step. -/
theorem retrying {x : Compile (Option Bool)} {finish rest : Compile α}
    (hx : Shifts s ts x)
    (hstart : ∀ c : Compiler, c.current = none → x c = .error .noToken c)
    (hfinish : Shifts s ts finish) (hrest : Shifts s ts rest) :
    Shifts s ts ((do
      let text ← latex
      let position := (← get).position
      PlotScript.retrying x (do
        rewind position text
        return false)) >>= fun done =>
          if done = true then finish else advance >>= fun _ => rest) := by
  intro c hc
  obtain ⟨hlatex, hbegin⟩ := (Shifts.latex : Shifts s ts latex) c hc
  rw [bind_assoc, bind_apply, bind_apply, hlatex]
  cases htext : latex c with
  | error e d =>
    rw [htext] at hbegin
    exact ⟨rfl, hbegin⟩
  | ok text d =>
    obtain ⟨rfl, hopen⟩ := eq_of_latex htext
    obtain ⟨hsame, hend⟩ := hx d hc
    dsimp only [Shift.moved]
    rw [bind_assoc, bind_apply, bind_apply, get_apply, get_apply]
    dsimp only
    rw [bind_apply, bind_apply, retrying_apply, retrying_apply, hsame]
    -- the attempt only fails where there was a token, and so the place is one of the tokens
    have hplace : x d ≠ .error .noToken d → 0 ≤ d.position := by
      intro hrun
      cases hcurrent : d.current with
      | none => exact absurd (hstart d hcurrent) hrun
      | some t => exact (hc.current t hcurrent).1
    cases hrun : x d with
    | error e d' =>
      rw [hrun] at hend
      cases e with
      | diagnostic m =>
        dsimp only [Shift.moved, Shift.fault]
        rw [← bind_apply, ← bind_apply, bind_assoc, bind_assoc]
        exact back_from hrest hend hopen (hplace (by simp [hrun])) text
      | _ => exact ⟨rfl, hend⟩
    | ok found d' =>
      rw [hrun] at hend
      cases found with
      | none =>
        dsimp only [Shift.moved, Shift.fault]
        rw [← bind_apply, ← bind_apply, bind_assoc, bind_assoc]
        exact back_from hrest hend hopen (hplace (by simp [hrun])) text
      | some done =>
        have hnext := Shifts.ite (p := done = true) hfinish (Shifts.advance.bind fun _ => hrest)
        obtain ⟨hlast, hstop⟩ := hnext d' hend.suits
        exact ⟨hlast, hend.trans hstop⟩

end Shifts

/-! Forms of the grammar. -/

/-- A descent whose expressions and statements do the same behind further tokens. -/
structure ShiftsDown (s : Shift) (ts : Array Token) (down : Descent) : Prop where
  expression : Shifts s ts down.expression
  statement : ∀ fresh, Shifts s ts (down.statement fresh)

theorem Compiler.sameView_shifted (s : Shift) (c : Compiler) : SameView c (c.shifted s) :=
  ⟨rfl, rfl, rfl, stepsLeft_shifted s c⟩

/-- Doing the same at another place is kept when actions are put together. -/
def Shifts.congruence (s : Shift) (ts : Array Token) : Congruence .never .never where
  Rel x _ := Shifts s ts x
  pure := .pure
  bind := .bind
  exhausted := .throw rfl
  fail := .fail
  endingQuietly := .endingQuietly
  look hf h := .get_bind (fun c => hf c _ (c.sameView_shifted s)) h
  current := .current
  nextIs := .nextIs
  advance := .advance
  emitFrom h := .emitFrom (.of_workedOut h)
  watched _ h := by rwa [Watched.watched_never]

def Shifts.naming (s : Shift) (ts : Array Token) : NamingCongruence .never .never where
  toCongruence := Shifts.congruence s ts
  latex := .latex
  pushScope := .pushScope
  popScope := .popScope
  addName := .addName
  isBound := .isBound
  define := .define
  emitName := .emitName
  addFunction _ := .modify (fun _ => rfl) fun _ => ⟨rfl, rfl, rfl, rfl, rfl, id⟩
  addMacro _ := .modify (fun _ => rfl) fun _ => ⟨rfl, rfl, rfl, rfl, rfl, id⟩
  updateLastMacro _ := .modify (fun _ => rfl) fun _ => ⟨rfl, rfl, rfl, rfl, rfl, id⟩

section forms
variable {s : Shift} {ts : Array Token}

theorem shifts_openStamped (fresh : Bool) : Shifts s ts (Watched.openStamped fresh) := by
  have hstamp : Shifts s ts stampEntry := by
    refine Shifts.bind (.modify (fun _ => rfl) fun _ => ⟨rfl, rfl, rfl, rfl, rfl, id⟩) fun _ => ?_
    refine .get_bind (fun _ => rfl) fun c => (Shifts.updateLastEntry _).bind fun _ => ?_
    exact .updateLastEntry _
  exact .ite (Shifts.openBlank.bind fun _ => hstamp) hstamp

theorem shifts_openNamespace : Shifts s ts openNamespace := by
  have henter : Shifts s ts enterScope := by
    refine Shifts.advance.bind fun _ => Shifts.current.bind fun t => ?_
    cases t.name? with
    | none => exact .fail _
    | some name =>
      exact (Shifts.reopenScope _).bind fun _ => (Shifts.pushScope _).bind fun _ => .pure _
  refine .get_bind (fun _ => rfl) fun c => (Shifts.updateLastEntry _).bind fun _ => ?_
  refine henter.bind fun name => (Shifts.updateLastEntry _).bind fun _ => ?_
  exact .modify (fun _ => rfl) fun _ => ⟨rfl, rfl, rfl, rfl, rfl, id⟩

theorem shifts_note : Shifts s ts note := by
  refine Shifts.current.bind fun t => .ite ((Shifts.appendEntry _).bind fun _ => ?_) (.pure _)
  exact Shifts.advance.bind fun _ => .pure _

section inside
variable {down : Descent} (h : ShiftsDown s ts down)
include h

theorem ShiftsDown.descends : (Shifts.congruence s ts).Descends down down :=
  ⟨⟨rfl, h.expression⟩, h.statement⟩

theorem shifts_namespaceStatement : Shifts s ts (namespaceStatement down) :=
  (Shifts.congruence s ts).namespaceStatement h.descends

theorem shifts_programStatement : Shifts s ts (programStatement down) :=
  (Shifts.congruence s ts).programStatement h.descends

end inside

variable (hcalm : Calm ts)
include hcalm

theorem shifts_macroCall : Shifts s ts macroCall :=
  .nextIs_absent (fun t ht => (hcalm t ht).2) (.pure _)

theorem shifts_importModule : Shifts s ts importModule :=
  .currentIs_absent (fun t ht => (hcalm t ht).1) (.pure _)

/-- No form puts anything in where no macro is called and nothing is imported. -/
def Shifts.forms : FormCongruence .never .never :=
  (Shifts.naming s ts).forms shifts_openStamped shifts_openNamespace shifts_note
    (shifts_macroCall hcalm) (shifts_importModule hcalm)

theorem shifts_expressionFrom {down : Descent} (h : ShiftsDown s ts down) :
    Shifts s ts (expressionFrom down) := by
  have hattempt : Shifts s ts (attempt (Watched.watched .never .point (point down))
      (Watched.operation .never down)) :=
    (Shifts.congruence s ts).attempt h.descends.toReads
  have hrest : Shifts s ts (Watched.operandFirst .never down) :=
    (Shifts.forms hcalm).operandFirst h.descends fun hbody => by rwa [Watched.watched_never]
  rw [Watched.watched_never, Watched.operation_never] at hattempt
  rw [← Watched.expressionFrom_never, Watched.expressionFrom_eq, Watched.watched_never,
    Watched.pointFirst_never, Grammar.pointFirst_eq]
  exact .retrying hattempt (fun c hcurrent => attempt_of_none hcurrent) (.pure _) hrest

theorem shifts_statementFrom {down : Descent} (h : ShiftsDown s ts down) (fresh : Bool) :
    Shifts s ts (statementFrom down fresh) := by
  have hown : (Shifts.forms hcalm).Rel (expressionFrom down) (expressionFrom down) :=
    shifts_expressionFrom hcalm h
  rw [statementFrom_eq]
  exact (Shifts.forms hcalm).statementWith h.descends hown fresh

/-- Everything below a budget of levels does the same behind further tokens. -/
theorem shiftsDown_descent (levels : Nat) : ShiftsDown s ts (descent levels) := by
  induction levels with
  | zero => exact ⟨fun c hc => ⟨rfl, .refl hc⟩, fun _ c hc => ⟨rfl, .refl hc⟩⟩
  | succ levels ih => exact ⟨shifts_expressionFrom hcalm ih, shifts_statementFrom hcalm ih⟩

end forms

end PlotScript
