import PlotScript.Proofs.EntryIds
import PlotScript.Proofs.Juxtaposed
import PlotScript.Proofs.Lookups
import PlotScript.Proofs.Stopping

/-! What a namespace does to the names around it. While it is read the scope only grows, as long as
no name of an inner scope has a dot behind it. So everything is bound below the scope of the
namespace, but for the name of the namespace itself, which is emptied one scope too far out. -/

namespace PlotScript
open Compile Grammar

/-! Paths. -/

theorem Apart.of_prefix {p r q : List String} (h : Apart p q) (hr : p <+: r) : Apart r q := by
  refine ⟨fun hq => h.1 (hr.trans hq), fun hq => ?_⟩
  rcases List.prefix_or_prefix_of_prefix hr hq with hpq | hqp
  · exact h.1 hpq
  · exact h.2 hqp

/-- The second path goes on behind the first. -/
def Beyond (p s : List String) : Prop := p <+: s ∧ p ≠ s

theorem Beyond.of_prefix {p s s' : List String} (h : Beyond p s) (hs : s <+: s') : Beyond p s' := by
  refine ⟨h.1.trans hs, ?_⟩
  rintro rfl
  exact h.2 (h.1.eq_of_length_le hs.length_le)

theorem Beyond.prefix_dropLast {p s : List String} (h : Beyond p s) : p <+: s.dropLast := by
  obtain ⟨⟨t, rfl⟩, hne⟩ := h
  have ht : t ≠ [] := by
    rintro rfl
    exact hne (by simp)
  rw [List.dropLast_append_of_ne_nil ht]
  exact List.prefix_append p _

theorem beyond_concat {p s : List String} (h : p <+: s) (name : String) :
    Beyond p (s ++ [name]) := by
  refine ⟨h.trans (List.prefix_append s _), ?_⟩
  rintro rfl
  exact absurd h.length_le (by simp)

/-! Tables. -/

theorem Binding.resolve_append {b b' : Binding} {p : List String} (r : List String)
    (h : b.resolve p = .ok b') : b.resolve (p ++ r) = b'.resolve r := by
  induction p generalizing b with
  | nil =>
    cases h
    rfl
  | cons step p ih =>
    rw [Binding.resolve] at h
    rw [List.cons_append, Binding.resolve]
    cases hstep : b.member step with
    | error e =>
      rw [hstep] at h
      cases h
    | ok next =>
      rw [hstep] at h
      exact ih h

namespace Table
variable {t t' : Table} {path : List String} {name : String} {value : Binding}

/-- Where the scopes on the way are there, a name is bound as it is anywhere. -/
theorem add_of_assign (h : t.assign path name value = .ok t') : t.add path name value = .ok t' := by
  induction path generalizing t t' with
  | nil => exact h
  | cons step path ih =>
    unfold assign at h
    split at h
    · cases h
    · next inner hstep =>
      obtain ⟨inner', hassign, rfl⟩ := exists_of_map_eq_ok h
      simp [add, hstep, ih hassign, Except.map]
    · cases h

/-- On the way to a scope that is there, every name can be bound. -/
theorem exists_assign {inner : Table} {scope : List String} (hscope : path <+: scope)
    (h : t.resolve scope = .ok (.table inner)) (name : String) (value : Binding) :
    ∃ t', t.assign path name value = .ok t' := by
  obtain ⟨rest, rfl⟩ := hscope
  induction path generalizing t with
  | nil => exact ⟨_, rfl⟩
  | cons step path ih =>
    obtain ⟨next, hstep, hnext⟩ := exists_of_resolve_cons h
    obtain ⟨names, rfl⟩ := Binding.eq_table_of_resolve hnext
    obtain ⟨names', hassign⟩ := ih hnext
    exact ⟨t.bind step (.table names'), by simp [assign, hstep, hassign, Except.map]⟩

end Table

/-! The relations. -/

/-- Neither the names nor the scope change. -/
structure SameNames (c d : Compiler) : Prop where
  scope : d.scope = c.scope
  names : d.names = c.names

instance : Splicing SameNames where
  refl _ := ⟨rfl, rfl⟩
  trans h h' := ⟨h'.scope.trans h.scope, h'.names.trans h.names⟩
  readsOnly h := ⟨h.scope, h.names⟩

/-- The scope grows, and where it lies beyond a path, nothing changes away from that path. -/
structure Confined (p : List String) (c d : Compiler) : Prop where
  scope : c.scope <+: d.scope
  outer : Beyond p c.scope → ∀ q, Apart p q → d.names.resolve q = c.names.resolve q

/-- The same, but for the innermost scope, which may be left. -/
structure Leaves (p : List String) (c d : Compiler) : Prop where
  scope : ∀ s, Beyond s c.scope → s <+: d.scope
  outer : Beyond p c.scope → ∀ q, Apart p q → d.names.resolve q = c.names.resolve q

section relations
variable {p : List String} {c d e : Compiler} {α β : Type}

theorem SameNames.confined (h : SameNames c d) : Confined p c d :=
  ⟨h.scope ▸ List.prefix_rfl, fun _ _ _ => h.names ▸ rfl⟩

theorem Confined.trans (h : Confined p c d) (h' : Confined p d e) : Confined p c e :=
  ⟨h.scope.trans h'.scope, fun hbeyond q hq =>
    (h'.outer (hbeyond.of_prefix h.scope) q hq).trans (h.outer hbeyond q hq)⟩

instance : Splicing (Confined p) where
  refl _ := ⟨List.prefix_rfl, fun _ _ _ => rfl⟩
  trans := Confined.trans
  readsOnly h := SameNames.confined ⟨h.scope, h.names⟩

theorem Goes.confined {x : Compile α} (h : Goes SameNames x) : Goes (Confined p) x :=
  fun c => (h c).confined

theorem Confined.leaves (h : Confined p c d) : Leaves p c d :=
  ⟨fun _ hs => hs.1.trans h.scope, h.outer⟩

theorem Confined.leaves_trans (h : Confined p c d) (h' : Leaves p d e) : Leaves p c e :=
  ⟨fun s hs => h'.scope s (hs.of_prefix h.scope), fun hbeyond q hq =>
    (h'.outer (hbeyond.of_prefix h.scope) q hq).trans (h.outer hbeyond q hq)⟩

/-- What is done inside of a scope, and then the rest up to where it is left. -/
theorem Goes.leaves_bind {x : Compile α} {f : α → Compile β} (hx : Goes (Confined p) x)
    (hf : ∀ a, Goes (Leaves p) (f a)) : Goes (Leaves p) (x >>= f) := by
  intro c
  have hfirst := hx c
  rw [bind_apply]
  cases hrun : x c with
  | error e d =>
    rw [hrun] at hfirst
    exact hfirst.leaves
  | ok a d =>
    rw [hrun] at hfirst
    exact hfirst.leaves_trans (hf a d)

theorem Goes.leaves_orFail {x : Compile Bool} {rest : Compile α} (hx : Goes (Confined p) x)
    (message : String) (hrest : Goes (Leaves p) rest) :
    Goes (Leaves p) (x >>= fun found => if found = true then rest else
      (fail message : Compile PUnit) >>= fun _ => rest) :=
  hx.leaves_bind fun _ => .ite hrest ((Goes.fail message).leaves_bind fun _ => hrest)

/-- Behind a scope that was left names are looked at no more. -/
theorem Goes.leaves_popScope {f : Unit → Compile α} (hf : ∀ a, Goes SameNames (f a)) :
    Goes (Leaves p) (popScope >>= f) := by
  intro c
  rw [bind_apply]
  cases hscope : c.scope.isEmpty with
  | true =>
    simp only [popScope, bind_apply, get_apply, hscope, if_true, throw_apply]
    exact ⟨fun _ hs => hs.1, fun _ _ _ => rfl⟩
  | false =>
    simp only [popScope, bind_apply, get_apply, hscope, Bool.false_eq_true, if_false, set_apply]
    have hlater := hf () { c with scope := c.scope.dropLast }
    exact ⟨fun _ hs => hlater.scope ▸ hs.prefix_dropLast, fun _ q _ =>
      congrArg (Table.resolve q) hlater.names⟩

/-- A scope that is entered and left again. -/
theorem Goes.confined_pushScope {name : String} {f : Unit → Compile α}
    (hf : ∀ a, Goes (Leaves p) (f a)) : Goes (Confined p) (pushScope name >>= f) := by
  intro c
  have hlater := hf () { c with scope := c.scope ++ [name] }
  have hgrown : Beyond c.scope (c.scope ++ [name]) := beyond_concat List.prefix_rfl name
  exact ⟨hlater.scope c.scope hgrown, fun hbeyond => hlater.outer (hbeyond.of_prefix hgrown.1)⟩

end relations

/-! What the forms do to names. -/

section forms
variable {p : List String} {α : Type}

theorem setOpenEntries_sameNames (c : Compiler) (entries : Array Entry) :
    SameNames c (c.setOpenEntries entries) := by
  unfold Compiler.setOpenEntries
  split <;> exact ⟨rfl, rfl⟩

theorem updateLastEntry_sameNames (update : Entry → Entry) :
    Goes SameNames (updateLastEntry update) :=
  .updateLastEntry fun _ => setOpenEntries_sameNames _ _

theorem setLatex_sameNames (text : String) : Goes SameNames (setLatex text) :=
  updateLastEntry_sameNames _

instance : Emitting SameNames := ⟨.emit_of_setLatex setLatex_sameNames⟩

instance : Emitting (Confined p) := ⟨fun text => (Goes.emit text).confined⟩

theorem openStamped_sameNames (fresh : Bool) : Goes SameNames (Watched.openStamped fresh) := by
  have hblank : Goes SameNames openBlank := by
    intro c
    unfold openBlank
    rw [bind_apply, get_apply]
    cases hdocument : c.document <;> simp only [hdocument] <;> exact ⟨rfl, rfl⟩
  have hid : Goes SameNames (modify fun c : Compiler => { c with lastId := c.lastId + 1 }) :=
    fun _ => ⟨rfl, rfl⟩
  have hstamp : Goes SameNames stampEntry :=
    hid.bind fun _ => Goes.get.bind fun _ => (updateLastEntry_sameNames _).bind fun _ =>
      updateLastEntry_sameNames _
  cases fresh
  · exact hstamp
  · exact hblank.bind fun _ => hstamp

theorem note_sameNames : Goes SameNames note := by
  have happend : ∀ entry, Goes SameNames (appendEntry entry) := by
    intro entry c
    unfold appendEntry
    rw [bind_apply, get_apply]
    cases hopen : c.openEntries? <;> simp only [hopen]
    · exact ⟨rfl, rfl⟩
    · exact setOpenEntries_sameNames c _
  refine Goes.current.bind fun t => .ite ?_ (.pure _)
  exact (happend _).bind fun _ => Goes.advance.bind fun _ => .pure _

/-- A name is bound in the scope that is open. -/
theorem Goes.confined_addName (name : String) (value : Binding) {f : Unit → Compile α}
    (hf : ∀ a, Goes (Confined p) (f a)) :
    Goes (Confined p) (do
      let c ← get
      let done ← addName c.scope name value
      f done) := by
  intro c
  refine Goes.bind_from (x := addName c.scope name value) ?_ hf
  cases hadd : c.names.add c.scope name value with
  | error e =>
    rw [addName_of_error hadd]
    exact Chained.refl c
  | ok names =>
    rw [addName_of_ok hadd]
    refine ⟨List.prefix_rfl, fun hbeyond q hq => ?_⟩
    exact Table.resolve_add_of_apart hadd (hq.of_prefix (beyond_concat hbeyond.1 name).1)

theorem confined_define (name : String) : Goes (Confined p) (define name) := by
  have hobject : Goes SameNames (modify fun c : Compiler => { c with objectName := name }) :=
    fun _ => ⟨rfl, rfl⟩
  have hprint : ∀ text, Goes SameNames (print text) := fun _ _ => ⟨rfl, rfl⟩
  exact .confined_addName name .unset fun _ => hobject.confined.bind fun _ => (hprint _).confined

/-- A name of the open scope is emptied in the scope around it. -/
theorem reopenScope_emptied {c : Compiler} {own names : Table} {name : String}
    (hown : c.names.resolve c.scope = .ok (.table own)) (hname : own.has name = true)
    (hassign : c.names.assign c.scope.dropLast name (.table []) = .ok names) :
    reopenScope name c = .ok () { c with names } := by
  simp [reopenScope, hown, hname, assignName, setNames, hassign]

/-- For a new name nothing is done. -/
theorem reopenScope_still {c : Compiler} {name : String}
    (h : ∀ own : Table, c.names.resolve c.scope = .ok (.table own) → own.has name = false) :
    stateAfter (reopenScope name c) = c := by
  cases hscope : c.names.resolve c.scope with
  | ok b =>
    cases b with
    | table own => simp [reopenScope, hscope, h own hscope, stateAfter]
    | _ => simp [reopenScope, hscope, stateAfter]
  | error e =>
    have hcheck : stateAfter (checkAssignable c.scope.dropLast c) = c := by
      unfold checkAssignable resolve
      cases hdrop : c.names.resolve c.scope.dropLast with
      | ok b => cases b <;> simp [hdrop, stateAfter]
      | error e => simp [hdrop, stateAfter]
    cases e with
    | unknownKey =>
      have hrun : reopenScope name c = checkAssignable c.scope.dropLast c := by
        simp [reopenScope, hscope]
      rw [hrun, hcheck]
    | _ => simp [reopenScope, hscope, stateAfter]

theorem confined_reopenScope (name : String) : Goes (Confined p) (reopenScope name) := by
  intro c
  by_cases hemptied : ∃ own : Table, c.names.resolve c.scope = .ok (.table own) ∧
      own.has name = true
  · obtain ⟨own, hown, hname⟩ := hemptied
    cases hassign : c.names.assign c.scope.dropLast name (.table []) with
    | error e =>
      have hfault : reopenScope name c = .error e c := by
        simp [reopenScope, hown, hname, assignName, setNames, hassign]
      rw [hfault]
      exact Chained.refl c
    | ok names =>
      rw [reopenScope_emptied hown hname hassign]
      refine ⟨List.prefix_rfl, fun hbeyond q hq => ?_⟩
      refine Table.resolve_add_of_apart (Table.add_of_assign hassign) (hq.of_prefix ?_)
      exact hbeyond.prefix_dropLast.trans (List.prefix_append _ _)
  · rw [reopenScope_still fun own hown => Bool.eq_false_iff.mpr fun hname =>
      hemptied ⟨own, hown, hname⟩]
    exact Chained.refl c

theorem confined_functionParameter : Goes (Confined p) functionParameter := by
  refine (Goes.currentIs _).bind fun _ => .ite (.pure _) (Goes.current.bind fun t => ?_)
  split
  · exact .fail _
  · refine (Goes.emitFrom (Still.innermost.bind fun _ => .subscript _)).bind fun _ => ?_
    refine .confined_addName _ _ fun _ => Goes.advance.bind fun _ => ?_
    refine (Goes.currentIs _).bind fun _ => .ite ?_ ?_
    · exact (Goes.emit _).bind fun _ => Goes.advance.bind fun _ => .pure _
    · refine (Goes.currentIs _).orFail _ ((Goes.emit _).bind fun _ => ?_)
      exact Goes.advance.bind fun _ => .pure _

theorem confined_function {down : Descent} (hexpression : Goes (Confined p) down.expression) :
    Goes (Confined p) (function down) := by
  have hown : ∀ name, Goes SameNames (modify fun c : Compiler =>
      { c with functions := c.functions ++ [name] }) := fun _ _ => ⟨rfl, rfl⟩
  refine (Goes.currentIs _).bind fun _ => .ite (Goes.advance.bind fun _ => ?_) (.pure _)
  refine Goes.current.bind fun t => ?_
  split
  · exact .fail _
  · refine (Goes.emitFrom (.subscript _)).bind fun _ => (Goes.emit _).bind fun _ => ?_
    refine .confined_addName _ _ fun _ => .confined_pushScope fun _ => ?_
    refine (hown _).confined.leaves_bind fun _ => Goes.advance.leaves_bind fun _ => ?_
    refine (Goes.currentIs _).leaves_orFail _ (Goes.advance.leaves_bind fun _ => ?_)
    refine Goes.get.leaves_bind fun c => (confined_functionParameter.loop _).leaves_bind fun _ => ?_
    refine (Goes.currentIs _).leaves_orFail _ ((Goes.emit _).leaves_bind fun _ => ?_)
    refine Goes.advance.leaves_bind fun _ => Goes.skipNewlines.leaves_bind fun _ => ?_
    refine (Goes.acceptsExpression hexpression).leaves_orFail _ ?_
    refine Goes.skipNewlines.leaves_bind fun _ => (Goes.currentIs _).leaves_orFail _ ?_
    exact .leaves_popScope fun _ => .pure _

theorem confined_macroDefinition : Goes (Confined p) macroDefinition := by
  have hupdate : ∀ update, Goes (Confined p) (updateLastMacro update) :=
    fun _ _ => SameNames.confined ⟨rfl, rfl⟩
  have hparameter : Goes (Confined p) macroParameter := by
    refine (Goes.currentIs _).bind fun _ => .ite (.pure _) (Goes.current.bind fun t => ?_)
    split
    · exact .fail _
    · refine .confined_addName _ _ fun _ => (hupdate _).bind fun _ => Goes.advance.bind fun _ => ?_
      refine (Goes.currentIs _).bind fun _ => .ite (Goes.advance.bind fun _ => .pure _) ?_
      refine (Goes.currentIs _).orFail _ ((hupdate _).bind fun _ => ?_)
      exact Goes.advance.bind fun _ => .pure _
  have hbody : ∀ steps depth, Goes (Confined p) (macroBody steps depth) := by
    intro steps
    induction steps with
    | zero => exact fun _ => .throw _
    | succ steps ih =>
      intro depth
      refine Goes.current.bind fun t => .ite (.pure _) ?_
      exact (hupdate _).bind fun _ => Goes.advance.bind fun _ => ih _
  have hfirst : ∀ m : MacroDef, Goes (Confined p) (modify fun c : Compiler =>
      { c with macros := c.macros ++ [m] }) := fun _ _ => SameNames.confined ⟨rfl, rfl⟩
  refine (Goes.currentIs _).bind fun _ => .ite (Goes.advance.bind fun _ => ?_) (.pure _)
  refine Goes.current.bind fun t => ?_
  split
  · exact .fail _
  · refine (hfirst _).bind fun _ => .confined_addName _ _ fun _ => .confined_pushScope fun _ => ?_
    refine Goes.advance.leaves_bind fun _ => (Goes.currentIs _).leaves_orFail _ ?_
    refine Goes.advance.leaves_bind fun _ => (Goes.currentIs _).leaves_orFail _ ?_
    refine Goes.advance.leaves_bind fun _ => Goes.get.leaves_bind fun c => ?_
    refine (hparameter.loop _).leaves_bind fun _ => (Goes.currentIs _).leaves_orFail _ ?_
    refine Goes.advance.leaves_bind fun _ => Goes.get.leaves_bind fun c => ?_
    refine (hbody _ _).leaves_bind fun _ => (hupdate _).leaves_bind fun _ => ?_
    exact .leaves_popScope fun _ => .pure _

/-- A namespace behind its name, with the scope open. -/
def insideNamespace (down : Descent) (name : String) : Compile Bool := do
  updateLastEntry (Entry.setTitle name)
  modify fun c => { c with folder := some c.lastId }
  namespaceBody down

theorem leaves_insideNamespace {down : Descent}
    (hstatement : ∀ fresh, Goes (Confined p) (down.statement fresh)) (name : String) :
    Goes (Leaves p) (insideNamespace down name) := by
  have hfolder : Goes (Confined p) (modify fun c : Compiler =>
      { c with folder := some c.lastId }) := fun _ => SameNames.confined ⟨rfl, rfl⟩
  have hround : Goes (Confined p) (namespaceStatement down) := by
    refine (Goes.currentIs _).bind fun _ => .ite (.pure _) ((hstatement true).bind fun _ => ?_)
    exact Goes.skipNewlines.bind fun _ => .pure _
  refine (updateLastEntry_sameNames _).confined.leaves_bind fun _ => hfolder.leaves_bind fun _ => ?_
  refine Goes.advance.leaves_bind fun _ => (Goes.currentIs _).leaves_orFail _ ?_
  refine Goes.advance.leaves_bind fun _ => (hround.loop _).endingQuietly.leaves_bind fun _ => ?_
  exact .leaves_popScope fun _ => Goes.advance.bind fun _ => .pure _

theorem confined_namespaceBlock {down : Descent}
    (hstatement : ∀ fresh, Goes (Confined p) (down.statement fresh)) :
    Goes (Confined p) (namespaceBlock down) := by
  refine (Goes.currentIs _).bind fun _ => .ite (Goes.get.bind fun c => ?_) (.pure _)
  refine (updateLastEntry_sameNames _).confined.bind fun _ => Goes.advance.bind fun _ => ?_
  refine Goes.current.bind fun t => ?_
  split
  · exact .fail _
  · refine (confined_reopenScope _).bind fun _ => .confined_pushScope fun _ => ?_
    exact leaves_insideNamespace hstatement _

end forms

/-! Dots. -/

namespace Compiler

/-- The name that a value at the cursor begins with, perhaps behind a minus, if a dot follows it. -/
def dotted? (c : Compiler) : Option String := do
  let t ← c.current
  let own ← if t.is "-" then c.next? else some t
  let behind ← if t.is "-" then Place.get? c.tokens (c.position + 1 + 1) else c.next?
  if behind.is "." then own.name? else none

end Compiler

/-- Stops at a value that begins with a name and a dot, unless the name is one of the outermost
table. -/
def foreignDot : Watch := fun moment c =>
  decide (moment = .entering .value) && c.dotted?.any fun name => !c.names.has name

section value
variable {p : List String} {down : Descent} {c : Compiler}

/-- A name in front of a dot is in the outermost table. -/
def Compiler.OwnDot (c : Compiler) (name : String) : Prop :=
  ∀ u, c.next? = some u → u.is "." = true → c.names.has name = true

/-- Without a dot behind it, looking a name up leaves the state as it is. -/
theorem isBound_still (name : String) (hdot : ∀ u, c.next? = some u → u.is "." = false) :
    stateAfter (isBound c.scope name c) = c := by
  cases htop : c.names.has name with
  | true =>
    cases hnext : Place.get? c.tokens (c.position + 1) with
    | none => simp [isBound, htop, nextIs, peek, hnext, stateAfter]
    | some u => simp [isBound, htop, nextIs, peek, hnext, hdot u hnext, stateAfter]
  | false =>
    cases halong : c.names.boundAlong c.scope name <;> simp [isBound, htop, halong, stateAfter]

theorem confined_reference (hexpression : Goes (Confined p) down.expression) {name : String}
    (hdot : c.OwnDot name) : Confined p c (stateAfter (reference down name c)) := by
  by_cases hdotted : ∃ u, c.next? = some u ∧ u.is "." = true
  · obtain ⟨u, hu, hmark⟩ := hdotted
    have hnext : Place.get? c.tokens (c.position + 1) = some u := hu
    have hrun : reference down name c = (do
        pushScope name
        advance
        advance
        down.tryExpression
        popScope : Compile Unit) c := by
      simp [reference, isBound, hdot u hu hmark, nextIs, peek, hnext, hmark, pushScope]
    have hleaves : Goes (Leaves p) (popScope >>= pure) := .leaves_popScope fun _ => .pure _
    rw [bind_pure] at hleaves
    rw [hrun]
    refine Goes.confined_pushScope (fun _ => ?_) c
    refine Goes.advance.leaves_bind fun _ => Goes.advance.leaves_bind fun _ => ?_
    exact (Goes.tryExpression hexpression).leaves_bind fun _ => hleaves
  · have hplain : ∀ u, c.next? = some u → u.is "." = false := fun u hu =>
      Bool.eq_false_iff.mpr fun hmark => hdotted ⟨u, hu, hmark⟩
    have hbound := isBound_still name hplain
    have hname : Goes (Confined p) (emitName name) := .emitName name
    unfold reference
    rw [bind_apply, get_apply]
    dsimp only
    rw [bind_apply]
    cases hrun : isBound c.scope name c with
    | error e d =>
      rw [hrun] at hbound
      obtain rfl : d = c := hbound
      exact Chained.refl d
    | ok found d =>
      rw [hrun] at hbound
      obtain rfl : d = c := hbound
      cases found with
      | false =>
        simp only [Bool.false_eq_true, if_false, fail_bind]
        exact Goes.fail _ d
      | true =>
        cases hnext : Place.get? d.tokens (d.position + 1) with
        | none => simpa [nextIs, peek, hnext, stateAfter] using Chained.refl d
        | some u => simpa [nextIs, peek, hnext, hplain u hnext] using hname d

theorem confined_nameValue (hexpression : Goes (Confined p) down.expression) {name : String}
    (hdot : c.OwnDot name) : Confined p c (stateAfter (nameValue down name c)) := by
  have hlatex := Goes.latex (R := Confined p) c
  rw [nameValue_eq, bind_apply]
  cases htext : latex c with
  | error e d =>
    rw [htext] at hlatex
    exact hlatex
  | ok text d =>
    obtain ⟨rfl, -⟩ := eq_of_latex htext
    have href := confined_reference hexpression hdot
    by_cases hempty : text = ""
    · cases hnext : Place.get? d.tokens (d.position + 1) with
      | none => simpa [hempty, nextIs, peek, hnext, stateAfter] using Chained.refl d
      | some u =>
        cases hequals : u.is "=" with
        | false => simpa [hempty, nextIs, peek, hnext, hequals] using href
        | true =>
          -- a name that is being bound has no dot behind it
          have hbind : Confined p d
              (stateAfter ((define name >>= fun _ => reference down name) d)) := by
            have hdefine := confined_define (p := p) name d
            rw [bind_apply]
            cases hrun : define name d with
            | error e d' =>
              rw [hrun] at hdefine
              exact hdefine
            | ok _ d' =>
              rw [hrun] at hdefine
              have hown : d'.OwnDot name := by
                intro v hv hmark
                rw [(define_frame hrun).2.2, Compiler.next?, hnext] at hv
                cases hv
                rw [Token.is_of_is hequals (by decide)] at hmark
                cases hmark
              exact hdefine.trans (confined_reference hexpression hown)
          simpa [hempty, nextIs, peek, hnext, hequals] using hbind
    · simpa [hempty] using href

/-- A value without the minus in front. -/
def Watched.unsignedValue (watch : Watch) (down : Descent) : Compile Bool := do
  let t ← current
  match t.name? with
  | some name => nameValue down name
  | none => emit t.shown
  advance
  discard (Watched.listAccess watch down)
  return true

theorem Watched.value_eq (watch : Watch) (down : Descent) :
    Watched.value watch down = watched watch .value (do
      match (← get).current with
      | none => return true
      | some t =>
        unless t.isKind .name || t.isNumeral || t.isOneOf ["-", "+"] do return false
        if t.is "-" then
          emit "-"
          advance
        Watched.unsignedValue watch down) := rfl

theorem confined_unsignedValue (hexpression : Goes (Confined p) down.expression) {watch : Watch}
    (hdot : ∀ t name, c.current = some t → t.name? = some name → c.OwnDot name) :
    Confined p c (stateAfter (Watched.unsignedValue watch down c)) := by
  have hbehind : Goes (Confined p) (do
      advance
      discard (Watched.listAccess watch down)
      return true) := by
    have haccess : Goes (Confined p) (Watched.listAccess watch down) :=
      (Goes.congruence watch (Confined p)).listAccess ⟨rfl, hexpression⟩
    exact Goes.advance.bind fun _ => haccess.discard.bind fun _ => .pure _
  unfold Watched.unsignedValue
  rw [bind_apply]
  cases hcurrent : c.current with
  | none => simpa [current, hcurrent, stateAfter] using Chained.refl c
  | some t =>
    have hrun : current c = .ok t c := by simp [current, hcurrent]
    rw [hrun]
    dsimp only
    cases hname : t.name? with
    | none => exact ((Goes.emit _).bind fun _ => hbehind) c
    | some name =>
      exact Goes.bind_from (confined_nameValue hexpression (hdot t name hcurrent hname))
        fun _ => hbehind

theorem exists_withText_of_emit {text : String} {d : Compiler} (h : emit text c = .ok () d) :
    ∃ text', d = c.withText text' := by
  cases hlatex : latex c with
  | error e d' => simp [emit, emitFrom, hlatex] at h
  | ok old d' =>
    obtain ⟨rfl, hopen⟩ := eq_of_latex hlatex
    simp [emit, emitFrom, hlatex, setLatex_eq hopen] at h
    exact ⟨old ++ text, h.symm⟩

/-- Behind a minus the name is the next token. -/
theorem confined_negative (hexpression : Goes (Confined p) down.expression) {watch : Watch}
    {t : Token} (hcurrent : c.current = some t)
    (hdot : ∀ own name u, c.next? = some own → own.name? = some name →
      Place.get? c.tokens (c.position + 1 + 1) = some u → u.is "." = true →
      c.names.has name = true) :
    Confined p c (stateAfter ((do
      emit "-"
      advance
      Watched.unsignedValue watch down : Compile Bool) c)) := by
  have hemit := Goes.emit (R := Confined p) "-" c
  rw [bind_apply]
  cases hrun : emit "-" c with
  | error e d =>
    rw [hrun] at hemit
    exact hemit
  | ok _ d =>
    obtain ⟨text, rfl⟩ := exists_withText_of_emit hrun
    rw [hrun] at hemit
    have hadvance : advance (c.withText text) = .ok () ((c.withText text).advanced t) :=
      advance_of_some hcurrent
    have hmoved := Goes.advance.along (R := Confined p) hadvance
    dsimp only
    rw [bind_apply, hadvance]
    refine hemit.trans (hmoved.trans (confined_unsignedValue hexpression ?_))
    intro own name hown hname u hu hmark
    have hnames := (Goes.advance.along (R := SameNames) hadvance).names
    rw [hnames]
    cases hnext : Place.get? c.tokens (c.position + 1) with
    | none =>
      have hnone : ((c.withText text).advanced t).current = none := by
        simp [Compiler.advanced, Compiler.withText, hnext]
      rw [hnone] at hown
      cases hown
    | some v =>
      have hsome : (c.withText text).advanced t = { c.withText text with
          line := if t.isNewline then c.line + 1 else c.line
          current := some v
          position := c.position + 1 } := by
        simp [Compiler.advanced, Compiler.withText, hnext]
      rw [hsome] at hown hu
      cases hown
      exact hdot _ name u hnext hname hu hmark

/-- Where the watch lets a value pass, its name is one of the outermost table or has no dot. -/
theorem confined_value (hexpression : Goes (Confined p) down.expression) :
    Goes (Confined p) (Watched.value foreignDot down) := by
  intro c
  rw [Watched.value_eq]
  cases hfires : foreignDot (.entering .value) c with
  | true => simpa [Watched.watched, Watched.pause, hfires, stateAfter] using Chained.refl c
  | false =>
    have hknown : ∀ name, c.dotted? = some name → c.names.has name = true := by
      intro name hname
      simpa [foreignDot, hname] using hfires
    rcases @stateAfter_watched _ foreignDot .value _ c with hsame | hend
    · rw [hsame]
      exact Chained.refl c
    rw [hend, bind_apply, get_apply]
    dsimp only
    cases hcurrent : c.current with
    | none => exact Chained.refl c
    | some t =>
      dsimp only
      split
      · cases hminus : t.is "-" with
        | false =>
          refine confined_unsignedValue hexpression fun own name hown hname u hu hmark => ?_
          obtain rfl : t = own := Option.some.inj (hcurrent.symm.trans hown)
          exact hknown name (by simp [Compiler.dotted?, hcurrent, hminus, hu, hmark, hname])
        | true =>
          refine confined_negative hexpression hcurrent fun own name u hown hname hu hmark => ?_
          exact hknown name (by simp [Compiler.dotted?, hcurrent, hminus, hown, hu, hmark, hname])
      · exact Chained.refl c

end value

instance {p : List String} : Admits foreignDot (Confined p) where
  value := confined_value
  function := confined_function
  namespaceBlock hstatement fresh := (openStamped_sameNames fresh).confined.bind fun _ =>
    (confined_namespaceBlock hstatement).watched _
  note := note_sameNames.confined
  macroDefinition := confined_macroDefinition
  macroCall := Splicing.macroCall
  importModule := Splicing.importModule

instance {p : List String} : Returning (Confined p) where
  back {_ _ text} hcd _ := by
    have hplace : ∀ position, Goes SameNames (modify fun c : Compiler =>
      { c with position := position - 1 }) := fun _ _ => ⟨rfl, rfl⟩
    have hrewind : ∀ position, Goes (Confined p) (rewind position text) := fun position =>
      (hplace position).confined.bind fun _ => (setLatex_sameNames text).confined
    exact hcd.trans (((hrewind _).bind fun _ => .advance) _)

/-- A namespace behind its name: the scope of the name is entered, and emptied if it is there. -/
def enterNamespace (down : Descent) (name : String) : Compile Bool := do
  reopenScope name
  pushScope name
  insideNamespace down name

/-- A namespace up to its name: the names are still as they were. -/
theorem namespaceBlock_begin {c : Compiler} {name : String} (hopen : c.IsOpen)
    (hcurrent : c.current = some (.word .keyword "ns"))
    (hname : c.next? = some (.word .name name)) :
    ∃ d, SameNames c d ∧ ∀ down, namespaceBlock down c = enterNamespace down name d := by
  obtain ⟨entry, hentry⟩ := Option.isSome_iff_exists.mp hopen
  obtain ⟨entries, hentries, -⟩ := Option.bind_eq_some_iff.mp hentry
  have hfolder : updateLastEntry (fun _ => .folder c.lastId none []) c =
      .ok () (c.setOpenEntries (entries.pop.push (.folder c.lastId none []))) := by
    simp [updateLastEntry, setLastEntry, lastEntry_eq hentry, hentries]
  have hframed := Framed.setOpenEntries hentries entries.pop (.folder c.lastId none [])
  have hadvance := advance_of_some (hframed.current.trans hcurrent)
  have hnext : Place.get? c.tokens (c.position + 1) = some (.word .name name) := hname
  have hmoved := Goes.advance.along (R := SameNames) hadvance
  refine ⟨_, Chained.trans (setOpenEntries_sameNames c _) hmoved, fun down => ?_⟩
  have hreached : ((c.setOpenEntries (entries.pop.push (.folder c.lastId none []))).advanced
      (.word .keyword "ns")).current = some (.word .name name) := by
    simp [Compiler.advanced, hframed.tokens, hframed.position, hnext]
  have hns : (Token.word .keyword "ns").is "ns" = true := rfl
  simp only [namespaceBlock, bind_apply, currentIs, current, get_apply, hcurrent, pure_apply, hns,
    if_true, hfolder, hadvance, hreached]
  rfl

section emptied
variable {names names' : Table} {scope q : List String} {name : String}

/-- Behind the name that was emptied there is an empty table. -/
theorem resolve_emptied (hscope : scope ≠ [])
    (hassign : names.assign scope.dropLast name (.table []) = .ok names')
    (hq : scope.dropLast ++ [name] <+: q) :
    names'.resolve q = (Binding.table []).resolve (q.drop scope.length) := by
  obtain ⟨rest, rfl⟩ := hq
  have hlength : (scope.dropLast ++ [name]).length = scope.length := by
    have := List.length_pos_iff.mpr hscope
    simp
    omega
  rw [← hlength, List.drop_left]
  exact Binding.resolve_append rest (Table.resolve_add (Table.add_of_assign hassign))

theorem resolve_beside_emptied
    (hassign : names.assign scope.dropLast name (.table []) = .ok names')
    (hq : ¬ scope.dropLast ++ [name] <+: q) (habove : ¬ q <+: scope) :
    names'.resolve q = names.resolve q := by
  refine Table.resolve_add_of_apart (Table.add_of_assign hassign) ⟨hq, fun hprefix => ?_⟩
  rcases List.prefix_concat_iff.mp hprefix with rfl | hinner
  · exact hq List.prefix_rfl
  · exact habove (hinner.trans (List.dropLast_prefix scope))

end emptied

section outer
variable {c : Compiler} {name : String} {levels : Nat} {q : List String}

/-- Once a namespace is entered, nothing changes away from the scope around it. -/
theorem resolve_inside (hapart : Apart c.scope q) :
    (stateAfter ((do
      pushScope name
      insideNamespace (Watched.descent foreignDot levels) name : Compile Bool) c)).names.resolve q =
      c.names.resolve q := by
  have hinside : Goes (Leaves c.scope) (insideNamespace (Watched.descent foreignDot levels) name) :=
    leaves_insideNamespace (goes_descent foreignDot levels).2 name
  have hleaves := hinside { c with scope := c.scope ++ [name] }
  exact hleaves.outer (beyond_concat List.prefix_rfl name) q hapart

theorem resolve_enterNamespace_of_emptied {own names : Table} (hapart : Apart c.scope q)
    (hown : c.names.resolve c.scope = .ok (.table own)) (hname : own.has name = true)
    (hassign : c.names.assign c.scope.dropLast name (.table []) = .ok names) :
    (stateAfter (enterNamespace (Watched.descent foreignDot levels) name c)).names.resolve q =
      names.resolve q := by
  rw [enterNamespace, bind_apply, reopenScope_emptied hown hname hassign]
  exact resolve_inside (c := { c with names }) hapart

theorem resolve_enterNamespace_of_new (hapart : Apart c.scope q)
    (hnew : ∀ own : Table, c.names.resolve c.scope = .ok (.table own) → own.has name = false) :
    (stateAfter (enterNamespace (Watched.descent foreignDot levels) name c)).names.resolve q =
      c.names.resolve q := by
  have hstill := reopenScope_still hnew
  rw [enterNamespace, bind_apply]
  cases hrun : reopenScope name c with
  | error e d =>
    rw [hrun] at hstill
    obtain rfl : d = c := hstill
    rfl
  | ok _ d =>
    rw [hrun] at hstill
    obtain rfl : d = c := hstill
    exact resolve_inside hapart

/-- A namespace changes nothing away from the scope around it, as long as no name of an inner scope
has a dot behind it, unless its name is already bound in that scope. Then the name is emptied in the
scope one further out. -/
theorem namespace_stays_confined (hopen : c.IsOpen)
    (hcurrent : c.current = some (.word .keyword "ns")) (hname : c.next? = some (.word .name name))
    (hdots : ∀ d, namespaceBlock (Watched.descent foreignDot levels) c ≠ .error .endOfInput d)
    (hbelow : ¬ c.scope <+: q) (habove : ¬ q <+: c.scope) :
    (∀ own : Table, c.names.resolve c.scope = .ok (.table own) → own.has name = true →
      c.scope.dropLast ++ [name] <+: q →
        (stateAfter (namespaceBlock (descent levels) c)).names.resolve q =
          (Binding.table []).resolve (q.drop c.scope.length)) ∧
    ((∀ own : Table, c.names.resolve c.scope = .ok (.table own) → own.has name = true →
      ¬ c.scope.dropLast ++ [name] <+: q) →
        (stateAfter (namespaceBlock (descent levels) c)).names.resolve q = c.names.resolve q) := by
  have hsame : namespaceBlock (Watched.descent foreignDot levels) c =
      namespaceBlock (descent levels) c := by
    rcases imitates_namespaceBlock (Watched.descent_below foreignDot levels) c with h | ⟨d, h⟩
    · exact h
    · exact absurd h (hdots d)
  obtain ⟨d, ⟨hscope, hnames⟩, hbegin⟩ := namespaceBlock_begin hopen hcurrent hname
  rw [← hsame, hbegin, ← hnames, ← hscope]
  have hapart : Apart d.scope q := hscope ▸ ⟨hbelow, habove⟩
  constructor
  · intro own hown hbound hq
    obtain ⟨names, hassign⟩ :=
      Table.exists_assign (List.dropLast_prefix d.scope) hown name (.table [])
    rw [resolve_enterNamespace_of_emptied hapart hown hbound hassign]
    exact resolve_emptied hapart.ne_nil.1 hassign hq
  · intro hq
    by_cases hbound : ∃ own : Table, d.names.resolve d.scope = .ok (.table own) ∧
        own.has name = true
    · obtain ⟨own, hown, hbound⟩ := hbound
      obtain ⟨names, hassign⟩ :=
        Table.exists_assign (List.dropLast_prefix d.scope) hown name (.table [])
      rw [resolve_enterNamespace_of_emptied hapart hown hbound hassign]
      exact resolve_beside_emptied hassign (hq own hown hbound) hapart.2
    · exact resolve_enterNamespace_of_new hapart fun own hown =>
        Bool.eq_false_iff.mpr fun hhas => hbound ⟨own, hown, hhas⟩

end outer

/-- In a namespace that has an `M`, as the table around it does, in front of another `M`. -/
def besideNamesake : Compiler where
  code := ""
  lines := [""]
  tokens := #[.word .keyword "ns", .word .name "M", .word .mark "\x7b", Token.newline,
    .word .name "k", .word .operator "=", .numeral 1, Token.newline, .word .mark "\x7d",
    Token.newline]
  current := some (.word .keyword "ns")
  names := [("N", .table [("M", .unset)]), ("M", .table [("a", .unset)]), ("b", .unset)]
  scope := ["N"]
  document := some #[.expression 0 "" none]
  target := .document

theorem besideNamesake_stays_confined :
    (fault? (namespaceBlock (descent 9) besideNamesake)).isNone = true ∧
      (∀ d, namespaceBlock (Watched.descent foreignDot 9) besideNamesake ≠ .error .endOfInput d) ∧
      (stateAfter (namespaceBlock (descent 9) besideNamesake)).names.resolve ["M"] =
        .ok (.table []) ∧
      (stateAfter (namespaceBlock (descent 9) besideNamesake)).names.resolve ["b"] =
        .ok .unset := by
  have hopen : besideNamesake.IsOpen := rfl
  have hdots : ∀ d, namespaceBlock (Watched.descent foreignDot 9) besideNamesake ≠
      .error .endOfInput d := by
    intro d hd
    have hends : (fault? (namespaceBlock (Watched.descent foreignDot 9) besideNamesake)).isNone =
      true := by decide +kernel
    rw [hd] at hends
    cases hends
  refine ⟨by decide +kernel, hdots, ?_, ?_⟩
  · exact (namespace_stays_confined hopen rfl rfl hdots (by decide) (by decide)).1 _ rfl rfl
      (by decide)
  · exact (namespace_stays_confined hopen rfl rfl hdots (by decide) (by decide)).2
      fun _ _ _ => by decide

/-- A namespace inside of another one, made for the second time, empties the one of its name outside
or leaves an empty one there. A name of an inner scope with a dot behind it closes a scope too many
at its end, so that what follows is bound further out. -/
theorem namespace_reaches_outer_names :
    (compiled? [] "ns B \x7b\nk = 1\n\x7d\nns A \x7b\nns B \x7b\nq = 1\n\x7d\n\x7d").map
        (fun c => (c.names.resolve ["B", "k"]).isOk) = some true ∧
      (compiled? [] ("ns B \x7b\nk = 1\n\x7d\n" ++
          "ns A \x7b\nns B \x7b\nq = 1\n\x7d\nns B \x7b\nc = 2\n\x7d\n\x7d")).map
        (fun c => (c.names.resolve ["B", "k"]).isOk) = some false ∧
      (compiled? [] "ns A \x7b\nns B \x7b\nq = 1\n\x7d\nns B \x7b\nc = 2\n\x7d\n\x7d").map
        (fun c => c.names.has "B") = some true ∧
      (failure? descent "ns A \x7b\nns B \x7b\nq = 1\nq.q\n\nw = 2\nw.w\n\nv = 3\n\x7d\n\x7d").map
        (fun f => f.last.names.has "v") = some true := by
  decide +kernel

end PlotScript
