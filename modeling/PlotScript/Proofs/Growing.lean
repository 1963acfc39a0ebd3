import PlotScript.Proofs.EntryIds

/-! Documents only grow. A statement with an entry of its own puts a blank one behind all others,
and everything that is read from there on is written to the last entry or adds a further one. So
what was there before the statement stays as it was, with whatever fault the statement may end. -/

namespace PlotScript
open Compile Grammar Watched

/-- A namespace makes a folder of the last entry, and it becomes the current one as soon as it has
its title. -/
theorem openNamespace_shape {c : Compiler} {before : Array Entry} {entry : Entry}
    (hdocument : c.document = some (before.push entry)) (htarget : c.target = .document) :
    (∃ e d, openNamespace c = .error e d ∧ d.target = .document ∧
        d.document = some (before.push (.folder c.lastId none [])) ∧ d.folder = c.folder) ∨
      ∃ title d, openNamespace c = .ok () d ∧ d.target = .document ∧
        d.document = some (before.push (.folder c.lastId (some title) [])) ∧
        d.folder = some c.lastId := by
  have hsame := Goes.enterScope (R := SameEntries) { c with
    document := some (before.push (.folder c.lastId none [])) }
  rw [openNamespace, bind_apply, get_apply]
  dsimp only
  rw [bind_apply, updateLastEntry_eq hdocument htarget]
  dsimp only
  rw [bind_apply]
  cases hscope : enterScope { c with
      document := some (before.push (.folder c.lastId none [])) } with
  | error e d =>
    rw [hscope] at hsame
    exact .inl ⟨e, d, rfl, hsame.target.trans htarget, hsame.document, hsame.folder⟩
  | ok title d =>
    rw [hscope] at hsame
    have htitle := updateLastEntry_eq (c := d) hsame.document (hsame.target.trans htarget)
      (Entry.setTitle title)
    dsimp only
    rw [bind_apply, htitle]
    exact .inr ⟨title, _, rfl, hsame.target.trans htarget, rfl, congrArg some hsame.lastId⟩

/-- The forms of a statement, behind the opening of its entry. -/
def statementForms (down : Descent) : Compile Unit := do
  unless ← firstOf [namespaceBlock down, function down,
      (do return (← Grammar.expressionFrom down) = Verdict.accepted), note, macroDefinition,
      importModule, Grammar.conditional down] do
    fail "Expected statement"
  advance

/-- A statement with an entry of its own puts it behind the others, once the newlines are passed. -/
theorem statementFrom_fresh {down : Descent} {c c' : Compiler} {entries : Array Entry}
    (hskip : skipNewlines c = .ok () c') (hdocument : c.document = some entries) :
    Grammar.statementFrom down true c = statementForms down { c' with
      lastId := c'.lastId + 1
      document := some (entries.push ((Entry.blank.setId (c'.lastId + 1)).setFolder c'.folder))
      target := .document } := by
  have hsome : c.current.isNone = false := by
    cases hnone : c.current with
    | none => simp [skipNewlines, skipWhile, Compiler.stepsLeft, loop, skipWhile.skipOne, current,
        hnone] at hskip
    | some _ => rfl
  have hsame : SameEntries c c' := Goes.skipNewlines.along hskip
  rw [statementFrom_eq, statementWith, watched_never, bind_apply, get_apply]
  simp only [hsome, Bool.false_eq_true, if_false]
  rw [bind_apply, hskip]
  dsimp only
  rw [bind_apply, openStamped_fresh (hsame.document.trans hdocument)]
  simp only [watched_never, conditional_never]
  rfl

/-- The document begins with some entries. -/
def Compiler.BeginsWith (kept : Array Entry) (c : Compiler) : Prop :=
  c.target = .document ∧ ∃ more, c.document = some (kept ++ more)

/-- The document goes on behind them, so that they are not written to any more. -/
def Compiler.Continues (kept : Array Entry) (c : Compiler) : Prop :=
  c.target = .document ∧ ∃ more last, c.document = some ((kept ++ more).push last)

section kept
variable {kept : Array Entry}

theorem Compiler.Continues.open {c : Compiler} (h : c.Continues kept) {entries : Array Entry}
    (hopen : c.openEntries? = some entries) :
    ∃ more last, entries = (kept ++ more).push last := by
  obtain ⟨htarget, more, last, hdocument⟩ := h
  have hown : c.document = some entries := by simpa [openEntries?, htarget] using hopen
  exact ⟨more, last, Option.some.inj (hown.symm.trans hdocument)⟩

theorem Compiler.Continues.setOpenEntries {c : Compiler} (h : c.Continues kept) (more : Array Entry)
    (last : Entry) : (c.setOpenEntries ((kept ++ more).push last)).Continues kept := by
  have hset : c.setOpenEntries ((kept ++ more).push last) =
      { c with document := some ((kept ++ more).push last) } := by
    simp [Compiler.setOpenEntries, h.1]
  rw [hset]
  exact ⟨h.1, more, last, rfl⟩

theorem Compiler.BeginsWith.of_sameEntries {c d : Compiler} (h : SameEntries c d)
    (hc : c.BeginsWith kept) : d.BeginsWith kept := by
  rwa [BeginsWith, h.target, h.document]

instance : Lenient fun c d => c.BeginsWith kept → d.BeginsWith kept where
  trans h h' hc := h' (h hc)
  aside h := .of_sameEntries ⟨h.document, h.target, h.lastId, h.folder⟩

theorem Compiler.Continues.of_sameEntries {c d : Compiler} (h : SameEntries c d)
    (hc : c.Continues kept) : d.Continues kept := by
  rwa [Continues, h.target, h.document]

instance : Lenient fun c d => c.Continues kept → d.Continues kept where
  trans h h' hc := h' (h hc)
  aside h := .of_sameEntries ⟨h.document, h.target, h.lastId, h.folder⟩

theorem openStamped_continues (fresh : Bool) :
    Goes (fun c d => c.Continues kept → d.Continues kept) (openStamped fresh) := by
  rintro c ⟨htarget, more, last, hdocument⟩
  rcases openStamped_shape hdocument (.inr htarget) fresh with
    ⟨e, hopen⟩ | ⟨before, entry, hshape, hopen⟩
  · rw [hopen]
    exact ⟨htarget, more, last, hdocument⟩
  · rw [hopen]
    rcases hshape with ⟨rfl, -⟩ | hsame
    · exact ⟨rfl, more.push last, _, by rw [Array.append_push]; rfl⟩
    · obtain ⟨rfl, rfl⟩ := Array.push_eq_push.mp hsame
      exact ⟨rfl, more, _, rfl⟩

theorem openNamespace_continues :
    Goes (fun c d => c.Continues kept → d.Continues kept) openNamespace := by
  rintro c ⟨htarget, more, last, hdocument⟩
  rcases openNamespace_shape hdocument htarget with
    ⟨e, d, hrun, hd, hfolder, -⟩ | ⟨title, d, hrun, hd, hfolder, -⟩
  · rw [hrun]
    exact ⟨hd, more, _, hfolder⟩
  · rw [hrun]
    exact ⟨hd, more, _, hfolder⟩

theorem setLatex_continues (text : String) :
    Goes (fun c d => c.Continues kept → d.Continues kept) (setLatex text) := by
  refine .updateLastEntry fun hopen hc => ?_
  obtain ⟨more, last, hentries⟩ := hc.open hopen
  obtain ⟨rfl, rfl⟩ := Array.push_eq_push.mp hentries
  exact hc.setOpenEntries more _

instance : Permits fun c d => c.Continues kept → d.Continues kept where
  advance := .advance
  emit := .emit_of_setLatex setLatex_continues
  addNote text hopen hc := by
    obtain ⟨more, last, rfl⟩ := hc.open hopen
    rw [← Array.append_push]
    exact hc.setOpenEntries (more.push last) _
  addFunction _ := .of_sameEntries ⟨rfl, rfl, rfl, rfl⟩
  openStamped := openStamped_continues
  openNamespace fresh := (openStamped_continues fresh).bind fun _ => openNamespace_continues
  macroCall c := .of_sameEntries (Splicing.macroCall c)
  importModule c := .of_sameEntries (Splicing.importModule c)

instance : Retracing fun c d => c.Continues kept → d.Continues kept :=
  .of_lenient setLatex_continues

/-- Once a statement has opened its entry, nothing before that is written to. -/
theorem statementForms_continues (watch : Watch) (levels : Nat) :
    Goes (fun c d => c.Continues kept → d.Continues kept) (do
      unless ← firstOf [
          watched watch .namespaceBlock (namespaceBlock (Watched.descent watch levels)),
          watched watch .function (function (Watched.descent watch levels)),
          (do return (← Watched.expressionFrom watch (Watched.descent watch levels)) = .accepted),
          watched watch .note note, watched watch .macroDefinition macroDefinition,
          watched watch .importModule importModule,
          Watched.conditional watch (Watched.descent watch levels)] do
        fail "Expected statement"
      advance) := by
  have hdown := goes_descent (R := fun c d => c.Continues kept → d.Continues kept) watch levels
  have hown := goes_descent (R := fun c d => c.Continues kept → d.Continues kept) watch (levels + 1)
  have hnamespace : Goes (fun c d => c.Continues kept → d.Continues kept)
      (watched watch .namespaceBlock (namespaceBlock (Watched.descent watch levels))) := by
    rw [namespaceBlock_eq]
    refine .watched ((Goes.currentIs _).bind fun _ => .ite ?_ (.pure _)) _
    exact openNamespace_continues.bind fun _ => .namespaceBody (hdown.2 true)
  let forms := Goes.forms watch fun c d => c.Continues kept → d.Continues kept
  have hexpression : forms.Rel (Watched.expressionFrom watch (Watched.descent watch levels))
      (Watched.expressionFrom watch (Watched.descent watch levels)) := hown.1
  have hforms := hnamespace.bind fun found => .ite (p := found = true) (.pure true)
    (forms.otherForms ⟨rfl, hdown.1⟩ hexpression)
  exact hforms.orFail "Expected statement" .advance

/-- A statement with an entry of its own leaves the entries alone until it has opened that. -/
theorem freshStatement_continues (watch : Watch) (levels : Nat) {c : Compiler}
    (hdocument : c.document = some kept) :
    SameEntries c (stateAfter ((Watched.descent watch levels).statement true c)) ∨
      (stateAfter ((Watched.descent watch levels).statement true c)).Continues kept := by
  have hself : SameEntries c c := ⟨rfl, rfl, rfl, rfl⟩
  cases levels with
  | zero => exact .inl hself
  | succ levels =>
    let down := Watched.descent watch levels
    show SameEntries c (stateAfter (Watched.statementFrom watch down true c)) ∨
      (stateAfter (Watched.statementFrom watch down true c)).Continues kept
    unfold Watched.statementFrom
    rcases @stateAfter_watched _ watch (.statement true) _ c with hsame | hend
    · rw [hsame]
      exact .inl hself
    · rw [hend, bind_apply, get_apply]
      dsimp only
      split
      · exact .inl hself
      · have hskip := Goes.skipNewlines (R := SameEntries) c
        rw [bind_apply]
        cases hrun : skipNewlines c with
        | error e d =>
          rw [hrun] at hskip
          exact .inl hskip
        | ok _ d =>
          rw [hrun] at hskip
          have hkept : d.document = some kept := hskip.document.trans hdocument
          dsimp only
          rw [bind_apply, openStamped_fresh hkept]
          -- the blank entry comes behind those that are kept, and from there on they are safe
          exact .inr (statementForms_continues watch levels _
            ⟨rfl, #[], _, by rw [Array.append_empty]⟩)

/-- What a document begins with stays, whatever statement follows. -/
theorem freshStatement_beginsWith (levels : Nat) :
    Goes (fun c d => c.BeginsWith kept → d.BeginsWith kept)
      ((Grammar.descent levels).statement true) := by
  rintro c ⟨htarget, more, hdocument⟩
  have hcases := freshStatement_continues .never levels hdocument
  rw [Watched.descent_never] at hcases
  rcases hcases with hsame | hcontinues
  · exact Compiler.BeginsWith.of_sameEntries hsame ⟨htarget, more, hdocument⟩
  · obtain ⟨htarget', added, last, hdocument'⟩ := hcontinues
    exact ⟨htarget', (more ++ added).push last, by rw [hdocument']; simp⟩

end kept

/-- A statement with an entry of its own only adds to the document that a script has come to,
whether it ends well or with a fault, and the same holds at any moment before its end. -/
theorem statement_only_adds {files : Files} {code : String} {moment : Moment} {s : Compiler}
    (h : Reached files code moment s) (levels : Nat) :
    ∃ entries, s.document = some entries ∧
      (∃ added, (stateAfter (statementWithin levels true s)).document =
        some (entries ++ added)) ∧
      ∀ watch : Watch, ∃ added,
        (stateAfter ((Watched.descent watch levels).statement true s)).document =
          some (entries ++ added) := by
  obtain ⟨c, hcode, hkept⟩ := h.path (R := fun c d => c.InOrder → d.InOrder)
  obtain ⟨entries, hdocument, -, -⟩ := hkept (inOrder_of_ofCode hcode)
  have hwatched : ∀ watch : Watch, ∃ added,
      (stateAfter ((Watched.descent watch levels).statement true s)).document =
        some (entries ++ added) := by
    intro watch
    rcases freshStatement_continues watch levels hdocument with hsame | ⟨-, more, last, hmore⟩
    · exact ⟨#[], by rw [hsame.document, hdocument, Array.append_empty]⟩
    · exact ⟨more.push last, by rw [hmore, Array.append_push]⟩
  have hplain := hwatched .never
  rw [Watched.descent_never] at hplain
  exact ⟨entries, hdocument, hplain, hwatched⟩

/-- A statement in a namespace makes an entry, a note behind it, writes to the note and ends with a
fault. -/
theorem annotated_only_adds :
    ∃ s entries added, Reached [] annotated (.entering (.statement true)) s ∧
      s.document = some entries ∧ entries.toList.map Entry.id = [1, 1, 2] ∧
      fault? (statementWithin 12 true s) = some .unknownKey ∧
      (stateAfter (statementWithin 12 true s)).document = some (entries ++ added) ∧
      added.toList.map Entry.id = [4, 5] := by
  let watch : Watch := fun moment s => moment = .entering (.statement true) && s.lastId = 2
  let ids : Option (Array Entry) → Option (List Nat) := Option.map fun entries =>
    entries.toList.map Entry.id
  have hview : ((Compiler.ofCode [] annotated).toOption.bind fun c =>
      (stopped? (program (Watched.descent watch 12) { c with line := c.line + 1 })).map fun s =>
        (ids s.document, fault? (statementWithin 12 true s),
          ids (stateAfter (statementWithin 12 true s)).document)) =
      some (some [1, 1, 2], some .unknownKey, some [1, 1, 2, 4, 5]) := by
    decide +kernel
  obtain ⟨c, hcode, hview⟩ := Option.bind_eq_some_iff.mp hview
  obtain ⟨s, hstopped, hview⟩ := Option.map_eq_some_iff.mp hview
  simp only [Prod.mk.injEq] at hview
  obtain ⟨hbefore, hfault, hafter⟩ := hview
  have hreached : Reached [] annotated (.entering (.statement true)) s :=
    reached_of_stopped? hcode (fun _ _ hm => of_decide_eq_true (Bool.and_eq_true_iff.mp hm).1)
      hstopped
  obtain ⟨entries, hdocument, ⟨added, hadded⟩, -⟩ := statement_only_adds hreached 12
  rw [hdocument] at hbefore
  rw [hadded] at hafter
  have hold : entries.toList.map Entry.id = [1, 1, 2] := Option.some.inj hbefore
  have hnew : (entries ++ added).toList.map Entry.id = [1, 1, 2, 4, 5] := Option.some.inj hafter
  rw [Array.toList_append, List.map_append, hold] at hnew
  exact ⟨s, entries, added, hreached, hdocument, hold, hfault, hadded,
    List.append_cancel_left hnew⟩

end PlotScript
