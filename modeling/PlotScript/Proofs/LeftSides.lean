import PlotScript.Proofs.Folders
import PlotScript.Proofs.References

/-! The left sides of assignments. What is written to an entry goes behind what is there, and a
reading that goes back leaves what was there before it. So the entry of an assignment begins with
the name and the equals sign that were written first, whatever is read behind them. -/

namespace PlotScript
open Compile Grammar PlotScript.Tree

/-- The text of the entry, if it has one, begins with another text. -/
def Entry.Begins (front : String) (entry : Entry) : Prop :=
  ∀ text, entry.latex? = some text → ∃ rest, text = front ++ rest

theorem Entry.Begins.stamp {front : String} {entry : Entry} (h : entry.Begins front) (id : Nat)
    (inside : Option Nat) : ((entry.setId id).setFolder inside).Begins front := by
  have hextras : ∀ extras, Extra.latex? (Extra.setFolder inside extras) = Extra.latex? extras := by
    intro extras
    induction extras with
    | nil => rfl
    | cons extra rest ih =>
      cases extra with
      | latex text => rfl
      | folder own => rfl
  intro text htext
  apply h
  cases entry with
  | expression own latex own' => exact htext
  | folder own title extras => exact (hextras extras).symm.trans htext
  | note own text' extras => exact (hextras extras).symm.trans htext

theorem Entry.begins_setLatex (entry : Entry) (front rest : String) :
    (entry.setLatex (front ++ rest)).Begins front := by
  intro text htext
  rw [latex?_setLatex] at htext
  exact ⟨rest, (Option.some.inj htext).symm⟩

/-- The document has at least so many entries, and the one at an index begins with a text. -/
structure Compiler.Headed (k : Nat) (front : String) (size : Nat) (c : Compiler) : Prop where
  target : c.target = .document
  document : ∃ entries : Array Entry, c.document = some entries ∧ size ≤ entries.size ∧
    ∃ entry, entries[k]? = some entry ∧ entry.Begins front

/-- The entry at an index goes on to begin with a text, and no entry is lost. -/
def StaysHeaded (k : Nat) (front : String) (c d : Compiler) : Prop :=
  ∀ size, c.Headed k front size → d.Headed k front size

section headed
variable {k : Nat} {front : String}

theorem Compiler.Headed.of_eq {size : Nat} {c d : Compiler} (hc : c.Headed k front size)
    (hdocument : d.document = c.document) (htarget : d.target = c.target) :
    d.Headed k front size :=
  ⟨htarget.trans hc.target, hdocument ▸ hc.document⟩

/-- The last entry is replaced by one that begins with the text, if it is the one in question. -/
theorem Compiler.Headed.replace {size : Nat} {c d : Compiler} (hc : c.Headed k front size)
    {before : Array Entry} {old new : Entry} (hdocument : c.document = some (before.push old))
    (hd : d.document = some (before.push new)) (htarget : d.target = .document)
    (hnew : k = before.size → old.Begins front → new.Begins front) : d.Headed k front size := by
  obtain ⟨-, entries, hentries, hsize, entry, hentry, hbegins⟩ := hc
  obtain rfl : entries = before.push old := Option.some.inj (hentries.symm.trans hdocument)
  refine ⟨htarget, _, hd, by simpa using hsize, ?_⟩
  rw [Array.getElem?_push] at hentry
  by_cases hk : k = before.size
  · rw [if_pos hk] at hentry
    cases hentry
    exact ⟨new, by simp [hk], hnew hk hbegins⟩
  · rw [if_neg hk] at hentry
    exact ⟨entry, by rw [Array.getElem?_push, if_neg hk, hentry], hbegins⟩

/-- A further entry comes behind all others. -/
theorem Compiler.Headed.push {size : Nat} {c d : Compiler} (hc : c.Headed k front size)
    {entries : Array Entry} {entry : Entry} (hdocument : c.document = some entries)
    (hd : d.document = some (entries.push entry)) (htarget : d.target = .document) :
    d.Headed k front size := by
  obtain ⟨-, all, hall, hsize, found, hfound, hbegins⟩ := hc
  obtain rfl : all = entries := Option.some.inj (hall.symm.trans hdocument)
  obtain ⟨hk, -⟩ := Array.getElem?_eq_some_iff.mp hfound
  refine ⟨htarget, _, hd, by simp; omega, found, ?_, hbegins⟩
  rw [Array.getElem?_push, if_neg (Nat.ne_of_lt hk), hfound]

/-- What is open is the document. -/
theorem Compiler.Headed.open {size : Nat} {c : Compiler} (hc : c.Headed k front size)
    {entries : Array Entry} (hopen : c.openEntries? = some entries) :
    c.document = some entries ∧
      ∀ more, c.setOpenEntries more = { c with document := some more } := by
  constructor
  · simpa [openEntries?, hc.target] using hopen
  · intro more
    simp [setOpenEntries, hc.target]

instance : Lenient (StaysHeaded k front) where
  trans h h' size hc := h' size (h size hc)
  aside h _ hc := hc.of_eq h.document h.target

/-- Text goes behind the text that is there. -/
theorem emit_headed (text : String) : Goes (StaysHeaded k front) (emit text) := by
  intro c size hc
  unfold Compile.emit Compile.emitFrom
  rw [bind_apply]
  cases hlatex : latex c with
  | error e d =>
    have hsame := Goes.latex (R := SameEntries) c
    rw [hlatex] at hsame
    exact hc.of_eq hsame.document hsame.target
  | ok old d =>
    obtain ⟨rfl, -⟩ := eq_of_latex hlatex
    show (stateAfter (updateLastEntry (Entry.setLatex (old ++ text)) d)).Headed k front size
    rcases updateLastEntry_cases (Entry.setLatex (old ++ text)) d with
      hsame | ⟨before, entry, hopen, hwrite⟩
    · rwa [hsame]
    · obtain ⟨hdocument, hset⟩ := hc.open hopen
      rw [hwrite, stateAfter, hset]
      refine hc.replace hdocument rfl hc.target fun _ hbegins => ?_
      have hown : entry.latex? = some old := by
        have htext := text?_of_latex hlatex
        simpa [Compiler.text?, Compiler.lastOpen?, hopen] using htext
      obtain ⟨rest, rfl⟩ := hbegins old hown
      rw [String.append_assoc]
      exact Entry.begins_setLatex entry _ _

theorem openStamped_headed (fresh : Bool) :
    Goes (StaysHeaded k front) (Watched.openStamped fresh) := by
  intro c size hc
  obtain ⟨entries, hdocument, -⟩ := hc.document
  rcases openStamped_shape hdocument (.inr hc.target) fresh with
    ⟨e, hopen⟩ | ⟨before, entry, hshape, hopen⟩
  · rw [hopen]
    exact hc.of_eq rfl rfl
  · rw [hopen]
    rcases hshape with ⟨rfl, -⟩ | rfl
    · exact hc.push hdocument rfl rfl
    · exact hc.replace hdocument rfl rfl fun _ hbegins => hbegins.stamp _ _

/-- A folder begins with nothing, and it has no text. -/
theorem openNamespace_headed : Goes (StaysHeaded k front) openNamespace := by
  intro c size hc
  obtain ⟨entries, hdocument, -, entry, hentry, -⟩ := hc.document
  have hblank : ∀ id title, Entry.Begins front (.folder id title []) := by
    intro id title text htext
    cases htext
  obtain ⟨hlt, -⟩ := Array.getElem?_eq_some_iff.mp hentry
  obtain ⟨before, last, rfl⟩ := Array.eq_push_of_size_ne_zero (Nat.ne_zero_of_lt hlt)
  rcases openNamespace_shape hdocument hc.target with
    ⟨e, d, hrun, htarget, hfolder, -⟩ | ⟨title, d, hrun, htarget, hfolder, -⟩
  · rw [hrun]
    exact hc.replace hdocument hfolder htarget fun _ _ => hblank _ _
  · rw [hrun]
    exact hc.replace hdocument hfolder htarget fun _ _ => hblank _ _

instance : Permits (StaysHeaded k front) where
  advance := .advance
  emit := emit_headed
  addNote text hopen size hc := by
    obtain ⟨hdocument, hset⟩ := hc.open hopen
    rw [hset]
    exact hc.push hdocument rfl hc.target
  addFunction _ _ hc := hc.of_eq rfl rfl
  openStamped := openStamped_headed
  openNamespace fresh := (openStamped_headed fresh).bind fun _ => openNamespace_headed
  macroCall c _ hc :=
    have hsame : SameEntries c _ := Splicing.macroCall c
    hc.of_eq hsame.document hsame.target
  importModule c _ hc :=
    have hsame : SameEntries c _ := Splicing.importModule c
    hc.of_eq hsame.document hsame.target

/-- Going back writes to the last entry. If that is the one in question, it was the last one before
the attempt too, so the text that is put back begins as it should. -/
theorem rewind_headed {c d : Compiler} {text : String} (hcd : StaysHeaded k front c d)
    (htext : c.text? = some text) (position : Int) :
    StaysHeaded k front c (stateAfter (rewind position text d)) := by
  intro size hc
  obtain ⟨entries, hdocument, hsize, entry, hentry, hbegins⟩ := hc.document
  have hd : d.Headed k front entries.size :=
    hcd entries.size ⟨hc.target, entries, hdocument, Nat.le_refl _, entry, hentry, hbegins⟩
  let back : Compiler := { d with position := position - 1 }
  have hback : back.Headed k front entries.size := hd.of_eq rfl rfl
  suffices h : (stateAfter (setLatex text back)).Headed k front entries.size from
    ⟨h.target, h.document.imp fun _ ⟨hall, hmore, hrest⟩ => ⟨hall, Nat.le_trans hsize hmore, hrest⟩⟩
  unfold Compile.setLatex
  rcases updateLastEntry_cases (Entry.setLatex text) back with
    hsame | ⟨before, last, hopen, hwrite⟩
  · rwa [hsame]
  · obtain ⟨hown, hset⟩ := hback.open hopen
    rw [hwrite, stateAfter, hset]
    refine hback.replace hown rfl hback.target fun hk _ => ?_
    obtain ⟨all, hall, hmore, -⟩ := hback.document
    obtain rfl : all = before.push last := Option.some.inj (hall.symm.trans hown)
    obtain ⟨hlt, -⟩ := Array.getElem?_eq_some_iff.mp hentry
    rw [Array.size_push] at hmore
    have hlast : entries.back? = some entry := by
      rw [Array.back?_eq_getElem?, ← hentry]
      congr 1
      omega
    have hsaved : entry.latex? = some text := by
      simpa [Compiler.text?, Compiler.lastOpen?, Compiler.openEntries?, hc.target, hdocument,
        hlast] using htext
    obtain ⟨rest, rfl⟩ := hbegins text hsaved
    exact Entry.begins_setLatex last _ _

instance : Retracing (StaysHeaded k front) where
  back hcd htext := Goes.bind_from (rewind_headed hcd htext _) fun _ => .advance

end headed

/-! How an assignment is read up to its equals sign. -/

section reading
variable {c d : Compiler} {down : Descent} {n : Name} {i : Nat} {rest : List Token}

theorem exists_withName_of_define {name : String} (h : define name c = .ok () d) :
    ∃ names, d = c.withName names name := by
  cases hnames : c.names.add c.scope name .unset with
  | error e => simp [define, addName, setNames, hnames] at h
  | ok names =>
    simp [define, addName, setNames, hnames, print] at h
    exact ⟨names, h.symm⟩

theorem nameValue_assigns (hc : c.IsOpen)
    (hahead : c.Ahead i (n.token :: Operator.equals.token :: rest))
    (hrun : nameValue down n.text (c.seenAt i "") = .ok () d) :
    ∃ names, d = (c.withName names n.text).seenAt i (scopedName c.scope n.text) := by
  have hnext : nextIs "=" (c.seenAt i "") = .ok true (c.seenAt i "") :=
    nextIs_seenAt hahead.tail.head "="
  rw [nameValue_eq, bind_apply, latex_seenAt hc] at hrun
  simp only [if_true, bind_apply, hnext] at hrun
  cases hdefine : define n.text (c.seenAt i "") with
  | error e s => simp [hdefine] at hrun
  | ok _ s =>
    obtain ⟨names, rfl⟩ := exists_withName_of_define hdefine
    simp only [hdefine] at hrun
    let bound := c.withName names n.text
    have htext : (bound.seenAt i "").text? = some "" := text?_of_latex (latex_seenAt hc)
    have hdot : ∀ u ∈ (bound.seenAt i "").next?, u.is "." = false := by
      intro u hu
      have hequals : c.tokens[i + 1]? = some u := (get?_succ c.tokens i).symm.trans hu
      obtain rfl := Option.some.inj (hequals.symm.trans hahead.tail.head)
      rfl
    obtain ⟨rfl, -⟩ := reference_eq htext n.text_ne_empty hdot hrun
    rw [String.empty_append]
    exact ⟨names, Compiler.withText_resume _ _ _⟩

theorem value_assigns (hc : c.IsOpen)
    (hahead : c.Ahead i (n.token :: Operator.equals.token :: rest)) {found : Bool}
    (hrun : value down (c.seenAt i "") = .ok found d) :
    found = true ∧
      ∃ names, d = (c.withName names n.text).seenAt (i + 1) (scopedName c.scope n.text) := by
  have hminus : n.token.is "-" = false := n.token_is (by decide)
  have hkind : n.token.isKind .name = true := rfl
  have hunsigned : unsignedValue down (c.seenAt i "") = .ok found d := by
    simpa [value_eq, hahead.head, hkind, hminus] using hrun
  rw [unsignedValue, bind_apply, current_seenAt hahead.head] at hunsigned
  obtain ⟨_, s, hname, hbehind⟩ := bind_eq_ok hunsigned
  obtain ⟨names, rfl⟩ := nameValue_assigns hc hahead hname
  have hfirst : (c.withName names n.text).tokens[i]? = some n.token := hahead.head
  have hnext : (c.withName names n.text).tokens[i + 1]? = some Operator.equals.token :=
    hahead.tail.head
  have hadvance := advance_seenAt hfirst rfl hnext (scopedName c.scope n.text)
  have haccess : listAccess down
      ((c.withName names n.text).seenAt (i + 1) (scopedName c.scope n.text)) =
      .ok false ((c.withName names n.text).seenAt (i + 1) (scopedName c.scope n.text)) := by
    simp [listAccess, currentIs_seenAt hnext, Operator.token, Operator.text, Token.is]
  simp only [bind_apply, hadvance, discard_apply, haccess, pure_apply] at hbehind
  cases hbehind
  exact ⟨rfl, names, rfl⟩

/-- A function that is called needs its bracket, so its name cannot be assigned to. -/
theorem call_before_equals (hc : c.IsOpen)
    (hahead : c.Ahead i (n.token :: Operator.equals.token :: rest)) {found : Bool}
    (hrun : call down (c.seenAt i "") = .ok found d) : found = false ∧ d = c.seenAt i "" := by
  have htext : n.token.text? = some n.text := rfl
  have hadvance := advance_seenAt hahead.head (by rfl) hahead.tail.head
  rw [call, bind_apply, get_apply] at hrun
  simp only [bind_apply, current_seenAt hahead.head, htext] at hrun
  split at hrun
  · have hhead := callHead_eq n.text_ne_empty c.functions (c.seenAt i "")
    obtain ⟨_, s, hemit, hrun⟩ := bind_eq_ok hrun
    cases hemit.symm.trans (emitFrom_seenAt hc hhead)
    obtain ⟨_, s, hmoved, hrun⟩ := bind_eq_ok hrun
    cases hmoved.symm.trans (hadvance _)
    obtain ⟨s, hopening, -⟩ := exists_of_orFail hrun
    cases hopening.symm.trans (currentIs_seenAt hahead.tail.head "(")
  · cases hrun
    exact ⟨rfl, rfl⟩

theorem operand_assigns (hc : c.IsOpen)
    (hahead : c.Ahead i (n.token :: Operator.equals.token :: rest)) {found : Bool}
    (hrun : operand down (c.seenAt i "") = .ok found d) :
    found = true ∧
      ∃ names, d = (c.withName names n.text).seenAt (i + 1) (scopedName c.scope n.text) := by
  have hopening : n.token.is "(" = false := n.token_is (by decide)
  have hmacro : macroCall (c.seenAt i "") = .ok false (c.seenAt i "") :=
    macroCall_seenAt_other hahead.tail.head (by decide)
  rw [operand, bind_apply, currentIs_seenAt hahead.head] at hrun
  simp only [hopening, Bool.false_eq_true, if_false] at hrun
  obtain ⟨called, s, hcall, hbehind⟩ := bind_eq_ok hrun
  obtain ⟨rfl, rfl⟩ := call_before_equals hc hahead hcall
  simp only [Bool.false_eq_true, if_false, firstOf, bind_apply, hmacro] at hbehind
  cases hvalue : value down (c.seenAt i "") with
  | error e s => simp [hvalue] at hbehind
  | ok valued s =>
    obtain ⟨rfl, names, rfl⟩ := value_assigns hc hahead hvalue
    simp only [hvalue, if_true, pure_apply] at hbehind
    cases hbehind
    exact ⟨rfl, names, rfl⟩

/-- What is read behind the equals sign of an assignment. -/
def behindEquals (down : Descent) : Compile Verdict := do
  advance
  down.tryExpression
  if ← atEnd [",", "]", ")", "\x7d"] then return .accepted
  return .dangling

theorem expressionFrom_assigns (hc : c.IsOpen)
    (hahead : c.Ahead i (n.token :: Operator.equals.token :: rest)) {verdict : Verdict}
    (hrun : expressionFrom down (c.seenAt i "") = .ok verdict d) :
    ∃ names, behindEquals down ((c.withName names n.text).seenAt (i + 1)
      (scopedName c.scope n.text ++ "=")) = .ok verdict d := by
  have hopening : n.token.is "(" = false := n.token_is (by decide)
  have hpoint : pointFirst down (c.seenAt i "") = .ok false (c.wentBack i n.token "") :=
    pointFirst_seenAt_other hc hahead.head hopening
  have hback : advance (c.wentBack i n.token "") = .ok () (c.seenAt i "") :=
    advance_wentBack rfl hahead.head
  rw [expressionFrom, bind_apply, hpoint] at hrun
  simp only [Bool.false_eq_true, if_false] at hrun
  rw [bind_apply, hback] at hrun
  obtain ⟨found, s, hoperand, hbehind⟩ := bind_eq_ok hrun
  obtain ⟨rfl, names, rfl⟩ := operand_assigns hc hahead hoperand
  refine ⟨names, ?_⟩
  have hequals : (c.withName names n.text).tokens[i + 1]? = some Operator.equals.token :=
    hahead.tail.head
  have hopen : (c.withName names n.text).IsOpen := hc
  have hoperator : operator ((c.withName names n.text).seenAt (i + 1) (scopedName c.scope n.text)) =
      (advance >>= fun _ => pure true)
        ((c.withName names n.text).seenAt (i + 1) (scopedName c.scope n.text ++ "=")) := by
    have hown : Operator.equals.token.isOneOf operators = true := by decide
    have harrow : Operator.equals.token.is "->" = false := by decide
    have hshown : Operator.equals.token.shown = "=" := by decide
    simp [operator, hequals, hown, harrow, hshown, emit_seenAt hopen]
  rw [behindEquals]
  simp only [if_true, operation, bind_assoc] at hbehind
  rw [bind_apply, hoperator, ← bind_apply, bind_assoc] at hbehind
  simpa only [pure_bind, if_true] using hbehind

end reading

/-- Behind newlines the cursor comes to a name with an equals sign, in the scope of a path. -/
def Compiler.Assigns (s : Compiler) (path : List String) (n : Name) : Prop :=
  ∃ (c : Compiler) (i : Nat) (rest : List Token), skipNewlines s = .ok () c ∧ c.scope = path ∧
    c.position = i ∧ c.current = c.tokens[i]? ∧
    c.Ahead i (n.token :: Operator.equals.token :: rest)

/-- What is tried behind an expression, and the token that is passed at the end. -/
def behindExpression (down : Descent) (verdict : Verdict) : Compile Unit := do
  unless ← (if verdict = .accepted then return true else
      firstOf [note, macroDefinition, importModule, conditional down]) do
    fail "Expected statement"
  advance

/-- Neither a namespace nor a function begins there. -/
theorem statementForms_of_other {down : Descent} {c : Compiler} {t : Token}
    (hcurrent : c.current = some t) (hnamespace : t.is "ns" = false)
    (hfunction : t.is "fn" = false) :
    statementForms down c = (expressionFrom down >>= behindExpression down) c := by
  have hns : namespaceBlock down c = .ok false c := by
    simp [namespaceBlock, currentIs, current, hcurrent, hnamespace]
  have hfn : function down c = .ok false c := by
    simp [function, currentIs, current, hcurrent, hfunction]
  have hforms : firstOf [namespaceBlock down, function down,
      (do return (← expressionFrom down) = Verdict.accepted), note, macroDefinition, importModule,
      conditional down] c = (do
        let verdict ← expressionFrom down
        if verdict = Verdict.accepted then return true else
          firstOf [note, macroDefinition, importModule, conditional down]) c := by
    rw [firstOf, bind_apply, hns]
    simp only [Bool.false_eq_true, if_false]
    rw [firstOf, bind_apply, hfn]
    simp only [Bool.false_eq_true, if_false]
    rw [firstOf, bind_assoc]
    simp only [pure_bind, decide_eq_true_eq]
  rw [statementForms, bind_apply, hforms, ← bind_apply, bind_assoc]
  rfl

section goes
variable {R : Compiler → Compiler → Prop} [Retracing R] (levels : Nat)

protected theorem Goes.behindEquals : Goes R (behindEquals (descent levels)) := by
  have hdown := goes_descent (R := R) .never levels
  rw [Watched.descent_never] at hdown
  refine Goes.advance.bind fun _ => (Goes.tryExpression hdown.1).bind fun _ => ?_
  exact (Goes.atEnd _).bind fun _ => .ite (.pure _) (.pure _)

protected theorem Goes.behindExpression (verdict : Verdict) :
    Goes R (behindExpression (descent levels) verdict) := by
  have hdown := goes_descent (R := R) .never levels
  rw [Watched.descent_never] at hdown
  have hconditional : Goes R (Watched.conditional .never (descent levels)) :=
    (Goes.forms .never R).conditional ⟨rfl, hdown.1⟩
  rw [Watched.conditional_never] at hconditional
  refine Goes.orFail (.ite (.pure _) (.firstOf ?_)) _ .advance
  simp only [List.forall_mem_cons, List.not_mem_nil, false_implies, implies_true, and_true]
  exact ⟨Goes.note, (Goes.naming .never R).macroDefinition, Permits.importModule, hconditional⟩

end goes

/-- The forms of a statement, where a name and an equals sign are ahead. -/
theorem statementForms_headed {levels : Nat} {c d : Compiler} {n : Name} {i : Nat}
    {rest : List Token} {entries : Array Entry} {entry : Entry}
    (hrun : statementForms (descent levels) c = .ok () d)
    (hdocument : c.document = some (entries.push entry)) (htarget : c.target = .document)
    (hblank : entry.latex? = some "") (hposition : c.position = i)
    (hcurrent : c.current = c.tokens[i]?)
    (hahead : c.Ahead i (n.token :: Operator.equals.token :: rest)) :
    d.Headed entries.size (scopedName c.scope n.text ++ "=") (entries.size + 1) := by
  have hopens := (Atom.name n).opens
  have htext : c.text? = some "" := by
    simp [Compiler.text?, Compiler.lastOpen?, Compiler.openEntries?, htarget, hdocument, hblank]
  rw [statementForms_of_other (hcurrent.trans hahead.head) (hopens.notKeyword "ns" (by decide))
    (hopens.notKeyword "fn" (by decide))] at hrun
  obtain ⟨verdict, s, hexpression, hbehind⟩ := bind_eq_ok hrun
  rw [← Compiler.seenAt_eq_self htext hposition hcurrent] at hexpression
  obtain ⟨names, hvalue⟩ :=
    expressionFrom_assigns (Compiler.isOpen_of_text? htext) hahead hexpression
  -- here the name and the equals sign are written, and from here on they stay
  have hwritten : ((c.withName names n.text).seenAt (i + 1)
      (scopedName c.scope n.text ++ "=")).Headed entries.size (scopedName c.scope n.text ++ "=")
      (entries.size + 1) := by
    have hlast := entry.begins_setLatex (scopedName c.scope n.text ++ "=") ""
    rw [String.append_empty] at hlast
    constructor
    · simp [Compiler.seenAt, Compiler.resume, Compiler.withText, Compiler.withName, htarget]
    · refine ⟨entries.push (entry.setLatex (scopedName c.scope n.text ++ "=")), ?_, by simp, _,
        by simp, hlast⟩
      simp [Compiler.seenAt, Compiler.resume, Compiler.withText, Compiler.withName, htarget,
        hdocument]
  have hread : StaysHeaded entries.size (scopedName c.scope n.text ++ "=") _ s :=
    (Goes.behindEquals levels).along hvalue
  have hdone : StaysHeaded entries.size (scopedName c.scope n.text ++ "=") s d :=
    (Goes.behindExpression levels verdict).along hbehind
  exact hdone _ (hread _ hwritten)

/-- A statement that assigns to a name makes an entry that begins with the name and an equals
sign. -/
theorem statement_headed {levels : Nat} {s d : Compiler} {path : List String} {n : Name}
    {entries : Array Entry} (hdocument : s.document = some entries) (hassigns : s.Assigns path n)
    (hrun : statementWithin levels true s = .ok () d) :
    d.Headed entries.size (scopedName path n.text ++ "=") (entries.size + 1) := by
  obtain ⟨c, i, rest, hskip, rfl, hposition, hcurrent, hahead⟩ := hassigns
  cases levels with
  | zero => cases hrun
  | succ levels =>
    rw [statementWithin_succ, statementFrom_fresh hskip hdocument] at hrun
    have hmade := statementForms_headed hrun rfl rfl rfl hposition hcurrent hahead
    exact hmade

/-- The names that two assignments are written with. Each makes an entry whose text begins with the
name of its innermost scope and its own, put together as one name, and an equals sign; the scopes
further out are not in it, and nothing stands between the two names. So the left sides of different
variables are the same exactly if these names put together are. -/
theorem left_sides_agree_iff {s₁ s₂ d₁ d₂ : Compiler} {levels₁ levels₂ : Nat}
    {path₁ path₂ : List String} {n₁ n₂ : Name} {entries₁ entries₂ : Array Entry}
    (hdocument₁ : s₁.document = some entries₁) (hdocument₂ : s₂.document = some entries₂)
    (hassigns₁ : s₁.Assigns path₁ n₁) (hassigns₂ : s₂.Assigns path₂ n₂)
    (hrun₁ : statementWithin levels₁ true s₁ = .ok () d₁)
    (hrun₂ : statementWithin levels₂ true s₂ = .ok () d₂) :
    d₁.Headed entries₁.size (scopedName path₁ n₁.text ++ "=") (entries₁.size + 1) ∧
      d₂.Headed entries₂.size (scopedName path₂ n₂.text ++ "=") (entries₂.size + 1) ∧
      (scopedName path₁ n₁.text = scopedName path₂ n₂.text ↔
        path₁.getLastD "" ++ n₁.text = path₂.getLastD "" ++ n₂.text) := by
  refine ⟨statement_headed hdocument₁ hassigns₁ hrun₁, statement_headed hdocument₂ hassigns₂ hrun₂,
    ?_⟩
  exact subscripted_inj (append_ne_empty n₁.text_ne_empty) (append_ne_empty n₂.text_ne_empty)

/-- What is to be seen where a statement begins. -/
structure Sight where
  path : List String
  position : Int
  current : Option Token
  ahead : List Token
  document : Option (Array Entry)
  deriving DecidableEq

/-- The statement that a script comes to when so many ids have been given, if it ends well. -/
def sight? (code : String) (lastId : Nat) : Option Sight := do
  let c ← (Compiler.ofCode [] code).toOption
  let watch : Watch := fun moment s => moment = .entering (.statement true) && s.lastId = lastId
  let s ← stopped? (program (Watched.descent watch 12) { c with line := c.line + 1 })
  let s' ← finished? (skipNewlines s)
  let _ ← finished? (statementWithin 12 true s)
  return ⟨s'.scope, s'.position, s'.current, s'.tokens.toList.drop s'.position.toNat, s.document⟩

theorem exists_of_sight? {code : String} {lastId i : Nat} {n : Name} {path : List String}
    {rest : List Token} {entries : Array Entry}
    (h : sight? code lastId = some ⟨path, i, some n.token,
      n.token :: Operator.equals.token :: rest, some entries⟩) :
    ∃ s d, Reached [] code (.entering (.statement true)) s ∧ s.document = some entries ∧
      s.Assigns path n ∧ statementWithin 12 true s = .ok () d := by
  obtain ⟨c, hcode, h⟩ := Option.bind_eq_some_iff.mp h
  obtain ⟨s, hstopped, h⟩ := Option.bind_eq_some_iff.mp h
  obtain ⟨s', hskip, h⟩ := Option.bind_eq_some_iff.mp h
  obtain ⟨d, hstatement, h⟩ := Option.bind_eq_some_iff.mp h
  simp only [Option.pure_def, Option.some.injEq, Sight.mk.injEq] at h
  obtain ⟨hpath, hposition, hcurrent, hahead, hdocument⟩ := h
  have hreached : Reached [] code (.entering (.statement true)) s :=
    reached_of_stopped? hcode (fun _ _ hm => of_decide_eq_true (Bool.and_eq_true_iff.mp hm).1)
      hstopped
  rw [hposition, Int.toNat_natCast] at hahead
  have hown : s'.Ahead i (n.token :: Operator.equals.token :: rest) := hahead
  exact ⟨s, d, hreached, hdocument, ⟨s', i, rest, eq_of_finished? hskip, hpath, hposition,
    hcurrent.trans hown.head.symm, hown⟩, eq_of_finished? hstatement⟩

/-- Two assignments of one script, to a name of the top and to one of a namespace. -/
def sharedName : String := "abc = 1\nns a \x7b\nbc = 2\n\x7d"

theorem shared_left_sides_agree :
    ∃ s₁ s₂ d₁ d₂, Reached [] sharedName (.entering (.statement true)) s₁ ∧
      Reached [] sharedName (.entering (.statement true)) s₂ ∧
      s₁.Assigns [] ⟨"abc", by decide, by decide⟩ ∧
      s₂.Assigns ["a"] ⟨"bc", by decide, by decide⟩ ∧
      statementWithin 12 true s₁ = .ok () d₁ ∧ statementWithin 12 true s₂ = .ok () d₂ ∧
      d₁.Headed 0 (scopedName [] "abc" ++ "=") 1 ∧
      d₂.Headed 2 (scopedName ["a"] "bc" ++ "=") 3 ∧
      scopedName [] "abc" = scopedName ["a"] "bc" := by
  obtain ⟨s₁, d₁, hreached₁, hdocument₁, hassigns₁, hrun₁⟩ :=
    @exists_of_sight? sharedName 0 0 ⟨"abc", by decide, by decide⟩ []
      (Lexer.read "1\nns a \x7b\nbc = 2\n\x7d\n").tokens #[] (by decide +kernel)
  obtain ⟨s₂, d₂, hreached₂, hdocument₂, hassigns₂, hrun₂⟩ :=
    @exists_of_sight? sharedName 2 8 ⟨"bc", by decide, by decide⟩ ["a"]
      (Lexer.read "2\n\x7d\n").tokens
      #[.expression 1 "a_\x7bbc\x7d=1" none, .folder 2 (some "a") []] (by decide +kernel)
  obtain ⟨hheaded₁, hheaded₂, hsame⟩ :=
    left_sides_agree_iff hdocument₁ hdocument₂ hassigns₁ hassigns₂ hrun₁ hrun₂
  exact ⟨s₁, s₂, d₁, d₂, hreached₁, hreached₂, hassigns₁, hassigns₂, hrun₁, hrun₂, hheaded₁,
    hheaded₂, hsame.mpr (by decide)⟩

/-- Different variables with one left side: a name of the top and one of a namespace, and names of
namespaces that lie in different ones. -/
theorem different_variables_share_left_side :
    (compiled? [] sharedName).bind Compiler.document =
      some #[.expression 1 "a_\x7bbc\x7d=1" none, .folder 2 (some "a") [],
        .expression 3 "a_\x7bbc\x7d=2" (some 2)] ∧
    (compiled? [] ("ns A \x7b\nns N \x7b\nv = 1\n\x7d\n\x7d\n" ++
        "ns B \x7b\nns N \x7b\nv = 2\n\x7d\n\x7d")).bind Compiler.document =
      some #[.folder 1 (some "A") [], .folder 2 (some "N") [],
        .expression 3 "N_\x7bv\x7d=1" (some 2), .folder 4 (some "B") [],
        .folder 5 (some "N") [], .expression 6 "N_\x7bv\x7d=2" (some 5)] :=
  ⟨by decide +kernel, by decide +kernel⟩

end PlotScript
