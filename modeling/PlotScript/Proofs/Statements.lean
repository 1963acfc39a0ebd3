import PlotScript.Proofs.Translation

/-! A statement that is an expression. It opens an entry, and an expression that begins with a
name and an equals sign binds the name before it is read on. -/

namespace PlotScript
open Compile Grammar PlotScript.Tree

namespace Compiler

/-- The state in which a name was bound by an assignment. -/
def withName (c : Compiler) (names : Table) (name : String) : Compiler :=
  { c with
    names
    objectName := name
    printed := c.printed.push ("\x7b'__name__': " ++ Text.quoted name ++ "\x7d") }

/-- The state with a blank entry behind the others. -/
def withBlank (c : Compiler) (entries : Array Entry) : Compiler :=
  { c with document := some (entries.push Entry.blank), target := .document }

/-- The state with an entry for a statement behind the others. -/
def withEntry (c : Compiler) (entries : Array Entry) : Compiler :=
  { c with
    lastId := c.lastId + 1
    document := some (entries.push (.expression (c.lastId + 1) "" c.folder))
    target := .document }

/-- The state with the newline under the cursor left behind. -/
def nextLine (c : Compiler) : Compiler :=
  match Place.get? c.tokens (c.position + 1) with
  | some t => { c with line := c.line + 1, current := some t, position := c.position + 1 }
  | none => { c with line := c.line + 1, current := none }

end Compiler

section run
variable {c : Compiler} {down : Descent} {i : Nat} {text : String} {rest : List Token}

theorem define_seenAt {name : String} {names : Table}
    (hnames : c.names.add c.scope name .unset = .ok names) :
    define name (c.seenAt i text) = .ok () ((c.withName names name).seenAt i text) := by
  simp [define, addName, setNames, hnames, print]
  rfl

theorem value_seenAt_assigned (hc : c.IsOpen) {n : Name} {names : Table}
    (hnames : c.names.add c.scope n.text .unset = .ok names)
    (hknown : (c.withName names n.text).Knows n.text)
    (hahead : c.Ahead i (n.token :: Operator.equals.token :: rest)) :
    value down (c.seenAt i "") =
      .ok true ((c.withName names n.text).seenAt (i + 1) (scopedName c.scope n.text)) := by
  have hopen : (c.withName names n.text).IsOpen := hc
  have hreference : reference down n.text ((c.withName names n.text).seenAt i "") =
      .ok () ((c.withName names n.text).seenAt i ("" ++ scopedName c.scope n.text)) :=
    reference_seenAt hopen n.text_ne_empty hknown hahead.tail.head (by decide)
  have hname : nameValue down n.text (c.seenAt i "") =
      .ok () ((c.withName names n.text).seenAt i (scopedName c.scope n.text)) := by
    rw [nameValue_eq]
    simp [latex_seenAt hc, nextIs_seenAt hahead.tail.head, Operator.token, Operator.text,
      Token.is, define_seenAt hnames, hreference]
  have hadvance := advance_seenAt (c := c.withName names n.text) hahead.head (by rfl)
    hahead.tail.head
  have hminus : n.token.is "-" = false := n.token_is (by decide)
  have hkind : n.token.isKind .name = true := rfl
  have hname? : n.token.name? = some n.text := rfl
  have hafter : listAccess down
      ((c.withName names n.text).seenAt (i + 1) (scopedName c.scope n.text)) =
      .ok false ((c.withName names n.text).seenAt (i + 1) (scopedName c.scope n.text)) := by
    have hnext : (c.withName names n.text).tokens[i + 1]? = some Operator.equals.token :=
      hahead.tail.head
    simp [listAccess, currentIs_seenAt hnext, Operator.token, Operator.text, Token.is]
  simp [value_eq, unsignedValue, hahead.head, hkind, hminus, current_seenAt hahead.head, hname?,
    hname, hadvance, hafter]

/-- An assignment, if the expression behind the equals sign is read with the name bound. -/
theorem expressionFrom_assigned (hc : c.Ready) {n : Name} {names : Table}
    (hnames : c.names.add c.scope n.text .unset = .ok names)
    (hknown : (c.withName names n.text).Knows n.text)
    (hplain : n.text ∉ c.functions ∧ n.text ∉ builtinFunctions) {e : Expression}
    (he : Reads (c.withName names n.text) down e) {stop : Token} (hstop : e.MayEnd stop)
    (hahead : c.Ahead i (n.token :: Operator.equals.token :: (e.tokens ++ stop :: rest))) :
    expressionFrom down (c.seenAt i "") =
      .ok .accepted ((c.withName names n.text).seenAt (i + 1 + 1 + e.tokens.length)
        (scopedName c.scope n.text ++ Operator.equals.latex ++ e.latex c.scope c.functions)) := by
  have hopening : n.token.is "(" = false := n.token_is (by decide)
  have hcall : call down (c.seenAt i "") = .ok false (c.seenAt i "") :=
    call_seenAt_value (v := ⟨false, .name n⟩) hc (by simpa [Atom.variables] using hplain) hahead
  have hmacro : macroCall (c.seenAt i "") = .ok false (c.seenAt i "") :=
    macroCall_seenAt_other hahead.tail.head (by decide)
  have hoperand : operand down (c.seenAt i "") =
      .ok true ((c.withName names n.text).seenAt (i + 1) (scopedName c.scope n.text)) := by
    simp [operand, currentIs_seenAt hahead.head, hopening, term, firstOf, hcall, hmacro,
      value_seenAt_assigned hc.isOpen hnames hknown hahead]
  have hoperation := operation_seenAt (c := c.withName names n.text) (i := i + 1) hc.isOpen
    .equals he hstop hahead.tail (scopedName c.scope n.text)
  exact expressionFrom_of_operand (pointFirst_seenAt_other hc.isOpen hahead.head hopening)
    (Atom.name n).token_isNewline hahead.head hoperand hoperation hstop.mem
    hahead.tail.tail.skip.head

end run

theorem Tree.Expression.eq_of_assigned? {e : Expression} {name : String}
    (h : e.assigned? = some name) :
    ∃ n value, name = n.text ∧ e = .operation (.value ⟨false, .name n⟩) .equals value := by
  unfold Expression.assigned? at h
  split at h
  · next n value =>
    cases h
    exact ⟨n, value, rfl, rfl⟩
  · contradiction

/-- The state in which the name of an assignment at the top, if there is one, is bound. -/
def Compiler.assigning (c : Compiler) (name? : Option String) : Compiler :=
  { c with
    names := name?.elim c.names fun name => c.names.bind name .unset
    objectName := name?.getD c.objectName
    printed := name?.elim c.printed fun name =>
      c.printed.push ("\x7b'__name__': " ++ Text.quoted name ++ "\x7d") }

theorem has_assigning {c : Compiler} {name? : Option String} {v : String}
    (h : v ∈ name? ∨ c.names.has v = true) : (c.assigning name?).names.has v = true := by
  cases name? with
  | none => simpa [Compiler.assigning] using h
  | some name =>
    by_cases hv : v = name
    · simp [Compiler.assigning, Table.has, hv]
    · have hbound : c.names.has v = true := by simpa [Ne.symm hv] using h
      simpa [Compiler.assigning, Table.has, Table.find?_bind_of_ne _ _ hv] using hbound

/-- The second state is the first with the name of an assignment, if there is one, bound in the
scope. -/
inductive Compiler.Introduces (c : Compiler) : Option String → Compiler → Prop
  | nothing : Introduces c none c
  | name {name : String} {names : Table} (h : c.names.add c.scope name .unset = .ok names) :
    Introduces c (some name) (c.withName names name)

theorem Compiler.introduces_assigning {c : Compiler} (hscope : c.scope = [])
    (name? : Option String) : c.Introduces name? (c.assigning name?) := by
  cases name? with
  | none => exact .nothing
  | some name =>
    have hadd : c.names.add c.scope name .unset = .ok (c.names.bind name .unset) := by
      rw [hscope]
      rfl
    exact .name hadd

/-- Any expression that is a statement. -/
theorem expressionFrom_as_statement {c d : Compiler} (hc : c.Ready) {e : Expression}
    (hintroduces : c.Introduces e.assigned? d) (hallows : d.Allows e.variables e.callees)
    {levels : Nat} (hlevels : e.tokens.length ≤ levels) {i : Nat} {stop : Token} {rest : List Token}
    (hstop : e.MayEnd stop) (hahead : c.Ahead i (e.tokens ++ stop :: rest)) :
    expressionFrom (descent levels) (c.seenAt i "") =
      .ok .accepted (d.seenAt (i + e.tokens.length) (e.latex c.scope c.functions)) := by
  generalize hassigned : e.assigned? = name? at hintroduces
  cases hintroduces with
  | nothing =>
    have hread : expressionFrom (descent levels) (c.seenAt i "") =
        .ok .accepted (c.seenAt (i + e.tokens.length) ("" ++ e.latex c.scope c.functions)) :=
      expressionFrom_seenAt hc hallows
        (fun e' hshorter hallows' => reads_descent hc (by omega) hallows') hlevels hstop
        hahead (.inr hassigned)
    rw [hread, String.empty_append]
  | @name name names hnames =>
    -- the name is bound before the value is read, so the value may refer to it
    obtain ⟨n, value, rfl, rfl⟩ := Expression.eq_of_assigned? hassigned
    have hend : value.MayEnd stop := hstop.parts.2
    simp only [Expression.tokens, Term.tokens, Value.tokens, Atom.token, Bool.false_eq_true,
      if_false, List.cons_append, List.nil_append, List.length_cons] at hahead hlevels ⊢
    have hready : (c.withName names n.text).Ready := ⟨hc.isOpen, hc.hasLine, hc.functionNames⟩
    have hn : n.text ∈
        Expression.variables (.operation (.value ⟨false, .name n⟩) .equals value) := by
      simp [Expression.variables, Term.variables, Atom.variables]
    have hvalue : (c.withName names n.text).Allows value.variables value.callees :=
      hallows.mono (by rw [Expression.variables]; exact List.subset_append_right ..)
        (by rw [Expression.callees]; exact List.subset_append_right ..)
    have hinside : Reads (c.withName names n.text) (descent levels) value :=
      reads_descent hready (by omega) hvalue
    have hread := expressionFrom_assigned hc hnames (hallows.known _ hn) (hallows.notFunction _ hn)
      hinside hend hahead
    rw [hread]
    simp only [Expression.latex, Term.latex, Value.latex, Atom.latex, Bool.false_eq_true,
      if_false, String.empty_append]
    congr 2
    omega

/-- Any expression that stands alone at the top. -/
theorem expressionFrom_alone {c : Compiler} (hc : c.Ready) (hscope : c.scope = [])
    {e : Expression} (hallows : (c.assigning e.assigned?).Allows e.variables e.callees)
    {levels : Nat} (hlevels : e.tokens.length ≤ levels) {i : Nat} {stop : Token}
    {rest : List Token} (hstop : stop ∈ stops) (hahead : c.Ahead i (e.tokens ++ stop :: rest)) :
    expressionFrom (descent levels) (c.seenAt i "") =
      .ok .accepted ((c.assigning e.assigned?).seenAt (i + e.tokens.length)
        (e.latex [] c.functions)) := by
  have hread := expressionFrom_as_statement hc (c.introduces_assigning hscope _) hallows hlevels
    (.inl hstop) hahead
  rwa [hscope] at hread

/-! Opening an entry, and leaving the line. -/

theorem openBlank_eq {c : Compiler} {entries : Array Entry} (h : c.document = some entries) :
    openBlank c = .ok () (c.withBlank entries) := by
  simp [openBlank, h, Compiler.withBlank]

theorem updateLastEntry_eq {c : Compiler} {entries : Array Entry} {entry : Entry}
    (hdocument : c.document = some (entries.push entry)) (htarget : c.target = .document)
    (update : Entry → Entry) :
    updateLastEntry update c =
      .ok () { c with document := some (entries.push (update entry)) } := by
  have hopen : c.lastOpen? = some entry := by
    simp [Compiler.lastOpen?, Compiler.openEntries?, htarget, hdocument]
  simp [updateLastEntry, setLastEntry, lastEntry_eq hopen, Compiler.openEntries?,
    Compiler.setOpenEntries, htarget, hdocument]

theorem stampEntry_eq {c : Compiler} (entries : Array Entry) :
    stampEntry (c.withBlank entries) = .ok () (c.withEntry entries) := by
  have hid := updateLastEntry_eq (c := { c.withBlank entries with lastId := c.lastId + 1 })
    rfl rfl (Entry.setId (c.lastId + 1))
  have hfolder := updateLastEntry_eq (c := { c with
    lastId := c.lastId + 1
    document := some (entries.push (.expression (c.lastId + 1) "" none))
    target := .document }) rfl rfl (Entry.setFolder c.folder)
  simp only [stampEntry, bind_apply, modify_apply, get_apply]
  rw [show (c.withBlank entries).lastId = c.lastId from rfl, hid]
  exact hfolder

@[simp] theorem nextLine_tokens (c : Compiler) : c.nextLine.tokens = c.tokens := by
  unfold Compiler.nextLine
  split <;> rfl

theorem advance_newline {c : Compiler} (h : c.current = some Token.newline) :
    advance c = .ok () c.nextLine := by
  have hline : Token.newline.isNewline = true := rfl
  cases hnext : Place.get? c.tokens (c.position + 1) <;>
    simp [advance, current, h, hline, moveTo, hnext, Compiler.nextLine]

theorem isOpen_withEntry {c : Compiler} {entries : Array Entry} : (c.withEntry entries).IsOpen := by
  simp [Compiler.IsOpen, Compiler.lastOpen?, Compiler.openEntries?, Compiler.withEntry]

theorem seenAt_self {c : Compiler} {i : Nat} {entries : Array Entry} (hposition : c.position = i)
    (hcurrent : c.current = c.tokens[i]?) :
    (c.withEntry entries).seenAt i "" = c.withEntry entries := by
  simp [Compiler.seenAt, Compiler.resume, Compiler.withText, Compiler.withEntry, hposition,
    hcurrent, Entry.setLatex]

theorem skipNewlines_eq {c : Compiler} {t : Token} (ht : c.current = some t)
    (hline : t.isNewline = false) : skipNewlines c = .ok () c := by
  have hsteps : c.stepsLeft = (c.tokens.size - c.position).toNat + 1 + 1 := rfl
  simp [skipNewlines, skipWhile, hsteps, loop, skipWhile.skipOne, current, ht, hline]

/-- A statement that is an expression, behind newlines that are passed over. -/
theorem statementFrom_of_expression {c c' d e : Compiler} {down : Descent} {t first : Token}
    {entries : Array Entry} (ht : c.current = some t) (hskip : skipNewlines c = .ok () c')
    (hdocument : c'.document = some entries) (hfirst : c'.current = some first)
    (hopens : Opens first)
    (hread : expressionFrom down (c'.withEntry entries) = .ok .accepted d)
    (hadvance : advance d = .ok () e) : statementFrom down true c = .ok () e := by
  have hcurrent : (c'.withEntry entries).current = some first := hfirst
  have hns : namespaceBlock down (c'.withEntry entries) = .ok false (c'.withEntry entries) := by
    simp [namespaceBlock, currentIs, current, hcurrent, hopens.notKeyword "ns" (by decide)]
  have hfn : function down (c'.withEntry entries) = .ok false (c'.withEntry entries) := by
    simp [function, currentIs, current, hcurrent, hopens.notKeyword "fn" (by decide)]
  simp [statementFrom, ht, hskip, openBlank_eq hdocument, stampEntry_eq, firstOf, hns, hfn, hread,
    hadvance]

/-- A statement that is a function, behind newlines that are passed over. -/
theorem statementFrom_of_function {c c' d e : Compiler} {down : Descent} {t : Token}
    {entries : Array Entry} (ht : c.current = some t) (hskip : skipNewlines c = .ok () c')
    (hdocument : c'.document = some entries) (hfirst : c'.current = some (.word .keyword "fn"))
    (hread : function down (c'.withEntry entries) = .ok true d)
    (hadvance : advance d = .ok () e) : statementFrom down true c = .ok () e := by
  have hcurrent : (c'.withEntry entries).current = some (.word .keyword "fn") := hfirst
  have hns : namespaceBlock down (c'.withEntry entries) = .ok false (c'.withEntry entries) := by
    simp [namespaceBlock, currentIs, current, hcurrent, Token.is]
  simp [statementFrom, ht, hskip, openBlank_eq hdocument, stampEntry_eq, firstOf, hns, hread,
    hadvance]

/-- An expression on a line of its own. -/
theorem statementFrom_alone {c : Compiler} {e : Expression} {levels : Nat} {i : Nat}
    {rest : List Token} {entries : Array Entry} (hline : c.HasLine) (hscope : c.scope = [])
    (hfunctions : c.functions = []) (hdocument : c.document = some entries)
    (hposition : c.position = i) (hcurrent : c.current = c.tokens[i]?)
    (hallows : (c.assigning e.assigned?).Allows e.variables e.callees)
    (hlevels : e.tokens.length ≤ levels)
    (hahead : c.Ahead i (e.tokens ++ Token.newline :: rest)) :
    statementFrom (descent levels) true c =
      .ok () (((c.withEntry entries).assigning e.assigned?).seenAt (i + e.tokens.length)
        (e.latex [] [])).nextLine := by
  obtain ⟨t, ts, htokens, hopens⟩ := e.tokens_cons
  have ht : c.current = some t := by
    rw [htokens] at hahead
    rw [hcurrent, hahead.head]
  have hready : (c.withEntry entries).Ready :=
    ⟨isOpen_withEntry, hline, by simp [Compiler.withEntry, hfunctions]⟩
  have hallows' : ((c.withEntry entries).assigning e.assigned?).Allows e.variables e.callees :=
    ⟨hallows.known, hallows.notFunction, hallows.callable⟩
  have hstop : Token.newline ∈ stops := by decide
  have hread := expressionFrom_alone hready hscope hallows' hlevels hstop hahead
  have hfunctions' : (c.withEntry entries).functions = [] := hfunctions
  rw [seenAt_self hposition hcurrent, hfunctions'] at hread
  have hnewline : (((c.withEntry entries).assigning e.assigned?).seenAt (i + e.tokens.length)
      (e.latex [] [])).current = some Token.newline := hahead.skip.head
  exact statementFrom_of_expression ht (skipNewlines_eq ht hopens.notNewline) hdocument ht hopens
    hread (advance_newline hnewline)

end PlotScript
