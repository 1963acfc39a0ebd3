import PlotScript.Program
import PlotScript.Proofs.Rereading
import PlotScript.Proofs.Statements

/-! Flat programs: every line is blank, a comment or one expression. Such a program compiles, and
its document has one entry for each expression, in order, with the LaTeX of the expression. -/

namespace PlotScript.Flat
open Compile Grammar PlotScript.Tree Lexer

/-- A line with at most one expression on it, whose tokens stand apart. -/
structure Line where
  text : String
  statement : Option Expression
  oneLine : '\n' ∉ text.toList
  written : Written text.toList (statement.elim [] Expression.tokens)

/-- The lines with newlines between them. -/
def source (lines : List Line) : String := "\n".intercalate (lines.map Line.text)

/-- The expressions in the order of the lines. -/
def statements (lines : List Line) : List Expression := lines.filterMap Line.statement

/-- The names that need not be assigned to. -/
def coordinates : List String := ["x", "y", "X", "Y"]

/-- Every variable was assigned to on its own line or on an earlier one, no assigned name is that
of a built-in function, and only such functions are called. -/
def Scoped : (known : List String) → List Expression → Prop
  | _, [] => True
  | known, e :: rest =>
    (∀ v ∈ e.assigned?, v ∉ builtinFunctions) ∧
    (∀ v ∈ e.variables, v ∈ e.assigned?.toList ++ known) ∧
    (∀ f ∈ e.callees, f ∈ builtinFunctions) ∧ Scoped (e.assigned?.toList ++ known) rest

/-- One entry for each expression, numbered from one and outside of all folders. -/
def entries (es : List Expression) : Array Entry :=
  (es.mapIdx fun i e => Entry.expression (i + 1) (e.latex [] []) none).toArray

/-! The tokens and the lines of a source. -/

/-- The tokens of lines, each with its newline. -/
def lineTokens (todo : List (Option Expression)) : List Token :=
  todo.flatMap fun s => s.elim [] Expression.tokens ++ [Token.newline]

theorem lineTokens_cons (s : Option Expression) (todo : List (Option Expression)) :
    lineTokens (s :: todo) = s.elim [] Expression.tokens ++ Token.newline :: lineTokens todo := by
  simp [lineTokens]

theorem length_le_lineTokens (todo : List (Option Expression)) :
    todo.length ≤ (lineTokens todo).length := by
  induction todo with
  | nil => exact Nat.zero_le _
  | cons s todo ih =>
    rw [lineTokens_cons, List.length_append, List.length_cons, List.length_cons]
    omega

theorem lineTokens_ne_nil {todo : List (Option Expression)} (h : todo ≠ []) :
    ∃ t ts, lineTokens todo = t :: ts := by
  obtain ⟨s, todo, rfl⟩ := List.exists_cons_of_ne_nil h
  exact List.exists_cons_of_ne_nil (by simp [lineTokens_cons])

theorem source_cons {line : Line} {lines : List Line} (h : lines ≠ []) :
    (source (line :: lines)).toList = line.text.toList ++ '\n' :: (source lines).toList := by
  rw [source, List.map_cons, String.intercalate_cons_of_ne_nil (by simpa using h)]
  simp [source]

theorem written_source {lines : List Line} (h : lines ≠ []) :
    ∃ ts, Written (source lines).toList ts ∧
      ts ++ [Token.newline] = lineTokens (lines.map Line.statement) := by
  induction lines with
  | nil => contradiction
  | cons line lines ih =>
    cases hlines : lines with
    | nil =>
      refine ⟨_, ?_, (List.append_nil _).symm⟩
      simpa [source] using line.written
    | cons next rest =>
      rw [← hlines]
      have hne : lines ≠ [] := by simp [hlines]
      obtain ⟨ts, hts, htokens⟩ := ih hne
      refine ⟨line.statement.elim [] Expression.tokens ++ Token.newline :: ts, ?_, ?_⟩
      · rw [source_cons hne]
        exact line.written.append (.newline hts) (by simp)
      · rw [List.map_cons, lineTokens_cons, ← htokens, List.append_assoc, List.cons_append]

theorem text_ne_nil {line : Line} {e : Expression} (h : line.statement = some e) :
    line.text.toList ≠ [] := by
  intro hnil
  have hwritten := line.written
  rw [h] at hwritten
  have hread : (read "").tokens = e.tokens := by
    have hempty : line.text = "" := String.toList_eq_nil_iff.mp hnil
    rw [← hempty, read_of_written hwritten]
    rfl
  have hpos := e.tokens_length_pos
  rw [← hread] at hpos
  contradiction

theorem length_linesFrom_pos {line cs : List Char} (h : line ≠ [] ∨ cs ≠ []) :
    0 < (Text.linesFrom line cs).length := by
  fun_induction Text.linesFrom line cs with
  | case1 line hempty => simp_all
  | case2 line hempty => simp
  | case3 line rest ih => simp
  | case4 line c rest _ hbreak ih => simp
  | case5 line c rest _ hbreak ih => exact ih (.inl (by simp))

/-- Each newline ends a line, and there may be other line breaks. -/
theorem count_lt_length_linesFrom {line cs a b : List Char} (hcs : cs = a ++ b) (hb : b ≠ []) :
    a.count '\n' < (Text.linesFrom line cs).length := by
  fun_induction Text.linesFrom line cs generalizing a with
  | case1 line hempty => exact absurd (List.append_eq_nil_iff.mp hcs.symm).2 hb
  | case2 line hempty => exact absurd (List.append_eq_nil_iff.mp hcs.symm).2 hb
  | case3 line rest ih =>
    rcases a with _ | ⟨c, _ | ⟨d, a⟩⟩
    · simp
    · cases hcs
      simp
    · obtain ⟨rfl, hbehind⟩ := List.cons.inj hcs
      obtain ⟨rfl, hrest⟩ := List.cons.inj hbehind
      have hcount : ('\r' :: '\n' :: a).count '\n' = a.count '\n' + 1 := by simp
      rw [hcount]
      exact Nat.succ_lt_succ (ih hrest)
  | case4 line c rest _ hbreak ih =>
    cases a with
    | nil => simp
    | cons d a =>
      obtain ⟨-, hrest⟩ := List.cons.inj hcs
      have hlater := ih hrest
      have hcount : (d :: a).count '\n' ≤ a.count '\n' + 1 := by
        rw [List.count_cons]
        split <;> omega
      simp only [List.length_cons]
      omega
  | case5 line c rest _ hbreak ih =>
    cases a with
    | nil => exact length_linesFrom_pos (.inl (by simp))
    | cons d a =>
      obtain ⟨rfl, hrest⟩ := List.cons.inj hcs
      have hne : c ≠ '\n' := by
        rintro rfl
        exact hbreak (by decide)
      rw [List.count_cons_of_ne hne]
      exact ih hrest

theorem lt_length_splitLines {lines : List Line} {k : Nat} {line : Line}
    (hk : lines[k]? = some line) (htext : line.text.toList ≠ []) :
    k < (Text.splitLines (source lines)).length := by
  have hsplit : ∃ a b, (source lines).toList = a ++ b ∧ b ≠ [] ∧ a.count '\n' = k := by
    induction lines generalizing k with
    | nil => simp at hk
    | cons first lines ih =>
      cases k with
      | zero =>
        cases hk
        refine ⟨[], (source (line :: lines)).toList, rfl, ?_, rfl⟩
        cases hlines : lines with
        | nil => simpa [source] using htext
        | cons next rest => simp [source_cons]
      | succ k =>
        have hlater : lines[k]? = some line := by simpa using hk
        have hne : lines ≠ [] := by
          rintro rfl
          simp at hlater
        obtain ⟨a, b, hsource, hb, hcount⟩ := ih hlater
        refine ⟨first.text.toList ++ '\n' :: a, b, ?_, hb, ?_⟩
        · simp [source_cons hne, hsource]
        · rw [List.count_append, List.count_cons_self, hcount,
            List.count_eq_zero.mpr first.oneLine, Nat.zero_add]
  obtain ⟨a, b, hsource, hb, rfl⟩ := hsplit
  exact count_lt_length_linesFrom hsource hb

/-! The run. -/

/-- Between two lines: what is still to be read, the names that are bound and the expressions
that were written. -/
structure AtLine (levels : Nat) (c : Compiler) (i : Nat) (todo : List (Option Expression))
    (known : List String) (done : List Expression) : Prop where
  enough : c.tokens.size ≤ levels
  wellScoped : Scoped known (todo.filterMap id)
  ahead : c.Ahead i (lineTokens todo)
  current : c.current = c.tokens[i]?
  position : todo ≠ [] → c.position = i
  shown : ∀ (k : Nat) e, todo[k]? = some (some e) →
    (Place.get? c.lines.toArray (c.line - 1 + k)).isSome = true
  scope : c.scope = []
  functions : c.functions = []
  folder : c.folder = none
  known : ∀ v ∈ known, c.names.has v = true ∧ v ∉ builtinFunctions
  lastId : c.lastId = done.length
  document : c.document = some (entries done)

theorem entries_concat (done : List Expression) (e : Expression) :
    entries (done ++ [e]) =
      (entries done).push (.expression (done.length + 1) (e.latex [] []) none) := by
  simp [entries, List.mapIdx_concat]

section step
variable {levels : Nat} {c : Compiler} {i : Nat} {todo : List (Option Expression)}
  {known : List String} {done : List Expression}

theorem AtLine.current_newline (h : AtLine levels c i (none :: todo) known done) :
    c.current = some Token.newline := by
  rw [h.current]
  exact Compiler.Ahead.head (by simpa [lineTokens_cons] using h.ahead)

theorem AtLine.nextLine (h : AtLine levels c i (none :: todo) known done) :
    AtLine levels c.nextLine (i + 1) todo known done := by
  have hposition : c.position = i := h.position (by simp)
  have hahead : c.Ahead (i + 1) (lineTokens todo) :=
    Compiler.Ahead.tail (by simpa [lineTokens_cons] using h.ahead)
  have hget : Place.get? c.tokens (c.position + 1) = c.tokens[i + 1]? := by
    rw [hposition, get?_succ]
  have hshown : ∀ (k : Nat) e, todo[k]? = some (some e) →
      (Place.get? c.lines.toArray (c.line + 1 - 1 + k)).isSome = true := by
    intro k e hk
    have hshown := h.shown (k + 1) e (by simpa using hk)
    rwa [show c.line + 1 - 1 + (k : Int) = c.line - 1 + (k + 1 : Nat) by omega]
  unfold Compiler.nextLine
  cases hnext : c.tokens[i + 1]? with
  | some t =>
    rw [hget, hnext]
    exact ⟨h.enough, h.wellScoped, hahead, hnext.symm, fun _ => by rw [hposition]; rfl, hshown,
      h.scope, h.functions, h.folder, h.known, h.lastId, h.document⟩
  | none =>
    -- the position stays where it is only behind the last line
    rw [hget, hnext]
    refine ⟨h.enough, h.wellScoped, hahead, hnext.symm, fun htodo => ?_, hshown, h.scope,
      h.functions, h.folder, h.known, h.lastId, h.document⟩
    obtain ⟨t, ts, htokens⟩ := lineTokens_ne_nil htodo
    rw [htokens] at hahead
    simp [hahead.head] at hnext

/-- Behind an expression the line goes on as a blank one. -/
theorem AtLine.written {e : Expression} (h : AtLine levels c i (some e :: todo) known done) :
    AtLine levels (((c.withEntry (entries done)).assigning e.assigned?).seenAt (i + e.tokens.length)
      (e.latex [] [])) (i + e.tokens.length) (none :: todo) (e.assigned?.toList ++ known)
      (done ++ [e]) := by
  obtain ⟨hassigned, -, -, hlater⟩ := h.wellScoped
  have hahead : c.Ahead (i + e.tokens.length) (lineTokens (none :: todo)) := by
    have hahead := h.ahead
    rw [lineTokens_cons] at hahead
    rw [lineTokens_cons]
    exact hahead.skip
  have hshown : ∀ (k : Nat) e', (none :: todo)[k]? = some (some e') →
      (Place.get? c.lines.toArray (c.line - 1 + k)).isSome = true := by
    intro k e' hk
    cases k with
    | zero => simp at hk
    | succ k => exact h.shown (k + 1) e' (by simpa using hk)
  refine ⟨h.enough, hlater, hahead, rfl, fun _ => rfl, hshown, h.scope, h.functions, h.folder,
    fun v hv => ?_, ?_, ?_⟩
  · rcases List.mem_append.mp hv with hname | hv
    · have hname : v ∈ e.assigned? := by simpa using hname
      exact ⟨has_assigning (.inl hname), hassigned v hname⟩
    · exact ⟨has_assigning (.inr (h.known v hv).1), (h.known v hv).2⟩
  · rw [List.length_append, ← h.lastId]
    rfl
  · simp [Compiler.assigning, Compiler.seenAt, Compiler.resume, Compiler.withText,
      Compiler.withEntry, entries_concat, h.lastId, h.folder, Entry.setLatex]

theorem statementFrom_line {e : Expression} (h : AtLine levels c i (some e :: todo) known done) :
    ∃ c' i', statementFrom (descent levels) true c = .ok () c' ∧
      AtLine levels c' i' todo (e.assigned?.toList ++ known) (done ++ [e]) := by
  obtain ⟨hassigned, hvariables, hcallees, -⟩ := h.wellScoped
  have hline : c.HasLine := by
    have hshown := h.shown 0 e rfl
    rwa [Int.natCast_zero, Int.add_zero] at hshown
  have hallows : (c.assigning e.assigned?).Allows e.variables e.callees := by
    refine ⟨fun v hv => ?_, fun v hv => ?_, fun f hf => .inr (hcallees f hf)⟩
    · rcases List.mem_append.mp (hvariables v hv) with hname | hknown
      · exact .inl (has_assigning (.inl (by simpa using hname)))
      · exact .inl (has_assigning (.inr (h.known v hknown).1))
    · rcases List.mem_append.mp (hvariables v hv) with hname | hknown
      · exact ⟨by simp [Compiler.assigning, h.functions], hassigned v (by simpa using hname)⟩
      · exact ⟨by simp [Compiler.assigning, h.functions], (h.known v hknown).2⟩
  have hahead : c.Ahead i (e.tokens ++ Token.newline :: lineTokens todo) := by
    simpa [lineTokens_cons] using h.ahead
  have hlevels : e.tokens.length ≤ levels := by
    have hlength := congrArg List.length hahead
    have hsize := h.enough
    simp only [List.length_drop, Array.length_toList, List.length_append] at hlength
    omega
  exact ⟨_, _, statementFrom_alone hline h.scope h.functions h.document (h.position (by simp))
    h.current hallows hlevels hahead, h.written.nextLine⟩

theorem skipNewlines_newline (h : c.current = some Token.newline) :
    skipNewlines c = loop (skipWhile.skipOne Token.isNewline) (c.stepsLeft - 1) c.nextLine := by
  have hsteps : c.stepsLeft = c.stepsLeft - 1 + 1 := rfl
  have hline : Token.newline.isNewline = true := rfl
  have hone : skipWhile.skipOne Token.isNewline c = .ok false c.nextLine := by
    simp [skipWhile.skipOne, current, h, hline, advance_newline h]
  rw [skipNewlines, skipWhile, bind_apply, get_apply]
  simp only
  rw [hsteps, loop, bind_apply, hone]
  simp only [Bool.false_eq_true, if_false, Nat.add_sub_cancel]

/-- Newlines in front of a statement are passed over, -/
theorem statementFrom_blank {down : Descent} (h : AtLine levels c i (none :: todo) known done)
    (htodo : todo ≠ []) :
    statementFrom down true c = statementFrom down true c.nextLine := by
  obtain ⟨t, ts, htokens⟩ := lineTokens_ne_nil htodo
  have hahead := h.nextLine.ahead
  rw [htokens] at hahead
  have ht : c.nextLine.current = some t := h.nextLine.current.trans hahead.head
  have hskip : skipNewlines c = skipNewlines c.nextLine := by
    have hsteps : c.nextLine.stepsLeft = c.stepsLeft - 1 := by
      have hsize := hahead.lt_size
      rw [nextLine_tokens] at hsize
      unfold Compiler.stepsLeft
      rw [nextLine_tokens, h.nextLine.position htodo, h.position (by simp)]
      omega
    rw [skipNewlines_newline h.current_newline, ← hsteps]
    rfl
  simp [statementFrom, h.current_newline, ht, hskip]

/-- and where nothing else follows the tokens end. -/
theorem statementFrom_end {down : Descent} (h : AtLine levels c i [none] known done) :
    statementFrom down true c = .error .noToken c.nextLine := by
  have hend : c.nextLine.current = none := h.nextLine.current.trans h.nextLine.ahead.eq_none
  have hsteps : c.stepsLeft - 1 = (c.tokens.size - c.position).toNat + 1 := rfl
  simp [statementFrom, h.current_newline, skipNewlines_newline h.current_newline, hsteps, loop,
    skipWhile.skipOne, current, hend]

/-- Up to the end of the next statement, or to the end of the tokens. -/
theorem endingQuietly_statement (h : AtLine levels c i todo known done) (htodo : todo ≠ []) :
    ∃ c' i' todo' known' done',
      endingQuietly (statementFrom (descent levels) true) c = .ok () c' ∧
      AtLine levels c' i' todo' known' done' ∧ todo'.length < todo.length ∧
      done' ++ todo'.filterMap id = done ++ todo.filterMap id := by
  induction todo generalizing c i with
  | nil => contradiction
  | cons s todo ih =>
    cases s with
    | some e =>
      obtain ⟨c', i', hrun, hline⟩ := statementFrom_line h
      refine ⟨c', i', todo, _, _, ?_, hline, by simp, by simp⟩
      simp [endingQuietly, hrun]
    | none =>
      by_cases hlast : todo = []
      · subst hlast
        refine ⟨c.nextLine, i + 1, [], known, done, ?_, h.nextLine, by simp, by simp⟩
        simp [endingQuietly, statementFrom_end h, Fault.isMismatch]
      · obtain ⟨c', i', todo', known', done', hrun, hline, hfewer, hsame⟩ := ih h.nextLine hlast
        refine ⟨c', i', todo', known', done', ?_, hline, by simp; omega, by simpa using hsame⟩
        rw [← hrun]
        simp [endingQuietly, statementFrom_blank h hlast]

theorem programStatement_line (h : AtLine levels c i todo known done) (htodo : todo ≠ []) :
    ∃ c' i' todo' known' done', programStatement (descent (levels + 1)) c = .ok false c' ∧
      AtLine levels c' i' todo' known' done' ∧ todo'.length < todo.length ∧
      done' ++ todo'.filterMap id = done ++ todo.filterMap id := by
  have hdown : (descent (levels + 1)).statement true = statementFrom (descent levels) true := rfl
  obtain ⟨s, todo, rfl⟩ := List.exists_cons_of_ne_nil htodo
  cases s with
  | some e =>
    obtain ⟨c', i', hrun, hline⟩ := statementFrom_line h
    obtain ⟨t, ts, htokens, hopens⟩ := e.tokens_cons
    have ht : c.current = some t := by
      have hahead := h.ahead
      rw [lineTokens_cons, Option.elim_some, htokens] at hahead
      exact h.current.trans hahead.head
    refine ⟨c', i', todo, _, _, ?_, hline, by simp, by simp⟩
    simp [programStatement, ht, hopens.notNewline, hdown, hrun]
  | none =>
    obtain ⟨c', i', todo', known', done', hrun, hlater⟩ := endingQuietly_statement h htodo
    refine ⟨c', i', todo', known', done', ?_, hlater⟩
    have hline : Token.newline.isNewline = true := rfl
    simp [programStatement, h.current_newline, hline, hdown, hrun]

theorem loop_programStatement {rounds : Nat} (h : AtLine levels c i todo known done)
    (hrounds : todo.length < rounds) :
    ∃ c', loop (programStatement (descent (levels + 1))) rounds c = .ok () c' ∧
      c'.document = some (entries (done ++ todo.filterMap id)) := by
  induction rounds generalizing c i todo known done with
  | zero => contradiction
  | succ rounds ih =>
    by_cases htodo : todo = []
    · subst htodo
      have hend : c.current = none := h.current.trans h.ahead.eq_none
      refine ⟨c, ?_, by simpa using h.document⟩
      simp [loop, programStatement, hend]
    · obtain ⟨c', i', todo', known', done', hrun, hline, hfewer, hsame⟩ :=
        programStatement_line h htodo
      obtain ⟨c'', hloop, hdocument⟩ := ih hline (by omega)
      refine ⟨c'', ?_, by rw [hdocument, hsame]⟩
      simp [loop, hrun, hloop]

end step

/-- Once the statements are read, the document is copied as it is. -/
theorem run_of_loop {c c' : Compiler} {es : Array Entry} {levels : Nat}
    (htokens : c.tokens ≠ #[]) (hbudget : c.budget = levels)
    (hloop : loop (programStatement (descent levels)) levels
      { c with line := c.line + 1 }.withFreshDocument = .ok () c')
    (hdocument : c'.document = some es) :
    ∃ c'', run c = .ok (some (renderDocument es)) c'' ∧ c''.document = some es := by
  have hrounds : (descent levels).rounds = levels := rfl
  have hprogram : program (descent levels) { c with line := c.line + 1 } = .ok () c' := by
    simp [program, hrounds, hloop]
  have hrun : run c = .ok (some (renderDocument es)) { c' with
      printed := (c'.printed.push ("Copied:  " ++ renderDocument es)).push
        (macroListing c'.macros) } := by
    simp [run, htokens, hbudget, hprogram, hdocument, print]
  exact ⟨_, hrun, hdocument⟩

/-- A source without tokens has no expressions. -/
theorem statements_eq_nil {lines : List Line}
    (h : [Token.newline] = lineTokens (lines.map Line.statement)) : statements lines = [] := by
  rw [statements, List.filterMap_eq_nil_iff]
  intro line hline
  cases hstatement : line.statement with
  | none => rfl
  | some e =>
    have hmem : ∀ t ∈ e.tokens ++ [Token.newline], t ∈ lineTokens (lines.map Line.statement) :=
      fun t ht => List.mem_flatMap.mpr ⟨some e, by simpa using ⟨line, hline, hstatement⟩, ht⟩
    obtain ⟨t, ts, htokens, hopens⟩ := e.tokens_cons
    have ht := hmem t (by simp [htokens])
    rw [← h, List.mem_singleton] at ht
    rw [ht] at hopens
    exact absurd hopens.notNewline (by decide)

theorem has_coordinates : ∀ v ∈ coordinates,
    Table.initial.has v = true ∧ v ∉ builtinFunctions := by
  decide

/-- The compiler for a source, with the tokens that were read from it. -/
def compiler (files : Files) (code : String) (ts : List Token) : Compiler :=
  { code, lines := Text.splitLines code, tokens := (ts ++ [Token.newline]).toArray
    current := ts.head?, files }

theorem ofCode_eq {files : Files} {code : String} {ts : List Token}
    (h : Written code.toList ts) : Compiler.ofCode files code = .ok (compiler files code ts) := by
  simp [Compiler.ofCode, read_of_written h, compiler]

theorem atLine_start (files : Files) {lines : List Line} {t : Token} {ts : List Token}
    {levels : Nat} (htokens : t :: ts ++ [Token.newline] = lineTokens (lines.map Line.statement))
    (hscoped : Scoped coordinates (statements lines)) (hlevels : ts.length + 2 ≤ levels) :
    AtLine levels { compiler files (source lines) (t :: ts) with line := 1 }.withFreshDocument 0
      (lines.map Line.statement) coordinates [] where
  enough := by
    simp only [compiler, Compiler.withFreshDocument, List.size_toArray, List.length_append,
      List.length_cons, List.length_nil]
    omega
  wellScoped := by simpa [statements, List.filterMap_map] using hscoped
  ahead := by simpa [Compiler.Ahead, compiler, Compiler.withFreshDocument] using htokens
  current := rfl
  position _ := rfl
  shown k e hk := by
    obtain ⟨line, hline, hstatement⟩ : ∃ line, lines[k]? = some line ∧ line.statement = some e := by
      simpa using hk
    have hlength := lt_length_splitLines hline (text_ne_nil hstatement)
    simp [compiler, Compiler.withFreshDocument, hlength]
  scope := rfl
  functions := rfl
  folder := rfl
  known := has_coordinates
  lastId := rfl
  document := rfl

theorem budget_eq_succ (c : Compiler) :
    ∃ levels, c.budget = levels + 1 ∧ c.tokens.size ≤ levels := by
  refine ⟨c.budget - 1, ?_, ?_⟩
  · unfold Compiler.budget
    omega
  · unfold Compiler.budget
    omega

/-- Without tokens there is nothing to do. -/
theorem run_of_no_tokens (files : Files) (code : String) :
    ∃ c', run (compiler files code []) = .ok (some (renderDocument (entries []))) c' ∧
      c'.document = some (entries []) := by
  obtain ⟨levels, hlevels, -⟩ := budget_eq_succ (compiler files code [])
  have hloop : loop (programStatement (descent (levels + 1))) (levels + 1)
      { compiler files code [] with line := 1 }.withFreshDocument =
      .ok () { compiler files code [] with line := 1 }.withFreshDocument := by
    simp [loop, programStatement, compiler, Compiler.withFreshDocument]
  exact run_of_loop (by simp [compiler]) hlevels hloop rfl

theorem run_of_tokens (files : Files) {lines : List Line} {t : Token} {ts : List Token}
    (htokens : t :: ts ++ [Token.newline] = lineTokens (lines.map Line.statement))
    (hscoped : Scoped coordinates (statements lines)) :
    ∃ c', run (compiler files (source lines) (t :: ts)) =
        .ok (some (renderDocument (entries (statements lines)))) c' ∧
      c'.document = some (entries (statements lines)) := by
  obtain ⟨levels, hlevels, hsize⟩ := budget_eq_succ (compiler files (source lines) (t :: ts))
  have hrounds : (lines.map Line.statement).length ≤ levels := by
    refine Nat.le_trans (length_le_lineTokens _) (Nat.le_trans ?_ hsize)
    simp [compiler, ← htokens]
  have henough : ts.length + 2 ≤ levels := by
    simp only [compiler, List.size_toArray, List.length_append, List.length_cons,
      List.length_nil] at hsize
    omega
  obtain ⟨c', hloop, hdocument⟩ := loop_programStatement
    (atLine_start files htokens hscoped henough) (Nat.lt_succ_of_le hrounds)
  refine run_of_loop (by simp [compiler]) hlevels hloop ?_
  simpa [statements, List.filterMap_map] using hdocument

/-- A flat program compiles to one entry for each of its expressions. -/
theorem run_source (files : Files) (lines : List Line)
    (hscoped : Scoped coordinates (statements lines)) :
    ∃ c c', Compiler.ofCode files (source lines) = .ok c ∧
      run c = .ok (some (renderDocument (entries (statements lines)))) c' ∧
      c'.document = some (entries (statements lines)) := by
  cases lines with
  | nil =>
    obtain ⟨c', hrun⟩ := run_of_no_tokens files ""
    exact ⟨_, c', ofCode_eq .done, hrun⟩
  | cons line lines =>
    obtain ⟨ts, hwritten, htokens⟩ := written_source (List.cons_ne_nil line lines)
    cases ts with
    | nil =>
      obtain ⟨c', hrun⟩ := run_of_no_tokens files (source (line :: lines))
      rw [statements_eq_nil htokens]
      exact ⟨_, c', ofCode_eq hwritten, hrun⟩
    | cons t ts =>
      obtain ⟨c', hrun⟩ := run_of_tokens files htokens hscoped
      exact ⟨_, c', ofCode_eq hwritten, hrun⟩

/-- A comment, an assignment of a point, a blank line and a call. -/
def sample : List Line :=
  let p : Term := .value ⟨false, .name ⟨"p", by decide, by decide⟩⟩
  let x : Expression := .term (.value ⟨false, .name ⟨"x", by decide, by decide⟩⟩)
  let numeral (value : Nat) : Term := .value ⟨false, .numeral value⟩
  let point := Expression.operation p .equals (.term (.point (.term (numeral 1)) x))
  let picked : Term := .access ⟨true, .name ⟨"p", by decide, by decide⟩⟩ [.term (numeral 2)]
  let polygon := Expression.operation
    (.call ⟨"polygon", by decide, by decide⟩ (.term p) [.term picked]) .arrow
    (.term (.bracketed (.operation (numeral 3) .power x)))
  [⟨"# a point", none, by decide,
      @Written.comment " a point".toList [] [] (by decide) (by simp) .done⟩,
    ⟨"p = ( 1 , x )", some point, by decide,
      written_of_read (by decide +kernel) (by decide +kernel) (by decide +kernel)⟩,
    ⟨" \t", none, by decide, .blank (by decide) (.blank (by decide) .done)⟩,
    ⟨"polygon ( p , - p [ 2 ] ) -> ( 3 ^ x )", some polygon, by decide,
      written_of_read (by decide +kernel) (by decide +kernel) (by decide +kernel)⟩]

theorem run_sample : Scoped coordinates (statements sample) ∧
    entries (statements sample) = #[.expression 1 "p=\\left(1,x\\right)" none,
      .expression 2 ("\\operatorname\x7bpolygon\x7d\\left(p,-p\\left[2\\right]\\right)" ++
        "\\to \\left(3^x\\right)") none] ∧
    ∃ c c', Compiler.ofCode [] (source sample) = .ok c ∧
      run c = .ok (some (renderDocument (entries (statements sample)))) c' ∧
      c'.document = some (entries (statements sample)) := by
  have hscoped : Scoped coordinates (statements sample) := by
    simp only [sample, statements, List.filterMap, Scoped]
    decide
  exact ⟨hscoped, by decide, run_source [] sample hscoped⟩

end PlotScript.Flat
