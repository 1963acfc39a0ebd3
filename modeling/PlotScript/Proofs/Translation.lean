import PlotScript.Grammar.Statement
import PlotScript.Proofs.Terms

/-! Reading the tokens of an expression writes its LaTeX. An opening bracket is tried as a point
first; where there is no comma behind the first coordinate, that attempt leaves nothing behind. -/

namespace PlotScript
open Compile Grammar PlotScript.Tree

namespace Compiler

/-- The state that has gone back to before an index; the token that was reached stays current. -/
def wentBack (c : Compiler) (i : Nat) (t : Token) (text : String) : Compiler :=
  c.resume ⟨(i : Int) - 1, some t, c.line, c.names, c.objectName, c.printed, text⟩

end Compiler

section run
variable {c : Compiler} {down : Descent} {i : Nat} {text : String} {rest : List Token}

theorem rewind_seenAt (hc : c.IsOpen) {j : Nat} {t : Token} (ht : c.tokens[j]? = some t)
    (text' : String) : rewind i text (c.seenAt j text') = .ok () (c.wentBack i t text) := by
  rw [Compiler.seenAt, ht, rewind_resume hc]
  rfl

theorem advance_wentBack {t u : Token} (hline : t.isNewline = false)
    (hu : c.tokens[i]? = some u) :
    advance (c.wentBack i t text) = .ok () (c.seenAt i text) := by
  rw [Compiler.wentBack, advance_resume rfl]
  rw [Int.sub_add_cancel]
  simp [Progress.movedTo, Progress.leaving, hline, Place.get?_natCast, hu, Compiler.seenAt]

theorem pointFirst_seenAt_other (hc : c.IsOpen) {t : Token} (ht : c.tokens[i]? = some t)
    (hopening : t.is "(" = false) :
    pointFirst down (c.seenAt i text) = .ok false (c.wentBack i t text) := by
  simp [pointFirst, latex_seenAt hc, point, currentIs_seenAt ht, hopening, rewind_seenAt hc ht]

theorem point_seenAt_bracketed (hc : c.Ready) {inner : Expression} (hinner : Reads c down inner)
    (hahead : c.Ahead i (mark "(" :: (inner.tokens ++ mark ")" :: rest))) (text : String) :
    ∃ d, point down (c.seenAt i text) =
      .error (.diagnostic d) (c.seenAt (i + 1 + inner.tokens.length)
        (text ++ "\\left(" ++ inner.latex c.scope c.functions)) := by
  -- behind the first coordinate stands the closing bracket where a point has a comma
  have hread := hinner hahead.tail (.inl (by decide)) (append_ne_empty (a := text) (b := "\\left(")
    (by decide))
  obtain ⟨d, hfail⟩ := fail_seenAt (α := PUnit) hc.hasLine (i + 1 + inner.tokens.length)
    (text ++ "\\left(" ++ inner.latex c.scope c.functions) "Expected ',' in point"
  refine ⟨d, ?_⟩
  simp [point, currentIs_seenAt hahead.head, advance_into (by decide) hahead,
    emit_seenAt hc.isOpen, Descent.acceptsExpression, hread,
    currentIs_seenAt hahead.tail.skip.head, hfail]

theorem pointFirst_seenAt_bracketed (hc : c.Ready) {inner : Expression}
    (hinner : Reads c down inner)
    (hahead : c.Ahead i (mark "(" :: (inner.tokens ++ mark ")" :: rest))) :
    pointFirst down (c.seenAt i text) = .ok false (c.wentBack i (mark ")") text) := by
  obtain ⟨d, hpoint⟩ := point_seenAt_bracketed hc hinner hahead text
  simp [pointFirst, latex_seenAt hc.isOpen, hpoint,
    rewind_seenAt hc.isOpen hahead.tail.skip.head]

theorem bracketed_seenAt (hc : c.IsOpen) {inner : Expression} (hinner : Reads c down inner)
    {u : Token} (hahead : c.Ahead i (mark "(" :: (inner.tokens ++ mark ")" :: u :: rest)))
    (text : String) :
    bracketed down (c.seenAt i text) =
      .ok () (c.seenAt (i + (Term.bracketed inner).tokens.length)
        (text ++ (Term.bracketed inner).latex c.scope c.functions)) := by
  have hread := hinner hahead.tail (.inl (by decide)) (append_ne_empty (a := text) (b := "\\left(")
    (by decide))
  have hclosing := advance_seenAt hahead.tail.skip.head (by decide) hahead.tail.skip.tail.head
  have hlength : i + (Term.bracketed inner).tokens.length = i + 1 + inner.tokens.length + 1 := by
    simp only [Term.tokens, List.length_cons, List.length_append, List.length_nil]
    omega
  rw [hlength, Term.latex, ← String.append_assoc, ← String.append_assoc]
  simp [bracketed, emit_seenAt hc, advance_into (by decide) hahead, Descent.tryExpression, hread,
    currentIs_seenAt hahead.tail.skip.head, hclosing]

theorem point_seenAt (hc : c.IsOpen) {x y : Expression} (hx : Reads c down x)
    (hy : Reads c down y) {u : Token}
    (hahead : c.Ahead i
      (mark "(" :: (x.tokens ++ mark "," :: (y.tokens ++ mark ")" :: u :: rest))))
    (text : String) :
    point down (c.seenAt i text) =
      .ok true (c.seenAt (i + (Term.point x y).tokens.length)
        (text ++ (Term.point x y).latex c.scope c.functions)) := by
  have hcomma := hahead.tail.skip
  have hreadx := hx hahead.tail (.inl (by decide)) (append_ne_empty (a := text) (b := "\\left(")
    (by decide))
  have hready := hy hcomma.tail (.inl (by decide))
    (append_ne_empty (a := text ++ "\\left(" ++ x.latex c.scope c.functions) (b := ",")
      (by decide))
  have hclosing := advance_seenAt hcomma.tail.skip.head (by decide) hcomma.tail.skip.tail.head
  have hlength : i + (Term.point x y).tokens.length =
      i + 1 + x.tokens.length + 1 + y.tokens.length + 1 := by
    simp only [Term.tokens, List.length_cons, List.length_append, List.length_nil]
    omega
  rw [hlength, Term.latex, ← String.append_assoc, ← String.append_assoc, ← String.append_assoc,
    ← String.append_assoc]
  simp [point, currentIs_seenAt hahead.head, advance_into (by decide) hahead, emit_seenAt hc,
    Descent.acceptsExpression, hreadx, currentIs_seenAt hcomma.head,
    advance_into (by decide) hcomma, hready, currentIs_seenAt hcomma.tail.skip.head, hclosing]

theorem atEnd_seenAt {stop : Token} (hstop : stop ∈ stops) (ht : c.tokens[i]? = some stop) :
    atEnd [",", "]", ")"] (c.seenAt i text) = .ok true (c.seenAt i text) := by
  have hends : ∀ t ∈ stops, (t.isNewline || t.isOneOf [",", "]", ")"]) = true := by
    decide
  simp only [atEnd, bind_apply, get_apply, Compiler.seenAt_current, ht, pure_apply,
    hends stop hstop]

/-- Where no point was read, a closing brace ends an expression as well. -/
theorem atEnd_seenAt_brace {stop : Token} (hstop : stop ∈ mark "\x7d" :: stops)
    (ht : c.tokens[i]? = some stop) :
    atEnd [",", "]", ")", "\x7d"] (c.seenAt i text) = .ok true (c.seenAt i text) := by
  have hends : ∀ t ∈ mark "\x7d" :: stops,
      (t.isNewline || t.isOneOf [",", "]", ")", "\x7d"]) = true := by
    decide
  simp only [atEnd, bind_apply, get_apply, Compiler.seenAt_current, ht, pure_apply,
    hends stop hstop]

/-- An expression that does not begin with a point. -/
theorem expressionFrom_of_operand {c' : Compiler} {t first : Token} {k j : Nat}
    {text₁ text₂ : String} (hpoint : pointFirst down (c.seenAt i text) =
      .ok false (c.wentBack i t text)) (hline : t.isNewline = false)
    (hfirst : c.tokens[i]? = some first)
    (hoperand : operand down (c.seenAt i text) = .ok true (c'.seenAt k text₁))
    (hoperation : operation down (c'.seenAt k text₁) = .ok () (c'.seenAt j text₂))
    {stop : Token} (hstop : stop ∈ mark "\x7d" :: stops) (hj : c'.tokens[j]? = some stop) :
    expressionFrom down (c.seenAt i text) = .ok .accepted (c'.seenAt j text₂) := by
  simp [expressionFrom, hpoint, advance_wentBack hline hfirst, hoperand, hoperation,
    atEnd_seenAt_brace hstop hj]

/-- A term, and then what is behind it. -/
theorem expressionFrom_term (hc : c.Ready) {t : Term} (hallows : c.Allows t.variables t.callees)
    (hparts : ∀ e ∈ t.parts, Reads c down e) (hrounds : t.parts.length < down.rounds) {u : Token}
    (hu : Bounds u) (hahead : c.Ahead i (t.tokens ++ u :: rest)) (text : String)
    (hassign : ∀ n, t = .value ⟨false, .name n⟩ → text ≠ "" ∨ u.is "=" = false)
    {j : Nat} {added : String} (hoperation : ∀ text,
      operation down (c.seenAt (i + t.tokens.length) text) = .ok () (c.seenAt j (text ++ added)))
    {stop : Token} (hstop : (Expression.term t).MayEnd stop) (hj : c.tokens[j]? = some stop) :
    expressionFrom down (c.seenAt i text) =
      .ok .accepted (c.seenAt j (text ++ t.latex c.scope c.functions ++ added)) := by
  obtain ⟨first, ts, htokens, hopens, hfirst⟩ := t.tokens_cons
  have hhead : c.tokens[i]? = some first := by
    rw [htokens] at hahead
    exact hahead.head
  cases hround : t.isRound with
  | false =>
    rw [hround] at hfirst
    have hoperand : operand down (c.seenAt i text) =
        .ok true (c.seenAt (i + t.tokens.length) (text ++ t.latex c.scope c.functions)) := by
      simp [operand, currentIs_seenAt hhead, hfirst,
        term_seenAt hc hround hallows hparts hrounds hu hahead hassign]
    exact expressionFrom_of_operand (pointFirst_seenAt_other hc.isOpen hhead hfirst)
      hopens.notNewline hhead hoperand (hoperation _) hstop.mem hj
  | true =>
    cases t with
    | value v => contradiction
    | access v items => contradiction
    | list items => contradiction
    | call function first others => contradiction
    | bracketed inner =>
      simp only [Term.tokens, List.append_assoc, List.cons_append, List.nil_append] at hahead
      have hinner := hparts inner (by simp [Term.parts])
      have hbracketed := bracketed_seenAt hc.isOpen hinner hahead
      refine expressionFrom_of_operand (pointFirst_seenAt_bracketed hc hinner hahead) (by decide)
        hhead ?_ (hoperation _) hstop.mem hj
      simp [operand, currentIs_seenAt hhead, hfirst, hround, hbracketed]
    | point x y =>
      simp only [Term.tokens, List.append_assoc, List.cons_append, List.nil_append] at hahead
      have hpoint := point_seenAt hc.isOpen (hparts x (by simp [Term.parts]))
        (hparts y (by simp [Term.parts])) hahead
      have hother : stop ∈ stops := hstop.resolve_right fun h => Bool.false_ne_true h.2
      simp [expressionFrom, pointFirst, latex_seenAt hc.isOpen, hpoint, hoperation,
        atEnd_seenAt hother hj]

theorem stops_not_equals : ∀ t ∈ stops, t.is "=" = false := by
  decide

theorem Tree.Operator.token_is_equals {op : Operator} (h : op.token.is "=" = true) :
    op = .equals := by
  revert h
  cases op <;> decide

/-- An expression that is no assignment, if shorter expressions are read one level down. -/
theorem expressionFrom_seenAt (hc : c.Ready) {e : Expression}
    (hallows : c.Allows e.variables e.callees)
    (hparts : ∀ e', e'.tokens.length < e.tokens.length → c.Allows e'.variables e'.callees →
      Reads c down e')
    (hrounds : e.tokens.length ≤ down.rounds) {stop : Token} (hstop : e.MayEnd stop)
    (hahead : c.Ahead i (e.tokens ++ stop :: rest)) (htext : text ≠ "" ∨ e.assigned? = none) :
    expressionFrom down (c.seenAt i text) =
      .ok .accepted (c.seenAt (i + e.tokens.length) (text ++ e.latex c.scope c.functions)) := by
  cases e with
  | term t =>
    rw [Expression.tokens] at hahead hrounds hparts ⊢
    rw [Expression.variables, Expression.callees] at hallows
    have hinside : ∀ e ∈ t.parts, Reads c down e := fun e he =>
      hparts e (Term.tokens_length_lt he)
        (hallows.mono (Term.variables_subset he).1 (Term.variables_subset he).2)
    have hend : ∀ text, operation down (c.seenAt (i + t.tokens.length) text) =
        .ok () (c.seenAt (i + t.tokens.length) (text ++ "")) := fun text => by
      rw [operation_seenAt_stop hstop.not_operator hahead.skip, String.append_empty]
    have hequals : ∀ t ∈ mark "\x7d" :: stops, t.is "=" = false := by decide
    have hread := expressionFrom_term hc hallows hinside
      (Nat.lt_of_lt_of_le t.parts_length_lt hrounds) hstop.bounds hahead text
      (fun _ _ => .inr (hequals stop hstop.mem)) hend hstop hahead.skip.head
    rw [hread, String.append_empty, Expression.latex]
  | operation t op e =>
    rw [Expression.tokens] at hrounds hparts ⊢
    rw [Expression.tokens, List.append_assoc, List.cons_append] at hahead
    rw [Expression.variables, Expression.callees] at hallows
    have hlength : t.tokens.length + 1 + e.tokens.length =
        (t.tokens ++ op.token :: e.tokens).length := by
      simp only [List.length_append, List.length_cons]
      omega
    have hinside : ∀ e ∈ t.parts, Reads c down e := fun e' he =>
      hparts e' (by have := Term.tokens_length_lt he; omega)
        (hallows.mono (List.subset_append_of_subset_left _ (Term.variables_subset he).1)
          (List.subset_append_of_subset_left _ (Term.variables_subset he).2))
    have hbehind : Reads c down e := hparts e (by omega)
      (hallows.mono (List.subset_append_right ..) (List.subset_append_right ..))
    have hassign : ∀ n, t = .value ⟨false, .name n⟩ → text ≠ "" ∨ op.token.is "=" = false := by
      rintro n rfl
      cases hop : op.token.is "=" with
      | false => exact .inr rfl
      | true =>
        cases Operator.token_is_equals hop
        exact .inl (htext.resolve_right (by simp [Expression.assigned?]))
    have hoperation : ∀ text, operation down (c.seenAt (i + t.tokens.length) text) =
        .ok () (c.seenAt (i + t.tokens.length + 1 + e.tokens.length)
          (text ++ (op.latex ++ e.latex c.scope c.functions))) := fun text => by
      rw [operation_seenAt hc.isOpen op hbehind hstop.parts.2 hahead.skip, String.append_assoc]
    have hread := expressionFrom_term hc
      (hallows.mono (List.subset_append_left ..) (List.subset_append_left ..)) hinside
      (by have := t.parts_length_lt; omega) (Follows.is_eq_false (.inr ⟨op, rfl⟩)) hahead text
      hassign hoperation hstop.parts.1 hahead.skip.tail.skip.head
    rw [hread, Expression.latex, ← hlength]
    simp only [String.append_assoc, Nat.add_assoc]

end run

/-- An expression is read with as many levels as it has tokens, and one more, -/
theorem expressionWithin_upTo {c : Compiler} (hc : c.Ready) {levels : Nat} {e : Expression}
    (hlevels : e.tokens.length < levels) (hallows : c.Allows e.variables e.callees) {i : Nat}
    {text : String} {stop : Token} {rest : List Token} (hstop : e.MayEnd stop)
    (hahead : c.Ahead i (e.tokens ++ stop :: rest)) (htext : text ≠ "" ∨ e.assigned? = none) :
    expressionWithin levels (c.seenAt i text) =
      .ok .accepted (c.seenAt (i + e.tokens.length) (text ++ e.latex c.scope c.functions)) := by
  induction levels generalizing e i text stop rest with
  | zero => contradiction
  | succ levels ih =>
    -- every expression inside is shorter, so one level less is enough for it
    rw [expressionWithin_succ]
    refine expressionFrom_seenAt hc hallows (fun e' hshorter hallows' => ?_)
      (Nat.le_of_lt_succ hlevels) hstop hahead htext
    intro i text stop rest hahead' hstop' htext'
    exact ih (by omega) hallows' hstop' hahead' (.inl htext')

/-- in particular up to one of the tokens that may follow any expression. -/
theorem expressionWithin_seenAt {c : Compiler} (hc : c.Ready) {levels : Nat} {e : Expression}
    (hlevels : e.tokens.length < levels) (hallows : c.Allows e.variables e.callees) {i : Nat}
    {text : String} {stop : Token} {rest : List Token} (hstop : stop ∈ stops)
    (hahead : c.Ahead i (e.tokens ++ stop :: rest)) (htext : text ≠ "" ∨ e.assigned? = none) :
    expressionWithin levels (c.seenAt i text) =
      .ok .accepted (c.seenAt (i + e.tokens.length) (text ++ e.latex c.scope c.functions)) :=
  expressionWithin_upTo hc hlevels hallows (.inl hstop) hahead htext

theorem reads_descent {c : Compiler} (hc : c.Ready) {levels : Nat} {e : Expression}
    (hlevels : e.tokens.length < levels) (hallows : c.Allows e.variables e.callees) :
    Reads c (descent levels) e :=
  fun _ _ _ _ hahead hstop htext =>
    expressionWithin_upTo hc hlevels hallows hstop hahead (.inl htext)

namespace Compiler
variable {c : Compiler} {text : String}

/-- A state whose cursor is on the token at its position. -/
theorem seenAt_eq_self {i : Nat} (htext : c.text? = some text) (hposition : c.position = i)
    (hcurrent : c.current = c.tokens[i]?) : c.seenAt i text = c := by
  have hsame : c.seenAt i text = c.resume (c.progress text) := by
    simp [seenAt, progress, hposition, hcurrent]
  rw [hsame, resume_progress htext]

theorem hasLine_of_le (hfirst : 1 ≤ c.line) (hlast : c.line ≤ c.lines.length) : c.HasLine := by
  obtain ⟨n, hn⟩ := Int.eq_ofNat_of_zero_le (Int.sub_nonneg_of_le hfirst)
  have hbound : n < c.lines.length := by omega
  rw [HasLine, hn, Place.get?_natCast]
  simp [hbound]

end Compiler

/-- In any scope, the tokens of an expression in front of a token that may follow one are read as a
whole, and their LaTeX is written behind the text of the open entry. The cursor goes on to the token
that follows, and nothing else changes. -/
theorem expression_writes_latex {c : Compiler} {e : Expression} {levels i : Nat} {text : String}
    {stop : Token} {rest : List Token} (hlevels : e.tokens.length < levels)
    (hposition : c.position = i) (htokens : c.tokens.toList.drop i = e.tokens ++ stop :: rest)
    (hcurrent : c.current = c.tokens[i]?)
    (hstop : stop ∈ [Token.newline, mark ",", mark "]", mark ")"])
    (hvariables : ∀ v ∈ e.variables, c.Knows v ∧ v ∉ c.functions ∧ v ∉ builtinFunctions)
    (hcallees : ∀ f ∈ e.callees, f ∈ c.functions ∨ f ∈ builtinFunctions)
    (hfunctions : ∀ f ∈ c.functions, Lexer.isName f.toList = true)
    (htext : c.text? = some text) (hassign : text ≠ "" ∨ e.assigned? = none)
    (hfirst : 1 ≤ c.line) (hlast : c.line ≤ c.lines.length) :
    expressionWithin levels c =
      .ok .accepted { c.withText (text ++ e.latex c.scope c.functions) with
        position := i + e.tokens.length
        current := some stop } := by
  have hready : c.Ready :=
    ⟨Compiler.isOpen_of_text? htext, Compiler.hasLine_of_le hfirst hlast, hfunctions⟩
  have hallows : c.Allows e.variables e.callees :=
    ⟨fun v hv => (hvariables v hv).1, fun v hv => (hvariables v hv).2, hcallees⟩
  have hahead : c.Ahead i (e.tokens ++ stop :: rest) := htokens
  have hend : c.tokens[i + e.tokens.length]? = some stop := hahead.skip.head
  have hread := expressionWithin_seenAt hready hlevels hallows hstop hahead hassign
  rw [Compiler.seenAt_eq_self htext hposition hcurrent] at hread
  rw [hread, Compiler.seenAt, hend]
  rfl

/-- A sum in brackets times a list of a point, and a call. -/
def assorted : Expression :=
  let a : Atom := .name ⟨"a", by decide, by decide⟩
  let numeral (value : Nat) : Expression := .term (.value ⟨false, .numeral value⟩)
  let own : Term := .call ⟨"f", by decide, by decide⟩ (numeral 2) [.term (.value ⟨true, a⟩)]
  let pick : Expression := .term (.access ⟨false, a⟩ [numeral 3])
  let built : Term := .call ⟨"hsv", by decide, by decide⟩
    (.term (.value ⟨false, .name ⟨"y", by decide, by decide⟩⟩)) []
  .operation (.bracketed (.operation (.value ⟨false, a⟩) .plus (.term own))) .times
    (.operation (.list [.term (.point (numeral 1) pick)]) .arrow (.term built))

/-- A state in a namespace, with the expression inside of brackets ahead. -/
def atAssorted : Compiler where
  code := ""
  lines := [""]
  tokens := (mark "(" :: (assorted.tokens ++ [mark ")", Token.newline])).toArray
  current := some (mark "(")
  position := 1
  line := 1
  names := Table.initial ++ [("N", .table [("a", .unset)])]
  scope := ["N"]
  functions := ["f"]
  document := some #[.expression 1 "" none]
  target := .document

theorem assorted_writes_latex :
    atAssorted.text? = some "" ∧ assorted.assigned? = none ∧
      assorted.latex ["N"] ["f"] = "\\left(N_\x7ba\x7d+f\\left(2,-N_\x7ba\x7d\\right)\\right)*" ++
        "\\left[\\left(1,N_\x7ba\x7d\\left[3\\right]\\right)\\right]\\to " ++
        "\\operatorname\x7bhsv\x7d\\left(N_\x7by\x7d\\right)" ∧
      expressionWithin 40 atAssorted =
        .ok .accepted { atAssorted.withText (assorted.latex ["N"] ["f"]) with
          position := 1 + assorted.tokens.length
          current := some (mark ")") } := by
  have hnames : assorted.variables = ["a", "a", "a", "y"] := by decide
  have ha : atAssorted.Knows "a" := .inr rfl
  have hy : atAssorted.Knows "y" := .inl rfl
  have hknown : ∀ v ∈ assorted.variables, atAssorted.Knows v := by
    simp [hnames, ha, hy]
  have hplain : ∀ v ∈ assorted.variables, v ∉ atAssorted.functions ∧ v ∉ builtinFunctions := by
    decide
  have hread := @expression_writes_latex atAssorted assorted 40 1 "" (mark ")") [Token.newline]
    (by decide) rfl (by decide) rfl (by decide) (fun v hv => ⟨hknown v hv, hplain v hv⟩) (by decide)
    (by decide) (by decide) (.inr (by decide)) (by decide) (by decide)
  rw [String.empty_append] at hread
  exact ⟨by decide, by decide, by decide, hread⟩

end PlotScript
