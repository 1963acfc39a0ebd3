import PlotScript.Grammar.Expression
import PlotScript.Proofs.Naming

/-! Reading the tokens of a term writes its LaTeX, if that holds of the expressions inside. Of
the forms that are tried in turn, the one that the first tokens call for is taken. -/

namespace PlotScript
open Compile Grammar PlotScript.Tree

namespace Compiler

/-- The tokens from an index on. -/
def Ahead (c : Compiler) (i : Nat) (ts : List Token) : Prop := c.tokens.toList.drop i = ts

section ahead
variable {c : Compiler} {i : Nat} {t : Token} {ts rest : List Token}

theorem Ahead.head (h : c.Ahead i (t :: rest)) : c.tokens[i]? = some t := by
  rw [← Array.getElem?_toList, ← List.head?_drop, h]
  rfl

theorem Ahead.tail (h : c.Ahead i (t :: rest)) : c.Ahead (i + 1) rest := by
  rw [Ahead, ← List.drop_drop, h]
  rfl

theorem Ahead.skip (h : c.Ahead i (ts ++ rest)) : c.Ahead (i + ts.length) rest := by
  rw [Ahead, ← List.drop_drop, h]
  simp

theorem Ahead.skip_replicate {n : Nat} (h : c.Ahead i (List.replicate n t ++ rest)) :
    c.Ahead (i + n) rest := by
  have hskip := h.skip
  rwa [List.length_replicate] at hskip

theorem Ahead.lt_size (h : c.Ahead i (t :: rest)) : i < c.tokens.size :=
  (Array.getElem?_eq_some_iff.mp h.head).1

theorem Ahead.eq_none (h : c.Ahead i []) : c.tokens[i]? = none := by
  rw [← Array.getElem?_toList, ← List.head?_drop, h]
  rfl

end ahead

/-- A state in which expressions can be read. -/
structure Ready (c : Compiler) : Prop where
  isOpen : c.IsOpen
  hasLine : c.HasLine
  functionNames : ∀ f ∈ c.functions, Lexer.isName f.toList = true

/-- All variables are bound and are no functions, and all functions are known. -/
structure Allows (c : Compiler) (vs fs : List String) : Prop where
  known : ∀ v ∈ vs, c.Knows v
  notFunction : ∀ v ∈ vs, v ∉ c.functions ∧ v ∉ builtinFunctions
  callable : ∀ f ∈ fs, f ∈ c.functions ∨ f ∈ builtinFunctions

theorem Allows.mono {c : Compiler} {vs vs' fs fs' : List String} (h : c.Allows vs fs)
    (hvs : vs' ⊆ vs) (hfs : fs' ⊆ fs) : c.Allows vs' fs' :=
  ⟨fun v hv => h.known v (hvs hv), fun v hv => h.notFunction v (hvs hv),
    fun f hf => h.callable f (hfs hf)⟩

end Compiler

namespace Tree

/-- The tokens that may follow an expression. -/
def stops : List Token := [Token.newline, mark ",", mark "]", mark ")"]

/-- The tokens that may follow a term. -/
def Follows (u : Token) : Prop := u ∈ stops ∨ ∃ op : Operator, u = op.token

/-- No mark that goes on with a term, a call of a macro or a dot. -/
def Bounds (u : Token) : Prop :=
  u.is "." = false ∧ u.is "[" = false ∧ u.is "!" = false ∧ u.is "(" = false

instance (u : Token) : Decidable (Bounds u) := inferInstanceAs (Decidable (_ ∧ _))

theorem Follows.is_eq_false {u : Token} (h : Follows u) : Bounds u := by
  rcases h with h | ⟨op, rfl⟩
  · revert u
    decide
  · cases op <;> decide

def Term.isPoint : Term → Bool
  | .point _ _ => true
  | _ => false

/-- Whether none of the terms that the operators join is a point. -/
def Expression.isPointless : Expression → Bool
  | .term t => !t.isPoint
  | .operation t _ e => !t.isPoint && e.isPointless

/-- The tokens that an expression is read up to. A closing brace is not expected behind a point. -/
def Expression.MayEnd (e : Expression) (stop : Token) : Prop :=
  stop ∈ stops ∨ stop = mark "\x7d" ∧ e.isPointless = true

theorem Expression.MayEnd.mem {e : Expression} {stop : Token} (h : e.MayEnd stop) :
    stop ∈ mark "\x7d" :: stops := by
  rcases h with h | ⟨rfl, -⟩
  · exact List.mem_cons_of_mem _ h
  · exact List.mem_cons_self

theorem Expression.MayEnd.bounds {e : Expression} {stop : Token} (h : e.MayEnd stop) :
    Bounds stop := by
  rcases h with h | ⟨rfl, -⟩
  · exact Follows.is_eq_false (.inl h)
  · decide

theorem Expression.MayEnd.not_operator {e : Expression} {stop : Token} (h : e.MayEnd stop) :
    stop.isOneOf operators = false := by
  have hends : ∀ t ∈ mark "\x7d" :: stops, t.isOneOf operators = false := by decide
  exact hends stop h.mem

/-- Where a chain may end, its first term and what is behind the operator may end too. -/
theorem Expression.MayEnd.parts {t : Term} {op : Operator} {e : Expression} {stop : Token}
    (h : (Expression.operation t op e).MayEnd stop) :
    (Expression.term t).MayEnd stop ∧ e.MayEnd stop := by
  rcases h with h | ⟨hbrace, hpointless⟩
  · exact ⟨.inl h, .inl h⟩
  · rw [isPointless, Bool.and_eq_true] at hpointless
    exact ⟨.inr ⟨hbrace, hpointless.1⟩, .inr ⟨hbrace, hpointless.2⟩⟩

theorem Operator.latex_ne_empty (op : Operator) : op.latex ≠ "" := by
  cases op <;> decide

end Tree

section run
variable {c : Compiler} {down : Descent} {i : Nat} {text : String} {rest : List Token}

/-- From a mark to the expression behind it. -/
theorem advance_into {t : Token} {e : Expression} (ht : t.isNewline = false)
    (hahead : c.Ahead i (t :: (e.tokens ++ rest))) (text : String) :
    advance (c.seenAt i text) = .ok () (c.seenAt (i + 1) text) := by
  obtain ⟨first, ts, htokens, -⟩ := e.tokens_cons
  rw [htokens] at hahead
  exact advance_seenAt hahead.head ht hahead.tail.head text

theorem operator_seenAt (hc : c.IsOpen) (op : Operator) {u : Token}
    (hahead : c.Ahead i (op.token :: u :: rest)) :
    operator (c.seenAt i text) = .ok true (c.seenAt (i + 1) (text ++ op.latex)) := by
  have hadvance := advance_seenAt hahead.head (by cases op <;> decide) hahead.tail.head
  have hone : op.token.isOneOf operators = true := by cases op <;> decide
  have hlatex : (if op.token.is "->" = true then "\\to " else op.token.shown) = op.latex := by
    cases op <;> decide
  simp [operator, hahead.head, hone, hlatex, emit_seenAt hc, hadvance]

theorem operator_seenAt_stop {stop : Token} (hstop : stop.isOneOf operators = false)
    (hahead : c.Ahead i (stop :: rest)) :
    operator (c.seenAt i text) = .ok false (c.seenAt i text) := by
  simp [operator, hahead.head, hstop]

/-- One level down the expression is read, up to a token that may follow it. -/
def Reads (c : Compiler) (down : Descent) (e : Expression) : Prop :=
  ∀ ⦃i : Nat⦄ ⦃text : String⦄ ⦃stop : Token⦄ ⦃rest : List Token⦄,
    c.Ahead i (e.tokens ++ stop :: rest) → e.MayEnd stop → text ≠ "" →
    down.expression (c.seenAt i text) =
      .ok .accepted (c.seenAt (i + e.tokens.length) (text ++ e.latex c.scope c.functions))

theorem operation_seenAt (hc : c.IsOpen) (op : Operator) {e : Expression}
    (he : Reads c down e) {stop : Token} (hstop : e.MayEnd stop)
    (hahead : c.Ahead i (op.token :: (e.tokens ++ stop :: rest))) (text : String) :
    operation down (c.seenAt i text) =
      .ok () (c.seenAt (i + 1 + e.tokens.length)
        (text ++ op.latex ++ e.latex c.scope c.functions)) := by
  have hread := he hahead.tail hstop (append_ne_empty (a := text) op.latex_ne_empty)
  obtain ⟨t, ts, htokens, -⟩ := e.tokens_cons
  have hop : operator (c.seenAt i text) = .ok true (c.seenAt (i + 1) (text ++ op.latex)) :=
    operator_seenAt hc op (by rw [htokens] at hahead; exact hahead)
  simp [operation, hop, Descent.tryExpression, hread]

theorem operation_seenAt_stop {stop : Token} (hstop : stop.isOneOf operators = false)
    (hahead : c.Ahead i (stop :: rest)) :
    operation down (c.seenAt i text) = .ok () (c.seenAt i text) := by
  simp [operation, operator_seenAt_stop hstop hahead]

theorem listItem_last {e : Expression} (he : Reads c down e) (htext : text ≠ "")
    (hahead : c.Ahead i (e.tokens ++ mark "]" :: rest)) :
    listItem down (c.seenAt i text) =
      .ok true (c.seenAt (i + e.tokens.length) (text ++ e.latex c.scope c.functions)) := by
  have hread := he hahead (.inl (by decide)) htext
  have hlast := hahead.skip.head
  obtain ⟨t, ts, htokens, hopens⟩ := e.tokens_cons
  rw [htokens] at hahead
  simp [listItem, currentIs_seenAt hahead.head, hopens.notClosing, Descent.tryExpression, hread,
    currentIs_seenAt hlast]

theorem listItem_comma (hc : c.IsOpen) {e e' : Expression} (he : Reads c down e)
    (htext : text ≠ "") (hahead : c.Ahead i (e.tokens ++ mark "," :: (e'.tokens ++ rest))) :
    listItem down (c.seenAt i text) =
      .ok false (c.seenAt (i + e.tokens.length + 1)
        (text ++ e.latex c.scope c.functions ++ ",")) := by
  have hread := he hahead (.inl (by decide)) htext
  have hcomma := hahead.skip
  have hadvance := advance_into (by decide) hcomma
  obtain ⟨t, ts, htokens, hopens⟩ := e.tokens_cons
  rw [htokens] at hahead
  simp [listItem, currentIs_seenAt hahead.head, hopens.notClosing, Descent.tryExpression, hread,
    currentIs_seenAt hcomma.head, emit_seenAt hc, hadvance]

theorem loop_listItem (hc : c.IsOpen) {items : List Expression}
    (hitems : ∀ e ∈ items, Reads c down e) (htext : text ≠ "") {rounds : Nat}
    (hrounds : items.length < rounds) (hahead : c.Ahead i (itemTokens items ++ mark "]" :: rest)) :
    loop (listItem down) rounds (c.seenAt i text) =
      .ok () (c.seenAt (i + (itemTokens items).length)
        (text ++ itemLatex c.scope c.functions items)) := by
  induction items generalizing i text rounds with
  | nil =>
    obtain ⟨rounds, rfl⟩ := Nat.exists_eq_succ_of_ne_zero (Nat.ne_zero_of_lt hrounds)
    simp [loop, listItem, currentIs_seenAt hahead.head, itemTokens, itemLatex]
  | cons e items ih =>
    obtain ⟨rounds, rfl⟩ := Nat.exists_eq_succ_of_ne_zero (Nat.ne_zero_of_lt hrounds)
    have he := hitems e (by simp)
    cases items with
    | nil =>
      have hahead : c.Ahead i (e.tokens ++ mark "]" :: rest) := by
        simpa [itemTokens, laterTokens] using hahead
      simp [loop, listItem_last he htext hahead, itemTokens, itemLatex, laterTokens, laterLatex]
    | cons e' items =>
      rw [itemTokens_cons_cons, List.append_assoc, List.cons_append] at hahead
      have hitem := listItem_comma hc he htext
        (by rw [itemTokens, List.append_assoc] at hahead; exact hahead)
      have hlater := ih (fun e he => hitems e (by simp [he]))
        (append_ne_empty (a := text ++ e.latex c.scope c.functions) (b := ",") (by decide))
        (Nat.lt_of_succ_lt_succ hrounds) hahead.skip.tail
      rw [loop, bind_apply, hitem]
      simp only [Bool.false_eq_true, if_false, hlater]
      rw [itemTokens_cons_cons, itemLatex_cons_cons]
      simp only [List.length_append, List.length_cons, String.append_assoc, Nat.add_assoc,
        Nat.add_comm 1]

theorem list_seenAt (hc : c.IsOpen) {items : List Expression}
    (hitems : ∀ e ∈ items, Reads c down e) (hrounds : items.length < down.rounds) {u : Token}
    (hahead : c.Ahead i (mark "[" :: (itemTokens items ++ mark "]" :: u :: rest)))
    (text : String) :
    list down (c.seenAt i text) =
      .ok true (c.seenAt (i + 1 + (itemTokens items).length + 1)
        (text ++ ("\\left[" ++ itemLatex c.scope c.functions items ++ "\\right]"))) := by
  have hopening : advance (c.seenAt i (text ++ "\\left[")) =
      .ok () (c.seenAt (i + 1) (text ++ "\\left[")) := by
    cases items with
    | nil => exact advance_seenAt hahead.head (by decide) hahead.tail.head _
    | cons e items =>
      rw [itemTokens, List.append_assoc] at hahead
      exact advance_into (by decide) hahead _
  have hloop := loop_listItem hc hitems (append_ne_empty (a := text) (b := "\\left[") (by decide))
    hrounds hahead.tail
  have hclosing := advance_seenAt hahead.tail.skip.head (by decide) hahead.tail.skip.tail.head
  rw [← String.append_assoc, ← String.append_assoc]
  simp [list, currentIs_seenAt hahead.head, emit_seenAt hc, hopening, hloop, hclosing]

theorem callArgument_seenAt (hc : c.IsOpen) (function : String) {e : Expression}
    (he : Reads c down e) {stop : Token} (hstop : stop ∈ stops)
    (hahead : c.Ahead i (mark "," :: (e.tokens ++ stop :: rest))) (text : String) :
    callArgument down function (c.seenAt i text) =
      .ok false (c.seenAt (i + 1 + e.tokens.length)
        (text ++ "," ++ e.latex c.scope c.functions)) := by
  have hread := he hahead.tail (.inl hstop) (append_ne_empty (a := text) (b := ",") (by decide))
  have hadvance := advance_into (by decide) hahead
  simp [callArgument, currentIs_seenAt hahead.head, emit_seenAt hc, hadvance,
    Descent.acceptsExpression, hread]

/-- Behind an argument comes a comma or the closing bracket. -/
theorem laterTokens_stop (items : List Expression) (rest : List Token) :
    ∃ stop more, laterTokens items ++ mark ")" :: rest = stop :: more ∧ stop ∈ stops := by
  cases items with
  | nil => exact ⟨mark ")", rest, by simp [laterTokens], by decide⟩
  | cons e items => exact ⟨mark ",", _, by rw [laterTokens, List.cons_append], by decide⟩

theorem loop_callArgument (hc : c.IsOpen) (function : String) {items : List Expression}
    (hitems : ∀ e ∈ items, Reads c down e) {rounds : Nat} (hrounds : items.length < rounds)
    (hahead : c.Ahead i (laterTokens items ++ mark ")" :: rest)) (text : String) :
    loop (callArgument down function) rounds (c.seenAt i text) =
      .ok () (c.seenAt (i + (laterTokens items).length)
        (text ++ laterLatex c.scope c.functions items)) := by
  induction items generalizing i text rounds with
  | nil =>
    obtain ⟨rounds, rfl⟩ := Nat.exists_eq_succ_of_ne_zero (Nat.ne_zero_of_lt hrounds)
    simp [loop, callArgument, currentIs_seenAt hahead.head, laterTokens, laterLatex]
  | cons e items ih =>
    obtain ⟨rounds, rfl⟩ := Nat.exists_eq_succ_of_ne_zero (Nat.ne_zero_of_lt hrounds)
    rw [laterTokens, List.cons_append, List.append_assoc] at hahead
    have hlater := ih (fun e he => hitems e (by simp [he])) (Nat.lt_of_succ_lt_succ hrounds)
      hahead.tail.skip (text ++ "," ++ e.latex c.scope c.functions)
    obtain ⟨stop, more, hmore, hstop⟩ := laterTokens_stop items rest
    rw [hmore] at hahead
    have hargument := callArgument_seenAt hc function (hitems e (by simp)) hstop hahead text
    rw [loop, bind_apply, hargument]
    simp only [Bool.false_eq_true, if_false, hlater]
    rw [laterTokens, laterLatex]
    simp only [List.length_append, List.length_cons, String.append_assoc, Nat.add_assoc,
      Nat.add_comm 1]

theorem call_seenAt (hc : c.IsOpen) {function : Name}
    (hfunction : function.text ∈ c.functions ∨ function.text ∈ builtinFunctions)
    {first : Expression} {others : List Expression} (hfirst : Reads c down first)
    (hothers : ∀ e ∈ others, Reads c down e) (hrounds : others.length < down.rounds) {u : Token}
    (hahead : c.Ahead i (function.token :: mark "(" ::
      (first.tokens ++ (laterTokens others ++ mark ")" :: u :: rest)))) :
    call down (c.seenAt i text) =
      .ok true (c.seenAt (i + (Term.call function first others).tokens.length)
        (text ++ (Term.call function first others).latex c.scope c.functions)) := by
  have hhead := emitFrom_seenAt hc
    (callHead_eq function.text_ne_empty c.functions (c.seenAt i text))
  have hlatex : (Term.call function first others).latex c.scope c.functions =
      calledName c.functions function.text ++ "\\left(" ++ (first.latex c.scope c.functions ++
        (laterLatex c.scope c.functions others ++ "\\right)")) := by
    simp only [Term.latex, String.append_assoc]
  have hhead_ne : text ++ (calledName c.functions function.text ++ "\\left(") ≠ "" :=
    append_ne_empty (append_ne_empty (by decide))
  rw [hlatex, ← String.append_assoc]
  generalize text ++ (calledName c.functions function.text ++ "\\left(") = head
    at hhead hhead_ne ⊢
  have hname := advance_seenAt hahead.head (by rfl) hahead.tail.head head
  have hopening := advance_into (by decide) hahead.tail head
  obtain ⟨stop, more, hmore, hstop⟩ := laterTokens_stop others (u :: rest)
  have hread := hfirst (hmore ▸ hahead.tail.tail) (.inl hstop) hhead_ne
  have hlater := hahead.tail.tail.skip
  have hloop := loop_callArgument hc function.text hothers hrounds hlater
  have hclosing := advance_seenAt hlater.skip.head (by decide) hlater.skip.tail.head
  have hlength : i + (Term.call function first others).tokens.length =
      i + 1 + 1 + first.tokens.length + (laterTokens others).length + 1 := by
    simp only [Term.tokens, List.length_cons, List.length_append, List.length_nil]
    omega
  have htext : function.token.text? = some function.text := rfl
  rw [hlength, ← String.append_assoc, ← String.append_assoc]
  simp [call, current_seenAt hahead.head, htext, hfunction, hhead, hname,
    currentIs_seenAt hahead.tail.head, hopening, Descent.acceptsExpression, hread, hloop,
    emit_seenAt hc, hclosing]

/-! Alternatives that do not apply. -/

theorem call_seenAt_other {t : Token} (ht : c.tokens[i]? = some t)
    (hname : ∀ name, t.text? = some name → name ∉ c.functions ∧ name ∉ builtinFunctions) :
    call down (c.seenAt i text) = .ok false (c.seenAt i text) := by
  cases htext : t.text? with
  | none => simp [call, current_seenAt ht, htext]
  | some name => simp [call, current_seenAt ht, htext, hname name htext]

theorem macroCall_seenAt_other {u : Token} (hu : c.tokens[i + 1]? = some u)
    (hmark : u.is "!" = false) :
    macroCall (c.seenAt i text) = .ok false (c.seenAt i text) := by
  simp [macroCall, nextIs_seenAt hu, hmark]

theorem value_seenAt_other {t : Token} (ht : c.tokens[i]? = some t)
    (hname : t.isKind .name = false) (hnumeral : t.isNumeral = false)
    (hsign : t.isOneOf ["-", "+"] = false) :
    value down (c.seenAt i text) = .ok false (c.seenAt i text) := by
  simp [value, ht, hname, hnumeral, hsign]

/-! Values. -/

theorem reference_seenAt (hc : c.IsOpen) {name : String} (hne : name ≠ "")
    (hknown : c.Knows name) {u : Token} (hu : c.tokens[i + 1]? = some u)
    (hdot : u.is "." = false) :
    reference down name (c.seenAt i text) =
      .ok () (c.seenAt i (text ++ scopedName c.scope name)) := by
  have hbound : isBound c.scope name (c.seenAt i text) = .ok true (c.seenAt i text) :=
    isBound_resume ((get?_succ c.tokens i).trans hu) hdot hknown
  have hemit : emitName name (c.seenAt i text) =
      .ok () (c.seenAt i (text ++ scopedName c.scope name)) := emitName_resume hc hne
  simp [reference, hbound, nextIs_seenAt hu, hdot, hemit]

theorem nameValue_seenAt (hc : c.IsOpen) {name : String} (hne : name ≠ "")
    (hknown : c.Knows name) {u : Token} (hu : c.tokens[i + 1]? = some u)
    (hdot : u.is "." = false) (hassign : text ≠ "" ∨ u.is "=" = false) :
    nameValue down name (c.seenAt i text) =
      .ok () (c.seenAt i (text ++ scopedName c.scope name)) := by
  rw [nameValue_eq]
  have href : reference down name (c.seenAt i text) =
      .ok () (c.seenAt i (text ++ scopedName c.scope name)) :=
    reference_seenAt hc hne hknown hu hdot
  by_cases htext : text = ""
  · have hequals : u.is "=" = false := hassign.resolve_left (fun h => h htext)
    subst htext
    simp [latex_seenAt hc, nextIs_seenAt hu, hequals, href]
  · simp [latex_seenAt hc, htext, href]

/-- A numeral or a name, up to the brackets behind it if there are any. -/
theorem unsignedValue_seenAt (hc : c.IsOpen) {a : Atom}
    (hknown : ∀ x ∈ a.variables, c.Knows x) {u : Token}
    (hahead : c.Ahead i (a.token :: u :: rest)) (hdot : u.is "." = false)
    (hassign : ∀ n, a = .name n → text ≠ "" ∨ u.is "=" = false) :
    unsignedValue down (c.seenAt i text) = (do
      discard (listAccess down)
      return true : Compile Bool) (c.seenAt (i + 1) (text ++ a.latex c.scope)) := by
  have hadvance := advance_seenAt hahead.head a.token_isNewline hahead.tail.head
  cases a with
  | numeral value =>
    have hemit : emit (Token.numeral value).shown (c.seenAt i text) =
        .ok () (c.seenAt i (text ++ (Atom.numeral value).latex c.scope)) := emit_seenAt hc _
    simp [unsignedValue, current_seenAt hahead.head, Atom.token, Token.name?, hemit, hadvance]
  | name n =>
    have hname : nameValue down n.text (c.seenAt i text) =
        .ok () (c.seenAt i (text ++ (Atom.name n).latex c.scope)) :=
      nameValue_seenAt hc n.text_ne_empty (hknown n.text (by simp [Atom.variables]))
        hahead.tail.head hdot (hassign n rfl)
    simp [unsignedValue, current_seenAt hahead.head, Atom.token, Name.token, Token.name?, hname,
      hadvance]

theorem value_seenAt (hc : c.IsOpen) {v : Value} (hknown : ∀ x ∈ v.atom.variables, c.Knows x)
    {u : Token} (hahead : c.Ahead i (v.tokens ++ u :: rest)) (hdot : u.is "." = false)
    (hassign : ∀ n, v = ⟨false, .name n⟩ → text ≠ "" ∨ u.is "=" = false) :
    value down (c.seenAt i text) = (do
      discard (listAccess down)
      return true : Compile Bool)
      (c.seenAt (i + v.tokens.length) (text ++ v.latex c.scope)) := by
  obtain ⟨negative, a⟩ := v
  cases negative with
  | false =>
    have hkind : a.token.isKind .name = true ∨ a.token.isNumeral = true := by
      cases a
      · exact .inr rfl
      · exact .inl rfl
    have hminus : a.token.is "-" = false := a.token_is (by decide)
    have hatom : ∀ n, a = .name n → text ≠ "" ∨ u.is "=" = false :=
      fun n hn => hassign n (congrArg (Value.mk false) hn)
    simp [value_eq, hahead.head, hkind, hminus,
      unsignedValue_seenAt hc hknown hahead hdot hatom, Value.tokens, Value.latex]
  | true =>
    have hadvance := advance_seenAt hahead.head (by decide) hahead.tail.head
    have hatom : ∀ n, a = .name n → text ++ "-" ≠ "" ∨ u.is "=" = false :=
      fun _ _ => .inl (append_ne_empty (by decide))
    simp [value_eq, hahead.head, Operator.token, Operator.text, Token.isOneOf, Token.is,
      Token.isKind, Token.isNumeral, emit_seenAt hc, hadvance,
      unsignedValue_seenAt hc hknown hahead.tail hdot hatom, Value.tokens, Value.latex,
      String.append_assoc]

theorem value_seenAt_alone (hc : c.IsOpen) {v : Value}
    (hknown : ∀ x ∈ v.atom.variables, c.Knows x) {u : Token}
    (hahead : c.Ahead i (v.tokens ++ u :: rest)) (hu : Bounds u)
    (hassign : ∀ n, v = ⟨false, .name n⟩ → text ≠ "" ∨ u.is "=" = false) :
    value down (c.seenAt i text) =
      .ok true (c.seenAt (i + v.tokens.length) (text ++ v.latex c.scope)) := by
  obtain ⟨hdot, hbracket, -⟩ := hu
  rw [value_seenAt hc hknown hahead hdot hassign]
  simp [listAccess, currentIs_seenAt hahead.skip.head, hbracket]

theorem value_seenAt_access (hc : c.IsOpen) {v : Value} {items : List Expression}
    (hknown : ∀ x ∈ v.atom.variables, c.Knows x) (hitems : ∀ e ∈ items, Reads c down e)
    (hrounds : items.length < down.rounds) {u : Token}
    (hahead : c.Ahead i (v.tokens ++ mark "[" :: (itemTokens items ++ mark "]" :: u :: rest))) :
    value down (c.seenAt i text) =
      .ok true (c.seenAt (i + (Term.access v items).tokens.length)
        (text ++ (Term.access v items).latex c.scope c.functions)) := by
  have hlist := list_seenAt hc hitems hrounds hahead.skip
  have hlength : i + (Term.access v items).tokens.length =
      i + v.tokens.length + 1 + (itemTokens items).length + 1 := by
    simp only [Term.tokens, List.length_cons, List.length_append, List.length_nil]
    omega
  rw [value_seenAt hc hknown hahead (by decide) fun _ _ => .inr (by decide), hlength, Term.latex,
    ← String.append_assoc]
  simp [listAccess, currentIs_seenAt hahead.skip.head, hlist]

/-! Terms that do not begin with a round bracket. -/

theorem not_function {name : String} (hc : c.Ready) (h : Lexer.isName name.toList = false) :
    name ∉ c.functions ∧ name ∉ builtinFunctions := by
  have hbuiltin : ∀ f ∈ builtinFunctions, Lexer.isName f.toList = true := by decide
  refine ⟨fun hf => ?_, fun hf => ?_⟩
  · simp [hc.functionNames name hf] at h
  · simp [hbuiltin name hf] at h

theorem call_seenAt_value (hc : c.Ready) {v : Value}
    (hplain : ∀ x ∈ v.atom.variables, x ∉ c.functions ∧ x ∉ builtinFunctions)
    (hahead : c.Ahead i (v.tokens ++ rest)) :
    call down (c.seenAt i text) = .ok false (c.seenAt i text) := by
  obtain ⟨negative, a⟩ := v
  cases negative with
  | true =>
    refine call_seenAt_other hahead.head fun name hname => ?_
    cases hname
    exact not_function hc (by decide)
  | false =>
    refine call_seenAt_other hahead.head fun name hname => ?_
    cases a with
    | numeral value => contradiction
    | name n =>
      cases hname
      exact hplain n.text (by simp [Atom.variables])

theorem macroCall_seenAt_value {v : Value} {u : Token} (hu : u.is "!" = false)
    (hahead : c.Ahead i (v.tokens ++ u :: rest)) :
    macroCall (c.seenAt i text) = .ok false (c.seenAt i text) := by
  obtain ⟨negative, a⟩ := v
  cases negative with
  | true => exact macroCall_seenAt_other hahead.tail.head a.opens.notBang
  | false => exact macroCall_seenAt_other hahead.tail.head hu

theorem value_seenAt_list (hahead : c.Ahead i (mark "[" :: rest)) :
    value down (c.seenAt i text) = .ok false (c.seenAt i text) :=
  value_seenAt_other hahead.head (by decide) (by decide) (by decide)

theorem macroCall_seenAt_list {items : List Expression}
    (hahead : c.Ahead i (mark "[" :: (itemTokens items ++ mark "]" :: rest))) :
    macroCall (c.seenAt i text) = .ok false (c.seenAt i text) := by
  cases items with
  | nil => exact macroCall_seenAt_other hahead.tail.head (by decide)
  | cons e items =>
    obtain ⟨t, ts, htokens, hopens⟩ := e.tokens_cons
    rw [itemTokens, htokens] at hahead
    exact macroCall_seenAt_other hahead.tail.head hopens.notBang

theorem term_seenAt (hc : c.Ready) {t : Term} (hround : t.isRound = false)
    (hallows : c.Allows t.variables t.callees) (hparts : ∀ e ∈ t.parts, Reads c down e)
    (hrounds : t.parts.length < down.rounds) {u : Token} (hu : Bounds u)
    (hahead : c.Ahead i (t.tokens ++ u :: rest))
    (hassign : ∀ n, t = .value ⟨false, .name n⟩ → text ≠ "" ∨ u.is "=" = false) :
    term down (c.seenAt i text) =
      .ok true (c.seenAt (i + t.tokens.length) (text ++ t.latex c.scope c.functions)) := by
  have hmark : u.is "!" = false := hu.2.2.1
  cases t with
  | value v =>
    rw [Term.tokens] at hahead
    rw [Term.variables] at hallows
    have hvalue : ∀ n, v = ⟨false, .name n⟩ → text ≠ "" ∨ u.is "=" = false :=
      fun n hn => hassign n (by rw [hn])
    simp [term, firstOf, call_seenAt_value hc hallows.notFunction hahead,
      macroCall_seenAt_value hmark hahead,
      value_seenAt_alone hc.isOpen hallows.known hahead hu hvalue, Term.tokens, Term.latex]
  | access v items =>
    simp only [Term.tokens, List.append_assoc, List.cons_append, List.nil_append] at hahead
    rw [Term.variables, Term.callees] at hallows
    have hvalue : c.Allows v.atom.variables [] :=
      hallows.mono (List.subset_append_left ..) (List.nil_subset _)
    have hitems : ∀ e ∈ items, Reads c down e := hparts
    simp [term, firstOf, call_seenAt_value hc hvalue.notFunction hahead,
      macroCall_seenAt_value (u := mark "[") (by decide) hahead,
      value_seenAt_access hc.isOpen hvalue.known hitems hrounds hahead]
  | list items =>
    simp only [Term.tokens, List.append_assoc, List.cons_append, List.nil_append] at hahead
    have hcall : call down (c.seenAt i text) = .ok false (c.seenAt i text) := by
      refine call_seenAt_other hahead.head fun name hname => ?_
      cases hname
      exact not_function hc (by decide)
    have hlength : i + (Term.list items).tokens.length = i + 1 + (itemTokens items).length + 1 := by
      simp only [Term.tokens, List.length_cons, List.length_append, List.length_nil]
      omega
    have hitems : ∀ e ∈ items, Reads c down e := hparts
    simp [term, firstOf, hcall, macroCall_seenAt_list hahead, value_seenAt_list hahead,
      list_seenAt hc.isOpen hitems hrounds hahead, hlength, Term.latex]
  | bracketed inner => contradiction
  | point x y => contradiction
  | call function first others =>
    simp only [Term.tokens, List.append_assoc, List.cons_append, List.nil_append] at hahead
    have hfunction := hallows.callable function.text (by simp [Term.callees])
    have hothers : others.length < down.rounds := Nat.lt_of_succ_lt hrounds
    simp [term, firstOf, call_seenAt hc.isOpen hfunction (hparts first (by simp [Term.parts]))
      (fun e he => hparts e (by simp [Term.parts, he])) hothers hahead]

end run
end PlotScript
