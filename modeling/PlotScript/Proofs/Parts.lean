import PlotScript.Proofs.Writing

/-! What the parts of an expression write, if the expressions inside them only go forward and
write nested text. No part opens a bracket that it does not close, or it ends with a mistake. -/

namespace PlotScript
open Compile Grammar Latex

theorem plain_subscripted {name : String} (h : '\\' ∉ name.toList) :
    '\\' ∉ (subscripted name).toList := by
  unfold subscripted
  split
  · decide
  · exact h
  · next c rest _ hchars =>
    rw [hchars, List.mem_cons, not_or] at h
    simp [h]

theorem plain_scopedName {c : Compiler} (hc : c.IsPlain) {name : String}
    (h : '\\' ∉ name.toList) : '\\' ∉ (scopedName c.scope name).toList := by
  refine plain_subscripted ?_
  rw [String.toList_append, List.mem_append, not_or]
  refine ⟨?_, h⟩
  rw [List.getLastD_eq_getLast?]
  cases hlast : c.scope.getLast? with
  | none => decide
  | some own => exact hc.scope own (List.mem_of_getLast? hlast)

theorem isCommand_builtin :
    ∀ function ∈ builtinFunctions, isCommand ("\\" ++ function).toList = true := by
  decide +kernel

theorem isCommand_operatorname : ∀ function ∈ ["polygon", "rgb", "hsv"],
    isCommand ("\\operatorname\x7b" ++ function ++ "\x7d").toList = true := by
  decide

theorem piece_callHead {u : List Bracket} {functions : List String} {function : String}
    (hplain : ∀ name ∈ functions, '\\' ∉ name.toList)
    (h : function ∈ functions ∨ function ∈ builtinFunctions) :
    Piece u (.round :: u) (Tree.calledName functions function ++ "\\left(") := by
  refine .append ?_ .leftRound
  unfold Tree.calledName
  split
  · next hf => exact .command (isCommand_operatorname function hf)
  · split
    · next hf => exact .plain (plain_subscripted (hplain function hf))
    · next hf => exact .command (isCommand_builtin function (h.resolve_left hf))

section parts
variable {c : Compiler} {u : List Bracket} {down : Descent}

theorem writes_define (name : String) : Writes c u u (define name) := by
  intro p hp
  cases hnames : p.names.add c.scope name .unset with
  | error e =>
    have herror : define name (c.resume p) = .error e (c.resume p) := by
      simp [define, addName, setNames, hnames]
    exact .of_error herror
  | ok names =>
    have hdefine : define name (c.resume p) = .ok () (c.resume { p with
        names
        objectName := name
        printed := p.printed.push ("\x7b'__name__': " ++ Text.quoted name ++ "\x7d") }) := by
      simp [define, addName, setNames, hnames, print]
      rfl
    rw [hdefine]
    exact ⟨_, rfl, .of_text_eq hp (Int.le_refl _) rfl⟩

theorem writes_atEnd (closers : List String) : Writes c u u (atEnd closers) := by
  refine .of_unchanged fun p _ => .inl ?_
  cases hcurrent : p.current with
  | none => exact ⟨true, by simp [atEnd, hcurrent]⟩
  | some t => exact ⟨t.isNewline || t.isOneOf closers, by simp [atEnd, hcurrent]⟩

section inside
variable (hdown : ∀ u, Writes c u u down.expression)
include hdown

theorem writes_tryExpression : Writes c u u down.tryExpression :=
  (hdown u).bind fun _ => .pure ()

theorem writes_acceptsExpression : Writes c u u down.acceptsExpression :=
  (hdown u).bind fun _ => .pure _

end inside

variable (hc : c.IsPlain)
include hc

theorem writes_emitName {name : String} (hne : name ≠ "")
    (hplain : '\\' ∉ name.toList) : Writes c u u (emitName name) := by
  intro p hp
  rw [emitName_resume hc.isOpen hne]
  exact ⟨_, rfl, hp, Int.le_refl _, _, rfl, .plain (plain_scopedName hc hplain)⟩

theorem writes_isBound (name : String) : Writes c u u (isBound c.scope name) := by
  refine .of_unchanged fun p _ => ?_
  cases htop : p.names.has name with
  | true =>
    cases hnext : Place.get? c.tokens (p.position + 1) with
    | none => exact .inr ⟨.outOfRange, by simp [isBound, htop, nextIs, peek, hnext]⟩
    | some t =>
      have hdot := (hc.of_get? hnext).notDot
      exact .inl ⟨true, by simp [isBound, htop, nextIs, peek, hnext, hdot]⟩
  | false =>
    cases halong : p.names.boundAlong c.scope name with
    | error e => exact .inr ⟨e, by simp [isBound, htop, halong]⟩
    | ok found => exact .inl ⟨found, by simp [isBound, htop, halong]⟩

theorem writes_reference {name : String} (hne : name ≠ "")
    (hplain : '\\' ∉ name.toList) : Writes c u u (reference down name) := by
  intro p hp
  have hlookup : Writes c u u (do
      unless ← isBound c.scope name do fail ("Variable " ++ name ++ " not defined")
      if ← nextIs "." then
        advance
        advance
        down.tryExpression
        popScope
      else emitName name) :=
    (writes_isBound hc name).orFail _
      (.nextIs_bind hc (fun _ h => h.notDot) (writes_emitName hc hne hplain))
  exact hlookup p hp

theorem writes_nameValue {name : String} (hne : name ≠ "")
    (hplain : '\\' ∉ name.toList) : Writes c u u (nameValue down name) := by
  rw [nameValue_eq]
  have href : Writes c u u (reference down name) := writes_reference hc hne hplain
  refine (Writes.latex hc).bind fun text => ?_
  by_cases htext : text = ""
  · rw [if_pos htext]
    refine (Writes.nextIs "=").bind fun _ => .ite ?_ href
    exact (writes_define name).bind fun _ => href
  · rw [if_neg htext]
    exact href

theorem writes_comma : Writes c u u (emit ",") :=
  .emit hc (.plain (by decide))

theorem writes_operator : Writes c u u operator := by
  intro p hp
  rw [operator, bind_apply, get_apply]
  simp only [Compiler.resume_current]
  cases hcurrent : p.current with
  | none => exact Writes.pure false p hp
  | some t =>
    have ht : Plain t := hc.of_get? (hp t hcurrent)
    have hpiece : Piece u u (if t.is "->" then "\\to " else t.shown) := by
      split
      · exact .command (by decide)
      · exact .plain ht.noBackslash
    refine Writes.ite ?_ (.pure false) p hp
    exact (Writes.emit hc hpiece).bind fun _ => Writes.advance.bind fun _ => .pure true

theorem writes_wordText {t : Token} (ht : Plain t) :
    Writes c u u (emitFrom (wordText t)) := by
  cases htext : t.text? with
  | none =>
    refine .of_error fun p => ⟨.notText, ?_⟩
    simp [emitFrom, latex_resume hc.isOpen, wordText, htext]
  | some text =>
    have hshown : t.shown = text := by
      cases t with
      | numeral n => contradiction
      | word kind own => exact Option.some.inj htext
    exact .emitFrom hc (fun p => by simp [wordText, htext]) (.plain (hshown ▸ ht.noBackslash))

theorem ne_empty_of_callable {function : String}
    (h : function ∈ c.functions ∨ function ∈ builtinFunctions) : function ≠ "" := by
  rcases h with h | h
  · exact (hc.functions function h).1
  · rintro rfl
    revert h
    decide

/-! There are no braces and no macro calls among plain tokens. -/

theorem writes_block : Writes c u u (block down) :=
  .currentIs_bind hc (fun _ h => h.notBrace) (.pure false)

theorem writes_macroCall : Writes c u u macroCall :=
  .nextIs_bind hc (fun _ h => h.notBang) (.pure false)

variable (hdown : ∀ u, Writes c u u down.expression)
include hdown

theorem writes_operation : Writes c u u (operation down) :=
  (writes_operator hc).bind fun _ => .ite (writes_tryExpression hdown) (.pure ())

theorem writes_listItem : Writes c u u (listItem down) := by
  refine (Writes.currentIs "]").bind fun _ => .ite (.pure true) ?_
  refine (writes_tryExpression hdown).bind fun _ => ?_
  refine (Writes.currentIs "]").bind fun _ => .ite (.pure true) ?_
  refine (Writes.currentIs ",").orFail _ ?_
  refine (writes_comma hc).bind fun _ => ?_
  exact Writes.advance.bind fun _ => .pure false

theorem writes_list : Writes c u u (list down) := by
  refine (Writes.currentIs "[").bind fun _ => .ite ?_ (.pure false)
  refine (Writes.emit hc .leftSquare).bind fun _ => ?_
  refine Writes.advance.bind fun _ => ?_
  refine (Writes.loop (writes_listItem hc hdown) _).bind fun _ => ?_
  refine (Writes.emit hc .rightSquare).bind fun _ => ?_
  exact Writes.advance.bind fun _ => .pure true

theorem writes_listAccess : Writes c u u (listAccess down) :=
  (Writes.currentIs "[").bind fun _ => .ite (writes_list hc hdown) (.pure false)

theorem writes_unsignedValue : Writes c u u (unsignedValue down) := by
  refine Writes.current_bind hc fun t ht => ?_
  have hbehind : Writes c u u (do
      advance
      discard (listAccess down)
      return true : Compile Bool) := by
    refine Writes.advance.bind fun _ => ?_
    exact (writes_listAccess hc hdown).discard.bind fun _ => .pure true
  cases hname : t.name? with
  | none => exact (Writes.emit hc (.plain ht.noBackslash)).bind fun _ => hbehind
  | some name =>
    obtain ⟨hne, hplain⟩ := ht.of_name? hname
    exact (writes_nameValue hc hne hplain).bind fun _ => hbehind

theorem writes_value : Writes c u u (value down) := by
  rw [value_eq]
  intro p hp
  have hunsigned : Writes c u u (unsignedValue down) := writes_unsignedValue hc hdown
  rw [bind_apply, get_apply]
  simp only [Compiler.resume_current]
  cases hcurrent : p.current with
  | none => exact Writes.pure true p hp
  | some t =>
    refine Writes.ite ?_ (.pure false) p hp
    refine .ite ?_ hunsigned
    refine (Writes.emit hc (.plain (by decide))).bind fun _ => ?_
    exact Writes.advance.bind fun _ => hunsigned

theorem writes_callArgument (function : String) : Writes c u u (callArgument down function) := by
  refine (Writes.currentIs ")").bind fun _ => .ite (.pure true) ?_
  refine (Writes.currentIs ",").orFail _ ?_
  refine (writes_comma hc).bind fun _ => ?_
  refine Writes.advance.bind fun _ => ?_
  exact (writes_acceptsExpression hdown).orFail _ (.pure false)

theorem writes_call : Writes c u u (call down) := by
  intro p hp
  rw [call, bind_apply, get_apply]
  simp only [Compiler.resume_functions]
  refine Writes.current_bind hc (fun t ht => ?_) p hp
  cases htext : t.text? with
  | none => exact .pure false
  | some function =>
    dsimp only
    split
    · next hknown =>
      have hfunction : function ∈ c.functions ∨ function ∈ builtinFunctions := by
        simpa using hknown
      refine (Writes.emitFrom hc (fun p => callHead_eq (ne_empty_of_callable hc hfunction) _ _)
        (piece_callHead (fun name h => (hc.functions name h).2) hfunction)).bind fun _ => ?_
      refine Writes.advance.bind fun _ => ?_
      refine (Writes.currentIs "(").orFail _ ?_
      refine Writes.advance.bind fun _ => ?_
      refine (writes_acceptsExpression hdown).orFail _ ?_
      refine (Writes.loop (writes_callArgument hc hdown function) _).bind fun _ => ?_
      refine (Writes.emit hc .rightRound).bind fun _ => ?_
      exact Writes.advance.bind fun _ => .pure true
    · exact .pure false

theorem writes_point : Writes c u u (point down) := by
  refine (Writes.currentIs "(").bind fun _ => .ite ?_ (.pure false)
  refine Writes.advance.bind fun _ => ?_
  refine (Writes.emit hc .leftRound).bind fun _ => ?_
  refine (writes_acceptsExpression hdown).orFail _ ?_
  refine (Writes.currentIs ",").orFail _ ?_
  refine (writes_comma hc).bind fun _ => ?_
  refine Writes.advance.bind fun _ => ?_
  refine (writes_acceptsExpression hdown).orFail _ ?_
  refine (Writes.emit hc .rightRound).bind fun _ => ?_
  refine (Writes.currentIs ")").orFail _ ?_
  exact Writes.advance.bind fun _ => .pure true

theorem writes_bracketed : Writes c u u (bracketed down) := by
  refine (Writes.emit hc .leftRound).bind fun _ => ?_
  refine Writes.advance.bind fun _ => ?_
  refine (writes_tryExpression hdown).bind fun _ => ?_
  refine (Writes.currentIs ")").orFail _ ?_
  exact (Writes.emit hc .rightRound).bind fun _ => Writes.advance

theorem writes_comprehension : Writes c u u (comprehension down) := by
  refine Writes.current_bind hc fun t ht => ?_
  refine .unlessEither (.nextIs ",") ?_
  refine (writes_wordText hc ht).bind fun _ => ?_
  refine Writes.advance.bind fun _ => ?_
  refine (Writes.currentIs "for").orFail _ ?_
  refine (Writes.emit hc (.command (by decide))).bind fun _ => ?_
  refine Writes.advance.bind fun _ => ?_
  refine Writes.current_bind hc fun t ht => ?_
  cases hname : t.name? with
  | none => exact .fail _
  | some name =>
    refine (Writes.emit hc (.plain (ht.of_name? hname).2)).bind fun _ => ?_
    refine Writes.advance.bind fun _ => ?_
    refine (Writes.currentIs "=").orFail _ ?_
    refine Writes.advance.bind fun _ => ?_
    refine (Writes.emit hc (.plain (by decide))).bind fun _ => ?_
    refine (writes_list hc hdown).orFail _ ?_
    exact Writes.advance.bind fun _ => .pure true

theorem writes_operand : Writes c u u (operand down) := by
  refine (Writes.currentIs "(").bind fun _ => .ite ?_ (.firstOf fun x hx => ?_)
  · exact (writes_bracketed hc hdown).bind fun _ => .pure true
  · simp only [List.mem_cons, List.not_mem_nil, or_false] at hx
    rcases hx with rfl | rfl | rfl | rfl | rfl | rfl | rfl
    · exact writes_call hc hdown
    · exact writes_macroCall hc
    · exact writes_value hc hdown
    · exact writes_list hc hdown
    · exact writes_point hc hdown
    · exact writes_comprehension hc hdown
    · exact writes_block hc

end parts
end PlotScript
