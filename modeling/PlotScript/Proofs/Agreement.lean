import PlotScript.Proofs.Naming
import PlotScript.Proofs.Onward

/-! Forms of the grammar with two descents. Where the two agree on all states with few tokens left,
each form agrees on all states with as many, and on those with one more if it passes a token before
it goes down. -/

namespace PlotScript
open Compile Grammar

namespace Grammar

/-- The forms that a statement can have. -/
def statementForms (down : Descent) : Compile Bool :=
  firstOf [namespaceBlock down, function down,
    (do return (← expressionFrom down) = Verdict.accepted), note, macroDefinition, importModule,
    conditional down]

/-- A statement behind the newlines in front of it. -/
def statementBody (down : Descent) (fresh : Bool) : Compile Unit := do
  if fresh then openBlank
  stampEntry
  unless ← statementForms down do fail "Expected statement"
  advance

theorem statementFrom_of_isSome (down : Descent) (fresh : Bool) {c : Compiler}
    (h : c.current.isSome = true) :
    statementFrom down fresh c = (do
      skipNewlines
      statementBody down fresh : Compile Unit) c := by
  have hnone : c.current.isNone = false := by
    rw [Option.isNone_eq_false_iff]
    exact h
  unfold statementFrom
  rw [bind_apply, get_apply]
  simp only [hnone]
  rfl

end Grammar

/-- No macro is called and nothing is imported. -/
def Calm (ts : Array Token) : Prop := ∀ t ∈ ts, t.is "import" = false ∧ t.is "!" = false

/-- Two descents that do the same wherever less than `k` tokens are left. A statement is only read
where there is a token, and then it passes something. -/
structure Agree (ts : Array Token) (k : Nat) (d e : Descent) : Prop where
  rounds : k ≤ d.rounds ∧ k ≤ e.rounds
  expression : Alike ts k Anywhere d.expression e.expression
  statement : ∀ fresh (c : Compiler), c.Settled ts → c.remaining < k → c.current.isSome = true →
    e.statement fresh c = d.statement fresh c ∧
      Onward ts (fun _ => False) c (d.statement fresh c)

theorem Agree.mono {ts : Array Token} {k l : Nat} {d e : Descent} (h : Agree ts l d e)
    (hkl : k ≤ l) : Agree ts k d e :=
  ⟨⟨Nat.le_trans hkl h.rounds.1, Nat.le_trans hkl h.rounds.2⟩, h.expression.mono hkl,
    fun fresh c hc hk => h.statement fresh c hc (Nat.lt_of_lt_of_le hk hkl)⟩

section forms
variable {ts : Array Token} {k : Nat} {d e : Descent}

theorem alike_operator : Alike ts k (· = false) operator operator := by
  refine Alike.bind .get fun c => ?_
  cases c.current with
  | none => exact .pure rfl
  | some t =>
    refine .ite ?_ (.pure rfl)
    exact (Alike.emit _).bind fun _ => .advance_then (.pure trivial)

theorem alike_functionParameter : Alike ts k (· = true) functionParameter functionParameter := by
  refine (Alike.currentIs _).bind fun _ => .ite (.pure rfl) ?_
  refine Alike.current.bind fun t => ?_
  split
  · exact .fail _
  · refine (Alike.emitFrom (Alike.innermost.bind fun _ => .subscript _)).bind fun _ => ?_
    refine Alike.get.bind fun c => (Alike.addName _ _ _).bind fun _ => ?_
    refine .advance_then ?_
    refine (Alike.currentIs _).bind fun _ => .ite ?_ ?_
    · exact (Alike.emit _).bind fun _ => Alike.advance.bind fun _ => .pure trivial
    · refine (Alike.currentIs _).orFail _ ?_
      exact (Alike.emit _).bind fun _ => Alike.advance.bind fun _ => .pure trivial

theorem alike_wordText (t : Token) : Alike ts k Anywhere (wordText t) (wordText t) := by
  unfold wordText
  split
  · exact .pure trivial
  · exact .throw fun _ => trivial

section inside
variable (h : Agree ts k d e)
include h

theorem Agree.tryExpression : Alike ts k Anywhere d.tryExpression e.tryExpression :=
  h.expression.bind fun _ => .pure trivial

theorem Agree.acceptsExpression : Alike ts k Anywhere d.acceptsExpression e.acceptsExpression :=
  h.expression.bind fun _ => .pure trivial

/-- Behind an operator there is one token less to go. -/
theorem alike_operation : Alike ts (k + 1) Anywhere (operation d) (operation e) := by
  refine alike_operator.bind_passing (fun found hfound => ?_) fun found hfound => ?_
  · subst hfound
    exact .pure trivial
  · exact .ite h.tryExpression (.pure trivial)

theorem alike_listItem : Alike ts k (· = true) (listItem d) (listItem e) := by
  refine (Alike.currentIs _).bind fun _ => .ite (.pure rfl) ?_
  refine h.tryExpression.bind fun _ => ?_
  refine (Alike.currentIs _).bind fun _ => .ite (.pure rfl) ?_
  refine (Alike.currentIs _).orFail _ ?_
  exact (Alike.emit _).bind fun _ => .advance_then (.pure trivial)

theorem alike_list : Alike ts (k + 1) Anywhere (list d) (list e) := by
  refine (Alike.currentIs _).bind fun _ => .ite ?_ (.pure trivial)
  refine (Alike.emit _).bind fun _ => .advance_bind ?_
  refine ((alike_listItem h).loop h.rounds.1 h.rounds.2).bind fun _ => ?_
  exact (Alike.emit _).bind fun _ => Alike.advance.bind fun _ => .pure trivial

theorem alike_listAccess : Alike ts (k + 1) Anywhere (listAccess d) (listAccess e) :=
  (Alike.currentIs _).bind fun _ => .ite (alike_list h) (.pure trivial)

theorem alike_reference (name : String) :
    Alike ts (k + 1) Anywhere (reference d name) (reference e name) := by
  refine Alike.get.bind fun c => (Alike.isBound _ _).orFail _ ?_
  refine (Alike.nextIs _).bind fun _ => .ite ?_ (.emitName _)
  refine .advance_bind (.advance_then ?_)
  exact h.tryExpression.bind fun _ => .popScope

theorem alike_nameValue (name : String) :
    Alike ts (k + 1) Anywhere (nameValue d name) (nameValue e name) := by
  have hreference := alike_reference h name
  rw [nameValue_eq, nameValue_eq]
  refine Alike.latex.bind fun text => ?_
  by_cases htext : text = ""
  · rw [if_pos htext, if_pos htext]
    exact (Alike.nextIs _).bind fun _ => .ite ((Alike.define _).bind fun _ => hreference) hreference
  · rw [if_neg htext, if_neg htext]
    exact hreference

theorem alike_unsignedValue : Alike ts (k + 1) Anywhere (unsignedValue d) (unsignedValue e) := by
  have hbehind : Alike ts (k + 1) Anywhere
      (do
        advance
        discard (listAccess d)
        return true)
      (do
        advance
        discard (listAccess e)
        return true) :=
    Alike.advance.bind fun _ =>
      (alike_listAccess h).discard.bind fun _ => .pure trivial
  refine Alike.current.bind fun t => ?_
  cases t.name? with
  | none => exact (Alike.emit _).bind fun _ => hbehind
  | some name => exact (alike_nameValue h name).bind fun _ => hbehind

theorem alike_value : Alike ts (k + 1) Anywhere (value d) (value e) := by
  have hunsigned := alike_unsignedValue h
  rw [value_eq, value_eq]
  refine Alike.get.bind fun c => ?_
  cases c.current with
  | none => exact .pure trivial
  | some t =>
    refine .ite (.ite ?_ hunsigned) (.pure trivial)
    exact (Alike.emit _).bind fun _ => Alike.advance.bind fun _ => hunsigned

theorem alike_callArgument (function : String) :
    Alike ts k (· = true) (callArgument d function) (callArgument e function) := by
  refine (Alike.currentIs _).bind fun _ => .ite (.pure rfl) ?_
  refine (Alike.currentIs _).orFail _ ?_
  refine (Alike.emit _).bind fun _ => .advance_then ?_
  exact h.acceptsExpression.orFail _ (.pure trivial)

theorem alike_call : Alike ts (k + 1) Anywhere (call d) (call e) := by
  refine Alike.get.bind fun c => Alike.current.bind fun t => ?_
  cases t.text? with
  | none => exact .pure trivial
  | some function =>
    refine .ite ?_ (.pure trivial)
    have hhead : Alike ts (k + 1) Anywhere (callHead c.functions function)
        (callHead c.functions function) := by
      unfold callHead
      refine .ite (.pure trivial) (.ite ?_ (.pure trivial))
      exact (Alike.subscript _).bind fun _ => .pure trivial
    refine (Alike.emitFrom hhead).bind fun _ => .advance_bind ?_
    refine (Alike.currentIs _).orFail _ (.advance_then ?_)
    refine h.acceptsExpression.orFail _ ?_
    refine ((alike_callArgument h function).loop h.rounds.1 h.rounds.2).bind fun _ => ?_
    exact (Alike.emit _).bind fun _ => .advance_then (.pure trivial)

theorem alike_point : Alike ts (k + 1) Anywhere (point d) (point e) := by
  refine (Alike.currentIs _).bind fun _ => .ite (.advance_bind ?_) (.pure trivial)
  refine (Alike.emit _).bind fun _ => h.acceptsExpression.orFail _ ?_
  refine (Alike.currentIs _).orFail _ ((Alike.emit _).bind fun _ => .advance_then ?_)
  refine h.acceptsExpression.orFail _ ((Alike.emit _).bind fun _ => ?_)
  exact (Alike.currentIs _).orFail _ (.advance_then (.pure trivial))

theorem alike_comprehension :
    Alike ts (k + 1) Anywhere (comprehension d) (comprehension e) := by
  have hlist := (alike_list h).mono (Nat.le_succ k)
  refine Alike.current.bind fun t => ?_
  refine .unlessEither (.nextIs _) ?_
  refine (Alike.emitFrom (alike_wordText t)).bind fun _ => .advance_bind ?_
  refine (Alike.currentIs _).orFail _ ((Alike.emit _).bind fun _ => .advance_then ?_)
  refine Alike.current.bind fun t => ?_
  split
  · exact .fail _
  · refine (Alike.emit _).bind fun _ => .advance_then ?_
    refine (Alike.currentIs _).orFail _ (.advance_then ?_)
    refine (Alike.emit _).bind fun _ => hlist.orFail _ ?_
    exact .advance_then (.pure trivial)

/-- A statement and what follows it, from a token on. -/
theorem Agree.statement_bind {fresh : Bool} {rest : Compile Bool}
    (hrest : Alike ts k Anywhere rest rest) {c : Compiler} (hc : c.Settled ts)
    (hk : c.remaining < k) (hcurrent : c.current.isSome = true) :
    (e.statement fresh >>= fun _ => rest) c = (d.statement fresh >>= fun _ => rest) c ∧
      Onward ts (· = true) c ((d.statement fresh >>= fun _ => rest) c) := by
  obtain ⟨heq, honward⟩ := h.statement fresh c hc hk hcurrent
  rw [bind_apply, bind_apply, heq]
  cases hrun : d.statement fresh c with
  | error f c' =>
    rw [hrun] at honward
    exact ⟨rfl, honward⟩
  | ok _ c' =>
    rw [hrun] at honward
    have hlater := honward.1
    have hlt := honward.2.resolve_left id
    obtain ⟨hsame, hnext⟩ := hrest c' hlater.settled (by omega)
    exact ⟨rfl, hnext.of_lt hlater hlt⟩

theorem alike_blockStatement : Alike ts k (· = true) (blockStatement d) (blockStatement e) := by
  refine .currentIs_bind fun done c hc hk hcurrent => ?_
  cases done with
  | true => exact ⟨rfl, .refl hc, .inl rfl⟩
  | false => exact h.statement_bind (.pure trivial) hc hk hcurrent

theorem alike_namespaceStatement :
    Alike ts k (· = true) (namespaceStatement d) (namespaceStatement e) := by
  refine .currentIs_bind fun done c hc hk hcurrent => ?_
  cases done with
  | true => exact ⟨rfl, .refl hc, .inl rfl⟩
  | false =>
    have hrest : Alike ts k Anywhere
        (do
          skipNewlines
          return false)
        (do
          skipNewlines
          return false) := (Alike.skipWhile _).bind fun _ => .pure trivial
    exact h.statement_bind hrest hc hk hcurrent

theorem alike_block : Alike ts (k + 1) Anywhere (block d) (block e) := by
  refine (Alike.currentIs _).bind fun _ => .ite (.advance_bind ?_) (.pure trivial)
  refine ((alike_blockStatement h).loop h.rounds.1 h.rounds.2).bind fun _ => ?_
  exact .advance_then (.pure trivial)

theorem alike_bracketed : Alike ts (k + 1) Anywhere (bracketed d) (bracketed e) := by
  refine (Alike.emit _).bind fun _ => .advance_bind ?_
  refine h.tryExpression.bind fun _ => (Alike.currentIs _).orFail _ ?_
  exact (Alike.emit _).bind fun _ => Alike.advance.anywhere

variable (hcalm : Calm ts)
include hcalm

omit h in
theorem alike_macroCall : Alike ts k Anywhere macroCall macroCall :=
  .nextIs_absent (fun t ht => (hcalm t ht).2) (.pure trivial)

omit h in
theorem alike_importModule : Alike ts k Anywhere importModule importModule :=
  .currentIs_absent (fun t ht => (hcalm t ht).1) (.pure trivial)

omit h in
theorem alike_macroDefinition : Alike ts k Anywhere macroDefinition macroDefinition := by
  refine (Alike.currentIs _).bind fun _ => .ite ?_ (.pure trivial)
  refine Alike.advance.bind fun _ => Alike.current.bind fun t => ?_
  split
  · exact .fail _
  · refine Alike.bind (.modify fun _ => ⟨rfl, rfl, rfl, id⟩) fun _ => ?_
    refine Alike.get.bind fun c => (Alike.addName _ _ _).bind fun _ => ?_
    refine (Alike.pushScope _).bind fun _ => Alike.advance.bind fun _ => ?_
    exact .currentIs_absent (fun t ht => (hcalm t ht).2) (.fail_bind _)

theorem alike_operand : Alike ts (k + 1) Anywhere (operand d) (operand e) := by
  refine (Alike.currentIs _).bind fun _ => .ite ?_ ?_
  · exact (alike_bracketed h).bind fun _ => .pure trivial
  · refine .firstOf_cons (alike_call h) (.firstOf_cons (alike_macroCall hcalm) ?_)
    refine .firstOf_cons (alike_value h) (.firstOf_cons (alike_list h) ?_)
    refine .firstOf_cons (alike_point h) (.firstOf_cons (alike_comprehension h) ?_)
    exact .firstOf_cons (alike_block h) .firstOf_nil

end inside

/-! An attempt to read a point is undone by going back to before its first token. -/

/-- The attempt is undone: one step leads back to where it began. -/
def Rewound (ts : Array Token) (c : Compiler) : EStateM.Result Fault Compiler Bool → Prop
  | .ok done c' => done = false ∧ c'.tokens = ts ∧ c'.position = c.position - 1 ∧ c'.IsOpen
  | .error _ _ => False

theorem setLatex_frame {c : Compiler} (hopen : c.IsOpen) (text : String) :
    ∃ c', setLatex text c = .ok () c' ∧ c'.tokens = c.tokens ∧ c'.position = c.position ∧
      c'.IsOpen := by
  exact ⟨c.withText text, setLatex_eq hopen text, rfl, rfl, hopen.withText text⟩

theorem rewound_of_later {c c' : Compiler} (hlater : Later ts c c') (hopen : c.IsOpen)
    (text : String) :
    Rewound ts c ((do
      rewind c.position text
      return false : Compile Bool) c') := by
  have hopen' : Compiler.IsOpen { c' with position := c.position - 1 } := hlater.isOpen hopen
  obtain ⟨d, hrun, htokens, hposition, hstill⟩ := setLatex_frame hopen' text
  have hrewind : rewind c.position text c' = .ok () d := hrun
  rw [bind_apply, hrewind]
  exact ⟨rfl, htokens.trans hlater.settled.tokens, hposition, hstill⟩

theorem alike_atEnd (closers : List String) :
    Alike ts k Anywhere (atEnd closers) (atEnd closers) := by
  refine Alike.get.bind fun c => ?_
  cases c.current with
  | none => exact .pure trivial
  | some t => exact .pure trivial

/-- A mistake in an attempt is undone. -/
theorem tryCatch_rewound {c : Compiler} (hopen : c.IsOpen) (text : String) {x x' : Compile Bool}
    (hx : x' c = x c ∧ (Onward ts Anywhere c (x c) ∨ Rewound ts c (x c))) :
    let handler : Fault → Compile Bool := fun
      | .diagnostic _ => do
        rewind c.position text
        return false
      | f => throw f
    tryCatch x' handler c = tryCatch x handler c ∧
      (Onward ts Anywhere c (tryCatch x handler c) ∨ Rewound ts c (tryCatch x handler c)) := by
  obtain ⟨heq, hend⟩ := hx
  dsimp only
  rw [tryCatch_apply, tryCatch_apply, heq]
  refine ⟨rfl, ?_⟩
  cases hrun : x c with
  | ok done c' =>
    rw [hrun] at hend
    exact hend
  | error f c' =>
    rw [hrun] at hend
    have honward := hend.resolve_right id
    cases f with
    | diagnostic m => exact .inr (rewound_of_later honward.1 hopen text)
    | _ => exact .inl honward

/-- Whatever comes of an attempt at a point, it goes on from there or it is undone. -/
theorem pointFirst_alike (h : Agree ts k d e) {c : Compiler} (hc : c.Settled ts)
    (hk : c.remaining < k + 1) :
    pointFirst e c = pointFirst d c ∧
      (Onward ts Anywhere c (pointFirst d c) ∨ Rewound ts c (pointFirst d c)) := by
  have hlatex : Onward ts Anywhere c (latex c) := (Alike.latex c hc hk).2
  unfold pointFirst
  rw [bind_apply, bind_apply]
  cases htext : latex c with
  | error f c' =>
    rw [htext] at hlatex
    exact ⟨rfl, .inl hlatex⟩
  | ok text c' =>
    obtain ⟨rfl, hopen⟩ := eq_of_latex htext
    refine tryCatch_rewound hopen text ?_
    obtain ⟨hpoint, hend⟩ := alike_point h c' hc hk
    rw [bind_apply, bind_apply, hpoint]
    cases hrun : point d c' with
    | error f c₁ =>
      rw [hrun] at hend
      exact ⟨rfl, .inl hend⟩
    | ok found c₁ =>
      rw [hrun] at hend
      have hlater := hend.1
      cases found with
      | false => exact ⟨rfl, .inr (rewound_of_later hlater hopen text)⟩
      | true =>
        have hbehind : Alike ts (k + 1) Anywhere
            (do
              operation d
              atEnd [",", "]", ")"])
            (do
              operation e
              atEnd [",", "]", ")"]) :=
          (alike_operation h).bind fun _ => alike_atEnd _
        have hbound := Nat.lt_of_le_of_lt hlater.remaining_le hk
        obtain ⟨hsame, honward⟩ := hbehind c₁ hlater.settled hbound
        exact ⟨hsame, .inl (honward.of_later hlater)⟩

/-- One step from an undone attempt leads back to where it began. -/
theorem advance_rewound {c c' : Compiler} (hc : c.Settled ts) (hcurrent : c.current.isSome = true)
    (hrewound : Rewound ts c (.ok false c')) : Onward ts Anywhere c (advance c') := by
  obtain ⟨t, ht⟩ := Option.isSome_iff_exists.mp hcurrent
  obtain ⟨-, htokens, hposition, hopen⟩ := hrewound
  have hplace := (hc.current t ht).1
  have hhere : c.remaining = (ts.size - c.position).toNat := by
    simp [Compiler.remaining, hcurrent, hc.tokens]
  -- the token that the attempt reached is still current, but the position decides where to go
  cases hreached : c'.current with
  | none =>
    have hnone : ∀ u, c'.current = some u → 0 ≤ c'.position ∧
        Place.get? ts c'.position = some u := by simp [hreached]
    rw [advance_of_none hreached]
    refine ⟨⟨⟨htokens, hnone⟩, ?_, fun _ => hopen⟩, trivial⟩
    simp [Compiler.remaining_eq_zero hreached]
  | some s =>
    obtain ⟨hsettled, hle, hstill⟩ := advanced_later (t := s) htokens (by omega)
    rw [advance_of_some hreached]
    exact ⟨⟨hsettled, by omega, fun _ => hstill hopen⟩, .inl trivial⟩

theorem isSome_of_pointFirst {c c' : Compiler} {done : Bool} (h : pointFirst d c = .ok done c') :
    c.current.isSome = true := by
  cases hcurrent : c.current with
  | some t => rfl
  | none =>
    exfalso
    have hpoint : point d c = .error .noToken c := by
      simp [point, currentIs, current, hcurrent]
    unfold pointFirst at h
    rw [bind_apply] at h
    cases htext : latex c with
    | error f d => simp [htext] at h
    | ok text d =>
      have hwritten := text?_of_latex htext
      rw [latex_eq_ok hwritten] at h
      simp [hpoint] at h

theorem alike_expressionFrom (h : Agree ts k d e) (hcalm : Calm ts) :
    Alike ts (k + 1) Anywhere (expressionFrom d) (expressionFrom e) := by
  have hrest : Alike ts (k + 1) Anywhere
      (do
        unless ← operand d do return Verdict.refused
        operation d
        if ← atEnd [",", "]", ")", "\x7d"] then return .accepted
        return .dangling)
      (do
        unless ← operand e do return Verdict.refused
        operation e
        if ← atEnd [",", "]", ")", "\x7d"] then return .accepted
        return .dangling) := by
    refine (alike_operand h hcalm).bind fun _ => .ite ?_ (.pure trivial)
    refine (alike_operation h).bind fun _ => ?_
    exact (alike_atEnd _).bind fun _ => .ite (.pure trivial) (.pure trivial)
  intro c hc hk
  obtain ⟨heq, hend⟩ := pointFirst_alike h hc hk
  unfold expressionFrom
  rw [bind_apply, bind_apply, heq]
  cases hrun : pointFirst d c with
  | error f c' =>
    rw [hrun] at hend
    exact ⟨rfl, hend.resolve_right id⟩
  | ok done c' =>
    have hcurrent := isSome_of_pointFirst hrun
    rw [hrun] at hend
    cases done with
    | true =>
      have honward := hend.resolve_right fun hrewound => nomatch hrewound.1
      exact ⟨rfl, honward.1, .inl trivial⟩
    | false =>
      dsimp only
      rcases hend with honward | hrewound
      · have hlater := honward.1
        have hbound := Nat.lt_of_le_of_lt hlater.remaining_le hk
        have hnext := Alike.advance.bind (fun _ => hrest) c' hlater.settled hbound
        exact ⟨hnext.1, hnext.2.of_later hlater⟩
      · exact Alike.bind_onward (advance_rewound hc hcurrent hrewound) hk fun _ => hrest

/-! Conditionals. -/

theorem alike_condition (h : Agree ts k d e) :
    Alike ts (k + 1) Anywhere (condition d) (condition e) := by
  have hvalue := alike_value h
  refine hvalue.orFail _ (Alike.current.bind fun t => ?_)
  have hbehind : Alike ts (k + 1) Anywhere
      (do
        emit t.shown
        advance
        unless ← value d do fail ("Expected value after " ++ t.shown))
      (do
        emit t.shown
        advance
        unless ← value e do fail ("Expected value after " ++ t.shown)) := by
    refine (Alike.emit _).bind fun _ => Alike.advance.bind fun _ => ?_
    exact hvalue.bind fun _ => .ite (.pure trivial) (.fail _)
  exact .ite hbehind (.fail_bind _)

theorem alike_branch (h : Agree ts k d e) {opening : Compile Unit}
    (hopening : Alike ts (k + 1) Anywhere opening opening) :
    Alike ts (k + 1) Anywhere (branch d opening) (branch e opening) := by
  have hvalue := alike_value h
  refine (Alike.currentIs _).orFail _ (Alike.advance.bind fun _ => hopening.bind fun _ => ?_)
  refine (Alike.skipWhile _).bind fun _ => hvalue.orFail _ ?_
  refine (Alike.skipWhile _).bind fun _ => (Alike.currentIs _).orFail _ ?_
  exact Alike.advance.anywhere

theorem alike_otherwise (h : Agree ts k d e) :
    Alike ts (k + 1) Anywhere (otherwise d) (otherwise e) := by
  refine (Alike.currentIs _).bind fun _ => .ite ?_ (.pure trivial)
  refine Alike.advance.bind fun _ => ?_
  exact (alike_branch h (.pure trivial)).bind fun _ => .pure trivial

theorem alike_chainTail {further further' last last' : Compile Bool}
    (hfurther : Alike ts k Anywhere further further') (hlast : Alike ts k Anywhere last last') :
    Alike ts k Anywhere (chainTail further last) (chainTail further' last') := by
  refine .endingQuietly ((Alike.currentIs _).bind fun _ => .ite ?_ ?_)
  · exact (Alike.emit _).bind fun _ => hfurther.discard
  · refine (Alike.currentIs _).bind fun _ => .ite ?_ (.pure trivial)
    exact (Alike.emit _).bind fun _ => hlast.discard

/-- Every further condition is a word further on, so there are rounds enough for all of them. -/
theorem alike_furtherCondition (h : Agree ts k d e) {n m : Nat} (hn : k ≤ n) (hm : k ≤ m) :
    Alike ts k Anywhere (furtherCondition d n) (furtherCondition e m) := by
  induction k generalizing n m with
  | zero => exact fun _ _ hk => absurd hk (Nat.not_lt_zero _)
  | succ k ih =>
    obtain ⟨n, rfl⟩ : ∃ i, n = i + 1 := ⟨n - 1, by omega⟩
    obtain ⟨m, rfl⟩ : ∃ i, m = i + 1 := ⟨m - 1, by omega⟩
    have hless := h.mono (Nat.le_succ k)
    have hfurther := ih hless (Nat.le_of_succ_le_succ hn) (Nat.le_of_succ_le_succ hm)
    have hcondition := (alike_condition hless).mono (Nat.le_succ k)
    have hbranch := (alike_branch hless (.emit ":")).mono (Nat.le_succ k)
    have hlast := (alike_otherwise hless).mono (Nat.le_succ k)
    refine (Alike.currentIs _).bind fun _ => .ite (.advance_bind ?_) (.pure trivial)
    refine hcondition.bind fun _ => hbranch.bind fun _ => ?_
    exact (alike_chainTail hfurther hlast).bind fun _ => .pure trivial

theorem alike_conditional (h : Agree ts k d e) :
    Alike ts (k + 1) Anywhere (conditional d) (conditional e) := by
  have hfurther := alike_furtherCondition h h.rounds.1 h.rounds.2
  have hcondition := (alike_condition h).mono (Nat.le_succ k)
  have hbranch := (alike_branch h (.emit ":")).mono (Nat.le_succ k)
  have hlast := (alike_otherwise h).mono (Nat.le_succ k)
  refine (Alike.currentIs _).bind fun _ => .ite (.advance_bind ?_) (.pure trivial)
  refine (Alike.emit _).bind fun _ => hcondition.bind fun _ => hbranch.bind fun _ => ?_
  refine (alike_chainTail hfurther hlast).bind fun _ => ?_
  exact (Alike.emit _).bind fun _ => .pure trivial

/-! Definitions and statements. -/

theorem alike_function (h : Agree ts k d e) :
    Alike ts (k + 1) Anywhere (function d) (function e) := by
  refine (Alike.currentIs _).bind fun _ => .ite (.advance_bind ?_) (.pure trivial)
  refine Alike.current.bind fun t => ?_
  split
  · exact .fail _
  · refine (Alike.emitFrom (.subscript _)).bind fun _ => (Alike.emit _).bind fun _ => ?_
    refine Alike.get.bind fun c => (Alike.addName _ _ _).bind fun _ => ?_
    refine (Alike.pushScope _).bind fun _ => ?_
    refine Alike.bind (.modify fun _ => ⟨rfl, rfl, rfl, id⟩) fun _ => ?_
    refine Alike.advance.bind fun _ => (Alike.currentIs _).orFail _ ?_
    refine Alike.advance.bind fun _ => .loop_bind (fun _ => alike_functionParameter) ?_
    refine (Alike.currentIs _).orFail _ ((Alike.emit _).bind fun _ => ?_)
    refine Alike.advance.bind fun _ => (Alike.skipWhile _).bind fun _ => ?_
    refine h.acceptsExpression.orFail _ ((Alike.skipWhile _).bind fun _ => ?_)
    exact (Alike.currentIs _).orFail _ (Alike.popScope.bind fun _ => .pure trivial)

theorem alike_namespaceBlock (h : Agree ts k d e) :
    Alike ts (k + 1) Anywhere (namespaceBlock d) (namespaceBlock e) := by
  have hbody := (alike_namespaceStatement h).loop h.rounds.1 h.rounds.2
  refine (Alike.currentIs _).bind fun _ => .ite ?_ (.pure trivial)
  refine Alike.get.bind fun c => (Alike.updateLastEntry _).bind fun _ => .advance_bind ?_
  refine Alike.current.bind fun t => ?_
  split
  · exact .fail _
  · refine (Alike.reopenScope _).bind fun _ => (Alike.pushScope _).bind fun _ => ?_
    refine (Alike.updateLastEntry _).bind fun _ => ?_
    refine Alike.bind (.modify fun _ => ⟨rfl, rfl, rfl, id⟩) fun _ => ?_
    refine Alike.advance.bind fun _ => (Alike.currentIs _).orFail _ ?_
    refine Alike.advance.bind fun _ => hbody.endingQuietly.bind fun _ => ?_
    exact Alike.popScope.bind fun _ => .advance_then (.pure trivial)

theorem alike_note : Alike ts k Anywhere note note := by
  refine Alike.current.bind fun t => .ite ?_ (.pure trivial)
  exact (Alike.appendEntry _).bind fun _ => .advance_then (.pure trivial)

theorem alike_stampEntry : Alike ts k Anywhere stampEntry stampEntry := by
  refine Alike.bind (.modify fun _ => ⟨rfl, rfl, rfl, id⟩) fun _ => ?_
  refine Alike.get.bind fun c => (Alike.updateLastEntry _).bind fun _ => ?_
  exact Alike.updateLastEntry _

theorem alike_statementForms (h : Agree ts k d e) (hcalm : Calm ts) :
    Alike ts (k + 1) Anywhere (statementForms d) (statementForms e) := by
  have hexpression : Alike ts (k + 1) Anywhere
      (do return (← expressionFrom d) = Verdict.accepted : Compile Bool)
      (do return (← expressionFrom e) = Verdict.accepted) :=
    (alike_expressionFrom h hcalm).bind fun _ => .pure trivial
  refine .firstOf_cons (alike_namespaceBlock h) (.firstOf_cons (alike_function h) ?_)
  refine .firstOf_cons hexpression (.firstOf_cons alike_note ?_)
  refine .firstOf_cons (alike_macroDefinition hcalm) ?_
  refine .firstOf_cons (alike_importModule hcalm) ?_
  exact .firstOf_cons (alike_conditional h) .firstOf_nil

theorem alike_statementBody (h : Agree ts k d e) (hcalm : Calm ts) (fresh : Bool) :
    Alike ts (k + 1) (fun _ => False) (statementBody d fresh) (statementBody e fresh) := by
  have hforms : Alike ts (k + 1) (fun _ => False)
      (do
        stampEntry
        unless ← statementForms d do fail "Expected statement"
        advance)
      (do
        stampEntry
        unless ← statementForms e do fail "Expected statement"
        advance) :=
    alike_stampEntry.bind fun _ => (alike_statementForms h hcalm).orFail _ .advance
  exact .ite (Alike.openBlank.bind fun _ => hforms) hforms

/-- A statement that begins at a token passes at least that token. -/
theorem statementFrom_alike (h : Agree ts k d e) (hcalm : Calm ts) (fresh : Bool) {c : Compiler}
    (hc : c.Settled ts) (hk : c.remaining < k + 1) (hcurrent : c.current.isSome = true) :
    statementFrom e fresh c = statementFrom d fresh c ∧
      Onward ts (fun _ => False) c (statementFrom d fresh c) := by
  have hbody : Alike ts (k + 1) (fun _ => False)
      (do
        skipNewlines
        statementBody d fresh)
      (do
        skipNewlines
        statementBody e fresh) :=
    (Alike.skipWhile _).bind fun _ => alike_statementBody h hcalm fresh
  rw [statementFrom_of_isSome d fresh hcurrent, statementFrom_of_isSome e fresh hcurrent]
  exact hbody c hc hk

/-- A newline in front of a statement is passed even if the statement fails. -/
theorem statementFrom_newline (h : Agree ts k d e) (hcalm : Calm ts) (fresh : Bool) {c : Compiler}
    (hc : c.Settled ts) (hk : c.remaining < k + 1) {t : Token} (ht : c.current = some t)
    (hline : t.isNewline = true) :
    ∃ c', Later ts c c' ∧ c'.remaining < c.remaining ∧
      Onward ts (fun _ => False) c' (statementFrom d fresh c) := by
  have hadvance : Onward ts (fun _ => False) c (advance c) := (Alike.advance c hc hk).2
  rw [advance_of_some ht] at hadvance
  have hlater := hadvance.1
  have hlt := hadvance.2.resolve_left id
  refine ⟨c.advanced t, hlater, hlt, ?_⟩
  have hcurrent : c.current.isSome = true := by rw [ht]; rfl
  have hround : skipWhile.skipOne Token.isNewline c = .ok false (c.advanced t) := by
    simp [skipWhile.skipOne, current, ht, hline, advance_of_some ht]
  obtain ⟨n, hsteps, hn⟩ : ∃ n, c.stepsLeft = n + 1 ∧ c.remaining ≤ n := by
    refine ⟨(c.tokens.size - c.position).toNat + 1, rfl, ?_⟩
    unfold Compiler.remaining
    split <;> omega
  -- the first round passes the newline, and the others begin behind it
  have hskip : skipNewlines c = loop (skipWhile.skipOne Token.isNewline) n (c.advanced t) := by
    unfold skipNewlines skipWhile
    rw [bind_apply, get_apply]
    simp only [hsteps, loop, bind_apply, hround, Bool.false_eq_true, if_false]
  have hloop : Alike ts ((c.advanced t).remaining + 1) Anywhere
      (loop (skipWhile.skipOne Token.isNewline) n) (loop (skipWhile.skipOne Token.isNewline) n) :=
    (Alike.skipOne _).loop (by omega) (by omega)
  have hpassed := (hloop _ hlater.settled (Nat.lt_succ_self _)).2
  rw [← hskip] at hpassed
  rw [statementFrom_of_isSome d fresh hcurrent]
  have hbody := (alike_statementBody h hcalm fresh)
  exact (Alike.bind_onward hpassed (Nat.lt_trans hlt hk) fun _ => hbody).2

end forms
end PlotScript
