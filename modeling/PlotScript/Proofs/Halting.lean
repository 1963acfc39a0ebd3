import PlotScript.Proofs.Agreement

/-! Reading by recursion on the tokens that are left. Without macros and imports this is all the
recursion there is, so a run comes to its end whatever the script is. -/

namespace PlotScript
open Compile Grammar

mutual

/-- Reads an expression by recursion on the tokens that are left. -/
def readExpression (c : Compiler) : EStateM.Result Fault Compiler Verdict :=
  expressionFrom ⟨c.remaining,
    fun d => if d.remaining < c.remaining then readExpression d else .error .exhausted d,
    fun fresh d =>
      if d.remaining < c.remaining then readStatement fresh d else .error .exhausted d⟩ c
termination_by c.remaining

/-- Reads a statement by recursion on the tokens that are left. -/
def readStatement (fresh : Bool) (c : Compiler) : EStateM.Result Fault Compiler Unit :=
  statementFrom ⟨c.remaining,
    fun d => if d.remaining < c.remaining then readExpression d else .error .exhausted d,
    fun fresh d =>
      if d.remaining < c.remaining then readStatement fresh d else .error .exhausted d⟩ fresh c
termination_by c.remaining

end

/-- The reading by recursion, with so many rounds for a repetition. -/
def reader (rounds : Nat) : Descent := ⟨rounds, readExpression, readStatement⟩

/-- The reading by recursion from a state, which refuses to go on where no token was passed. -/
def readerBelow (c : Compiler) : Descent :=
  ⟨c.remaining,
    fun d => if d.remaining < c.remaining then readExpression d else .error .exhausted d,
    fun fresh d =>
      if d.remaining < c.remaining then readStatement fresh d else .error .exhausted d⟩

theorem readExpression_eq (c : Compiler) :
    readExpression c = expressionFrom (readerBelow c) c := by
  rw [readExpression]
  rfl

theorem readStatement_eq (fresh : Bool) (c : Compiler) :
    readStatement fresh c = statementFrom (readerBelow c) fresh c := by
  rw [readStatement]
  rfl

section agreement
variable {ts : Array Token}

theorem agree_readerBelow {c : Compiler} {n : Nat} {e : Descent}
    (h : Agree ts c.remaining (reader n) e) : Agree ts c.remaining (readerBelow c) e := by
  refine ⟨⟨Nat.le_refl _, h.rounds.2⟩, fun d hd hlt => ?_, fun fresh d hd hlt => ?_⟩
  · have hsame : (readerBelow c).expression d = readExpression d := if_pos hlt
    rw [hsame]
    exact h.expression d hd hlt
  · have hsame : (readerBelow c).statement fresh d = readStatement fresh d := if_pos hlt
    rw [hsame]
    exact h.statement fresh d hd hlt

/-- The reading by recursion agrees with the reading with a budget that is large enough. -/
theorem agree_reader (hcalm : Calm ts) {k n m : Nat} (hn : k ≤ n) (hm : k ≤ m) :
    Agree ts k (reader n) (descent m) := by
  induction k generalizing n m with
  | zero =>
    exact ⟨⟨hn, hm⟩, fun _ _ hk => absurd hk (Nat.not_lt_zero _),
      fun _ _ _ hk => absurd hk (Nat.not_lt_zero _)⟩
  | succ k ih =>
    obtain ⟨m, rfl⟩ : ∃ i, m = i + 1 := ⟨m - 1, by omega⟩
    have hbelow : ∀ c : Compiler, c.remaining < k + 1 →
        Agree ts c.remaining (readerBelow c) (descent m) := by
      intro c hk
      have hagree : Agree ts k (reader k) (descent m) := ih (Nat.le_refl k) (by omega)
      exact agree_readerBelow (hagree.mono (Nat.le_of_lt_succ hk))
    refine ⟨⟨hn, hm⟩, fun c hc hk => ?_, fun fresh c hc hk hcurrent => ?_⟩
    · have hread := alike_expressionFrom (hbelow c hk) hcalm c hc (Nat.lt_succ_self _)
      rw [← readExpression_eq] at hread
      exact hread
    · have hread := statementFrom_alike (hbelow c hk) hcalm fresh hc (Nat.lt_succ_self _) hcurrent
      rw [← readStatement_eq] at hread
      exact hread

/-- What another descent does matters only where fewer tokens are left than at the beginning. -/
theorem reads_of_eq_below (hcalm : Calm ts) {c : Compiler} (hc : c.Settled ts) {down : Descent}
    (hrounds : c.remaining ≤ down.rounds)
    (hdown : ∀ d : Compiler, d.remaining < c.remaining → down.expression d = readExpression d ∧
      ∀ fresh, down.statement fresh d = readStatement fresh d) :
    expressionFrom down c = readExpression c ∧
      ∀ fresh, statementFrom down fresh c = readStatement fresh c := by
  have hreader : Agree ts c.remaining (reader c.remaining) (descent c.remaining) :=
    agree_reader hcalm (Nat.le_refl _) (Nat.le_refl _)
  have hagree : Agree ts c.remaining (reader c.remaining) down := by
    refine ⟨⟨Nat.le_refl _, hrounds⟩, fun d hd hlt => ?_, fun fresh d hd hlt hcurrent => ?_⟩
    · exact ⟨(hdown d hlt).1, (hreader.expression d hd hlt).2⟩
    · exact ⟨(hdown d hlt).2 fresh, (hreader.statement fresh d hd hlt hcurrent).2⟩
  have hbelow := agree_readerBelow hagree
  refine ⟨?_, fun fresh => ?_⟩
  · rw [readExpression_eq]
    exact (alike_expressionFrom hbelow hcalm c hc (Nat.lt_succ_self _)).1
  · rw [readStatement_eq]
    cases hcurrent : c.current with
    | none => simp [statementFrom, hcurrent]
    | some t =>
      have hsome : c.current.isSome = true := by rw [hcurrent]; rfl
      exact (statementFrom_alike hbelow hcalm fresh hc (Nat.lt_succ_self _) hsome).1

/-- A statement of a program passes something, also where a fault in it is passed over. -/
theorem alike_programStatement (hcalm : Calm ts) {k n : Nat} {e : Descent}
    (h : Agree ts k (reader n) e) :
    Alike ts k (· = true) (programStatement (reader n)) (programStatement e) := by
  intro c hc hk
  unfold programStatement
  rw [bind_apply, bind_apply, get_apply]
  cases hcurrent : c.current with
  | none =>
    simp only [hcurrent]
    exact ⟨trivial, .refl hc, .inl rfl⟩
  | some t =>
    have hsome : c.current.isSome = true := by rw [hcurrent]; rfl
    simp only [hcurrent]
    cases hline : t.isNewline with
    | false => exact h.statement_bind (.pure trivial) hc hk hsome
    | true =>
      obtain ⟨heq, -⟩ := h.statement true c hc hk hsome
      have hagree : Agree ts c.remaining (readerBelow c) e :=
        agree_readerBelow (h.mono (Nat.le_of_lt hk))
      obtain ⟨c', hlater, hlt, hnext⟩ :=
        statementFrom_newline hagree hcalm true hc (Nat.lt_succ_self _) hcurrent hline
      rw [← readStatement_eq] at hnext
      have hquiet : Onward ts Anywhere c' (endingQuietly ((reader n).statement true) c) :=
        Onward.endingQuietly hnext
      have hround : Onward ts Anywhere c'
          ((do
            endingQuietly ((reader n).statement true)
            return false : Compile Bool) c) :=
        (Alike.bind_onward hquiet (Nat.lt_of_lt_of_le hlt (Nat.le_of_lt hk)) fun _ =>
          .pure trivial).2
      refine ⟨?_, hround.of_lt hlater hlt⟩
      have hsame : endingQuietly (e.statement true) c =
          endingQuietly ((reader n).statement true) c := by
        unfold endingQuietly
        rw [tryCatch_apply, tryCatch_apply, heq]
      simp only [if_true, bind_apply, hsame]

/-- A program is read by recursion as with a budget that is large enough. -/
theorem program_reads (hcalm : Calm ts) {c : Compiler} (htokens : c.tokens = ts)
    (hcurrent : ∀ t, c.current = some t → ts[0]? = some t) {n m : Nat} (hn : ts.size < n)
    (hm : ts.size < m) :
    program (descent m) c = program (reader n) c ∧
      ∀ f c', program (reader n) c = .error f c' → c'.Blames f := by
  have hsettled : c.withFreshDocument.Settled ts := by
    refine ⟨htokens, fun t ht => ⟨Int.le_refl 0, ?_⟩⟩
    exact (Place.get?_natCast ts 0).trans (hcurrent t ht)
  have hremaining : c.withFreshDocument.remaining < ts.size + 1 := by
    have hposition : c.withFreshDocument.position = 0 := rfl
    unfold Compiler.remaining
    rw [hsettled.tokens, hposition]
    split <;> omega
  have hround : Alike ts (ts.size + 1) (· = true) (programStatement (reader n))
      (programStatement (descent m)) :=
    alike_programStatement hcalm (agree_reader hcalm hn hm)
  have hloop : Alike ts (ts.size + 1) Anywhere (loop (programStatement (reader n)) n)
      (loop (programStatement (descent m)) m) := hround.loop hn hm
  obtain ⟨hsame, honward⟩ := hloop _ hsettled hremaining
  refine ⟨hsame, fun f c' hrun => ?_⟩
  have herror : loop (programStatement (reader n)) n c.withFreshDocument = .error f c' := hrun
  rw [herror] at honward
  exact honward.2

/-- A program is read to its end, by recursion as with a budget that is large enough. -/
theorem program_halts (hcalm : Calm ts) {c : Compiler} (htokens : c.tokens = ts)
    (hcurrent : ∀ t, c.current = some t → ts[0]? = some t) {n m : Nat} (hn : ts.size < n)
    (hm : ts.size < m) :
    program (descent m) c = program (reader n) c ∧
      ∀ f c', program (reader n) c = .error f c' → f ≠ .exhausted := by
  obtain ⟨hsame, hblames⟩ := program_reads hcalm htokens hcurrent hn hm
  refine ⟨hsame, ?_⟩
  rintro _ c' hrun rfl
  exact hblames _ c' hrun

end agreement

/-- A run with the given reading of expressions and statements. -/
def runWith (down : Descent) : Compile (Option String) := do
  let c ← get
  if c.tokens.isEmpty then return none
  set { c with line := c.line + 1 }
  program down
  let document := renderDocument ((← get).document.getD #[])
  print ("Copied:  " ++ document)
  print (macroListing (← get).macros)
  return some document

theorem run_eq_runWith (c : Compiler) : run c = runWith (descent c.budget) c := by
  unfold run runWith
  rw [bind_apply, bind_apply, get_apply]

theorem runWith_of_tokens {c : Compiler} (h : c.tokens.isEmpty = false) (down : Descent) :
    runWith down c = (match program down { c with line := c.line + 1 } with
      | .ok _ d => .ok (some (renderDocument (d.document.getD #[]))) { d with
          printed := (d.printed.push ("Copied:  " ++ renderDocument (d.document.getD #[]))).push
            (macroListing d.macros) }
      | .error f d => .error f d) := by
  unfold runWith
  simp only [bind_apply, get_apply, h, Bool.false_eq_true, if_false, set_apply]
  cases program down { c with line := c.line + 1 } with
  | error f d => rfl
  | ok _ d => simp [print]

/-- The rounds of all repetitions; those of a call are told its function. -/
def repetitions (down : Descent) (called : String) : List (Compile Bool) :=
  [programStatement down, namespaceStatement down, blockStatement down, functionParameter,
    listItem down, callArgument down called]

theorem remaining_le_size {ts : Array Token} {c : Compiler} (hc : c.Settled ts) :
    c.remaining ≤ ts.size := by
  have htokens := hc.tokens
  cases hcurrent : c.current with
  | none => simp [Compiler.remaining_eq_zero hcurrent]
  | some t =>
    have hplace := (hc.current t hcurrent).1
    simp only [Compiler.remaining, hcurrent, Option.isSome_some, if_true, htokens]
    omega

theorem repetition_passes {ts : Array Token} (hcalm : Calm ts) {called : String}
    {round : Compile Bool} (hround : round ∈ repetitions (reader (ts.size + 1)) called)
    {c c' : Compiler} (hc : c.Settled ts) (hrun : round c = .ok false c') :
    c'.remaining < c.remaining := by
  have hagree : Agree ts (ts.size + 1) (reader (ts.size + 1)) (descent (ts.size + 1)) :=
    agree_reader hcalm (Nat.le_refl _) (Nat.le_refl _)
  have hk : c.remaining < ts.size + 1 := Nat.lt_succ_of_le (remaining_le_size hc)
  have hend : Onward ts (· = true) c (round c) := by
    simp only [repetitions, List.mem_cons, List.not_mem_nil, or_false] at hround
    rcases hround with rfl | rfl | rfl | rfl | rfl | rfl
    · exact (alike_programStatement hcalm hagree c hc hk).2
    · exact (alike_namespaceStatement hagree c hc hk).2
    · exact (alike_blockStatement hagree c hc hk).2
    · exact (alike_functionParameter c hc hk).2
    · exact (alike_listItem hagree c hc hk).2
    · exact (alike_callArgument hagree called c hc hk).2
  rw [hrun] at hend
  exact hend.2.resolve_left (by decide)

theorem eq_of_ofCode {files : Files} {code : String} {c : Compiler}
    (h : Compiler.ofCode files code = .ok c) :
    c = {
      code
      lines := Text.splitLines code
      tokens := ((Lexer.read code).tokens ++ [Token.newline]).toArray
      current := (Lexer.read code).tokens.head?
      files } := by
  unfold Compiler.ofCode at h
  dsimp only at h
  split at h
  · cases h
  · exact (Except.ok.inj h).symm

/-- A script begins at its first token, and there is always the newline behind its last. -/
theorem ofCode_begins {files : Files} {code : String} {c : Compiler}
    (h : Compiler.ofCode files code = .ok c) :
    c.tokens.isEmpty = false ∧ ∀ t, c.current = some t → c.tokens[0]? = some t := by
  obtain rfl := eq_of_ofCode h
  refine ⟨by simp, fun t ht => ?_⟩
  obtain ⟨rest, hrest⟩ := List.head?_eq_some_iff.mp ht
  simp [hrest]

/-- Without imports and macro calls every run comes to its end: reading is a recursion on the
tokens that are left, in which it only matters what is done where fewer are left, and every
repetition passes a token or ends. -/
theorem run_halts {files : Files} {code : String} {c : Compiler}
    (hcode : Compiler.ofCode files code = .ok c)
    (hcalm : ∀ t ∈ c.tokens, t.is "import" = false ∧ t.is "!" = false) :
    run c = runWith (reader (c.tokens.size + 1)) c ∧
    (∀ f c', run c = .error f c' → f ≠ .exhausted) ∧
    (∀ (s : Compiler) (down : Descent), s.Settled c.tokens → s.remaining ≤ down.rounds →
      (∀ d : Compiler, d.remaining < s.remaining → down.expression d = readExpression d ∧
        ∀ fresh, down.statement fresh d = readStatement fresh d) →
      expressionFrom down s = readExpression s ∧
        ∀ fresh, statementFrom down fresh s = readStatement fresh s) ∧
    (∀ called, ∀ round ∈ repetitions (reader (c.tokens.size + 1)) called, ∀ s s' : Compiler,
      s.Settled c.tokens → round s = .ok false s' → s'.remaining < s.remaining) := by
  obtain ⟨htokens, hfirst⟩ := ofCode_begins hcode
  have hbudget : c.tokens.size < c.budget := by
    unfold Compiler.budget
    omega
  obtain ⟨hsame, hends⟩ := program_halts (c := { c with line := c.line + 1 }) hcalm rfl hfirst
    (Nat.lt_succ_self _) hbudget
  have hrun : run c = runWith (reader (c.tokens.size + 1)) c := by
    rw [run_eq_runWith, runWith_of_tokens htokens, runWith_of_tokens htokens, hsame]
  refine ⟨hrun, fun f c' hfault => ?_, fun s down hs => reads_of_eq_below hcalm hs,
    fun called round hround s s' => repetition_passes hcalm hround⟩
  rw [hrun, runWith_of_tokens htokens] at hfault
  split at hfault
  · cases hfault
  · cases hfault
    exact hends _ _ ‹_›

/-- A namespace that is not closed, with a bracket in it that is not closed either. -/
def unclosed : String := "\nns N \x7b\na = ((1)) (5"

theorem unclosed_halts :
    ∃ c c', Compiler.ofCode [] unclosed = .ok c ∧
      (∀ t ∈ c.tokens, t.is "import" = false ∧ t.is "!" = false) ∧
      runWith (reader (c.tokens.size + 1)) c =
        .error (.diagnostic ⟨"Expected statement", 3, "a = ((1)) (5"⟩) c' := by
  have hrun : (match Compiler.ofCode [] unclosed with
      | .error _ => none
      | .ok c => match run c with
        | .ok _ _ => none
        | .error f _ => some (c.tokens.all fun t => !t.is "import" && !t.is "!", f)) =
      some (true, .diagnostic ⟨"Expected statement", 3, "a = ((1)) (5"⟩) := by
    decide +kernel
  cases hcode : Compiler.ofCode [] unclosed with
  | error f => simp [hcode] at hrun
  | ok c =>
    cases hend : run c with
    | ok d c' => simp [hcode, hend] at hrun
    | error f c' =>
      obtain ⟨hall, rfl⟩ : (c.tokens.all fun t => !t.is "import" && !t.is "!") = true ∧
          f = .diagnostic ⟨"Expected statement", 3, "a = ((1)) (5"⟩ := by
        simpa only [hcode, hend, Option.some.injEq, Prod.mk.injEq] using hrun
      have hcalm : ∀ t ∈ c.tokens, t.is "import" = false ∧ t.is "!" = false := by
        intro t ht
        simpa using Array.all_eq_true_iff_forall_mem.mp hall t ht
      exact ⟨c, c', rfl, hcalm, (run_halts hcode hcalm).1.symm.trans hend⟩

end PlotScript
