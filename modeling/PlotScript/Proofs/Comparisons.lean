import PlotScript.Proofs.Juxtaposed
import PlotScript.Proofs.Keeping

/-! Comparisons of two characters. No rule of the lexer takes one. What is put in while a script is
read was read by the same rules or is named after a token, so no token ever is such a comparison,
and a condition that is accepted compares by one of two signs. -/

namespace PlotScript
open Compile Grammar

/-- The comparisons of two characters. -/
def compound : List String := ["<=", ">=", "==", "!="]

theorem Token.isOneOf_eq_false {t : Token} {texts : List String} (h : t.shown ∉ texts) :
    t.isOneOf texts = false := by
  apply List.any_eq_false.mpr
  intro text htext his
  rw [shown_of_is his] at h
  exact h htext

/-- A word of any kind is what its text is. -/
theorem Token.isOneOf_word {t : Token} {text : String} (h : t.text? = some text) (kind : WordKind)
    (texts : List String) : (Token.word kind text).isOneOf texts = t.isOneOf texts := by
  cases t with
  | numeral value => cases h
  | word own text =>
    cases h
    rfl

namespace Lexer

/-- Two characters that are no word, no numeral and no note spell an arrow, or nothing. -/
theorem Spells.notMem_compound {t : Token} {word : List Char} (h : Spells t word) :
    String.ofList word ∉ compound := by
  have hpair : ∀ text ∈ compound, text.toList.length = 2 := by decide
  intro hmem
  cases h with
  | keyword hkey =>
    have hdisjoint : ∀ text ∈ keywords, text ∉ compound := by decide
    exact hdisjoint _ hkey hmem
  | name hname hkey =>
    have hnone : ∀ text ∈ compound, isName text.toList = false := by decide
    have hother := hnone _ hmem
    rw [String.toList_ofList, hname] at hother
    cases hother
  | numeral hne hall hshort =>
    have hnone : ∀ text ∈ compound, text.toList.all Text.isDigit = false := by decide
    have hother := hnone _ hmem
    rw [String.toList_ofList, hall] at hother
    cases hother
  | mark hmark =>
    have hlength := hpair _ hmem
    rw [String.toList_ofList] at hlength
    cases hlength
  | arrow => exact absurd hmem (by decide)
  | operator hop =>
    have hlength := hpair _ hmem
    rw [String.toList_ofList] at hlength
    cases hlength
  | note hquote hclosed hline =>
    have hnone : ∀ text ∈ compound, text.toList.head? ≠ some '\x22' ∧
        text.toList.head? ≠ some '\x27' := by decide
    obtain ⟨hdouble, hsingle⟩ := hnone _ hmem
    rw [String.toList_ofList, List.head?_cons] at hdouble hsingle
    rcases hquote with rfl | rfl
    · exact hdouble rfl
    · exact hsingle rfl

theorem isOneOf_compound_of_mem_read {text : String} {t : Token} (h : t ∈ (read text).tokens) :
    t.isOneOf compound = false := by
  rcases rereadable_of_mem_read h with rfl | hspells
  · decide
  · have hnone := hspells.notMem_compound
    rw [String.ofList_toList] at hnone
    exact Token.isOneOf_eq_false hnone

end Lexer

/-- Neither the current token nor any other is a comparison of two characters. -/
structure Compiler.IsSimple (c : Compiler) : Prop where
  tokens : ∀ t ∈ c.tokens, t.isOneOf compound = false
  current : ∀ t, c.current = some t → t.isOneOf compound = false

theorem isSimple_of_ofCode {files : Files} {code : String} {c : Compiler}
    (h : Compiler.ofCode files code = .ok c) : c.IsSimple := by
  rw [eq_of_ofCode h]
  refine ⟨fun t ht => ?_, fun t ht => ?_⟩
  · rcases List.mem_append.mp (List.mem_toArray.mp ht) with hread | hlast
    · exact Lexer.isOneOf_compound_of_mem_read hread
    · rw [List.mem_singleton.mp hlast]
      decide
  · exact Lexer.isOneOf_compound_of_mem_read (List.mem_of_head? ht)

def StaysSimple (c d : Compiler) : Prop := c.IsSimple → d.IsSimple

instance : Lenient StaysSimple where
  trans h h' hc := h' (h hc)
  aside h hc := by
    refine ⟨h.tokens ▸ hc.tokens, fun t ht => ?_⟩
    rcases h.current t ht with hold | hmem
    · exact hc.current t hold
    · exact hc.tokens t hmem

theorem spliceAfter_staysSimple {block : List Token}
    (h : ∀ t ∈ block, t.isOneOf compound = false) : Goes StaysSimple (spliceAfter block) := by
  intro c hc
  refine ⟨fun t ht => ?_, hc.current⟩
  rcases Place.mem_of_mem_splice ht with hold | hnew
  · exact hc.tokens t hold
  · exact h t hnew

theorem dropToken_staysSimple : Goes StaysSimple dropToken := by
  intro c hc
  unfold dropToken
  rw [bind_apply, get_apply]
  dsimp only
  cases herase : Place.erase? c.tokens c.position with
  | none => exact hc
  | some tokens =>
    exact ⟨fun t ht => hc.tokens t (Place.mem_of_mem_erase? herase ht), hc.current⟩

theorem rejoinCode_staysSimple : Goes StaysSimple rejoinCode := fun _ hc => ⟨hc.tokens, hc.current⟩

/-- What is read from a text can be put in. -/
theorem readTokens_staysSimple {α : Type} {text : String} {f : List Token → Compile α}
    (h : Goes StaysSimple (f (Lexer.read text).tokens)) :
    Goes StaysSimple (readTokens text >>= f) := by
  intro c hc
  rw [bind_apply]
  rcases readTokens_cases text c with ⟨-, hread⟩ | ⟨e, position, hfault⟩
  · rw [hread]
    exact h c hc
  · rw [hfault]
    exact ⟨hc.tokens, hc.current⟩

/-- The current token is one of those that can be put in. -/
theorem current_staysSimple {α : Type} {f : Token → Compile α}
    (h : ∀ t, t.isOneOf compound = false → Goes StaysSimple (f t)) :
    Goes StaysSimple (current >>= f) := by
  intro c hc
  cases hcurrent : c.current with
  | none =>
    have hrun : (current >>= f) c = .error .noToken c := by simp [current, hcurrent]
    rw [hrun]
    exact hc
  | some t =>
    have hrun : (current >>= f) c = f t c := by simp [current, hcurrent]
    rw [hrun]
    exact h t (hc.current t hcurrent) c hc

/-! The forms that put tokens in, with a stop behind any of their steps. -/

namespace Stepwise

/-- A step of a form, and perhaps a stop behind it. -/
def step {α : Type} (stop : Compiler → Bool) (x : Compile α) : Compile α := do
  let a ← x
  if stop (← get) then throw .endOfInput
  return a

section forms
variable (stop : Compiler → Bool)

def expansion (m : MacroDef) : List String → String → Compile String
  | [], text => return text
  | parameter :: others, text => do
    if parameter = "__name__" then
      let name ← step stop (nameObject m)
      step stop retreat
      step stop retreat
      step stop dropToken
      step stop dropToken
      expansion m others (Text.substitute m.body (placeholder parameter) (" " ++ name))
    else if ← currentIs ")" then
      expansion m others text
    else
      let argument ← wordText (← current)
      expansion m others (Text.substitute m.body (placeholder parameter) argument)

def macroCall : Compile Bool := do
  unless ← nextIs "!" do return false
  let t ← current
  match (← get).macros.find? fun m => t.is m.name with
  | none => fail "Macro not defined"
  | some m =>
    step stop advance
    step stop advance
    unless ← currentIs "(" do fail "Expected ( after macro name"
    step stop advance
    let text ← expansion stop m m.parameters m.body
    step stop advance
    step stop (spliceAfter [Token.newline])
    let tokens ← step stop (readTokens text)
    step stop (spliceAfter (Token.newline :: tokens))
    step stop rejoinCode
    return true

def spliceModule (name text : String) : Compile Unit := do
  step stop advance
  step stop advance
  step stop advance
  let tokens ← step stop (readTokens text)
  step stop (spliceAfter (moduleTokens name tokens))
  step stop rejoinCode

def importModule : Compile Bool := do
  unless ← currentIs "import" do return false
  step stop advance
  let name ← wordText (← current)
  match Library.find (← get).files name with
  | .ok text => spliceModule stop name text
  | .error .fileNotFound => step stop (print "file not found")
  | .error e => throw e
  return true

end forms

theorem step_never {α : Type} (x : Compile α) : step (fun _ => false) x = x := by
  funext c
  simp only [step, bind_apply, get_apply, Bool.false_eq_true, if_false, pure_apply]
  cases x c <;> rfl

theorem expansion_never (m : MacroDef) (parameters : List String) (text : String) :
    expansion (fun _ => false) m parameters text = Grammar.expansion m parameters text := by
  induction parameters generalizing text with
  | nil => rfl
  | cons parameter others ih =>
    unfold expansion Grammar.expansion
    simp only [step_never, ih]

/-- Without a stop both forms are as they are. -/
theorem macroCall_never : macroCall (fun _ => false) = Grammar.macroCall := by
  unfold macroCall
  simp only [step_never, expansion_never]
  rfl

theorem importModule_never : importModule (fun _ => false) = Grammar.importModule := by
  unfold importModule spliceModule
  simp only [step_never]
  rfl

end Stepwise

protected theorem Goes.step {R : Compiler → Compiler → Prop} [Steady R] {α : Type} {x : Compile α}
    (hx : Goes R x) (stop : Compiler → Bool) : Goes R (Stepwise.step stop x) :=
  hx.bind fun _ => Goes.get.bind fun _ => .ite ((Goes.throw _).bind fun _ => .pure _) (.pure _)

section stepwise
variable (stop : Compiler → Bool)

/-- The tokens of a text, with a stop behind the reading. -/
theorem step_readTokens_staysSimple {α : Type} {text : String} {f : List Token → Compile α}
    (h : Goes StaysSimple (f (Lexer.read text).tokens)) :
    Goes StaysSimple (Stepwise.step stop (readTokens text) >>= f) := by
  unfold Stepwise.step
  rw [bind_assoc]
  apply readTokens_staysSimple
  rw [bind_assoc]
  refine Goes.get.bind fun c => ?_
  cases stop c with
  | false => exact h
  | true => exact fun _ hc => hc

theorem expansion_staysSimple (m : MacroDef) (parameters : List String) (text : String) :
    Goes StaysSimple (Stepwise.expansion stop m parameters text) := by
  induction parameters generalizing text with
  | nil => exact .pure _
  | cons parameter others ih =>
    have hname : Goes StaysSimple (nameObject m) := by
      have hset : Goes StaysSimple (modify fun c : Compiler =>
          { c with objectName := m.name ++ "Object" }) := fun _ hc => ⟨hc.tokens, hc.current⟩
      unfold nameObject
      grind
    have hback := (Goes.retreat (R := StaysSimple)).step stop
    have hdrop := dropToken_staysSimple.step stop
    unfold Stepwise.expansion
    refine .ite ?_ ((Goes.currentIs _).bind fun _ => .ite (ih _) ?_)
    · refine (hname.step stop).bind fun _ => hback.bind fun _ => hback.bind fun _ => ?_
      exact hdrop.bind fun _ => hdrop.bind fun _ => ih _
    · exact Goes.current.bind fun _ => (Goes.wordText _).bind fun _ => ih _

theorem macroCall_staysSimple : Goes StaysSimple (Stepwise.macroCall stop) := by
  have hadvance := (Goes.advance (R := StaysSimple)).step stop
  have hrejoin := rejoinCode_staysSimple.step stop
  have hline : Token.newline.isOneOf compound = false := by decide
  refine (Goes.nextIs _).bind fun _ => .ite (Goes.current.bind fun t => ?_) (.pure _)
  refine Goes.get.bind fun c => ?_
  split
  · exact .fail _
  · refine hadvance.bind fun _ => hadvance.bind fun _ => (Goes.currentIs _).orFail _ ?_
    refine hadvance.bind fun _ => (expansion_staysSimple stop _ _ _).bind fun text => ?_
    refine hadvance.bind fun _ => ((spliceAfter_staysSimple ?_).step stop).bind fun _ => ?_
    · exact List.forall_mem_singleton.mpr hline
    · -- what the macro makes of its body is read before it is put in
      apply step_readTokens_staysSimple
      refine ((spliceAfter_staysSimple ?_).step stop).bind fun _ => hrejoin.bind fun _ => .pure _
      exact List.forall_mem_cons.mpr ⟨hline, fun t => Lexer.isOneOf_compound_of_mem_read⟩

/-- The name of a module is the text of a token. -/
theorem moduleTokens_isOneOf {u : Token} {name : String} (hname : u.text? = some name)
    (hu : u.isOneOf compound = false) (text : String) :
    ∀ t ∈ moduleTokens name (Lexer.read text).tokens, t.isOneOf compound = false := by
  intro t ht
  simp only [moduleTokens, List.mem_append, List.mem_cons, List.not_mem_nil, or_false] at ht
  rcases ht with ((rfl | rfl | rfl | rfl) | hread) | rfl | rfl
  · decide
  · rw [Token.isOneOf_word hname]
    exact hu
  · decide
  · decide
  · exact Lexer.isOneOf_compound_of_mem_read hread
  · decide
  · decide

theorem importModule_staysSimple : Goes StaysSimple (Stepwise.importModule stop) := by
  have hadvance := (Goes.advance (R := StaysSimple)).step stop
  refine (Goes.currentIs _).bind fun _ => .ite (hadvance.bind fun _ => ?_) (.pure _)
  -- the module takes its name from the token behind the word, of whatever kind that is
  refine current_staysSimple fun u hu => ?_
  unfold wordText
  cases hname : u.text? with
  | none => exact fun _ hc => hc
  | some name =>
    have hmodule : ∀ text, Goes StaysSimple (Stepwise.spliceModule stop name text) := by
      intro text
      refine hadvance.bind fun _ => hadvance.bind fun _ => hadvance.bind fun _ => ?_
      apply step_readTokens_staysSimple
      refine ((spliceAfter_staysSimple ?_).step stop).bind fun _ => rejoinCode_staysSimple.step stop
      exact moduleTokens_isOneOf hname hu text
    dsimp only
    rw [pure_bind]
    refine Goes.get.bind fun c => ?_
    split
    · exact (hmodule _).bind fun _ => .pure _
    · exact ((Goes.print _).step stop).bind fun _ => .pure _
    · exact (Goes.throw _).bind fun _ => .pure _

end stepwise

theorem staysSimple_of_framed (c d : Compiler) (h : Framed c d) : StaysSimple c d :=
  fun hc => ⟨h.tokens ▸ hc.tokens, h.current ▸ hc.current⟩

instance : Permits StaysSimple := by
  refine .of_framed staysSimple_of_framed ?_ ?_
  · rw [← Stepwise.macroCall_never]
    exact macroCall_staysSimple _
  · rw [← Stepwise.importModule_never]
    exact importModule_staysSimple _

instance : Retracing StaysSimple :=
  .of_lenient fun _ => updateLastEntry_framed staysSimple_of_framed _

/-- The states of a script: its first and its last, those in which a form is entered or left, and
those behind the steps of the forms that put tokens in. -/
inductive Passes (files : Files) (code : String) : Compiler → Prop
  | first {c : Compiler} (hcode : Compiler.ofCode files code = .ok c) : Passes files code c
  | form {moment : Moment} {s : Compiler} (hreached : Reached files code moment s) :
      Passes files code s
  | calling {c : Compiler} (stop : Compiler → Bool)
      (hreached : Reached files code (.entering .macroCall) c) :
      Passes files code (stateAfter (Stepwise.macroCall stop c))
  | importing {c : Compiler} (stop : Compiler → Bool)
      (hreached : Reached files code (.entering .importModule) c) :
      Passes files code (stateAfter (Stepwise.importModule stop c))
  | last {c : Compiler} (hcode : Compiler.ofCode files code = .ok c) :
      Passes files code (stateAfter (run c))

section passes
variable {files : Files} {code : String} {s : Compiler}

theorem isSimple_begun {c : Compiler} (h : Compiler.ofCode files code = .ok c) :
    Compiler.IsSimple { c.withFreshDocument with line := c.line + 1 } :=
  ⟨(isSimple_of_ofCode h).tokens, (isSimple_of_ofCode h).current⟩

theorem Reached.isSimple {moment : Moment} (h : Reached files code moment s) : s.IsSimple := by
  obtain ⟨c, hcode, hkept⟩ := h.path (R := StaysSimple)
  exact hkept (isSimple_begun hcode)

theorem Passes.isSimple (h : Passes files code s) : s.IsSimple := by
  cases h with
  | first hcode => exact isSimple_of_ofCode hcode
  | form hreached => exact hreached.isSimple
  | calling stop hreached => exact macroCall_staysSimple stop _ hreached.isSimple
  | importing stop hreached => exact importModule_staysSimple stop _ hreached.isSimple
  | @last c hcode =>
    have htokens : c.tokens.isEmpty = false := by
      rw [eq_of_ofCode hcode]
      simp
    have hkept : StaysSimple _ (stateAfter (run c)) := run_goes htokens
    exact hkept (isSimple_begun hcode)

end passes

theorem eq_of_current {c d : Compiler} {t : Token} (h : current c = .ok t d) :
    c.current = some t ∧ d = c := by
  cases hcurrent : c.current with
  | none => simp [current, hcurrent] at h
  | some u =>
    simp only [current, bind_apply, get_apply, hcurrent, pure_apply] at h
    cases h
    exact ⟨rfl, rfl⟩

/-- A condition that is accepted is a value, a comparison and a value. -/
theorem exists_of_condition {down : Descent} {c d : Compiler} (h : condition down c = .ok () d) :
    ∃ mid t behind, value down c = .ok true mid ∧ mid.current = some t ∧
      t.isOneOf comparisons = true ∧
      (emit t.shown >>= fun _ => advance) mid = .ok () behind ∧
      value down behind = .ok true d := by
  obtain ⟨_, hfirst, hcompare⟩ := exists_of_orFail h
  obtain ⟨t, mid, hlook, hrest⟩ := bind_eq_ok hcompare
  obtain ⟨hcurrent, rfl⟩ := eq_of_current hlook
  cases hsign : t.isOneOf comparisons with
  | false =>
    simp only [hsign, Bool.false_eq_true, if_false, fail_bind] at hrest
    exact absurd hrest (fail_ne_ok _ _ _ _)
  | true =>
    simp only [hsign, if_true] at hrest
    obtain ⟨_, written, hemit, hstep⟩ := bind_eq_ok hrest
    obtain ⟨_, behind, hadvance, hend⟩ := bind_eq_ok hstep
    obtain ⟨found, last, hlast, hdone⟩ := bind_eq_ok hend
    cases found with
    | false => exact absurd hdone (fail_ne_ok _ _ _ _)
    | true =>
      cases hdone
      refine ⟨mid, t, behind, hfirst, hcurrent, hsign, ?_, hlast⟩
      rw [bind_apply, hemit]
      exact hadvance

/-- In no state of a script is a token a comparison of two characters, and a condition that is
accepted there compares by one of the two signs of one character. -/
theorem condition_compares_by_one_sign {files : Files} {code : String} {s : Compiler}
    (h : Passes files code s) :
    (∀ t ∈ s.tokens, t.isOneOf ["<=", ">=", "==", "!="] = false) ∧
      ∀ levels d, condition (descent levels) s = .ok () d →
        ∃ mid t behind, value (descent levels) s = .ok true mid ∧ mid.current = some t ∧
          (t.is "<" = true ∨ t.is ">" = true) ∧
          (emit t.shown >>= fun _ => advance) mid = .ok () behind ∧
          value (descent levels) behind = .ok true d := by
  have hsimple := h.isSimple
  refine ⟨hsimple.tokens, fun levels d hcondition => ?_⟩
  obtain ⟨mid, t, behind, hfirst, hcurrent, hcompares, hsign, hlast⟩ :=
    exists_of_condition hcondition
  have hvalue : Goes StaysSimple (value (descent levels)) := by
    have hdown := (goes_descent (R := StaysSimple) .never levels).1
    rw [Watched.descent_never] at hdown
    rw [← Watched.value_never]
    exact .value hdown
  have hmid := hvalue s hsimple
  rw [hfirst] at hmid
  have hother := hmid.current t hcurrent
  simp only [comparisons, compound, Token.isOneOf, List.any_cons, List.any_nil, Bool.or_eq_true,
    Bool.or_eq_false_iff] at hcompares hother
  refine ⟨mid, t, behind, hfirst, hcurrent, ?_, hsign, hlast⟩
  grind

/-- A conditional whose condition is accepted. -/
def compared : String := "if 1 < 2 \x7b3\x7d"

theorem compared_by_one_sign :
    ∃ s d mid t, Passes [] compared s ∧ condition (descent 9) s = .ok () d ∧
      value (descent 9) s = .ok true mid ∧ mid.current = some t ∧
      (t.is "<" = true ∨ t.is ">" = true) := by
  let watch : Watch := fun moment _ => moment = .entering .condition
  have hview : ((Compiler.ofCode [] compared).toOption.bind fun c =>
      (stopped? (program (Watched.descent watch 9) { c with line := c.line + 1 })).map fun s =>
        fault? (condition (descent 9) s)) = some none := by
    decide +kernel
  obtain ⟨c, hcode, hprogram⟩ := Option.bind_eq_some_iff.mp hview
  obtain ⟨s, hstopped, hfault⟩ := Option.map_eq_some_iff.mp hprogram
  have hreached : Reached [] compared (.entering .condition) s :=
    reached_of_stopped? hcode (fun _ _ hm => of_decide_eq_true hm) hstopped
  cases hrun : condition (descent 9) s with
  | error e d => simp [hrun, fault?] at hfault
  | ok _ d =>
    obtain ⟨mid, t, -, hfirst, hcurrent, hsign, -⟩ :=
      (condition_compares_by_one_sign (.form hreached)).2 9 d hrun
    exact ⟨s, d, mid, t, .form hreached, hrun, hfirst, hcurrent, hsign⟩

end PlotScript
