import PlotScript.Proofs.Chains
import PlotScript.Proofs.MacroDefinition

/-! Definitions of functions. Their parameters are bound and written in a scope of their own, which
carries the name of the function; so the names in the head and in the value are the same, whatever
they are called outside. -/

namespace PlotScript
open Compile Grammar

namespace Tree

/-- A function with at least one parameter and its value in braces, with newlines in front of the
value and, behind it, one newline and perhaps more. -/
structure FunctionDef where
  name : Name
  first : Name
  others : List Name
  before : Nat
  value : Expression
  behind : Nat

namespace FunctionDef
variable (d : FunctionDef)

def parameters : List String := (d.first :: d.others).map Name.text

def newlines : Nat := d.before + (d.behind + 1)

/-- What is in the braces. -/
def inner : List Token :=
  List.replicate d.before Token.newline ++
    (d.value.tokens ++ List.replicate (d.behind + 1) Token.newline)

/-- All tokens but the closing brace. -/
def tokens : List Token :=
  .word .keyword "fn" :: d.name.token :: mark "(" ::
    (listed d.first d.others ++ mark ")" :: mark "\x7b" :: d.inner)

/-- All tokens but the closing brace, with so many newlines behind the value. -/
def laidOut (newlines : Nat) : List Token :=
  .word .keyword "fn" :: d.name.token :: mark "(" ::
    (listed d.first d.others ++ mark ")" :: mark "\x7b" :: (List.replicate d.before Token.newline ++
      (d.value.tokens ++ List.replicate newlines Token.newline)))

theorem tokens_eq_laidOut : d.tokens = d.laidOut (d.behind + 1) := rfl

/-- The head and the value as they are written in a scope. -/
def latexIn (scope functions : List String) : String :=
  subscripted d.name.text ++ "\\left(" ++
    ",".intercalate (d.parameters.map (scopedName (scope ++ [d.name.text]))) ++ "\\right)" ++ "=" ++
    d.value.latex (scope ++ [d.name.text]) (functions ++ [d.name.text])

/-- The head and the value, in which the function itself may be called. -/
def latex (functions : List String) : String :=
  subscripted d.name.text ++ "\\left(" ++
    ",".intercalate (d.parameters.map (scopedName [d.name.text])) ++ "\\right)" ++ "=" ++
    d.value.latex [d.name.text] (functions ++ [d.name.text])

end FunctionDef
end Tree

open PlotScript.Tree

/-- The state with other names, another scope and other functions. -/
def Compiler.scoped (c : Compiler) (names : Table) (scope functions : List String) : Compiler :=
  { c with names, scope, functions }

section head
variable {c : Compiler} {i : Nat} {names names' : Table} {scope outer functions : List String}
  {own text : String} {u : Token} {rest : List Token}

theorem addName_scoped (functions : List String) {name : String} {value : Binding}
    (h : names.add scope name value = .ok names') :
    addName scope name value ((c.scoped names scope functions).seenAt i text) =
      .ok () ((c.scoped names' scope functions).seenAt i text) := by
  have hnames : ((c.scoped names scope functions).seenAt i text).names = names := rfl
  rw [addName, bind_apply, get_apply]
  simp only [hnames, h, setNames]
  rfl

/-- What follows the name of a parameter. -/
def behindFunctionParameter : Compile Bool := do
  if ← currentIs ")" then
    emit "\\right)"
    advance
    return true
  unless ← currentIs "," do fail "Expected ',' between parameters"
  emit ","
  advance
  return false

theorem functionParameter_name (hc : c.IsOpen) {n : Name}
    (hadd : names.add (outer ++ [own]) n.text .unset = .ok names')
    (hahead : c.Ahead i (n.token :: u :: rest)) :
    functionParameter ((c.scoped names (outer ++ [own]) functions).seenAt i text) =
      behindFunctionParameter ((c.scoped names' (outer ++ [own]) functions).seenAt (i + 1)
        (text ++ scopedName (outer ++ [own]) n.text)) := by
  have hopen : (c.scoped names (outer ++ [own]) functions).IsOpen := hc
  have hcurrent : (c.scoped names (outer ++ [own]) functions).tokens[i]? = some n.token :=
    hahead.head
  have hnext : (c.scoped names' (outer ++ [own]) functions).tokens[i + 1]? = some u :=
    hahead.tail.head
  have hclosing : n.token.is ")" = false := n.token_is (by decide)
  have htext : n.token.name? = some n.text := rfl
  have hpiece : (do subscript ((← innermost) ++ n.text) : Compile String)
      ((c.scoped names (outer ++ [own]) functions).seenAt i text) =
      .ok (scopedName (outer ++ [own]) n.text)
        ((c.scoped names (outer ++ [own]) functions).seenAt i text) := by
    simp [innermost, Compiler.scoped, subscript_eq (append_ne_empty n.text_ne_empty), scopedName]
  have hscope : ((c.scoped names (outer ++ [own]) functions).seenAt i
      (text ++ scopedName (outer ++ [own]) n.text)).scope = outer ++ [own] := rfl
  have hmove := advance_seenAt (c := c.scoped names' (outer ++ [own]) functions) hahead.head rfl
    hnext (text ++ scopedName (outer ++ [own]) n.text)
  simp only [functionParameter, bind_apply, currentIs_seenAt hcurrent, hclosing, Bool.false_eq_true,
    if_false, current_seenAt hcurrent, htext, emitFrom_seenAt hopen hpiece, get_apply, hscope,
    addName_scoped functions hadd, hmove]
  simp only [behindFunctionParameter, bind_apply]

theorem behindFunctionParameter_last (hc : c.IsOpen) (hahead : c.Ahead i (mark ")" :: u :: rest)) :
    behindFunctionParameter (c.seenAt i text) =
      .ok true (c.seenAt (i + 1) (text ++ "\\right)")) := by
  have hmove := advance_seenAt hahead.head rfl hahead.tail.head
  simp [behindFunctionParameter, currentIs_seenAt hahead.head, emit_seenAt hc, hmove]

theorem behindFunctionParameter_comma (hc : c.IsOpen) (hahead : c.Ahead i (mark "," :: u :: rest)) :
    behindFunctionParameter (c.seenAt i text) = .ok false (c.seenAt (i + 1) (text ++ ",")) := by
  have hmove := advance_seenAt hahead.head rfl hahead.tail.head
  simp [behindFunctionParameter, currentIs_seenAt hahead.head, emit_seenAt hc, hmove]

/-- The parameters are bound and written up to the closing bracket. -/
theorem loop_functionParameter (hc : c.IsOpen) {n : Name} {ns : List Name} {rounds : Nat}
    (hrounds : ns.length < rounds)
    (hnames : names.addAll (outer ++ [own]) .unset ((n :: ns).map Name.text) = .ok names')
    (hahead : c.Ahead i (listed n ns ++ mark ")" :: u :: rest)) (text : String) :
    loop functionParameter rounds ((c.scoped names (outer ++ [own]) functions).seenAt i text) =
      .ok () ((c.scoped names' (outer ++ [own]) functions).seenAt (i + (listed n ns).length + 1)
        (text ++ ",".intercalate (((n :: ns).map Name.text).map (scopedName (outer ++ [own]))) ++
          "\\right)")) := by
  induction ns generalizing n names i rounds text with
  | nil =>
    obtain ⟨rounds, rfl⟩ := Nat.exists_eq_add_of_lt hrounds
    obtain ⟨next, hadd, hlater⟩ := Table.addAll_cons hnames
    cases hlater
    have hlast : behindFunctionParameter ((c.scoped names' (outer ++ [own]) functions).seenAt
        (i + 1) (text ++ scopedName (outer ++ [own]) n.text)) = _ :=
      behindFunctionParameter_last hc hahead.tail
    rw [loop, bind_apply, functionParameter_name hc hadd hahead, hlast]
    rfl
  | cons k ns ih =>
    obtain ⟨rounds, rfl⟩ := Nat.exists_eq_add_of_lt hrounds
    obtain ⟨next, hadd, hlater⟩ := Table.addAll_cons hnames
    have hmore : c.Ahead i (n.token :: mark "," :: (listed k ns ++ mark ")" :: u :: rest)) := hahead
    obtain ⟨ts, hts⟩ := exists_listed k ns (mark ")" :: u :: rest)
    have hbehind : c.Ahead (i + 1) (mark "," :: k.token :: ts) := hts ▸ hmore.tail
    have hcomma : behindFunctionParameter ((c.scoped next (outer ++ [own]) functions).seenAt (i + 1)
        (text ++ scopedName (outer ++ [own]) n.text)) = _ :=
      behindFunctionParameter_comma hc hbehind
    have hfewer : ns.length < (k :: ns).length + rounds := by
      rw [List.length_cons]
      omega
    have hrest := ih hfewer hlater hmore.tail.tail
      (text ++ scopedName (outer ++ [own]) n.text ++ ",")
    have hindex : i + 1 + 1 + (listed k ns).length + 1 = i + (listed n (k :: ns)).length + 1 := by
      simp only [listed, List.length_cons]
      omega
    have hhead : text ++
        ",".intercalate (((n :: k :: ns).map Name.text).map (scopedName (outer ++ [own]))) =
        text ++ scopedName (outer ++ [own]) n.text ++ "," ++
          ",".intercalate (((k :: ns).map Name.text).map (scopedName (outer ++ [own]))) := by
      simp only [List.map_cons, String.intercalate_cons_cons, String.append_assoc]
    rw [loop, bind_apply, functionParameter_name hc hadd hmore, hcomma, ← hindex, hhead]
    exact hrest

/-- What follows the parameters of a function. -/
def functionValue (down : Descent) : Compile Bool := do
  unless ← currentIs "\x7b" do fail "Expected \x7b after function definition"
  emit "="
  advance
  skipNewlines
  unless ← down.acceptsExpression do fail "Expected Statement"
  skipNewlines
  unless ← currentIs "\x7d" do fail "'\x7d' was not closed"
  popScope
  return true

/-- The name of the function is written and bound, and its scope opened. -/
theorem function_begin (hc : c.IsOpen) {n : Name}
    (hnames : c.names.add c.scope n.text (.table []) = .ok names) (down : Descent)
    (hahead : c.Ahead i (.word .keyword "fn" :: n.token :: mark "(" :: u :: rest)) (text : String) :
    function down (c.seenAt i text) =
      ((do loop functionParameter (← get).stepsLeft) >>= fun _ => functionValue down)
        ((c.scoped names (c.scope ++ [n.text]) (c.functions ++ [n.text])).seenAt
          (i + 3) (text ++ subscripted n.text ++ "\\left(")) := by
  generalize hopened : text ++ subscripted n.text ++ "\\left(" = opened
  have hfn : (Token.word .keyword "fn").is "fn" = true := rfl
  have hname : n.token.name? = some n.text := rfl
  have hcurrent : c.tokens[i + 1]? = some n.token := hahead.tail.head
  have hmove := advance_seenAt hahead.head rfl hcurrent text
  have hpiece : subscript n.text (c.seenAt (i + 1) text) = _ := subscript_eq n.text_ne_empty _
  have hadd : addName c.scope n.text (.table []) (c.seenAt (i + 1) opened) =
      .ok () ((c.scoped names c.scope c.functions).seenAt (i + 1) opened) :=
    addName_scoped (c := c) c.functions hnames
  have hpush : pushScope n.text ((c.scoped names c.scope c.functions).seenAt (i + 1) opened) =
      .ok () ((c.scoped names (c.scope ++ [n.text]) c.functions).seenAt (i + 1) opened) := rfl
  have hown : (modify fun c => { c with functions := c.functions ++ [n.text] } : Compile Unit)
      ((c.scoped names (c.scope ++ [n.text]) c.functions).seenAt (i + 1) opened) =
      .ok () ((c.scoped names (c.scope ++ [n.text]) (c.functions ++ [n.text])).seenAt (i + 1)
        opened) := rfl
  have hbehind : (c.scoped names (c.scope ++ [n.text]) (c.functions ++ [n.text])).Ahead (i + 1)
      (n.token :: mark "(" :: u :: rest) := hahead.tail
  have hbracket := advance_seenAt hbehind.head rfl hbehind.tail.head opened
  have hinto := advance_seenAt hbehind.tail.head rfl hbehind.tail.tail.head opened
  have hopening : (mark "(").is "(" = true := rfl
  simp only [function, functionValue, bind_apply, currentIs_seenAt hahead.head, hfn, if_true, hmove,
    current_seenAt hcurrent, hname, emitFrom_seenAt hc hpiece, emit_seenAt hc, hopened, get_apply,
    Compiler.seenAt_scope, hadd, hpush, hown, hbracket, currentIs_seenAt hbehind.tail.head,
    hopening, hinto]

theorem popScope_seenAt (hscope : c.scope ≠ []) :
    popScope (c.seenAt i text) =
      .ok () ((c.scoped c.names c.scope.dropLast c.functions).seenAt i text) := by
  simp [popScope, hscope]
  rfl

/-- The value may be followed by newlines or, unless a point ends it, by the closing brace. -/
theorem exists_behind_value {e : Expression} {behind : Nat}
    (hend : behind = 0 → e.isPointless = true) (rest : List Token) :
    ∃ stop more, List.replicate behind Token.newline ++ mark "\x7d" :: rest = stop :: more ∧
      e.MayEnd stop := by
  cases behind with
  | zero => exact ⟨mark "\x7d", rest, rfl, .inr ⟨rfl, hend rfl⟩⟩
  | succ behind => exact ⟨Token.newline, _, rfl, .inl (by decide)⟩

/-- The value is read between the newlines, and the scope of the function is left. -/
theorem functionValue_seenAt {e : Expression} {before behind levels : Nat}
    (hc : (c.downBy before).Ready) (hallows : c.Allows e.variables e.callees)
    (hlevels : e.tokens.length < levels) (hscope : c.scope ≠ [])
    (hend : behind = 0 → e.isPointless = true)
    (hahead : c.Ahead i (mark "\x7b" :: (List.replicate before Token.newline ++ (e.tokens ++
      (List.replicate behind Token.newline ++ mark "\x7d" :: rest))))) (text : String) :
    functionValue (descent levels) (c.seenAt i text) =
      .ok true (((c.scoped c.names c.scope.dropLast c.functions).downBy
        (before + behind)).seenAt (i + 1 + before + e.tokens.length + behind)
          (text ++ "=" ++ e.latex c.scope c.functions)) := by
  have hopen : c.IsOpen := hc.isOpen
  have hbrace := advance_before (by decide) hahead (by simp) (text ++ "=")
  obtain ⟨first, ts, hfirst, hopens⟩ := e.tokens_cons
  have hskip := skipNewlines_seenAt (by rw [hfirst, List.cons_append] at hahead; exact hahead.tail)
    hopens.notNewline (text ++ "=")
  have hvalue := hahead.tail.skip_replicate
  obtain ⟨stop, more, hmore, hstop⟩ := exists_behind_value hend rest
  have hread : (descent levels).expression ((c.downBy before).seenAt (i + 1 + before)
      (text ++ "=")) = _ :=
    reads_descent hc hlevels ⟨hallows.known, hallows.notFunction, hallows.callable⟩
      (hmore ▸ hvalue) hstop (append_ne_empty (by decide))
  have hlater : (c.downBy before).Ahead (i + 1 + before + e.tokens.length) _ := hvalue.skip
  have hbehind := skipNewlines_seenAt hlater (by decide)
    (text ++ "=" ++ e.latex c.scope c.functions)
  have hbrace' : ((c.downBy before).downBy behind).tokens[
      i + 1 + before + e.tokens.length + behind]? = some (mark "\x7d") :=
    hlater.skip_replicate.head
  have hpop : popScope (((c.downBy before).downBy behind).seenAt
      (i + 1 + before + e.tokens.length + behind)
        (text ++ "=" ++ e.latex c.scope c.functions)) = _ := popScope_seenAt hscope
  rw [← Compiler.downBy_downBy]
  simp [functionValue, currentIs_seenAt hahead.head, emit_seenAt hopen, hbrace, hskip,
    Descent.acceptsExpression, hread, hbehind, currentIs_seenAt hbrace', hpop]
  rfl

end head

section definition
variable {c : Compiler} {d : FunctionDef}

/-- The state in the scope of a function, with its parameters bound. -/
def Compiler.inFunction (c : Compiler) (d : FunctionDef) : Compiler :=
  c.scoped (c.names.bind d.name.text (.table (Table.ofNames d.parameters))) [d.name.text]
    (c.functions ++ [d.name.text])

theorem mem_functions_inFunction {f : String} :
    f ∈ (c.inFunction d).functions ↔ f ∈ c.functions ∨ f = d.name.text := by
  simp [Compiler.inFunction, Compiler.scoped]

theorem allows_inFunction (hparameters : ∀ p ∈ d.parameters,
      p ≠ d.name.text ∧ p ∉ c.functions ∧ p ∉ builtinFunctions)
    (hvariables : ∀ v ∈ d.value.variables, v ∈ d.parameters)
    (hcallees : ∀ f ∈ d.value.callees,
      f = d.name.text ∨ f ∈ c.functions ∨ f ∈ builtinFunctions) :
    (c.inFunction d).Allows d.value.variables d.value.callees := by
  refine ⟨fun v hv => .inr ?_, fun v hv => ?_, fun f hf => ?_⟩
  · have hbound := Table.boundAlong_inside c.names (Table.ofNames d.parameters) d.name.text v
    rwa [(Table.has_ofNames _ v).mpr (hvariables v hv)] at hbound
  · obtain ⟨hown, hother, hbuiltin⟩ := hparameters v (hvariables v hv)
    rw [mem_functions_inFunction, not_or]
    exact ⟨⟨hother, hown⟩, hbuiltin⟩
  · rw [mem_functions_inFunction]
    rcases hcallees f hf with h | h | h
    · exact .inl (.inr h)
    · exact .inl (.inl h)
    · exact .inr h

theorem loop_parameters (hc : c.IsOpen) {i : Nat} {names names' : Table}
    {outer : List String} (functions : List String) {rest : List Token} (text : String)
    (hnames : names.addAll (outer ++ [d.name.text]) .unset d.parameters = .ok names')
    (hahead : c.Ahead i (listed d.first d.others ++ mark ")" :: mark "\x7b" :: rest)) :
    (do loop functionParameter (← get).stepsLeft : Compile Unit)
        ((c.scoped names (outer ++ [d.name.text]) functions).seenAt i text) =
      .ok () ((c.scoped names' (outer ++ [d.name.text]) functions).seenAt
        (i + (listed d.first d.others).length + 1)
        (text ++ ",".intercalate (d.parameters.map (scopedName (outer ++ [d.name.text]))) ++
          "\\right)")) := by
  have hsize := hahead.skip.lt_size
  rw [length_listed] at hsize
  rw [bind_apply, get_apply]
  refine loop_functionParameter hc ?_ hnames hahead text
  simp only [Compiler.stepsLeft, Compiler.seenAt_tokens, Compiler.seenAt_position]
  have htokens : (c.scoped names (outer ++ [d.name.text]) functions).tokens = c.tokens := rfl
  rw [htokens]
  omega

/-- A definition in any scope, up to its closing brace. -/
theorem function_seenAt_in {names names' : Table} {levels i newlines : Nat} {rest : List Token}
    (hadd : c.names.add c.scope d.name.text (.table []) = .ok names)
    (hnames : names.addAll (c.scope ++ [d.name.text]) .unset d.parameters = .ok names')
    (hready : ((c.scoped names' (c.scope ++ [d.name.text])
      (c.functions ++ [d.name.text])).downBy d.before).Ready)
    (hallows : (c.scoped names' (c.scope ++ [d.name.text])
      (c.functions ++ [d.name.text])).Allows d.value.variables d.value.callees)
    (hlevels : d.value.tokens.length < levels) (hend : newlines = 0 → d.value.isPointless = true)
    (hahead : c.Ahead i (d.laidOut newlines ++ mark "\x7d" :: rest)) (text : String) :
    function (descent levels) (c.seenAt i text) =
      .ok true (((c.scoped names' c.scope (c.functions ++ [d.name.text])).downBy
        (d.before + newlines)).seenAt (i + (d.laidOut newlines).length)
          (text ++ d.latexIn c.scope c.functions)) := by
  simp only [FunctionDef.laidOut, List.cons_append, List.append_assoc] at hahead
  obtain ⟨ts, hts⟩ := exists_listed d.first d.others (mark ")" :: mark "\x7b" ::
    (List.replicate d.before Token.newline ++ (d.value.tokens ++
      (List.replicate newlines Token.newline ++ mark "\x7d" :: rest))))
  have hopen : c.IsOpen := hready.isOpen
  have hbegin := function_begin hopen hadd (descent levels) (hts ▸ hahead) text
  have hhead := loop_parameters hopen (c.functions ++ [d.name.text])
    (text ++ subscripted d.name.text ++ "\\left(") hnames hahead.tail.tail.tail
  have hvalue := functionValue_seenAt hready hallows hlevels (by simp [Compiler.scoped]) hend
    hahead.tail.tail.tail.skip.tail
  rw [bind_apply, hhead] at hbegin
  have hlength : i + (d.laidOut newlines).length = i + 1 + 1 + 1 +
      (listed d.first d.others).length + 1 + 1 + d.before + d.value.tokens.length + newlines := by
    simp only [FunctionDef.laidOut, List.length_cons, List.length_append, List.length_replicate]
    omega
  have hleft (fs : List String) : (c.scoped names' (c.scope ++ [d.name.text]) fs).scoped names'
      (c.scope ++ [d.name.text]).dropLast fs = c.scoped names' c.scope fs := by
    rw [List.dropLast_concat]
    rfl
  rw [hbegin.trans (hvalue _), hlength, FunctionDef.latexIn, ← hleft]
  simp only [String.append_assoc]
  rfl

theorem ready_inFunction (hc : c.IsOpen)
    (hfunctions : ∀ f ∈ c.functions, Lexer.isName f.toList = true)
    (hfirst : 1 ≤ c.line) (hlast : c.line + d.newlines ≤ c.lines.length) :
    ((c.inFunction d).downBy d.before).Ready := by
  have hline : ((c.inFunction d).downBy d.before).line = c.line + d.before := rfl
  have hlines : ((c.inFunction d).downBy d.before).lines = c.lines := rfl
  rw [FunctionDef.newlines] at hlast
  refine ⟨hc, Compiler.hasLine_of_le (by omega) (by rw [hlines]; omega), fun f hf => ?_⟩
  rcases mem_functions_inFunction.mp hf with h | rfl
  · exact hfunctions f h
  · exact d.name.isName

theorem function_seenAt {levels i : Nat} {rest : List Token}
    (hready : ((c.inFunction d).downBy d.before).Ready)
    (hallows : (c.inFunction d).Allows d.value.variables d.value.callees)
    (hlevels : d.value.tokens.length < levels) (hscope : c.scope = [])
    (hahead : c.Ahead i (d.tokens ++ mark "\x7d" :: rest)) (text : String) :
    function (descent levels) (c.seenAt i text) =
      .ok true (((c.scoped (c.names.bind d.name.text (.table (Table.ofNames d.parameters))) []
        (c.functions ++ [d.name.text])).downBy d.newlines).seenAt (i + d.tokens.length)
          (text ++ d.latex c.functions)) := by
  have hnames := Table.addAll_inside c.names [] d.name.text .unset d.parameters
  have hread := @function_seenAt_in c d (c.names.bind d.name.text (.table []))
    (c.names.bind d.name.text (.table (Table.ofNames d.parameters))) levels i (d.behind + 1) rest
  rw [hscope] at hread
  rw [FunctionDef.tokens_eq_laidOut] at hahead ⊢
  exact hread rfl hnames hready hallows hlevels nofun hahead text

end definition

/-- At the top, a definition is read up to its closing brace, and its head and its value are written
behind the text of the open entry. The function and, in its table, just its parameters are bound,
the newlines in the braces are counted, and nothing else changes. -/
theorem function_writes_definition {c : Compiler} {d : FunctionDef} {levels i : Nat} {text : String}
    {rest : List Token} (hlevels : d.value.tokens.length < levels) (hposition : c.position = i)
    (htokens : c.tokens.toList.drop i = d.tokens ++ mark "\x7d" :: rest)
    (hcurrent : c.current = c.tokens[i]?) (hscope : c.scope = []) (htext : c.text? = some text)
    (hparameters : ∀ p ∈ d.parameters,
      p ≠ d.name.text ∧ p ∉ c.functions ∧ p ∉ builtinFunctions)
    (hvariables : ∀ v ∈ d.value.variables, v ∈ d.parameters)
    (hcallees : ∀ f ∈ d.value.callees,
      f = d.name.text ∨ f ∈ c.functions ∨ f ∈ builtinFunctions)
    (hfunctions : ∀ f ∈ c.functions, Lexer.isName f.toList = true)
    (hfirst : 1 ≤ c.line) (hlast : c.line + d.newlines ≤ c.lines.length) :
    function (descent levels) c = .ok true { c.withText (text ++ d.latex c.functions) with
        position := i + d.tokens.length
        current := some (mark "\x7d")
        line := c.line + d.newlines
        names := c.names.bind d.name.text (.table (Table.ofNames d.parameters))
        scope := []
        functions := c.functions ++ [d.name.text] } ∧
      ∀ name, (Table.ofNames d.parameters).has name = true ↔ name ∈ d.parameters := by
  refine ⟨?_, Table.has_ofNames d.parameters⟩
  have hahead : c.Ahead i (d.tokens ++ mark "\x7d" :: rest) := htokens
  have hready := ready_inFunction (Compiler.isOpen_of_text? htext) hfunctions hfirst hlast
  have hallows := allows_inFunction hparameters hvariables hcallees
  have hread := function_seenAt hready hallows hlevels hscope hahead text
  have hend : ((c.scoped (c.names.bind d.name.text (.table (Table.ofNames d.parameters))) []
      (c.functions ++ [d.name.text])).downBy d.newlines).tokens[i + d.tokens.length]? =
      some (mark "\x7d") := hahead.skip.head
  rw [Compiler.seenAt_eq_self htext hposition hcurrent] at hread
  rw [hread, Compiler.seenAt, hend]
  rfl

/-- A function that calls itself, with parameters that are names outside too. -/
def recursive : FunctionDef :=
  let g : Name := ⟨"g", by decide, by decide⟩
  let u : Name := ⟨"u", by decide, by decide⟩
  let w : Name := ⟨"w", by decide, by decide⟩
  let plain (n : Name) : Expression := .term (.value ⟨false, .name n⟩)
  { name := g
    first := u
    others := [w]
    before := 2
    value := .operation (.value ⟨true, .name w⟩) .power (.operation (.call g (plain w)
      [.term (.call ⟨"half", by decide, by decide⟩ (plain u) [])]) .plus
        (.term (.call ⟨"sin", by decide, by decide⟩ (plain u) [])))
    behind := 0 }

/-- A state at the top, with the function ahead and a name and a function of before. -/
def atRecursive : Compiler where
  code := ""
  lines := ["", "", "", "", ""]
  tokens := (Token.newline :: (recursive.tokens ++ [mark "\x7d", Token.newline])).toArray
  current := some (.word .keyword "fn")
  position := 1
  line := 2
  names := Table.initial ++ [("w", .unset), ("g", .unset), ("half", .table [("w", .unset)])]
  functions := ["half"]
  document := some #[.expression 1 "" none]
  target := .document

theorem recursive_writes_definition :
    recursive.latex ["half"] =
        "g\\left(g_\x7bu\x7d,g_\x7bw\x7d\\right)=-g_\x7bw\x7d^g\\left(g_\x7bw\x7d," ++
          "h_\x7balf\x7d\\left(g_\x7bu\x7d\\right)\\right)+\\sin\\left(g_\x7bu\x7d\\right)" ∧
      function (descent 30) atRecursive =
        .ok true { atRecursive.withText (recursive.latex ["half"]) with
          position := 1 + recursive.tokens.length
          current := some (mark "\x7d")
          line := 5
          names := Table.initial ++ [("w", .unset), ("g", .table [("u", .unset), ("w", .unset)]),
            ("half", .table [("w", .unset)])]
          functions := ["half", "g"] } := by
  have hread := @function_writes_definition atRecursive recursive 30 1 "" [Token.newline]
    (by decide) rfl (by decide) rfl rfl (by decide) (by decide) (by decide) (by decide) (by decide)
    (by decide) (by decide)
  rw [String.empty_append] at hread
  exact ⟨by decide, hread.1⟩

end PlotScript
