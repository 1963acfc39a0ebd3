import PlotScript.Grammar.Definition
import PlotScript.Proofs.Cursor
import PlotScript.Proofs.Juxtaposed
import PlotScript.Proofs.Tables

/-! Definitions of macros. What is kept of a macro are the texts of the tokens in its braces, with
nothing between them, behind a comma for each comma between its parameters. The first character
of all that is dropped: a comma if there is one, else mostly the newline behind the brace. -/

namespace PlotScript
open Compile Grammar PlotScript.Tree

def macroWord : Token := .word .keyword "macro"

/-- Names with commas between them. -/
def listed (n : Name) : List Name → List Token
  | [] => [n.token]
  | m :: ns => n.token :: mark "," :: listed m ns

theorem length_listed (n : Name) (ns : List Name) : (listed n ns).length = 2 * ns.length + 1 := by
  induction ns generalizing n with
  | nil => rfl
  | cons m ns ih =>
    rw [listed, List.length_cons, List.length_cons, ih, List.length_cons]
    omega

theorem exists_listed (n : Name) (ns : List Name) (rest : List Token) :
    ∃ ts, listed n ns ++ rest = n.token :: ts := by
  cases ns <;> exact ⟨_, rfl⟩

/-- Every closing brace has its opening one, and with `depth` more in front all are closed. -/
def closes : Nat → List Token → Bool
  | depth, [] => depth = 0
  | depth, t :: ts =>
    if t.is "\x7b" then closes (depth + 1) ts
    else if t.is "\x7d" then depth ≠ 0 && closes (depth - 1) ts
    else closes depth ts

/-- A token of the body does not close it, and what follows is closed from where it leads. -/
theorem closes_cons {depth : Nat} {t : Token} {ts : List Token}
    (h : closes depth (t :: ts) = true) :
    (t.is "\x7d" && depth = 0) = false ∧
      closes (if t.is "\x7b" then depth + 1 else if t.is "\x7d" then depth - 1 else depth) ts =
        true := by
  unfold closes at h
  split at h
  · next hopen => exact ⟨by simp [Token.is_of_is hopen], by simpa [hopen] using h⟩
  · next hopen =>
    split at h
    · next hclose =>
      rw [Bool.and_eq_true, decide_eq_true_eq] at h
      exact ⟨by simp [h.1], by simpa [hopen, hclose] using h.2⟩
    · next hclose => exact ⟨by simp [hclose], by simpa [hopen, hclose] using h⟩

/-- With `depth` braces open in front, no beginning closes more braces than are open there, and in
the end all are closed. -/
def Balanced (depth : Nat) (ts : List Token) : Prop :=
  (∀ front, front <+: ts → front.countP (·.is "\x7d") ≤ depth + front.countP (·.is "\x7b")) ∧
    ts.countP (·.is "\x7d") = depth + ts.countP (·.is "\x7b")

theorem forall_front_cons {P : List Token → Prop} {t : Token} {ts : List Token} :
    (∀ front, front <+: t :: ts → P front) ↔ P [] ∧ ∀ front, front <+: ts → P (t :: front) := by
  constructor
  · intro h
    exact ⟨h [] List.nil_prefix, fun front hfront => h _ (List.cons_prefix_cons.mpr ⟨rfl, hfront⟩)⟩
  · rintro ⟨hnil, hcons⟩ front hfront
    cases front with
    | nil => exact hnil
    | cons u front =>
      obtain ⟨rfl, hrest⟩ := List.cons_prefix_cons.mp hfront
      exact hcons front hrest

theorem balanced_open {depth : Nat} {t : Token} {ts : List Token} (h : t.is "\x7b" = true) :
    Balanced depth (t :: ts) ↔ Balanced (depth + 1) ts := by
  have hclose : t.is "\x7d" = false := Token.is_of_is h (by decide)
  simp [Balanced, forall_front_cons, h, hclose, Nat.add_assoc, Nat.add_comm 1]

theorem balanced_close {depth : Nat} {t : Token} {ts : List Token} (h : t.is "\x7d" = true) :
    Balanced depth (t :: ts) ↔ depth ≠ 0 ∧ Balanced (depth - 1) ts := by
  have hopen : t.is "\x7b" = false := Token.is_of_is h (by decide)
  cases depth with
  | zero =>
    have hfirst : ¬ Balanced 0 (t :: ts) := by
      intro hbalanced
      have hone := hbalanced.1 [t] (List.cons_prefix_cons.mpr ⟨rfl, List.nil_prefix⟩)
      simp [h, hopen] at hone
    simp [hfirst]
  | succ depth =>
    have hfronts : ∀ m n, m + 1 ≤ depth + 1 + n ↔ m ≤ depth + n := by omega
    have htotal : ∀ m n, m + 1 = depth + 1 + n ↔ m = depth + n := by omega
    simp only [Balanced, forall_front_cons, List.countP_cons, h, hopen, if_true, Bool.false_eq_true,
      if_false, Nat.add_zero, hfronts, htotal, List.countP_nil, Nat.zero_le, true_and,
      Nat.add_sub_cancel, ne_eq, Nat.succ_ne_zero, not_false_eq_true]

theorem balanced_other {depth : Nat} {t : Token} {ts : List Token} (hopen : t.is "\x7b" = false)
    (hclose : t.is "\x7d" = false) : Balanced depth (t :: ts) ↔ Balanced depth ts := by
  simp [Balanced, forall_front_cons, hopen, hclose]

/-- Closing brace by brace is the same as never closing too many and closing all in the end. -/
theorem closes_iff_balanced (depth : Nat) (ts : List Token) :
    closes depth ts = true ↔ Balanced depth ts := by
  induction ts generalizing depth with
  | nil =>
    simp [closes, Balanced]
    exact eq_comm
  | cons t ts ih =>
    rw [closes]
    split
    · next hopen => rw [ih, balanced_open hopen]
    · next hopen =>
      split
      · next hclose => simp [ih, balanced_close hclose]
      · next hclose => rw [ih, balanced_other (by simpa using hopen) (by simpa using hclose)]

/-- What is kept of a body behind as many commas. -/
def keptBody (commas : Nat) (body : List Token) : String :=
  String.ofList ((List.replicate commas ',' ++ Token.spelled body).drop 1)

/-- A macro with its name, its parameters and the tokens in its braces. -/
def definedMacro (n p : Name) (ps : List Name) (body : List Token) : MacroDef :=
  ⟨n.text, keptBody ps.length body, (p :: ps).map Name.text⟩

/-- The state with a macro more, and with other names and another scope. -/
def Compiler.defining (c : Compiler) (m : MacroDef) (names : Table) (scope : List String) :
    Compiler :=
  { c with macros := c.macros ++ [m], names, scope }

section definition
variable {c : Compiler} {i : Nat} {m : MacroDef} {names : Table} {scope : List String}
  {t u : Token} {line : Int} {rest : List Token}

theorem currentIs_cursorAt (text : String) :
    currentIs text (c.cursorAt i (some t) line) =
      .ok (t.is text) (c.cursorAt i (some t) line) := rfl

theorem updateLastMacro_defining (update : MacroDef → MacroDef) :
    updateLastMacro update ((c.defining m names scope).cursorAt i (some t) line) =
      .ok () ((c.defining (update m) names scope).cursorAt i (some t) line) := by
  simp [updateLastMacro, Compiler.defining, Compiler.cursorAt]

theorem addName_defining {names' : Table} {name : String} {value : Binding}
    (h : names.add scope name value = .ok names') :
    addName scope name value ((c.defining m names scope).cursorAt i (some t) line) =
      .ok () ((c.defining m names' scope).cursorAt i (some t) line) := by
  have hnames : ((c.defining m names scope).cursorAt i (some t) line).names = names := rfl
  rw [addName, bind_apply, get_apply]
  simp only [hnames, h, setNames]
  rfl

theorem advance_defining (hahead : c.Ahead i (t :: u :: rest)) (ht : t.isNewline = false) :
    advance ((c.defining m names scope).cursorAt i (some t) line) =
      .ok () ((c.defining m names scope).cursorAt (i + 1) (some u) line) :=
  advance_cursorAt_word hahead ht

/-- What follows the name of a parameter. -/
def behindParameter : Compile Bool := do
  if ← currentIs ")" then
    advance
    return true
  unless ← currentIs "," do fail "Expected ',' between parameters"
  appendBody ","
  advance
  return false

theorem macroParameter_name {n : Name} {names' : Table}
    (hadd : names.add scope n.text (.table []) = .ok names')
    (hahead : c.Ahead i (n.token :: u :: rest)) :
    macroParameter ((c.defining m names scope).cursorAt i (some n.token) line) =
      behindParameter ((c.defining ⟨m.name, m.body, m.parameters ++ [n.text]⟩ names'
        scope).cursorAt (i + 1) (some u) line) := by
  have hname : current ((c.defining m names scope).cursorAt i (some n.token) line) =
      .ok n.token ((c.defining m names scope).cursorAt i (some n.token) line) := rfl
  have hown : ((c.defining m names scope).cursorAt i (some n.token) line).scope = scope := rfl
  have hclosing : n.token.is ")" = false := n.token_is (by decide)
  have htext : n.token.name? = some n.text := rfl
  simp only [macroParameter, bind_apply, currentIs_cursorAt, hclosing, Bool.false_eq_true, if_false,
    hname, htext, get_apply, hown, addName_defining hadd, updateLastMacro_defining,
    advance_defining hahead rfl]
  simp only [behindParameter, bind_apply, currentIs_cursorAt]

theorem behindParameter_last (hahead : c.Ahead i (mark ")" :: u :: rest)) :
    behindParameter ((c.defining m names scope).cursorAt i (some (mark ")")) line) =
      .ok true ((c.defining m names scope).cursorAt (i + 1) (some u) line) := by
  simp [behindParameter, currentIs_cursorAt, advance_defining hahead rfl]

theorem behindParameter_comma (hahead : c.Ahead i (mark "," :: u :: rest)) :
    behindParameter ((c.defining m names scope).cursorAt i (some (mark ",")) line) =
      .ok false ((c.defining ⟨m.name, m.body ++ ",", m.parameters⟩ names scope).cursorAt (i + 1)
        (some u) line) := by
  simp [behindParameter, currentIs_cursorAt, appendBody, updateLastMacro_defining,
    advance_defining hahead rfl]

/-- The parameters are taken up to the closing bracket, with the commas between them. -/
theorem loop_macroParameter (m : MacroDef) (line : Int) {n : Name} {ns : List Name}
    {steps : Nat} {names' : Table} (hsteps : ns.length < steps)
    (hnames : names.addAll scope (.table []) ((n :: ns).map Name.text) = .ok names')
    (hahead : c.Ahead i (listed n ns ++ mark ")" :: u :: rest)) :
    loop macroParameter steps ((c.defining m names scope).cursorAt i (some n.token) line) =
      .ok () ((c.defining ⟨m.name, m.body ++ String.ofList (List.replicate ns.length ','),
        m.parameters ++ (n :: ns).map Name.text⟩ names' scope).cursorAt
          (i + (2 * ns.length + 2)) (some u) line) := by
  induction ns generalizing n i m names steps with
  | nil =>
    obtain ⟨steps, rfl⟩ := Nat.exists_eq_add_of_lt hsteps
    obtain ⟨next, hadd, hlater⟩ := Table.addAll_cons hnames
    cases hlater
    rw [loop, bind_apply, macroParameter_name hadd hahead, behindParameter_last hahead.tail]
    simp
  | cons k ns ih =>
    obtain ⟨steps, rfl⟩ := Nat.exists_eq_add_of_lt hsteps
    obtain ⟨next, hadd, hlater⟩ := Table.addAll_cons hnames
    have hmore : c.Ahead i (n.token :: mark "," :: (listed k ns ++ mark ")" :: u :: rest)) := hahead
    obtain ⟨ts, hts⟩ := exists_listed k ns (mark ")" :: u :: rest)
    have hcomma : c.Ahead (i + 1) (mark "," :: k.token :: ts) := hts ▸ hmore.tail
    have hfewer : ns.length < (k :: ns).length + steps := by
      rw [List.length_cons]
      omega
    have hrest := ih ⟨m.name, m.body ++ ",", m.parameters ++ [n.text]⟩ hfewer hlater
      hmore.tail.tail
    have hbody : m.body ++ "," ++ String.ofList (List.replicate ns.length ',') =
        m.body ++ String.ofList (List.replicate (k :: ns).length ',') := by
      rw [List.length_cons, List.replicate_succ, ← String.toList_inj]
      simp
    have hindex : i + 1 + 1 + (2 * ns.length + 2) = i + (2 * (k :: ns).length + 2) := by
      rw [List.length_cons]
      omega
    have hparameters : m.parameters ++ [n.text] ++ (k :: ns).map Name.text =
        m.parameters ++ (n :: k :: ns).map Name.text := by simp
    rw [loop, bind_apply, macroParameter_name hadd hmore, behindParameter_comma hcomma]
    rw [← hbody, ← hindex, ← hparameters]
    exact hrest

/-- The body is taken up to the brace that closes it, and the lines on the way are counted. -/
theorem macroBody_eq {body : List Token} {steps depth : Nat} (hsteps : body.length < steps)
    (hcloses : closes depth body = true)
    (hahead : c.Ahead i (body ++ mark "\x7d" :: rest)) :
    macroBody steps depth ((c.defining m names scope).cursorAt i
        (body ++ mark "\x7d" :: rest).head? line) =
      .ok () ((c.defining ⟨m.name, m.body ++ String.ofList (Token.spelled body), m.parameters⟩ names
        scope).cursorAt (i + body.length) (some (mark "\x7d"))
          (line + body.countP Token.isNewline)) := by
  induction body generalizing i m line steps depth with
  | nil =>
    obtain ⟨steps, rfl⟩ := Nat.exists_eq_add_of_lt hsteps
    have hcurrent : current ((c.defining m names scope).cursorAt i (some (mark "\x7d")) line) =
        .ok (mark "\x7d") ((c.defining m names scope).cursorAt i (some (mark "\x7d")) line) := rfl
    have hdepth : depth = 0 := of_decide_eq_true hcloses
    rw [List.nil_append, List.head?_cons, macroBody, bind_apply, hcurrent]
    simp [hdepth, Token.spelled]
  | cons t body ih =>
    obtain ⟨steps, rfl⟩ := Nat.exists_eq_add_of_lt hsteps
    obtain ⟨hinside, hlater⟩ := closes_cons hcloses
    have hfewer : body.length < (t :: body).length + steps := by
      rw [List.length_cons]
      omega
    have hne : body ++ mark "\x7d" :: rest ≠ [] := by simp
    obtain ⟨u, us, hus⟩ := List.exists_cons_of_ne_nil hne
    have hrest : c.Ahead (i + 1) (body ++ mark "\x7d" :: rest) := hahead.tail
    have hcurrent : current ((c.defining m names scope).cursorAt i (some t) line) =
        .ok t ((c.defining m names scope).cursorAt i (some t) line) := rfl
    have hmove : advance ((c.defining ⟨m.name, m.body ++ t.shown, m.parameters⟩ names
        scope).cursorAt i (some t) line) = .ok () ((c.defining ⟨m.name, m.body ++ t.shown,
          m.parameters⟩ names scope).cursorAt (i + 1) (body ++ mark "\x7d" :: rest).head?
            (lineAfter line t)) := by
      have hnext : c.Ahead i (t :: (body ++ mark "\x7d" :: rest)) := hahead
      rw [hus] at hnext ⊢
      exact advance_cursorAt hnext
    have hbody : m.body ++ t.shown ++ String.ofList (Token.spelled body) =
        m.body ++ String.ofList (Token.spelled (t :: body)) := by
      rw [← String.toList_inj]
      simp [Token.spelled]
    have hindex : i + 1 + body.length = i + (t :: body).length := by
      rw [List.length_cons]
      omega
    have hline : lineAfter line t + body.countP Token.isNewline =
        line + (t :: body).countP Token.isNewline := by
      unfold lineAfter
      rw [List.countP_cons]
      split <;> omega
    rw [List.cons_append, List.head?_cons, macroBody, bind_apply, hcurrent]
    simp only [hinside, Bool.false_eq_true, if_false, bind_apply, appendBody,
      updateLastMacro_defining, hmove]
    rw [ih hfewer hlater hrest, hbody, hindex, hline]

theorem stepsLeft_cursorAt {token? : Option Token} (hahead : c.Ahead i (t :: rest)) :
    (c.cursorAt i token? line).stepsLeft = rest.length + 3 := by
  have hlength := congrArg List.length hahead
  rw [List.length_drop, Array.length_toList, List.length_cons] at hlength
  have hsize : (c.cursorAt i token? line).tokens.size = c.tokens.size := rfl
  have hposition : (c.cursorAt i token? line).position = i := rfl
  rw [Compiler.stepsLeft, hsize, hposition]
  omega

/-- A macro from the brace behind its parameters on. -/
def macroFromBrace : Compile Bool := do
  unless ← currentIs "\x7b" do fail "Expected \x7b after function definition"
  advance
  macroBody (← get).stepsLeft 0
  updateLastMacro fun m => { m with body := String.ofList (m.body.toList.drop 1) }
  popScope
  return true

theorem macroDefinition_stages : macroDefinition = (do
    unless ← currentIs "macro" do return false
    advance
    match (← current).name? with
    | none => fail "Expected identifier after macro"
    | some name =>
      modify fun c => { c with macros := c.macros ++ [⟨name, "", []⟩] }
      addName (← get).scope name (.table [])
      pushScope name
      advance
      unless ← currentIs "!" do fail "Macro names must end in !"
      advance
      unless ← currentIs "(" do fail "Expected ("
      advance
      loop macroParameter (← get).stepsLeft
      macroFromBrace) := rfl

theorem popScope_defining {name : String} :
    popScope ((c.defining m names (scope ++ [name])).cursorAt i (some t) line) =
      .ok () ((c.defining m names scope).cursorAt i (some t) line) := by
  simp [popScope, Compiler.defining, Compiler.cursorAt]

theorem macroFromBrace_eq {name : String} {body after : List Token}
    (hahead : c.Ahead i (mark "\x7b" :: (body ++ mark "\x7d" :: after)))
    (hcloses : closes 0 body = true) :
    macroFromBrace ((c.defining m names (scope ++ [name])).cursorAt i (some (mark "\x7b")) line) =
      .ok true ((c.defining ⟨m.name, String.ofList ((m.body.toList ++ Token.spelled body).drop 1),
        m.parameters⟩ names scope).cursorAt (i + 1 + body.length) (some (mark "\x7d"))
          (line + body.countP Token.isNewline)) := by
  have hne : body ++ mark "\x7d" :: after ≠ [] := by simp
  obtain ⟨u, us, hus⟩ := List.exists_cons_of_ne_nil hne
  have hmove : advance ((c.defining m names (scope ++ [name])).cursorAt i (some (mark "\x7b"))
      line) = .ok () ((c.defining m names (scope ++ [name])).cursorAt (i + 1)
        (body ++ mark "\x7d" :: after).head? line) := by
    rw [hus] at hahead ⊢
    exact advance_defining hahead rfl
  have hsteps : body.length < ((c.defining m names (scope ++ [name])).cursorAt (i + 1)
      (body ++ mark "\x7d" :: after).head? line).stepsLeft := by
    have hfirst : (c.defining m names (scope ++ [name])).Ahead (i + 1) (u :: us) :=
      hus ▸ hahead.tail
    have hlength := congrArg List.length hus
    rw [stepsLeft_cursorAt hfirst]
    simp only [List.length_append, List.length_cons] at hlength
    omega
  have hopen : (mark "\x7b").is "\x7b" = true := rfl
  simp only [macroFromBrace, bind_apply, currentIs_cursorAt, hopen, if_true, hmove, get_apply,
    macroBody_eq hsteps hcloses hahead.tail, updateLastMacro_defining, popScope_defining,
    pure_apply, String.toList_append, String.toList_ofList]

/-- Up to the first parameter. -/
theorem macroDefinition_begin {n p : Name}
    (hposition : c.position = i) (hcurrent : c.current = some macroWord)
    (hahead : c.Ahead i (macroWord :: n.token :: mark "!" :: mark "(" :: p.token :: rest))
    (hname : c.names.add c.scope n.text (.table []) = .ok names) :
    macroDefinition c = (do
        loop macroParameter (← get).stepsLeft
        macroFromBrace : Compile Bool)
      ((c.defining ⟨n.text, "", []⟩ names (c.scope ++ [n.text])).cursorAt (i + 4) (some p.token)
        c.line) := by
  have hstart : currentIs "macro" c = .ok true c := by
    simp [currentIs, current, hcurrent, macroWord, Token.is]
  have hfirst : advance c = .ok () (c.cursorAt (i + 1) (some n.token) c.line) := by
    have hmove : advance (c.cursorAt i (some macroWord) c.line) = _ := advance_cursorAt hahead
    rwa [Compiler.cursorAt_self hposition hcurrent] at hmove
  have hname' : current (c.cursorAt (i + 1) (some n.token) c.line) =
      .ok n.token (c.cursorAt (i + 1) (some n.token) c.line) := rfl
  have htext : n.token.name? = some n.text := rfl
  have hadded : (modify fun d => { d with macros := d.macros ++ [⟨n.text, "", []⟩] } :
      Compile PUnit) (c.cursorAt (i + 1) (some n.token) c.line) = .ok ⟨⟩ ((c.defining
        ⟨n.text, "", []⟩ c.names c.scope).cursorAt (i + 1) (some n.token) c.line) := rfl
  have hown : ((c.defining ⟨n.text, "", []⟩ c.names c.scope).cursorAt (i + 1) (some n.token)
      c.line).scope = c.scope := rfl
  have hpushed : pushScope n.text ((c.defining ⟨n.text, "", []⟩ names c.scope).cursorAt (i + 1)
      (some n.token) c.line) = .ok () ((c.defining ⟨n.text, "", []⟩ names
        (c.scope ++ [n.text])).cursorAt (i + 1) (some n.token) c.line) := rfl
  have hmarks : (mark "!").is "!" = true ∧ (mark "(").is "(" = true := ⟨rfl, rfl⟩
  simp only [macroDefinition_stages, bind_apply, hstart, if_true, hfirst, hname', htext, hadded,
    get_apply, hown, addName_defining hname, hpushed, advance_defining hahead.tail rfl,
    currentIs_cursorAt, hmarks.1, hmarks.2, advance_defining hahead.tail.tail rfl,
    advance_defining hahead.tail.tail.tail rfl]

/-- A macro whose names can be bound is taken up whole, and the scope is the same as before. -/
theorem macroDefinition_of_addAll {n p : Name} {ps : List Name} {body after : List Token}
    {names' : Table} (hposition : c.position = i) (hcurrent : c.current = some macroWord)
    (hahead : c.Ahead i (macroWord :: n.token :: mark "!" :: mark "(" :: (listed p ps ++
      mark ")" :: mark "\x7b" :: (body ++ mark "\x7d" :: after))))
    (hname : c.names.add c.scope n.text (.table []) = .ok names)
    (hnames : names.addAll (c.scope ++ [n.text]) (.table []) ((p :: ps).map Name.text) = .ok names')
    (hcloses : closes 0 body = true) :
    macroDefinition c = .ok true ((c.defining (definedMacro n p ps body) names' c.scope).cursorAt
      (i + (2 * ps.length + 7) + body.length) (some (mark "\x7d"))
        (c.line + body.countP Token.isNewline)) := by
  have hparameters : c.Ahead (i + 4) _ := hahead.tail.tail.tail.tail
  obtain ⟨ts, hts⟩ := exists_listed p ps
    (mark ")" :: mark "\x7b" :: (body ++ mark "\x7d" :: after))
  have hsteps : ps.length < ((c.defining ⟨n.text, "", []⟩ names (c.scope ++ [n.text])).cursorAt
      (i + 4) (some p.token) c.line).stepsLeft := by
    have hfirst : (c.defining ⟨n.text, "", []⟩ names (c.scope ++ [n.text])).Ahead (i + 4)
        (p.token :: ts) := hts ▸ hparameters
    have hlength := congrArg List.length hts
    rw [stepsLeft_cursorAt hfirst]
    simp only [List.length_append, List.length_cons, length_listed] at hlength
    omega
  have hloop := loop_macroParameter ⟨n.text, "", []⟩ c.line hsteps hnames hparameters
  have hbrace : c.Ahead (i + 4 + (2 * ps.length + 2))
      (mark "\x7b" :: (body ++ mark "\x7d" :: after)) := by
    have hskip := hparameters.skip.tail
    rwa [length_listed] at hskip
  have hindex : i + 4 + (2 * ps.length + 2) + 1 + body.length =
      i + (2 * ps.length + 7) + body.length := by omega
  have hbody : String.ofList ((String.toList ("" ++ String.ofList (List.replicate ps.length ',')) ++
      Token.spelled body).drop 1) = keptBody ps.length body := by
    simp [keptBody]
  rw [hts] at hahead
  rw [macroDefinition_begin hposition hcurrent hahead hname]
  simp only [bind_apply, get_apply, hloop, macroFromBrace_eq hbrace hcloses, hindex, hbody,
    List.nil_append, definedMacro]

/-- The parameters can be bound where the name can. -/
theorem macroDefinition_eq {n p : Name} {ps : List Name} {body after : List Token}
    (hposition : c.position = i) (hcurrent : c.current = some macroWord)
    (hahead : c.Ahead i (macroWord :: n.token :: mark "!" :: mark "(" :: (listed p ps ++
      mark ")" :: mark "\x7b" :: (body ++ mark "\x7d" :: after))))
    (hname : c.names.add c.scope n.text (.table []) = .ok names) (hcloses : closes 0 body = true) :
    ∃ names', macroDefinition c =
      .ok true ((c.defining (definedMacro n p ps body) names' c.scope).cursorAt
        (i + (2 * ps.length + 7) + body.length) (some (mark "\x7d"))
          (c.line + body.countP Token.isNewline)) := by
  obtain ⟨names', hnames⟩ := Table.exists_addAll ((p :: ps).map Name.text) (.table [])
    (Table.resolve_add hname)
  exact ⟨names', macroDefinition_of_addAll hposition hcurrent hahead hname hnames hcloses⟩

end definition

/-- A macro at the top is taken up whole: the brace that closes its body becomes current, and what
is kept are its name, its parameters in order and the texts of the body, behind a comma for each
further parameter and without the first character. The newlines of the body are counted, its name
and its parameters are bound, and nothing else changes. -/
theorem macro_definition_keeps_body {c : Compiler} {n p : Name} {ps : List Name}
    {before body after : List Token}
    (htokens : c.tokens.toList = before ++ macroWord :: n.token :: mark "!" :: mark "(" ::
      (listed p ps ++ mark ")" :: mark "\x7b" :: (body ++ mark "\x7d" :: after)))
    (hposition : c.position = before.length) (hcurrent : c.current = some macroWord)
    (hscope : c.scope = [])
    (hfronts : ∀ front, front <+: body →
      front.countP (·.is "\x7d") ≤ front.countP (·.is "\x7b"))
    (htotal : body.countP (·.is "\x7d") = body.countP (·.is "\x7b")) :
    macroDefinition c = .ok true { c with
      macros := c.macros ++ [⟨n.text,
        String.ofList ((List.replicate ps.length ',' ++ Token.spelled body).drop 1),
        (p :: ps).map Name.text⟩]
      names := c.names.bind n.text
        (.table (Table.bindAll (.table []) ((p :: ps).map Name.text) []))
      position := before.length + (2 * ps.length + 7) + body.length
      current := some (mark "\x7d")
      line := c.line + body.countP Token.isNewline } := by
  have hbalanced : Balanced 0 body := by
    simpa [Balanced] using And.intro hfronts htotal
  have hname : c.names.add c.scope n.text (.table []) = .ok (c.names.bind n.text (.table [])) := by
    rw [hscope]
    rfl
  have hnames : (c.names.bind n.text (.table [])).addAll (c.scope ++ [n.text]) (.table [])
      ((p :: ps).map Name.text) = .ok (c.names.bind n.text
        (.table (Table.bindAll (.table []) ((p :: ps).map Name.text) []))) := by
    rw [hscope]
    exact Table.addAll_inside c.names [] n.text (.table []) _
  exact macroDefinition_of_addAll hposition hcurrent (Compiler.ahead_of_tokens htokens) hname hnames
    ((closes_iff_balanced 0 body).mpr hbalanced)

/-- At a macro of two parameters with braces inside of braces. -/
def atNested : Compiler :=
  { code := "macro ring!(r,__name__) \x7b\n\x7b\x7br\x7d\n\x7d\x7d\x7d"
    lines := ["macro ring!(r,__name__) \x7b", "\x7b\x7br\x7d", "\x7d\x7d"]
    tokens := #[.newline, macroWord, .word .name "ring", mark "!", mark "(", .word .name "r",
      mark ",", .word .name "__name__", mark ")", mark "\x7b", .newline, mark "\x7b", mark "\x7b",
      .word .name "r", mark "\x7d", .newline, mark "\x7d", mark "\x7d", .newline]
    current := some macroWord
    position := 1
    line := 2 }

theorem nested_definition_keeps_body :
    macroDefinition atNested = .ok true { atNested with
      macros := [⟨"ring", "\n\x7b\x7br\x7d\n\x7d", ["r", "__name__"]⟩]
      names := Table.initial ++
        [("ring", .table [("r", .table []), ("__name__", .table [])])]
      position := 17
      current := some (mark "\x7d")
      line := 4 } := by
  let body : List Token := [.newline, mark "\x7b", mark "\x7b", .word .name "r", mark "\x7d",
    .newline, mark "\x7d"]
  have hbalanced : Balanced 0 body := (closes_iff_balanced 0 body).mp (by decide)
  rw [Balanced] at hbalanced
  simp only [Nat.zero_add] at hbalanced
  exact @macro_definition_keeps_body atNested ⟨"ring", by decide, by decide⟩
    ⟨"r", by decide, by decide⟩ [⟨"__name__", by decide, by decide⟩] [.newline] body [.newline]
    rfl rfl rfl rfl hbalanced.1 hbalanced.2

end PlotScript
