import PlotScript.Proofs.MacroDefinition
import PlotScript.Proofs.Placeholders
import PlotScript.Proofs.References

/-! Calls of macros. The text of a call is the kept text with one placeholder replaced, read
again as tokens. -/

namespace PlotScript
open Compile Grammar PlotScript.Tree

section call
variable {c : Compiler} {i : Nat} {m : MacroDef} {n a : Name} {line : Int} {t : Token}
  {rest : List Token}

/-- Each parameter starts from the body again, and each takes the first argument. -/
theorem expansion_eq {parameters : List String} (hparameters : "__name__" ∉ parameters)
    (text : String) :
    expansion m parameters text (c.cursorAt i (some a.token) line) =
      .ok (parameters.getLast?.elim text fun parameter =>
        Text.substitute m.body (placeholder parameter) a.text)
        (c.cursorAt i (some a.token) line) := by
  induction parameters generalizing text with
  | nil => rfl
  | cons parameter others ih =>
    rw [List.mem_cons, not_or] at hparameters
    have hown : parameter ≠ "__name__" := Ne.symm hparameters.1
    have hcurrent : current (c.cursorAt i (some a.token) line) =
        .ok a.token (c.cursorAt i (some a.token) line) := rfl
    have hword : wordText a.token (c.cursorAt i (some a.token) line) =
        .ok a.text (c.cursorAt i (some a.token) line) := rfl
    have hclosing : a.token.is ")" = false := a.token_is (by decide)
    simp only [expansion, if_neg hown, bind_apply, currentIs_cursorAt, hclosing, Bool.false_eq_true,
      if_false, hcurrent, hword, ih hparameters.2, List.getLast?_cons]
    cases others.getLast? <;> rfl

/-- The text that a call puts in: the last parameter takes the first argument. -/
def MacroDef.textFor (m : MacroDef) (argument : String) : String :=
  m.parameters.getLast?.elim m.body fun parameter =>
    Text.substitute m.body (placeholder parameter) argument

/-- A call from the text of its macro on. -/
def macroFromText (text : String) : Compile Bool := do
  advance
  spliceAfter [Token.newline]
  let tokens ← readTokens text
  spliceAfter (Token.newline :: tokens)
  rejoinCode
  return true

/-- A call up to the text of its macro, which is worked out behind the bracket. -/
theorem macroCall_expands {own u : Token} (hown : own.isNewline = false)
    (hfind : c.macros.find? (fun x => own.is x.name) = some m)
    (hahead : c.Ahead i (own :: mark "!" :: mark "(" :: u :: rest)) :
    macroCall (c.cursorAt i (some own) line) =
      (expansion m m.parameters m.body >>= macroFromText) (c.cursorAt (i + 3) (some u) line) := by
  have hnext : nextIs "!" (c.cursorAt i (some own) line) =
      .ok true (c.cursorAt i (some own) line) := by
    have hplace : Place.get? c.tokens (i + 1) = some (mark "!") :=
      (get?_succ c.tokens i).trans hahead.tail.head
    simp [nextIs, peek, Compiler.cursorAt, hplace]
  have hcurrent : current (c.cursorAt i (some own) line) =
      .ok own (c.cursorAt i (some own) line) := rfl
  have hmacros : (c.cursorAt i (some own) line).macros = c.macros := rfl
  have hname : advance (c.cursorAt i (some own) line) =
      .ok () (c.cursorAt (i + 1) (some (mark "!")) line) := advance_cursorAt_word hahead hown
  have hbang : advance (c.cursorAt (i + 1) (some (mark "!")) line) =
      .ok () (c.cursorAt (i + 2) (some (mark "(")) line) := advance_cursorAt hahead.tail
  have hbracket : advance (c.cursorAt (i + 2) (some (mark "(")) line) =
      .ok () (c.cursorAt (i + 3) (some u) line) := advance_cursorAt hahead.tail.tail
  have hopen : (mark "(").is "(" = true := rfl
  simp only [macroCall, bind_apply, hnext, if_true, hcurrent, get_apply, hmacros, hfind, hname,
    hbang, currentIs_cursorAt, hopen, hbracket, macroFromText]

theorem macroCall_begin (hfind : c.macros.find? (fun x => n.token.is x.name) = some m)
    (hparameters : "__name__" ∉ m.parameters)
    (hahead : c.Ahead i (n.token :: mark "!" :: mark "(" :: a.token :: rest)) :
    macroCall (c.cursorAt i (some n.token) line) =
      macroFromText (m.textFor a.text) (c.cursorAt (i + 3) (some a.token) line) := by
  rw [macroCall_expands rfl hfind hahead, bind_apply, expansion_eq hparameters]
  rfl

/-- A block put in where another was goes in front of it. -/
theorem spliced_below (hsize : i + 1 ≤ c.tokens.size) (first second : List Token) :
    Compiler.spliced { c with tokens := Place.splice c.tokens (i + 1) first } i second =
      c.spliced i (second ++ first) := by
  have hlength : (c.tokens.toList.take (i + 1)).length = i + 1 := by simp [hsize]
  have htokens : Place.splice (Place.splice c.tokens (i + 1) first) (i + 1) second =
      Place.splice c.tokens (i + 1) (second ++ first) := by
    have hplace : ((i : Int) + 1) = ((i + 1 : Nat) : Int) := rfl
    rw [← Array.toList_inj, hplace]
    simp only [Place.toList_splice_natCast, List.append_assoc]
    rw [List.take_left' hlength, List.drop_left' hlength]
  simp only [Compiler.spliced, htokens]

/-- Behind the next token the text is put in between two newlines. -/
theorem macroFromText_of_advance {text : String} {d : Compiler}
    (hread : (Lexer.read text).ending = .finished)
    (hmove : advance d = .ok () (c.cursorAt i (some t) line)) (hsize : i + 1 ≤ c.tokens.size) :
    macroFromText text d =
      .ok true ((c.spliced i (Token.newline :: (Lexer.read text).tokens ++
        [Token.newline])).cursorAt i (some t) line) := by
  let e : Compiler := { c with tokens := Place.splice c.tokens (i + 1) [Token.newline] }
  have hbelow : spliceAfter [Token.newline] (c.cursorAt i (some t) line) =
      .ok () (e.cursorAt i (some t) line) := rfl
  have habove : (spliceAfter (Token.newline :: (Lexer.read text).tokens) >>= fun _ => rejoinCode)
      (e.cursorAt i (some t) line) = .ok () ((e.spliced i
        (Token.newline :: (Lexer.read text).tokens)).cursorAt i (some t) line) :=
    splice_cursorAt _
  rw [spliced_below hsize] at habove
  obtain ⟨⟨⟩, f, hsplice, hrejoin⟩ := bind_eq_ok habove
  simp only [macroFromText, bind_apply, hmove, hbelow, readTokens_eq hread, hsplice, hrejoin,
    pure_apply]

theorem macroFromText_eq {text : String} (hread : (Lexer.read text).ending = .finished)
    (hahead : c.Ahead i (a.token :: t :: rest)) :
    macroFromText text (c.cursorAt i (some a.token) line) =
      .ok true ((c.spliced (i + 1) (Token.newline :: (Lexer.read text).tokens ++
        [Token.newline])).cursorAt (i + 1) (some t) line) :=
  macroFromText_of_advance hread (advance_cursorAt hahead) hahead.tail.lt_size

theorem readTokens_fails {text : String} (hread : (Lexer.read text).ending ≠ .finished) :
    ∃ e d, readTokens text c = .error e d := by
  rcases readTokens_cases text c with ⟨hfinished, -⟩ | ⟨e, position, hfault⟩
  · exact absurd hfinished hread
  · exact ⟨e, _, hfault⟩

theorem macroFromText_fails {text : String} (hread : (Lexer.read text).ending ≠ .finished)
    (c c' : Compiler) : macroFromText text c ≠ .ok true c' := by
  intro hdone
  obtain ⟨_, _, _, hmoved⟩ := bind_eq_ok hdone
  obtain ⟨_, d, _, hspliced⟩ := bind_eq_ok hmoved
  obtain ⟨_, _, htokens, _⟩ := bind_eq_ok hspliced
  obtain ⟨e, d', hfails⟩ := readTokens_fails (c := d) hread
  rw [hfails] at htokens
  contradiction

end call

/-- The call at the cursor puts tokens in between two newlines, and all but the tokens, the code
and the cursor stays. -/
def PutsIn (c : Compiler) (front between rest : List Token) : Prop :=
  ∃ c', macroCall c = .ok true c' ∧
    c'.tokens.toList = front ++ Token.newline :: (between ++ Token.newline :: rest) ∧
    c'.position + 1 = front.length ∧ c'.current = front.getLast? ∧
    c'.document = c.document ∧ c'.names = c.names ∧ c'.scope = c.scope ∧
    c'.functions = c.functions ∧ c'.macros = c.macros ∧ c'.folder = c.folder

section putsIn
variable {c : Compiler} {m : MacroDef} {n a : Name} {t : Token} {front rest between : List Token}

theorem macroCall_eq (hfind : c.macros.find? (fun x => n.token.is x.name) = some m)
    (hparameters : "__name__" ∉ m.parameters)
    (htokens : c.tokens.toList = front ++ n.token :: mark "!" :: mark "(" :: a.token :: t :: rest)
    (hposition : c.position = front.length) (hcurrent : c.current = some n.token) :
    macroCall c = macroFromText (m.textFor a.text)
      (c.cursorAt (front.length + 3) (some a.token) c.line) := by
  have hcall : macroCall (c.cursorAt front.length (some n.token) c.line) = _ :=
    macroCall_begin hfind hparameters (Compiler.ahead_of_tokens htokens)
  rwa [Compiler.cursorAt_self hposition hcurrent] at hcall

theorem putsIn_of_finished (hfind : c.macros.find? (fun x => n.token.is x.name) = some m)
    (hparameters : "__name__" ∉ m.parameters)
    (htokens : c.tokens.toList = front ++ n.token :: mark "!" :: mark "(" :: a.token :: t :: rest)
    (hposition : c.position = front.length) (hcurrent : c.current = some n.token)
    (hread : (Lexer.read (m.textFor a.text)).ending = .finished) :
    PutsIn c (front ++ [n.token, mark "!", mark "(", a.token, t])
      (Lexer.read (m.textFor a.text)).tokens rest := by
  have hahead : c.Ahead (front.length + 3) (a.token :: t :: rest) :=
    (Compiler.ahead_of_tokens htokens).tail.tail.tail
  have hsplit : c.tokens.toList =
      (front ++ [n.token, mark "!", mark "(", a.token]) ++ t :: rest := by
    simpa using htokens
  have hspliced := Compiler.tokens_spliced hsplit
    (Token.newline :: (Lexer.read (m.textFor a.text)).tokens ++ [Token.newline])
  have hlength : (front ++ [n.token, mark "!", mark "(", a.token]).length =
      front.length + 3 + 1 := by simp
  rw [hlength] at hspliced
  rw [PutsIn, macroCall_eq hfind hparameters htokens hposition hcurrent,
    macroFromText_eq hread hahead]
  refine ⟨_, rfl, hspliced.trans (by simp), ?_, ?_, Compiler.frame_spliced _ _ _ _ _ _⟩
  · simp [Compiler.cursorAt]
    omega
  · simp [Compiler.cursorAt]

/-- What a call puts in is what is read from the text of its macro. -/
theorem eq_of_putsIn (hfind : c.macros.find? (fun x => n.token.is x.name) = some m)
    (hparameters : "__name__" ∉ m.parameters)
    (htokens : c.tokens.toList = front ++ n.token :: mark "!" :: mark "(" :: a.token :: t :: rest)
    (hposition : c.position = front.length) (hcurrent : c.current = some n.token)
    (hputs : PutsIn c (front ++ [n.token, mark "!", mark "(", a.token, t]) between rest) :
    (Lexer.read (m.textFor a.text)).ending = .finished ∧
      between = (Lexer.read (m.textFor a.text)).tokens := by
  obtain ⟨d, hcall, hd, -⟩ := hputs
  cases hread : (Lexer.read (m.textFor a.text)).ending with
  | finished =>
    obtain ⟨d', hcall', hd', -⟩ :=
      putsIn_of_finished hfind hparameters htokens hposition hcurrent hread
    obtain rfl : d = d' := by simpa [hcall] using hcall'
    rw [hd, List.append_cancel_left_eq, List.cons.injEq] at hd'
    exact ⟨rfl, List.append_cancel_right hd'.2⟩
  | _ =>
    rw [macroCall_eq hfind hparameters htokens hposition hcurrent] at hcall
    exact absurd hcall (macroFromText_fails (by simp [hread]) _ _)

end putsIn

/-- The tokens of a macro's arguments with the names of its parameters. -/
def pairedArguments (parameters arguments : List Name) : List (String × Token) :=
  (parameters.map Name.text).zip (arguments.map Name.token)

section reading
variable {n p a : Name} {ps : List Name} {body : List Token}

theorem textFor_definedMacro (argument : String) :
    (definedMacro n p ps body).textFor argument =
      Text.substitute (keptBody ps.length body) (placeholder (ps.getLast?.getD p).text)
        argument := by
  simp [MacroDef.textFor, definedMacro, List.getLast?_cons]

theorem keptBody_zero :
    keptBody 0 (Token.newline :: body) = String.ofList (Token.spelled body) := by
  simp [keptBody, Token.spelled, Token.newline, Token.shown]

theorem newline_notMem_placeholder (n : Name) : '\n' ∉ (placeholder n.text).toList := by
  have hname := Lexer.newline_notMem_of_isName n.isName
  rw [Lexer.toList_placeholder]
  simpa using hname

/-- With a comma in front, the newline that a body begins with is kept. -/
theorem count_keptBody (hbody : ∀ t ∈ body, Lexer.Rereadable t) (hmore : ps ≠ []) :
    (keptBody ps.length (Token.newline :: body)).toList.count '\n' =
      body.countP Token.isNewline + 1 := by
  cases ps with
  | nil => contradiction
  | cons q ps =>
    have hnewline : Token.newline.shown.toList = ['\n'] := rfl
    have hcommas : (List.replicate ps.length ',').count '\n' = 0 := by
      simp [List.count_replicate]
    rw [keptBody, String.toList_ofList, List.length_cons, List.replicate_succ, List.cons_append,
      List.drop_one, List.tail_cons, List.count_append, hcommas, Token.spelled, hnewline,
      List.singleton_append, List.count_cons_self, Lexer.count_spelled hbody, Nat.zero_add]

theorem countP_textFor (hbody : ∀ t ∈ body, Lexer.Rereadable t) (hmore : ps ≠ [])
    (hread : (Lexer.read ((definedMacro n p ps (Token.newline :: body)).textFor a.text)).ending =
      .finished) :
    (Lexer.read ((definedMacro n p ps (Token.newline :: body)).textFor a.text)).tokens.countP
      Token.isNewline = body.countP Token.isNewline + 1 := by
  have hplaceholder : (placeholder (ps.getLast?.getD p).text).toList ≠ [] := by
    simp [Lexer.toList_placeholder]
  rw [Lexer.read_eq_readAfter] at hread ⊢
  rw [Lexer.countP_readAfter hread, textFor_definedMacro, Text.substitute, String.toList_ofList,
    Text.count_substituteFrom hplaceholder (newline_notMem_placeholder _)
      (Lexer.newline_notMem_of_isName a.isName), List.drop_zero, count_keptBody hbody hmore]

/-- So with more than one parameter a call never puts in the tokens with the arguments in
place. -/
theorem textFor_ne_filled {arguments : List Name} (hbody : ∀ t ∈ body, Lexer.Rereadable t)
    (hmore : ps ≠ [])
    (hread : (Lexer.read ((definedMacro n p ps (Token.newline :: body)).textFor a.text)).ending =
      .finished) :
    Token.filled (pairedArguments (p :: ps) arguments) body ≠
      (Lexer.read ((definedMacro n p ps (Token.newline :: body)).textFor a.text)).tokens := by
  intro hsame
  have hcount := countP_textFor hbody hmore hread
  have hpairs : ∀ x ∈ pairedArguments (p :: ps) arguments, x.1 ≠ "\n" ∧ x.2.isNewline = false := by
    intro x hx
    obtain ⟨hleft, hright⟩ := List.of_mem_zip hx
    obtain ⟨q, -, hq⟩ := List.mem_map.mp hleft
    obtain ⟨b, -, hb⟩ := List.mem_map.mp hright
    rw [← hq, ← hb]
    exact ⟨q.text_ne (by decide), rfl⟩
  rw [← hsame, Lexer.countP_filled hbody hpairs] at hcount
  omega

theorem Tree.Name.stable (n : Name) : Lexer.Stable n.token := by
  have hspells : Lexer.Spells (.word .name (String.ofList n.text.toList)) n.text.toList :=
    .name n.isName (by simpa using n.notKeyword)
  rw [String.ofList_toList] at hspells
  exact .inr hspells

/-- With one parameter a call puts in the tokens with the argument in place, if nothing fuses. -/
theorem read_textFor (hbody : ∀ t ∈ body, Lexer.Rereadable t)
    (hnames : ∀ k ∈ Lexer.keywords, Token.word .name k ∉ body)
    (hnotes : ∀ t ∈ body, t.isKind .note = true →
      ¬ (placeholder p.text).toList <:+: t.shown.toList)
    (hside : Token.sideBySide (Token.filled [(p.text, a.token)] body) = true) :
    (Lexer.read ((definedMacro n p [] (Token.newline :: body)).textFor a.text)).tokens =
        Token.filled [(p.text, a.token)] body ∧
      (Lexer.read ((definedMacro n p [] (Token.newline :: body)).textFor a.text)).ending =
        .finished := by
  have hstable : ∀ t ∈ body, Lexer.Stable t := by
    intro t ht
    refine Lexer.stable_of_rereadable (hbody t ht) (Token.reserved_of_notMem fun k hk he => ?_)
    exact hnames k hk (he ▸ ht)
  have hread := Lexer.read_substitute p.isName hstable a.stable hnotes hside
  have hshown : a.token.shown = a.text := rfl
  rw [hshown] at hread
  rwa [textFor_definedMacro, List.length_nil, keptBody_zero, List.getLast?_nil, Option.getD_none]

end reading

theorem find?_definedMacro {macros later : List MacroDef} {m : MacroDef} {n : Name}
    (hown : m.name = n.text) (hnew : ∀ x ∈ macros, x.name ≠ n.text)
    (h : macros ++ [m] <+: later) : later.find? (fun x => n.token.is x.name) = some m := by
  obtain ⟨more, rfl⟩ := h
  have hnone : macros.find? (fun x => n.token.is x.name) = none := by
    refine List.find?_eq_none.mpr fun x hx his => hnew x hx ?_
    exact (of_decide_eq_true his).symm
  have hself : n.token.is m.name = true := decide_eq_true hown.symm
  simp [hnone, hself]

/-- A macro of one or more parameters, and a later call of it with names for arguments. The call
passes the first argument and one token more, and puts in what is read from the kept text with the
placeholder of the last parameter replaced by the first argument. With more than one parameter
that is never the body with all arguments in place. With one it is, as long as no two tokens of it
fuse, no name in it is written like a keyword and no note in it shows the placeholder. -/
theorem macro_call_puts_in {c : Compiler} {names : Table} {n p : Name} {ps : List Name}
    {before body after : List Token}
    (htokens : c.tokens.toList = before ++ macroWord :: n.token :: mark "!" :: mark "(" ::
      (listed p ps ++ mark ")" :: mark "\x7b" :: (Token.newline :: body ++ mark "\x7d" :: after)))
    (hposition : c.position = before.length) (hcurrent : c.current = some macroWord)
    (hname : c.names.add c.scope n.text (.table []) = .ok names)
    (hcloses : closes 0 body = true) (hbody : ∀ t ∈ body, Lexer.Rereadable t)
    (hparameters : "__name__" ∉ (p :: ps).map Name.text)
    (hnew : ∀ m ∈ c.macros, m.name ≠ n.text) :
    ∃ c₁, macroDefinition c = .ok true c₁ ∧
      c₁.macros = c.macros ++ [definedMacro n p ps (Token.newline :: body)] ∧
      ∀ (c₂ : Compiler) (a : Name) (as : List Name) (front rest : List Token),
        c₁.macros <+: c₂.macros →
        c₂.tokens.toList = front ++ n.token :: mark "!" :: mark "(" ::
          (listed a as ++ mark ")" :: rest) →
        c₂.position = front.length → c₂.current = some n.token →
        ∃ t later, listed a as ++ mark ")" :: rest = a.token :: t :: later ∧
          (∀ between, PutsIn c₂ (front ++ [n.token, mark "!", mark "(", a.token, t]) between later ↔
            (Lexer.read (Text.substitute (keptBody ps.length (Token.newline :: body))
              (placeholder (ps.getLast?.getD p).text) a.text)).ending = .finished ∧
            between = (Lexer.read (Text.substitute (keptBody ps.length (Token.newline :: body))
              (placeholder (ps.getLast?.getD p).text) a.text)).tokens) ∧
          (ps ≠ [] → ¬ PutsIn c₂ (front ++ [n.token, mark "!", mark "(", a.token, t])
            (Token.filled (pairedArguments (p :: ps) (a :: as)) body) later) ∧
          (ps = [] → (∀ k ∈ Lexer.keywords, Token.word .name k ∉ body) →
            (∀ t ∈ body, t.isKind .note = true →
              ¬ (placeholder p.text).toList <:+: t.shown.toList) →
            Token.sideBySide (Token.filled (pairedArguments (p :: ps) (a :: as)) body) = true →
            PutsIn c₂ (front ++ [n.token, mark "!", mark "(", a.token, t])
              (Token.filled (pairedArguments (p :: ps) (a :: as)) body) later) := by
  have hclosed : closes 0 (Token.newline :: body) = true := hcloses
  obtain ⟨names', hdefinition⟩ := macroDefinition_eq hposition hcurrent
    (Compiler.ahead_of_tokens htokens) hname hclosed
  refine ⟨_, hdefinition, rfl, ?_⟩
  intro c₂ a as front rest hmacros htokens₂ hposition₂ hcurrent₂
  obtain ⟨t, later, hcall⟩ : ∃ t later,
      listed a as ++ mark ")" :: rest = a.token :: t :: later := by
    cases as <;> exact ⟨_, _, rfl⟩
  rw [hcall] at htokens₂
  have hfind := find?_definedMacro rfl hnew hmacros
  refine ⟨t, later, hcall, ?_, ?_, ?_⟩
  · intro between
    rw [← textFor_definedMacro (n := n)]
    constructor
    · exact eq_of_putsIn hfind hparameters htokens₂ hposition₂ hcurrent₂
    · intro hread
      rw [hread.2]
      exact putsIn_of_finished hfind hparameters htokens₂ hposition₂ hcurrent₂ hread.1
  · intro hmore hputs
    obtain ⟨hread, hsame⟩ := eq_of_putsIn hfind hparameters htokens₂ hposition₂ hcurrent₂ hputs
    exact textFor_ne_filled hbody hmore hread hsame
  · rintro rfl hnames hnotes hside
    obtain ⟨hsame, hread⟩ := read_textFor hbody hnames hnotes hside
    have hputs := putsIn_of_finished hfind hparameters htokens₂ hposition₂ hcurrent₂ hread
    rwa [hsame] at hputs

/-- A macro and a call of it. -/
def atMacro : Compiler :=
  { code := "macro m!(p) \x7b\na = \x7bp\x7d^\x7b2\x7d\n\x7d\nm!(z)"
    lines := ["macro m!(p) \x7b", "a = \x7bp\x7d^\x7b2\x7d", "\x7d", "m!(z)"]
    tokens := #[macroWord, .word .name "m", mark "!", mark "(", .word .name "p", mark ")",
      mark "\x7b", .newline, .word .name "a", .word .operator "=", mark "\x7b", .word .name "p",
      mark "\x7d", .word .operator "^", mark "\x7b", .numeral 2, mark "\x7d", .newline,
      mark "\x7d", .newline, .word .name "m", mark "!", mark "(", .word .name "z", mark ")",
      .newline]
    current := some macroWord
    line := 1 }

theorem atMacro_puts_in :
    ∃ c₁, macroDefinition atMacro = .ok true c₁ ∧
      PutsIn { atMacro with macros := c₁.macros, position := 20, current := some (.word .name "m") }
        (atMacro.tokens.toList.take 25)
        [.word .name "a", .word .operator "=", .word .name "z", .word .operator "^", mark "\x7b",
          .numeral 2, mark "\x7d", .newline] [.newline] := by
  let body : List Token := [.word .name "a", .word .operator "=", mark "\x7b", .word .name "p",
    mark "\x7d", .word .operator "^", mark "\x7b", .numeral 2, mark "\x7d", .newline]
  have hread : (Lexer.read "a = \x7bp\x7d^\x7b2\x7d\n").tokens = body := by decide
  have hbody : ∀ t ∈ body, Lexer.Rereadable t := by
    intro t ht
    rw [← hread] at ht
    exact Lexer.rereadable_of_mem_read ht
  have hnotes : ∀ t ∈ body, t.isKind .note = false := by decide
  have htokens : atMacro.tokens.toList =
      [] ++ macroWord :: Name.token ⟨"m", by decide, by decide⟩ :: mark "!" :: mark "(" ::
        (listed ⟨"p", by decide, by decide⟩ [] ++ mark ")" :: mark "\x7b" ::
          (Token.newline :: body ++ mark "\x7d" :: [.newline, .word .name "m", mark "!", mark "(",
            .word .name "z", mark ")", .newline])) := rfl
  obtain ⟨c₁, hdefinition, -, hcalls⟩ := macro_call_puts_in htokens rfl rfl rfl (by decide) hbody
    (by decide) (by decide)
  obtain ⟨t, later, hcall, -, -, hone⟩ := hcalls
    { atMacro with macros := c₁.macros, position := 20, current := some (.word .name "m") }
    ⟨"z", by decide, by decide⟩ [] (atMacro.tokens.toList.take 20) [.newline]
    (List.prefix_refl _) rfl rfl rfl
  cases hcall
  refine ⟨c₁, hdefinition, hone rfl (by decide) ?_ (by decide)⟩
  intro t ht hnote
  simp [hnotes t ht] at hnote

/-- The second parameter takes the first argument, and a keyword of a body is lost. -/
theorem call_fills_wrongly :
    Token.filled [("p", .word .name "x"), ("q", .word .name "y")]
      (Lexer.read "a = \x7bq\x7d\n").tokens =
        [.word .name "a", .word .operator "=", .word .name "y", .newline] ∧
    (compiled? [] "macro m!(p,q) \x7b\na = \x7bq\x7d\n\x7d\nm!(x,y)\nb = 3").map
      (fun c => ((c.tokens.toList.drop 23).take 7,
        c.document.map fun entries => entries.toList.filterMap Entry.latex?)) =
      some ([.newline, .newline, .word .name "a", .word .operator "=", .word .name "x", .newline,
        .newline], some ["", "", "a=x", "y", "b=3"]) ∧
    (compiled? [] "macro m!(p) \x7b\nfn f(x) \x7bx + \x7bp\x7d\x7d\n\x7d\nm!(y)").isNone = true ∧
    (compiled? [] "fn f(x) \x7bx + y\x7d").isSome = true :=
  ⟨by decide, by decide +kernel, by decide +kernel, by decide +kernel⟩

end PlotScript
