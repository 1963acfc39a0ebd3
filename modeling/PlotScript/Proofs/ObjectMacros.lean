import PlotScript.Proofs.MacroCall

/-! Calls of macros that make an object and take nothing but its name. Such a call has empty
brackets. The mark and the opening bracket are taken out from under the cursor, which has gone on to
the closing bracket and back, before the text of the macro is put in. -/

namespace PlotScript
open Compile Grammar PlotScript.Tree

/-- The name of an object that a macro makes: the one assigned last, else one of its own. -/
def Compiler.objectOf (c : Compiler) (name : String) : String :=
  if c.objectName = "" then name ++ "Object" else c.objectName

/-- The state with another name for the next object. -/
def Compiler.withObject (c : Compiler) (object : String) : Compiler :=
  { c with objectName := object }

/-- The state with other tokens. -/
def Compiler.withTokens (c : Compiler) (ts : List Token) : Compiler :=
  { c with tokens := ts.toArray }

section steps
variable {c : Compiler} {i : Nat} {t u : Token} {token? : Option Token} {line : Int}
  {front rest : List Token}

theorem nameObject_eq (m : MacroDef) : nameObject m (c.cursorAt i token? line) =
    .ok (c.objectOf m.name) ((c.withObject (c.objectOf m.name)).cursorAt i token? line) := by
  by_cases hnone : c.objectName = ""
  · simp [nameObject, Compiler.cursorAt, Compiler.withObject, Compiler.objectOf, hnone]
  · simp [nameObject, Compiler.cursorAt, Compiler.withObject, Compiler.objectOf, hnone]

theorem retreat_cursorAt (ht : t.isNewline = false) (hu : c.tokens[i]? = some u) :
    retreat (c.cursorAt (i + 1) (some t) line) = .ok () (c.cursorAt i (some u) line) := by
  simp [retreat, current, moveTo, Compiler.cursorAt, ht, hu]

/-- The token behind another is taken out. -/
theorem dropToken_behind {own : Token} (htokens : c.tokens.toList = front ++ own :: t :: rest) :
    dropToken (c.cursorAt (front.length + 1) token? line) =
      .ok () ((c.withTokens (front ++ own :: rest)).cursorAt (front.length + 1) token? line) := by
  have hlt : front.length + 1 < c.tokens.size := by
    rw [← Array.length_toList, htokens]
    simp
  have herase : c.tokens.toList.eraseIdx (front.length + 1) = front ++ own :: rest := by
    rw [htokens, List.eraseIdx_append_of_length_le (Nat.le_add_right _ 1), Nat.add_sub_cancel_left]
    rfl
  have hplace : Place.erase? c.tokens ((front.length : Int) + 1) =
      some (front ++ own :: rest).toArray := by
    have hindex : Place.index? c.tokens.size ((front.length : Int) + 1) = some (front.length + 1) :=
      (Place.index?_natCast _ (front.length + 1)).trans (if_pos hlt)
    rw [Place.erase?, hindex, Option.map_some, Option.some_inj, ← Array.toList_inj,
      Array.eraseIdxIfInBounds, dif_pos hlt, Array.toList_eraseIdx, herase]
  simp [dropToken, Compiler.cursorAt, Compiler.withTokens, hplace]

/-- The object is named, and the mark and the opening bracket are gone. The cursor stands where the
mark was, with the mark still current. -/
theorem expansion_object {m : MacroDef} {own : Token} (text : String)
    (htokens : c.tokens.toList = front ++ own :: mark "!" :: mark "(" :: mark ")" :: rest) :
    expansion m ["__name__"] text (c.cursorAt (front.length + 3) (some (mark ")")) line) =
      .ok (Text.substitute m.body (placeholder "__name__") (" " ++ c.objectOf m.name))
        (((c.withObject (c.objectOf m.name)).withTokens (front ++ own :: mark ")" :: rest)).cursorAt
          (front.length + 1) (some (mark "!")) line) := by
  have hname : nameObject m (c.cursorAt (front.length + 3) (some (mark ")")) line) = _ :=
    nameObject_eq m
  have hown : (c.withObject (c.objectOf m.name)).tokens.toList = _ := htokens
  generalize c.withObject (c.objectOf m.name) = d at hname hown ⊢
  have hahead : d.Ahead front.length _ := Compiler.ahead_of_tokens hown
  have hback : retreat (d.cursorAt (front.length + 3) (some (mark ")")) line) =
      .ok () (d.cursorAt (front.length + 2) (some (mark "(")) line) :=
    retreat_cursorAt rfl hahead.tail.tail.head
  have hagain : retreat (d.cursorAt (front.length + 2) (some (mark "(")) line) =
      .ok () (d.cursorAt (front.length + 1) (some (mark "!")) line) :=
    retreat_cursorAt rfl hahead.tail.head
  -- what stands at the place behind the name is taken out twice
  have hmark : dropToken (d.cursorAt (front.length + 1) (some (mark "!")) line) = _ :=
    dropToken_behind hown
  have hbracket : dropToken ((d.withTokens (front ++ own :: mark "(" :: mark ")" :: rest)).cursorAt
      (front.length + 1) (some (mark "!")) line) = _ := dropToken_behind rfl
  simp only [expansion, if_true, bind_apply, hname, hback, hagain, hmark, hbracket]
  rfl

/-- The text of a macro goes behind the token after the cursor, whatever token is current. -/
theorem macroFromText_behind {own last : Token} {text : String}
    (htokens : c.tokens.toList = front ++ own :: last :: t :: rest) (hu : u.isNewline = false)
    (hread : (Lexer.read text).ending = .finished) :
    macroFromText text (c.cursorAt (front.length + 1) (some u) line) =
      .ok true ((c.withTokens (front ++ own :: last :: t :: Token.newline ::
        ((Lexer.read text).tokens ++ Token.newline :: rest))).withJoinedCode.cursorAt
          (front.length + 2) (some t) line) := by
  have hahead : c.Ahead front.length (own :: last :: t :: rest) := Compiler.ahead_of_tokens htokens
  have hmove : advance (c.cursorAt (front.length + 1) (some u) line) =
      .ok () (c.cursorAt (front.length + 2) (some t) line) := by
    rw [advance_cursorAt_of_next hahead.tail.tail.head, lineAfter, if_neg (by simp [hu])]
  let block := Token.newline :: (Lexer.read text).tokens ++ [Token.newline]
  have hsplice : Place.splice c.tokens ((front.length + 2 : Nat) + 1) block =
      (front ++ own :: last :: t :: Token.newline ::
        ((Lexer.read text).tokens ++ Token.newline :: rest)).toArray := by
    have hsplit : c.tokens.toList = (front ++ [own, last]) ++ t :: rest := by simp [htokens]
    have hput := Compiler.tokens_spliced hsplit block
    rw [List.length_append] at hput
    refine Array.toList_inj.mp (hput.trans ?_)
    simp [block]
  rw [macroFromText_of_advance hread hmove hahead.tail.tail.lt_size, Compiler.spliced, hsplice]
  rfl

end steps

/-- A call of a macro whose only parameter is the name of the object. Of the call the name and the
closing bracket are left. Behind them and the next token stand the tokens of the macro's text
between two newlines, with the name of the object in place of the parameter; what stood in front and
behind is there still. The code is made anew from the tokens, and nothing else changes. -/
theorem object_macro_call_puts_in {c : Compiler} {m : MacroDef} {name text : String} {t : Token}
    {front rest ts : List Token}
    (htokens : c.tokens.toList =
      front ++ .word .name name :: mark "!" :: mark "(" :: mark ")" :: t :: rest)
    (hposition : c.position = front.length) (hcurrent : c.current = some (.word .name name))
    (hfind : c.macros.find? (fun x => x.name = name) = some m)
    (hparameters : m.parameters = ["__name__"])
    (htext : text = Text.substitute m.body "\x7b__name__\x7d" (" " ++ c.objectOf name))
    (hread : (Lexer.read text).ending = .finished)
    (hts : ts = front ++ .word .name name :: mark ")" :: t :: Token.newline ::
      ((Lexer.read text).tokens ++ Token.newline :: rest)) :
    macroCall c = .ok true { c with
      tokens := ts.toArray
      position := front.length + 2
      current := some t
      objectName := c.objectOf name
      code := " ".intercalate (ts.map Token.shown)
      lines := Text.splitLines (" ".intercalate (ts.map Token.shown)) } := by
  have hname : m.name = name := by simpa using List.find?_some hfind
  have hown : (fun x : MacroDef => (Token.word .name name).is x.name) =
      fun x => decide (x.name = name) := by
    funext x
    simp only [Token.is, eq_comm]
  have hcall : macroCall (c.cursorAt front.length (some (.word .name name)) c.line) = _ :=
    macroCall_expands rfl (hown ▸ hfind) (Compiler.ahead_of_tokens htokens)
  have hplaceholder : placeholder "__name__" = "\x7b__name__\x7d" := rfl
  have hexpansion : expansion m ["__name__"] m.body
      (c.cursorAt (front.length + 3) (some (mark ")")) c.line) = _ :=
    expansion_object m.body htokens
  rw [hname, hplaceholder, ← htext] at hexpansion
  have hput : macroFromText text (((c.withObject (c.objectOf name)).withTokens
      (front ++ .word .name name :: mark ")" :: t :: rest)).cursorAt (front.length + 1)
        (some (mark "!")) c.line) = _ := macroFromText_behind rfl rfl hread
  rw [Compiler.cursorAt_self hposition hcurrent, hparameters, bind_apply, hexpansion] at hcall
  rw [hcall.trans hput, hts]
  rfl

/-- A square is assigned to a name. -/
def atSquare : Compiler :=
  { code := "box = square!()\ny"
    lines := ["box = square!()", "y"]
    tokens := #[.word .name "box", .word .operator "=", .word .name "square", mark "!", mark "(",
      mark ")", .newline, .word .name "y"]
    current := some (.word .name "square")
    position := 2
    line := 1
    macros := [⟨"ring", "r", ["r"]⟩,
      ⟨"square", "\nns \x7b__name__\x7d \x7b\nside = 1\n\x7d\n", ["__name__"]⟩]
    objectName := "box" }

theorem square_puts_in : macroCall atSquare = .ok true { atSquare with
    tokens := #[.word .name "box", .word .operator "=", .word .name "square", mark ")", .newline,
      .newline, .newline, .word .keyword "ns", .word .name "box", mark "\x7b", .newline,
      .word .name "side", .word .operator "=", .numeral 1, .newline, mark "\x7d", .newline,
      .newline, .word .name "y"]
    position := 4
    current := some .newline
    code := "box = square ) \n \n \n ns box \x7b \n side = 1 \n \x7d \n \n y"
    lines := ["box = square ) ", " ", " ", " ns box \x7b ", " side = 1 ", " \x7d ", " ",
      " y"] } := by
  let ts : List Token := [.word .name "box", .word .operator "=", .word .name "square", mark ")",
    .newline, .newline, .newline, .word .keyword "ns", .word .name "box", mark "\x7b", .newline,
    .word .name "side", .word .operator "=", .numeral 1, .newline, mark "\x7d", .newline, .newline,
    .word .name "y"]
  have hcode : " ".intercalate (ts.map Token.shown) =
      "box = square ) \n \n \n ns box \x7b \n side = 1 \n \x7d \n \n y" := by decide
  have hlines : Text.splitLines "box = square ) \n \n \n ns box \x7b \n side = 1 \n \x7d \n \n y" =
      ["box = square ) ", " ", " ", " ns box \x7b ", " side = 1 ", " \x7d ", " ", " y"] := by decide
  have hput := @object_macro_call_puts_in atSquare
    ⟨"square", "\nns \x7b__name__\x7d \x7b\nside = 1\n\x7d\n", ["__name__"]⟩ "square"
    "\nns  box \x7b\nside = 1\n\x7d\n" .newline [.word .name "box", .word .operator "="]
    [.word .name "y"] ts rfl rfl rfl (by decide) rfl (by decide) (by decide) (by decide)
  rw [hcode, hlines] at hput
  exact hput

end PlotScript
