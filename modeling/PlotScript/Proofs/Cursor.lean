import PlotScript.Proofs.Onward
import PlotScript.Proofs.Terms

/-! The cursor at an index of the tokens, and blocks of tokens that are put in behind it. -/

namespace PlotScript
open Compile Grammar

/-- The state with the cursor at an index, on some token or behind the last. -/
def Compiler.cursorAt (c : Compiler) (i : Nat) (token? : Option Token) (line : Int) : Compiler :=
  { c with position := i, current := token?, line }

/-- The number of the line behind a token. -/
def lineAfter (line : Int) (t : Token) : Int := if t.isNewline then line + 1 else line

section cursor
variable {c : Compiler} {i : Nat} {t u : Token} {rest : List Token} {line : Int}

theorem Compiler.cursorAt_self (hposition : c.position = i) (hcurrent : c.current = some t) :
    c.cursorAt i (some t) c.line = c := by
  rw [Compiler.cursorAt, ← hposition, ← hcurrent]

/-- The cursor goes on from its place, whatever token is current. -/
theorem advance_cursorAt_of_next (hu : c.tokens[i + 1]? = some u) :
    advance (c.cursorAt i (some t) line) =
      .ok () (c.cursorAt (i + 1) (some u) (lineAfter line t)) := by
  have hnext : Place.get? c.tokens (i + 1) = some u := (get?_succ c.tokens i).trans hu
  have hcurrent : (c.cursorAt i (some t) line).current = some t := rfl
  rw [advance_of_some hcurrent]
  simp [Compiler.advanced, Compiler.cursorAt, hnext, lineAfter]

theorem advance_cursorAt (hahead : c.Ahead i (t :: u :: rest)) :
    advance (c.cursorAt i (some t) line) =
      .ok () (c.cursorAt (i + 1) (some u) (lineAfter line t)) :=
  advance_cursorAt_of_next hahead.tail.head

theorem advance_cursorAt_word (hahead : c.Ahead i (t :: u :: rest)) (ht : t.isNewline = false) :
    advance (c.cursorAt i (some t) line) = .ok () (c.cursorAt (i + 1) (some u) line) := by
  rw [advance_cursorAt hahead, lineAfter, if_neg (by simp [ht])]

/-- Behind the last token the cursor stays at its place. -/
theorem advance_cursorAt_last (hahead : c.Ahead i [t]) :
    advance (c.cursorAt i (some t) line) = .ok () (c.cursorAt i none (lineAfter line t)) := by
  have hnext : Place.get? c.tokens (i + 1) = none :=
    (get?_succ c.tokens i).trans hahead.tail.eq_none
  have hcurrent : (c.cursorAt i (some t) line).current = some t := rfl
  rw [advance_of_some hcurrent]
  simp [Compiler.advanced, Compiler.cursorAt, hnext, lineAfter]

/-- Newlines are passed over and counted, up to a token that fails the test. -/
theorem loop_skipOne {test : Token → Bool} (hnewline : test Token.newline = true) {n rounds : Nat}
    (hrounds : n < rounds) (hahead : c.Ahead i (List.replicate n Token.newline ++ u :: rest))
    (hu : test u = false) :
    loop (skipWhile.skipOne test) rounds (c.cursorAt i c.tokens[i]? line) =
      .ok () (c.cursorAt (i + n) (some u) (line + n)) := by
  induction n generalizing i rounds line with
  | zero =>
    obtain ⟨rounds, rfl⟩ := Nat.exists_eq_succ_of_ne_zero (Nat.ne_zero_of_lt hrounds)
    have hcurrent : c.tokens[i]? = some u := hahead.head
    simp [loop, skipWhile.skipOne, current, Compiler.cursorAt, hcurrent, hu]
  | succ n ih =>
    obtain ⟨rounds, rfl⟩ := Nat.exists_eq_succ_of_ne_zero (Nat.ne_zero_of_lt hrounds)
    rw [List.replicate_succ, List.cons_append] at hahead
    have hcurrent : current (c.cursorAt i (some Token.newline) line) =
        .ok Token.newline (c.cursorAt i (some Token.newline) line) := rfl
    have hadvance : advance (c.cursorAt i (some Token.newline) line) =
        .ok () (c.cursorAt (i + 1) c.tokens[i + 1]? (line + 1)) := by
      obtain ⟨next, more, hmore⟩ := List.exists_cons_of_ne_nil
        (show List.replicate n Token.newline ++ u :: rest ≠ [] by simp)
      rw [hmore] at hahead
      rw [advance_cursorAt hahead, hahead.tail.head]
      rfl
    have hround : skipWhile.skipOne test (c.cursorAt i (some Token.newline) line) =
        .ok false (c.cursorAt (i + 1) c.tokens[i + 1]? (line + 1)) := by
      simp [skipWhile.skipOne, hcurrent, hnewline, hadvance]
    have hlater : loop (skipWhile.skipOne test) rounds
        (c.cursorAt (i + 1) c.tokens[i + 1]? (line + 1)) = _ :=
      ih (Nat.lt_of_succ_lt_succ hrounds) hahead.tail
    have hline : line + 1 + (n : Int) = line + (n + 1 : Nat) := by omega
    rw [Nat.add_assoc, Nat.add_comm 1 n, hline] at hlater
    rw [hahead.head, loop, bind_apply, hround]
    exact hlater

theorem skipWhile_cursorAt {test : Token → Bool} (hnewline : test Token.newline = true) {n : Nat}
    (hahead : c.Ahead i (List.replicate n Token.newline ++ u :: rest)) (hu : test u = false) :
    skipWhile test (c.cursorAt i c.tokens[i]? line) =
      .ok () (c.cursorAt (i + n) (some u) (line + n)) := by
  have hsize := hahead.skip_replicate.lt_size
  have hsteps : n < (c.cursorAt i c.tokens[i]? line).stepsLeft := by
    simp only [Compiler.stepsLeft, Compiler.cursorAt]
    omega
  rw [skipWhile, bind_apply, get_apply]
  exact loop_skipOne hnewline hsteps hahead hu

end cursor

/-- The state with a block of tokens put in behind an index, and the code made anew. -/
def Compiler.spliced (c : Compiler) (i : Nat) (block : List Token) : Compiler :=
  Compiler.withJoinedCode { c with tokens := Place.splice c.tokens (i + 1) block }

theorem Compiler.tokens_spliced {c : Compiler} {before rest : List Token} {t : Token}
    (htokens : c.tokens.toList = before ++ t :: rest) (block : List Token) :
    (c.spliced before.length block).tokens.toList = before ++ t :: (block ++ rest) := by
  have hsplice : (c.spliced before.length block).tokens.toList =
      c.tokens.toList.take (before.length + 1) ++ block ++
        c.tokens.toList.drop (before.length + 1) :=
    Place.toList_splice_natCast c.tokens (before.length + 1) block
  have hsplit : c.tokens.toList = (before ++ [t]) ++ rest := by simp [htokens]
  have hlength : (before ++ [t]).length = before.length + 1 := by simp
  rw [hsplice, hsplit, List.take_left' hlength, List.drop_left' hlength]
  simp

theorem Compiler.frame_spliced (c : Compiler) (i j : Nat) (block : List Token)
    (token? : Option Token) (line : Int) :
    ((c.spliced i block).cursorAt j token? line).document = c.document ∧
      ((c.spliced i block).cursorAt j token? line).names = c.names ∧
      ((c.spliced i block).cursorAt j token? line).scope = c.scope ∧
      ((c.spliced i block).cursorAt j token? line).functions = c.functions ∧
      ((c.spliced i block).cursorAt j token? line).macros = c.macros ∧
      ((c.spliced i block).cursorAt j token? line).folder = c.folder := by
  simp only [spliced, withJoinedCode, cursorAt, and_self]

theorem Compiler.ahead_of_tokens {c : Compiler} {before rest : List Token}
    (htokens : c.tokens.toList = before ++ rest) : c.Ahead before.length rest := by
  rw [Compiler.Ahead, htokens, List.drop_left]

section splicing
variable {c : Compiler} {i : Nat}

theorem readTokens_eq {text : String} (hread : (Lexer.read text).ending = .finished) :
    readTokens text c = .ok (Lexer.read text).tokens c := by
  simp [readTokens, hread]

theorem splice_cursorAt {token? : Option Token} {line : Int} (block : List Token) :
    (spliceAfter block >>= fun _ => rejoinCode) (c.cursorAt i token? line) =
      .ok () ((c.spliced i block).cursorAt i token? line) := by
  simp [spliceAfter, rejoinCode, Compiler.spliced, Compiler.cursorAt, Compiler.withJoinedCode,
    Compiler.joinedTokens]

end splicing

end PlotScript
