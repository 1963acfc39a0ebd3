import PlotScript.Grammar.Splice
import PlotScript.Proofs.Cursor
import PlotScript.Proofs.Rereading

/-! Reading line by line. No rule takes a newline together with anything else, and none looks across
one. So a text is read up to a newline as if it ended there, and behind it as if it began there. A
module is therefore put in as the tokens of a text with the module's own text in the middle. -/

namespace PlotScript

namespace Lexer
open Text

section rules
variable (b : List Char)

/-- What a rule took and left, with a further line behind it. -/
def withLine (parts : List Char × List Char) : List Char × List Char :=
  (parts.1, parts.2 ++ '\n' :: b)

theorem takeWhile_append_newline {p : Char → Bool} (hp : p '\n' = false) (cs : List Char) :
    (cs ++ '\n' :: b).takeWhile p = cs.takeWhile p := by
  induction cs with
  | nil => simp [hp]
  | cons c cs ih =>
    rw [List.cons_append, List.takeWhile_cons, List.takeWhile_cons, ih]

theorem dropWhile_append_newline {p : Char → Bool} (hp : p '\n' = false) (cs : List Char) :
    (cs ++ '\n' :: b).dropWhile p = cs.dropWhile p ++ '\n' :: b := by
  induction cs with
  | nil => simp [hp]
  | cons c cs ih =>
    rw [List.cons_append, List.dropWhile_cons, List.dropWhile_cons]
    split
    · exact ih
    · rfl

theorem dropWord?_append_newline {word : List Char} (hword : '\n' ∉ word) (cs : List Char) :
    dropWord? word (cs ++ '\n' :: b) = (dropWord? word cs).map (· ++ '\n' :: b) := by
  induction word generalizing cs with
  | nil => rfl
  | cons w word ih =>
    rw [List.mem_cons, not_or] at hword
    cases cs with
    | nil => simp [dropWord?, Ne.symm hword.1]
    | cons c cs =>
      simp only [List.cons_append, dropWord?]
      split
      · exact ih hword.2 cs
      · rfl

theorem atWordEnd_append_newline (cs : List Char) :
    atWordEnd (cs ++ '\n' :: b) = atWordEnd cs := by
  cases cs with
  | nil => rfl
  | cons c cs => rfl

theorem newline_notMem_keywords : ∀ k ∈ keywords, '\n' ∉ k.toList := by
  decide

theorem findSome?_eq_map {α β : Type} {f g : α → Option β} {h : β → β} {xs : List α}
    (hsame : ∀ x ∈ xs, f x = (g x).map h) : xs.findSome? f = (xs.findSome? g).map h := by
  induction xs with
  | nil => rfl
  | cons x xs ih =>
    have hlater := ih fun y hy => hsame y (List.mem_cons_of_mem x hy)
    rw [List.findSome?_cons, List.findSome?_cons, hsame x List.mem_cons_self]
    cases g x with
    | none => exact hlater
    | some _ => rfl

theorem keyword?_append_newline (before : Option Char) (cs : List Char) :
    keyword? before (cs ++ '\n' :: b) = (keyword? before cs).map (withLine b) := by
  unfold keyword?
  split
  · rfl
  · refine findSome?_eq_map fun k hk => ?_
    rw [dropWord?_append_newline b (newline_notMem_keywords k hk)]
    cases dropWord? k.toList cs with
    | none => rfl
    | some rest =>
      simp only [Option.map_some, Option.bind_some, atWordEnd_append_newline]
      split <;> rfl

theorem name?_append_newline (cs : List Char) :
    name? (cs ++ '\n' :: b) = (name? cs).map (withLine b) := by
  have hline : isNameChar '\n' = false := by decide
  cases cs with
  | nil => simp [name?, isNameStart]
  | cons c cs =>
    simp only [List.cons_append, name?, takeWhile_append_newline b hline,
      dropWhile_append_newline b hline]
    split <;> rfl

theorem run?_append_newline {p : Char → Bool} (hp : p '\n' = false) (cs : List Char) :
    run? p (cs ++ '\n' :: b) = (run? p cs).map (withLine b) := by
  simp only [run?, takeWhile_append_newline b hp, dropWhile_append_newline b hp]
  split <;> rfl

theorem one?_append_newline {p : Char → Bool} {cs : List Char} (h : p '\n' = false ∨ cs ≠ []) :
    one? p (cs ++ '\n' :: b) = (one? p cs).map (withLine b) := by
  cases cs with
  | nil => simp [one?, h.resolve_right (by simp)]
  | cons c cs =>
    simp only [List.cons_append, one?]
    split <;> rfl

theorem operator?_append_newline (cs : List Char) :
    operator? (cs ++ '\n' :: b) = (operator? cs).map (withLine b) := by
  unfold operator?
  rw [dropWord?_append_newline b (by decide)]
  cases dropWord? ['-', '>'] cs with
  | none => exact one?_append_newline b (.inl (by decide))
  | some rest => rfl

theorem closeNote?_append_newline {quote : Char} (hquote : quote ≠ '\n') (cs : List Char) :
    closeNote? quote (cs ++ '\n' :: b) = (closeNote? quote cs).map (withLine b) := by
  induction cs with
  | nil => simp [closeNote?, hquote.symm]
  | cons c cs ih =>
    simp only [List.cons_append, closeNote?, ih]
    split
    · rfl
    · split
      · rfl
      · cases closeNote? quote cs <;> rfl

theorem note?_append_newline (cs : List Char) :
    note? (cs ++ '\n' :: b) = (note? cs).map (withLine b) := by
  cases cs with
  | nil => simp [note?]
  | cons c cs =>
    simp only [List.cons_append, note?]
    split
    · next hquote =>
      have hline : c ≠ '\n' := by
        rintro rfl
        simp at hquote
      rw [closeNote?_append_newline b hline]
      cases closeNote? c cs <;> rfl
    · rfl

theorem comment?_append_newline (cs : List Char) :
    comment? (cs ++ '\n' :: b) = (comment? cs).map (withLine b) := by
  cases cs with
  | nil => simp [comment?]
  | cons c cs =>
    have htaken := takeWhile_append_newline b (p := (· ≠ '\n')) (by decide) cs
    have hleft := dropWhile_append_newline b (p := (· ≠ '\n')) (by decide) cs
    simp only [List.cons_append, comment?, htaken, hleft]
    split <;> rfl

/-- The rule that applies does not depend on what lies behind the end of the line. -/
theorem next?_append_newline (before : Option Char) {cs : List Char} (hcs : cs ≠ []) :
    next? before (cs ++ '\n' :: b) =
      (next? before cs).map fun m => { m with rest := m.rest ++ '\n' :: b } := by
  have hof : ∀ (rule : Rule) (found : Option (List Char × List Char)),
      (found.map (withLine b)).map (Match.of rule) =
        (found.map (Match.of rule)).map fun m => { m with rest := m.rest ++ '\n' :: b } := by
    intro rule found
    cases found <;> rfl
  have hdigit : isDigit '\n' = false := by decide
  have hmark : isMark '\n' = false := by decide
  simp only [next?, keyword?_append_newline, name?_append_newline, run?_append_newline b hdigit,
    one?_append_newline b (.inl hmark), operator?_append_newline, note?_append_newline,
    comment?_append_newline, one?_append_newline b (.inr hcs),
    run?_append_newline b (p := fun c => c = ' ' || c = '\t') (by decide), hof,
    Option.orElse_eq_orElse, Option.orElse_eq_or, Option.map_or]

end rules

/-- Where no rule applies, or a numeral is too long, reading stops with nothing taken. -/
theorem readAfter_stops {before : Option Char} {cs : List Char}
    (h : next? before cs = none ∨ ∃ m, next? before cs = some m ∧ m.isOverlong = true)
    (b : List Char) (hcs : cs ≠ []) :
    readAfter before (cs ++ '\n' :: b) = readAfter before cs ∧
      (readAfter before cs).ending ≠ .finished ∧ (readAfter before cs).consumed = 0 := by
  have hextended := next?_append_newline b before hcs
  cases cs with
  | nil => exact absurd rfl hcs
  | cons c cs =>
    rw [List.cons_append] at hextended ⊢
    rcases h with hnone | ⟨m, hsome, hlength⟩
    · rw [hnone] at hextended
      simp [readAfter, readFrom, hnone, hextended]
    · rw [hsome] at hextended
      have hsame : Match.isOverlong { m with rest := m.rest ++ '\n' :: b } = true := hlength
      simp [readAfter, readFrom, hsome, hlength, hextended, hsame]

/-- A newline is no part of a word, so what follows it is read as at the beginning. -/
theorem readAfter_newline (cs : List Char) : readAfter (some '\n') cs = readAfter none cs := by
  cases cs with
  | nil => rfl
  | cons c cs =>
    have hkeyword : keyword? (some '\n') (c :: cs) = keyword? none (c :: cs) := by
      have hword : (some '\n').any isWordChar = false := by decide
      simp only [keyword?, hword, Option.any_none]
    have hnext : next? (some '\n') (c :: cs) = next? none (c :: cs) := by
      simp only [next?, hkeyword]
    simp only [readAfter, List.length_cons, readFrom, hnext]

/-- Two readings, the second of a line behind the first. -/
def Reading.andLine (first second : Reading) : Reading :=
  ⟨first.tokens ++ Token.newline :: second.tokens, first.consumed + 1 + second.consumed,
    second.ending⟩

theorem readAfter_append_newline (before : Option Char) (cs b : List Char) :
    ((readAfter before cs).ending = .finished →
      readAfter before (cs ++ '\n' :: b) = (readAfter before cs).andLine (readAfter none b) ∧
        (readAfter before cs).consumed = cs.length) ∧
    ((readAfter before cs).ending ≠ .finished →
      readAfter before (cs ++ '\n' :: b) = readAfter before cs ∧
        (readAfter before cs).consumed < cs.length) := by
  induction before, cs using readAfter_induction with
  | finished before =>
    refine ⟨fun _ => ⟨?_, rfl⟩, fun h => absurd rfl h⟩
    rw [List.nil_append, readAfter_of_next? next?_newline rfl, List.getLast?_singleton,
      readAfter_newline]
    rfl
  | unknown before c cs hm =>
    obtain ⟨hsame, hending, hconsumed⟩ := readAfter_stops (.inl hm) b (List.cons_ne_nil c cs)
    exact ⟨fun h => absurd h hending, fun _ => ⟨hsame, hconsumed ▸ Nat.succ_pos _⟩⟩
  | overlong before c cs m hm hlength =>
    obtain ⟨hsame, hending, hconsumed⟩ :=
      readAfter_stops (.inr ⟨m, hm, hlength⟩) b (List.cons_ne_nil c cs)
    exact ⟨fun h => absurd h hending, fun _ => ⟨hsame, hconsumed ▸ Nat.succ_pos _⟩⟩
  | lexeme before cs m hm hlength ih =>
    obtain ⟨hfinished, hstopped⟩ := ih
    have htotal : m.lexeme.length + m.rest.length = cs.length := by
      rw [← (splits_of_next? hm).1, List.length_append]
    have hcs : cs ≠ [] := List.ne_nil_of_length_pos (Nat.zero_lt_of_lt (length_rest_lt hm))
    have htoken : Match.token? { m with rest := m.rest ++ '\n' :: b } = m.token? := rfl
    have hextended := next?_append_newline b before hcs
    rw [hm, Option.map_some] at hextended
    rw [readAfter_of_next? hm hlength, readAfter_of_next? hextended hlength]
    refine ⟨fun h => ?_, fun h => ?_⟩
    · obtain ⟨hline, hconsumed⟩ := hfinished h
      refine ⟨?_, by simp only [hconsumed, htotal]⟩
      simp only [htoken, hline, Reading.andLine, List.append_assoc, Nat.add_assoc]
    · obtain ⟨hline, hconsumed⟩ := hstopped h
      refine ⟨by simp only [htoken, hline], ?_⟩
      show m.lexeme.length + (readAfter m.lexeme.getLast? m.rest).consumed < cs.length
      omega

end Lexer

open Compile Grammar Lexer

/-- The text of a module with what makes a namespace of it. -/
def moduleSource (name text : String) : String :=
  "ns " ++ name ++ " \x7b" ++ "\n" ++ (text ++ "\n" ++ "\x7d")

theorem read_append_newline {a : String} (h : (Lexer.read a).ending = .finished) (b : String) :
    Lexer.read (a ++ "\n" ++ b) = (Lexer.read a).andLine (Lexer.read b) := by
  have hline : (a ++ "\n" ++ b).toList = a.toList ++ '\n' :: b.toList := by simp
  rw [read_eq_readAfter (a ++ "\n" ++ b), hline]
  exact ((readAfter_append_newline none a.toList b.toList).1 h).1

theorem finished_iff (text : String) :
    (Lexer.read text).ending = .finished ↔ (Lexer.read text).consumed = text.length := by
  obtain ⟨hfinished, hstopped⟩ := readAfter_append_newline none text.toList []
  rw [← String.length_toList]
  refine ⟨fun h => (hfinished h).2, fun h => Decidable.byContradiction fun hending => ?_⟩
  exact Nat.ne_of_lt (hstopped hending).2 h

/-- The first line of a module that is put in. -/
theorem read_namespaceLine {name : String} (hname : isName name.toList = true)
    (hkey : name ∉ keywords) :
    (Lexer.read ("ns " ++ name ++ " \x7b")).tokens =
        [.word .keyword "ns", .word .name name, .word .mark "\x7b"] ∧
      (Lexer.read ("ns " ++ name ++ " \x7b")).ending = .finished := by
  have hspells : Spells (.word .name name) name.toList := by
    have hword := Spells.name hname (by rwa [String.ofList_toList])
    rwa [String.ofList_toList] at hword
  have hmark : Spells (.word .mark "\x7b") ['\x7b'] := .mark (by decide)
  have hbrace : Written [' ', '\x7b'] [.word .mark "\x7b"] :=
    .blank (by decide) (.token hmark rfl .done)
  have hwritten : Written (['n', 's'] ++ ' ' :: (name.toList ++ [' ', '\x7b']))
      [.word .keyword "ns", .word .name name, .word .mark "\x7b"] :=
    .token (.keyword (by decide)) rfl (.blank (by decide) (.token hspells rfl hbrace))
  have hread : Lexer.read ("ns " ++ name ++ " \x7b") = _ :=
    read_of_written (by simpa using hwritten)
  rw [hread]
  exact ⟨rfl, rfl⟩

/-- A module becomes the tokens of its text in the middle of a namespace. -/
theorem read_moduleSource {name text : String} (hname : isName name.toList = true)
    (hkey : name ∉ keywords) (htext : (Lexer.read text).ending = .finished) :
    (Lexer.read (moduleSource name text)).tokens = moduleTokens name (Lexer.read text).tokens ∧
      (Lexer.read (moduleSource name text)).ending = .finished := by
  obtain ⟨hfirst, hfinished⟩ := read_namespaceLine hname hkey
  have hbrace : (Lexer.read "\x7d").tokens = [.word .mark "\x7d"] ∧
      (Lexer.read "\x7d").ending = .finished := by
    decide
  rw [moduleSource, read_append_newline hfinished, read_append_newline htext]
  simp [Reading.andLine, hfirst, hbrace, moduleTokens]

/-- Reading a text of two parts with a newline between them. If the first part is read to its end,
its tokens, a newline and the tokens of the second part come out, and reading stops where it would
in the second part; else it stops in the first part as before. So a module is put in as if its text
stood between the lines of a namespace. -/
theorem read_line_by_line (a b : String) :
    ((Lexer.read a).ending = .finished ↔ (Lexer.read a).consumed = a.length) ∧
    ((Lexer.read a).consumed = a.length →
      Lexer.read (a ++ "\n" ++ b) =
        ⟨(Lexer.read a).tokens ++ Token.newline :: (Lexer.read b).tokens,
          a.length + 1 + (Lexer.read b).consumed, (Lexer.read b).ending⟩) ∧
    ((Lexer.read a).consumed ≠ a.length → Lexer.read (a ++ "\n" ++ b) = Lexer.read a) ∧
    ∀ (name text : String), isName name.toList = true → name ∉ keywords →
      (Lexer.read text).consumed = text.length →
      (Lexer.read (moduleSource name text)).ending = .finished ∧
      spliceModule name text = (do
        advance
        advance
        advance
        spliceAfter (Lexer.read (moduleSource name text)).tokens
        rejoinCode) ∧
      ∀ (path : String) (c : Compiler), c.files.read path = .ok text →
        openModule path name c = spliceModule name text c := by
  refine ⟨finished_iff a, fun h => ?_, fun h => ?_, fun name text hname hkey htext => ?_⟩
  · rw [read_append_newline ((finished_iff a).mpr h), Reading.andLine, h]
  · have hline : (a ++ "\n" ++ b).toList = a.toList ++ '\n' :: b.toList := by simp
    rw [read_eq_readAfter (a ++ "\n" ++ b), hline]
    exact ((readAfter_append_newline none a.toList b.toList).2 (mt (finished_iff a).mp h)).1
  · have hfinished := (finished_iff text).mpr htext
    obtain ⟨htokens, hending⟩ := read_moduleSource hname hkey hfinished
    refine ⟨hending, ?_, fun path c hfile => ?_⟩
    · have hread : readTokens text = pure (Lexer.read text).tokens :=
        funext fun c => readTokens_eq hfinished
      rw [spliceModule, hread, htokens]
      simp only [pure_bind]
    · simp only [openModule, bind_apply, get_apply, hfile]

/-- A module whose text ends in a comment, and a first part that stops at a note left open. -/
theorem read_line_by_line_open_note :
    Lexer.read ("x 'a" ++ "\n" ++ "b'") = ⟨[.word .name "x"], 2, .unknown '\x27'⟩ ∧
    Lexer.read ("if" ++ "\n" ++ "1 &") =
      ⟨[.word .keyword "if", Token.newline, .numeral 1], 5, .unknown '&'⟩ ∧
    (Lexer.read (moduleSource "ns1" "a = 1 # b")).ending = .finished := by
  have hstopped := (read_line_by_line "x 'a" "b'").2.2.1 (by decide)
  have hfinished := (read_line_by_line "if" "1 &").2.1 (by decide)
  have hmodule := (read_line_by_line "" "").2.2.2 "ns1" "a = 1 # b" (by decide) (by decide)
    (by decide)
  exact ⟨hstopped.trans (by decide), hfinished.trans (by decide), hmodule.1⟩

end PlotScript
