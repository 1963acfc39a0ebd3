import PlotScript.Proofs.FlatProgram
import PlotScript.Proofs.Halting
import PlotScript.Proofs.LineByLine
import PlotScript.Proofs.References
import PlotScript.Proofs.Rewording

/-! Text that is never read. A character that starts no token ends a script without a report: what
stands in front of it is compiled, and nothing depends on what stands behind it. Only the reading of
further texts, those of macros and modules, reports such a character. -/

namespace PlotScript
namespace Lexer

/-- How a text is read: lexeme after lexeme, each by the first rule that applies, up to the end or
to a rest that stays unread. -/
inductive Lexed : Option Char → List Char → List Match → Ending → List Char → Prop
  | finished (before : Option Char) : Lexed before [] [] .finished []
  | unknown {before : Option Char} {c : Char} {cs : List Char} (h : next? before (c :: cs) = none) :
    Lexed before (c :: cs) [] (.unknown c) (c :: cs)
  | overlong {before : Option Char} {c : Char} {cs : List Char} {m : Match}
    (h : next? before (c :: cs) = some m) (hm : m.isOverlong = true) :
    Lexed before (c :: cs) [] .overlong (c :: cs)
  | lexeme {before : Option Char} {cs unread : List Char} {m : Match} {ms : List Match}
    {ending : Ending} (h : next? before cs = some m) (hm : m.isOverlong = false)
    (hrest : Lexed m.lexeme.getLast? m.rest ms ending unread) :
    Lexed before cs (m :: ms) ending unread

/-- Every text is read in this way, and the lexemes give its tokens. -/
theorem exists_lexed (before : Option Char) (cs : List Char) :
    ∃ ms unread, Lexed before cs ms (readAfter before cs).ending unread ∧
      (readAfter before cs).tokens = ms.filterMap Match.token? := by
  induction before, cs using readAfter_induction with
  | finished before => exact ⟨[], [], .finished before, rfl⟩
  | unknown before c cs hm =>
    rw [readAfter_of_unknown hm]
    exact ⟨[], c :: cs, .unknown hm, rfl⟩
  | overlong before c cs m hm hlength =>
    rw [readAfter_of_overlong hm hlength]
    exact ⟨[], c :: cs, .overlong hm hlength, rfl⟩
  | lexeme before cs m hm hlength ih =>
    obtain ⟨ms, unread, hrest, htokens⟩ := ih
    rw [readAfter_of_next? hm hlength, htokens]
    refine ⟨m :: ms, unread, .lexeme hm hlength hrest, ?_⟩
    cases htoken : m.token? <;> simp [htoken]

section lexed
variable {before : Option Char} {cs unread : List Char} {ms : List Match} {ending : Ending}

/-- No character is lost between the lexemes. -/
theorem Lexed.eq_append (h : Lexed before cs ms ending unread) :
    cs = ms.flatMap Match.lexeme ++ unread := by
  induction h with
  | finished before => rfl
  | unknown h => rfl
  | overlong h hm => rfl
  | lexeme h hm hrest ih =>
    rw [← (splits_of_next? h).1, List.flatMap_cons, List.append_assoc, ← ih]

theorem Lexed.unread_eq_nil_iff (h : Lexed before cs ms ending unread) :
    unread = [] ↔ ending = .finished := by
  induction h with
  | finished before => simp
  | unknown h => simp
  | overlong h hm => simp
  | lexeme h hm hrest ih => exact ih

end lexed

/-- Nothing is read from a text at whose beginning no rule applies. -/
theorem tokens_readAfter_of_next? {before : Option Char} {cs : List Char}
    (h : next? before cs = none) :
    (readAfter before cs).tokens = [] ∧ (readAfter before cs).ending ≠ .overlong := by
  cases cs with
  | nil => exact ⟨rfl, nofun⟩
  | cons c cs => simp [readAfter, readFrom, h]

end Lexer

/-- A longer text has no fewer lines. -/
theorem length_linesFrom_append_le (line cs ds : List Char) :
    (Text.linesFrom line cs).length ≤ (Text.linesFrom line (cs ++ ds)).length := by
  fun_induction Text.linesFrom line cs with
  | case1 line hempty => exact Nat.zero_le _
  | case2 line hempty => exact Flat.length_linesFrom_pos (.inl (by simpa using hempty))
  | case3 line rest ih =>
    rw [List.cons_append, List.cons_append, Text.linesFrom]
    exact Nat.succ_le_succ ih
  | case4 line c rest hc hbreak ih =>
    -- A carriage return at the end may meet a newline, and both are one line break.
    by_cases hmeet : ∃ tail, c = '\r' ∧ rest ++ ds = '\n' :: tail
    · obtain ⟨tail, rfl, htail⟩ := hmeet
      cases rest with
      | nil =>
        rw [List.nil_append] at htail
        rw [List.singleton_append, htail, Text.linesFrom]
        exact Nat.succ_le_succ (Nat.zero_le _)
      | cons d rest =>
        obtain ⟨rfl, -⟩ := List.cons.inj htail
        exact absurd rfl (hc rest rfl)
    · have happart : ∀ tail, c = '\r' → rest ++ ds = '\n' :: tail → False :=
        fun tail hreturn htail => hmeet ⟨tail, hreturn, htail⟩
      rw [List.cons_append, Text.linesFrom, if_pos hbreak]
      · exact Nat.succ_le_succ ih
      · exact happart
  | case5 line c rest hc hbreak ih =>
    have happart : ∀ tail, c = '\r' → rest ++ ds = '\n' :: tail → False := by
      rintro tail rfl -
      exact hbreak (by decide)
    rw [List.cons_append, Text.linesFrom, if_neg hbreak]
    · exact ih
    · exact happart

open Compile Lexer

theorem length_splitLines_append_le (text more : String) :
    (Text.splitLines text).length ≤ (Text.splitLines (text ++ more)).length := by
  unfold Text.splitLines
  rw [String.toList_append]
  exact length_linesFrom_append_le [] text.toList more.toList

theorem ofCode_of_ending (files : Files) {code : String}
    (h : (Lexer.read code).ending ≠ .overlong) : ∃ c, Compiler.ofCode files code = .ok c := by
  unfold Compiler.ofCode
  dsimp only
  split
  · next hlong => exact absurd hlong h
  · exact ⟨_, rfl⟩

/-- Both scripts are accepted with the same tokens, and what comes of the first also comes of the
second. -/
def CompilesLikewise (files : Files) (first second : String) : Prop :=
  ∃ c d, Compiler.ofCode files first = .ok c ∧ Compiler.ofCode files second = .ok d ∧
    d.tokens = c.tokens ∧ EndsLikewise (run c) (run d)

/-- Only the tokens and the number of lines matter. -/
theorem compilesLikewise_of_tokens (files : Files) {first second : String}
    (hfirst : (Lexer.read first).ending ≠ .overlong)
    (hsecond : (Lexer.read second).ending ≠ .overlong)
    (htokens : (Lexer.read second).tokens = (Lexer.read first).tokens)
    (hlines : (Text.splitLines first).length ≤ (Text.splitLines second).length) :
    CompilesLikewise files first second := by
  obtain ⟨c, hc⟩ := ofCode_of_ending files hfirst
  obtain ⟨d, hd⟩ := ofCode_of_ending files hsecond
  have hsame : d = c.reworded second (Text.splitLines second) := by
    rw [eq_of_ofCode hc, eq_of_ofCode hd, htokens]
    rfl
  have hmore : c.lines.length ≤ (Text.splitLines second).length := by
    rw [eq_of_ofCode hc]
    exact hlines
  refine ⟨c, d, hc, hd, by rw [hsame]; rfl, ?_⟩
  exact Heedless.run ⟨second, Text.splitLines second, hsame, hmore⟩

/-- Behind a line that is not read to its end nothing is read. -/
theorem read_append_of_unknown {text : String} {c : Char}
    (h : (Lexer.read text).ending = .unknown c) (more : String) :
    Lexer.read (text ++ "\n" ++ more) = Lexer.read text := by
  have hlines : (text ++ "\n" ++ more).toList = text.toList ++ '\n' :: more.toList := by simp
  have hstopped : (Lexer.read text).ending ≠ .finished := by
    rw [h]
    nofun
  rw [read_eq_readAfter (text ++ "\n" ++ more), hlines]
  exact ((readAfter_append_newline none text.toList more.toList).2 hstopped).1

/-- Further lines behind a character that starts no token make no difference. -/
theorem compilesLikewise_of_unknown (files : Files) {text : String} {c : Char}
    (h : (Lexer.read text).ending = .unknown c) (more : String) :
    CompilesLikewise files text (text ++ "\n" ++ more) := by
  have hread := read_append_of_unknown h more
  have hnumerals : (Lexer.read text).ending ≠ .overlong := by
    rw [h]
    nofun
  refine compilesLikewise_of_tokens files hnumerals (hread ▸ hnumerals) (by rw [hread]) ?_
  rw [String.append_assoc]
  exact length_splitLines_append_le text ("\n" ++ more)

/-- A line at whose beginning no token starts makes no difference, whatever follows. -/
theorem compilesLikewise_of_stray (files : Files) {text stray : String}
    (h : (Lexer.read text).ending = .finished) (hstray : next? none stray.toList = none) :
    CompilesLikewise files (text ++ "\n") (text ++ "\n" ++ stray) := by
  have hline : Lexer.read (text ++ "\n") = (Lexer.read text).andLine (Lexer.read "") := by
    rw [← read_append_newline h, String.append_empty]
  obtain ⟨hnothing, hnumerals⟩ := tokens_readAfter_of_next? hstray
  have hread := read_append_newline h stray
  rw [read_eq_readAfter stray] at hread
  apply compilesLikewise_of_tokens files
  · rw [hline]
    nofun
  · rw [hread]
    exact hnumerals
  · rw [hread, hline, Reading.andLine, Reading.andLine, hnothing]
    rfl
  · exact length_splitLines_append_le _ stray

theorem exists_readTokens_iff (text : String) (s : Compiler) :
    (∃ ts s', readTokens text s = .ok ts s') ↔ (Lexer.read text).ending = .finished := by
  constructor
  · rintro ⟨ts, s', hread⟩
    rcases readTokens_cases text s with ⟨hending, -⟩ | ⟨e, position, herror⟩
    · exact hending
    · cases hread.symm.trans herror
  · intro hending
    exact ⟨_, s, readTokens_eq hending⟩

theorem ofCode_eq_error_iff (files : Files) (text : String) (e : Fault) :
    Compiler.ofCode files text = .error e ↔
      e = .numeralTooLong ∧ (Lexer.read text).ending = .overlong := by
  constructor
  · intro h
    by_cases hending : (Lexer.read text).ending = .overlong
    · unfold Compiler.ofCode at h
      simp only [hending] at h
      cases h
      exact ⟨rfl, hending⟩
    · obtain ⟨c, hc⟩ := ofCode_of_ending files hending
      cases hc.symm.trans h
  · rintro ⟨rfl, hending⟩
    unfold Compiler.ofCode
    simp only [hending]

/-- A script is read up to a character that starts no token, and the rest is dropped. The lexemes in
front of it make up the text, and only they give tokens. A further text with such a character is
refused; a script is not, unless a numeral is too long. It compiles like any script with the same
tokens: further lines behind the character make no difference, and a line that begins with one makes
none to the script in front of it. -/
theorem unread_text_is_dropped (files : Files) (text : String) :
    ∃ lexemes unread,
      Lexed none text.toList lexemes (Lexer.read text).ending unread ∧
      text.toList = lexemes.flatMap Match.lexeme ++ unread ∧
      (unread = [] ↔ (Lexer.read text).ending = .finished) ∧
      (∀ s : Compiler, (∃ ts s', readTokens text s = .ok ts s') ↔ unread = []) ∧
      (∀ e, Compiler.ofCode files text = .error e ↔
        e = .numeralTooLong ∧ (Lexer.read text).ending = .overlong) ∧
      (∀ c, Compiler.ofCode files text = .ok c →
        c.tokens.toList = lexemes.filterMap Match.token? ++ [Token.newline]) ∧
      (∀ other, (Lexer.read other).ending ≠ .overlong → (Lexer.read text).ending ≠ .overlong →
        (Lexer.read text).tokens = (Lexer.read other).tokens →
        (Text.splitLines other).length ≤ (Text.splitLines text).length →
        CompilesLikewise files other text) ∧
      (∀ char more, (Lexer.read text).ending = .unknown char →
        CompilesLikewise files text (text ++ "\n" ++ more)) ∧
      (∀ stray, (Lexer.read text).ending = .finished → next? none stray.toList = none →
        CompilesLikewise files (text ++ "\n") (text ++ "\n" ++ stray)) := by
  obtain ⟨lexemes, unread, hlexed, htokens⟩ := exists_lexed none text.toList
  have hunread := hlexed.unread_eq_nil_iff
  refine ⟨lexemes, unread, hlexed, hlexed.eq_append, hunread, fun s => ?_,
    ofCode_eq_error_iff files text, fun c hc => ?_,
    fun other hother htext => compilesLikewise_of_tokens files hother htext,
    fun char more h => compilesLikewise_of_unknown files h more,
    fun stray h hstray => compilesLikewise_of_stray files h hstray⟩
  · rw [exists_readTokens_iff, hunread]
    rfl
  · rw [eq_of_ofCode hc, read_eq_readAfter, htokens]

/-- A stray character at the beginning of a line, and one inside of a line with a word behind it. -/
theorem stray_characters_are_dropped :
    (Lexer.read "a = 1").ending = .finished ∧ next? none "@\nb = 2".toList = none ∧
    CompilesLikewise [] ("a = 1" ++ "\n") ("a = 1" ++ "\n" ++ "@\nb = 2") ∧
    (Lexer.read "a = 1 \u20ac c").ending = .unknown '\u20ac' ∧
    CompilesLikewise [] "a = 1" "a = 1 \u20ac c" ∧
    CompilesLikewise [] "a = 1 \u20ac c" ("a = 1 \u20ac c" ++ "\n" ++ "b = 2") := by
  obtain ⟨-, -, -, -, -, -, -, -, -, -, hline⟩ := unread_text_is_dropped [] "a = 1"
  obtain ⟨-, -, -, -, -, -, -, -, hother, hmore, -⟩ := unread_text_is_dropped [] "a = 1 \u20ac c"
  exact ⟨by decide, by decide, hline _ (by decide) (by decide), by decide,
    hother _ (by decide) (by decide) (by decide) (by decide), hmore '\u20ac' _ (by decide)⟩

/-- A line that begins with a stray character and the statement behind it are lost. -/
theorem stray_line_compiles :
    (Lexer.read "a = 1\n@\nb = 2").ending = .unknown '@' ∧
    (compiled? [] "a = 1\n@\nb = 2").bind Compiler.document =
      some #[.expression 1 "a=1" none] := by
  decide +kernel

end PlotScript
