import PlotScript.Proofs.Rereading

/-! Texts of tokens with nothing between them. Words and numerals that stand side by side are
read as one, and so are a minus and a greater sign; all other tokens are read as they are. -/

namespace PlotScript
open Lexer Text

namespace Token

theorem is_of_is {t : Token} {a b : String} (h : t.is a = true) (hne : a ≠ b) :
    t.is b = false := by
  cases t with
  | numeral value => rfl
  | word kind text =>
    have htext : text = a := of_decide_eq_true h
    exact decide_eq_false (htext ▸ hne)

theorem shown_of_is {t : Token} {text : String} (h : t.is text = true) : t.shown = text := by
  cases t with
  | numeral value => contradiction
  | word kind own => exact of_decide_eq_true h

theorem is_shown {u : Token} (hnumeral : u.isNumeral = false) : u.is u.shown = true := by
  cases u with
  | numeral value => contradiction
  | word kind text => exact decide_eq_true rfl

/-- The texts of tokens with nothing between them. -/
def spelled : List Token → List Char
  | [] => []
  | t :: ts => t.shown.toList ++ spelled ts

def isWordy (t : Token) : Bool := t.isNumeral || t.isKind .keyword || t.isKind .name

/-- With nothing between them the two tokens are not read as they are. A name may follow a
numeral, but a keyword that does is read as a name. -/
def fuses (t u : Token) : Bool :=
  if t.isNumeral then u.isNumeral || u.isKind .keyword
  else if t.isWordy then u.isWordy
  else t.is "-" && u.is ">"

/-- No token fuses with the next one. -/
def sideBySide : List Token → Bool
  | t :: u :: ts => !t.fuses u && sideBySide (u :: ts)
  | _ => true

/-- Nothing that a keyword stands behind is a word. -/
theorem isWordy_eq_false {t u : Token} (hfuses : t.fuses u = false)
    (hkey : u.isKind .keyword = true) : t.isWordy = false := by
  have hwordy : u.isWordy = true := by simp [isWordy, hkey]
  unfold fuses at hfuses
  split at hfuses
  · simp [hkey] at hfuses
  · split at hfuses
    · simp [hwordy] at hfuses
    · next hword => exact Bool.eq_false_iff.mpr hword

theorem sideBySide_cons_cons {t u : Token} {ts : List Token} :
    sideBySide (t :: u :: ts) = true ↔ t.fuses u = false ∧ sideBySide (u :: ts) = true := by
  rw [sideBySide, Bool.and_eq_true, Bool.not_eq_true']

theorem sideBySide_tail {t : Token} {ts : List Token} (h : sideBySide (t :: ts) = true) :
    sideBySide ts = true := by
  cases ts with
  | nil => rfl
  | cons u ts => exact (sideBySide_cons_cons.mp h).2

end Token

namespace Lexer
open Token

/-- A token that is a newline, or that its own text spells wherever it stands. -/
def Stable (t : Token) : Prop := t = Token.newline ∨ Spells t t.shown.toList

theorem stable_of_rereadable {t : Token} (h : Rereadable t) (hname : t.reserved = t) :
    Stable t := by
  rcases h with h | h
  · exact .inl h
  · rw [hname] at h
    exact .inr h

/-- What the first character of a token can be. -/
inductive Begins : Token → Char → Prop
  | word {t : Token} {c : Char} (hwordy : t.isWordy = true) (hnumeral : t.isNumeral = false)
      (hstart : isNameStart c = true) : Begins t c
  | numeral {t : Token} {c : Char} (hnumeral : t.isNumeral = true) (hdigit : isDigit c = true) :
      Begins t c
  | mark {c : Char} (hmark : isMark c = true) : Begins (.word .mark (String.ofList [c])) c
  | arrow : Begins (.word .operator "->") '-'
  | operator {c : Char} (hop : isOperator c = true) :
      Begins (.word .operator (String.ofList [c])) c
  | note {text : String} {c : Char} (hquote : c = '\x22' ∨ c = '\x27') :
      Begins (.word .note text) c
  | newline : Begins Token.newline '\n'

theorem begins_of_isName {t : Token} {word : List Char} (hname : isName word = true)
    (hwordy : t.isWordy = true) (hnumeral : t.isNumeral = false) :
    ∃ c cs, word = c :: cs ∧ Begins t c := by
  cases word with
  | nil => simp [isName] at hname
  | cons c cs =>
    rw [isName, Bool.and_eq_true] at hname
    exact ⟨c, cs, rfl, .word hwordy hnumeral hname.1⟩

theorem begins_of_stable {t : Token} (h : Stable t) :
    ∃ c cs, t.shown.toList = c :: cs ∧ Begins t c := by
  rcases h with rfl | h
  · exact ⟨_, _, rfl, .newline⟩
  generalize t.shown.toList = word at h
  cases h with
  | keyword hkey =>
    have hname := isName_of_mem_keywords _ hkey
    rw [String.toList_ofList] at hname
    exact begins_of_isName hname rfl rfl
  | name hname hkey => exact begins_of_isName hname rfl rfl
  | numeral hne hall hlength =>
    cases word with
    | nil => contradiction
    | cons c cs =>
      rw [List.all_cons, Bool.and_eq_true] at hall
      exact ⟨c, cs, rfl, .numeral rfl hall.1⟩
  | mark hmark => exact ⟨_, _, rfl, .mark hmark⟩
  | arrow => exact ⟨_, _, rfl, .arrow⟩
  | operator hop => exact ⟨_, _, rfl, .operator hop⟩
  | note hquote hclosed hline => exact ⟨_, _, rfl, .note hquote⟩

theorem isWordChar_of_isMark {c : Char} (h : isMark c = true) : isWordChar c = false := by
  have hall : ['\x7b', '\x7d', '[', ']', '(', ')', '.', ',', ';', '!'].all
      (fun m => !isWordChar m) = true := by decide
  simpa using List.all_eq_true.mp hall c (by simpa [isMark] using h)

theorem isWordChar_of_isOperator {c : Char} (h : isOperator c = true) : isWordChar c = false := by
  have hall : ['+', '-', '*', '/', '>', '<', '=', '^'].all (fun m => !isWordChar m) = true := by
    decide
  simpa using List.all_eq_true.mp hall c (by simpa [isOperator] using h)

section begins
variable {u : Token} {c : Char}

theorem Begins.isWordChar_eq_false (h : Begins u c) (hwordy : u.isWordy = false) :
    isWordChar c = false := by
  cases h with
  | word hword => simp [hword] at hwordy
  | numeral hnumeral => simp [isWordy, hnumeral] at hwordy
  | mark hmark => exact isWordChar_of_isMark hmark
  | arrow => decide
  | operator hop => exact isWordChar_of_isOperator hop
  | note hquote => rcases hquote with rfl | rfl <;> decide
  | newline => decide

theorem Begins.isDigit_eq_false (h : Begins u c) (hnumeral : u.isNumeral = false) :
    isDigit c = false := by
  cases h with
  | word _ _ hstart =>
    refine Bool.eq_false_iff.mpr fun hdigit => ?_
    simp [isNameStart_eq_false_of_isDigit hdigit] at hstart
  | numeral hown => simp [hown] at hnumeral
  | mark hmark => exact (isMark_classes hmark).2
  | arrow => decide
  | operator hop => exact (isOperator_classes hop).2.1
  | note hquote => rcases hquote with rfl | rfl <;> decide
  | newline => decide

theorem Begins.ne_greater (h : Begins u c) (his : u.is ">" = false) : c ≠ '>' := by
  rintro rfl
  cases h with
  | word _ _ hstart => exact absurd hstart (by decide)
  | numeral _ hdigit => exact absurd hdigit (by decide)
  | mark hmark => exact absurd hmark (by decide)
  | operator hop => exact absurd his (by decide)
  | note hquote => exact absurd hquote (by decide)

theorem clear_of_begins {t : Token} {rest : List Char} (h : Begins u c)
    (hfuses : t.fuses u = false) : Clear t (c :: rest) := by
  have hword : t.isNumeral = false → t.isWordy = true → atWordEnd (c :: rest) = true := by
    intro hnumeral hwordy
    rw [fuses, hnumeral, hwordy] at hfuses
    simp [atWordEnd, h.isWordChar_eq_false hfuses]
  unfold Clear
  split
  · have hnumeral := (Bool.or_eq_false_iff.mp hfuses).1
    intro d hd
    cases hd
    exact h.isDigit_eq_false hnumeral
  · exact hword rfl rfl
  · exact hword rfl rfl
  · rintro rfl d hd
    cases hd
    exact h.ne_greater hfuses
  · trivial

end begins

/-- A token that is no word does not hide a keyword behind it. -/
theorem getLast?_of_stable {t : Token} (h : Stable t) (hwordy : t.isWordy = false) :
    t.shown.toList.getLast?.any isWordChar = false := by
  rcases h with rfl | h
  · decide
  generalize t.shown.toList = word at h
  cases h with
  | keyword | name | numeral => contradiction
  | mark hmark => simpa using isWordChar_of_isMark hmark
  | arrow => decide
  | operator hop => simpa using isWordChar_of_isOperator hop
  | @note quote inside hquote =>
    rw [← List.cons_append, List.getLast?_append, List.getLast?_singleton, Option.some_or]
    rcases hquote with rfl | rfl <;> decide

theorem next?_of_stable {before : Option Char} {t : Token} {rest : List Char} (h : Stable t)
    (hbefore : t.isKind .keyword = true → before.any isWordChar = false) (hclear : Clear t rest) :
    ∃ m, next? before (t.shown.toList ++ rest) = some m ∧ m.lexeme = t.shown.toList ∧
      m.rest = rest ∧ m.token? = some t ∧ m.isOverlong = false := by
  rcases h with rfl | h
  · exact ⟨_, next?_newline, rfl, rfl, rfl, rfl⟩
  · exact next?_of_clear h hbefore hclear

/-- Tokens that do not fuse are read from their texts as they are. -/
theorem readAfter_spelled {ts : List Token} (hts : ∀ t ∈ ts, Stable t)
    (hside : sideBySide ts = true) {before : Option Char}
    (hbefore : ∀ t ∈ ts.head?, t.isKind .keyword = true → before.any isWordChar = false) :
    readAfter before (spelled ts) = ⟨ts, (spelled ts).length, .finished⟩ := by
  induction ts generalizing before with
  | nil => rfl
  | cons t ts ih =>
    have ht := hts t (by simp)
    have hlater : ∀ u ∈ ts, Stable u := fun u hu => hts u (by simp [hu])
    have hfirst : ∀ u ∈ ts.head?, t.fuses u = false := by
      intro u hu
      cases ts with
      | nil => contradiction
      | cons v ts =>
        cases hu
        exact (sideBySide_cons_cons.mp hside).1
    have hclear : Clear t (spelled ts) := by
      cases ts with
      | nil => exact clear_of_atGap t rfl
      | cons u ts =>
        obtain ⟨c, cs, hu, hbegins⟩ := begins_of_stable (hlater u (by simp))
        rw [spelled, hu]
        exact clear_of_begins hbegins (hfirst u rfl)
    obtain ⟨m, hnext, hlexeme, hleft, htoken, hlength⟩ := next?_of_stable ht (hbefore t rfl) hclear
    have hkeyword : ∀ u ∈ ts.head?, u.isKind .keyword = true →
        t.shown.toList.getLast?.any isWordChar = false := by
      intro u hu hkey
      exact getLast?_of_stable ht (isWordy_eq_false (hfirst u hu) hkey)
    rw [spelled, readAfter_of_next? hnext hlength, hlexeme, hleft, htoken,
      ih hlater (sideBySide_tail hside) hkeyword]
    simp

theorem read_spelled {ts : List Token} (hts : ∀ t ∈ ts, Stable t) (hside : sideBySide ts = true) :
    read (String.ofList (spelled ts)) = ⟨ts, (spelled ts).length, .finished⟩ := by
  rw [read_eq_readAfter, String.toList_ofList]
  exact readAfter_spelled hts hside fun _ _ _ => rfl

/-! Newlines are neither lost nor made, however the tokens fuse. -/

theorem newline_notMem_of_class {p : Char → Bool} {word : List Char}
    (hword : ∀ c ∈ word, p c = true) (hline : p '\n' = false) : '\n' ∉ word := by
  intro hmem
  simp [hword _ hmem] at hline

theorem newline_notMem_of_isName {word : List Char} (h : isName word = true) : '\n' ∉ word :=
  newline_notMem_of_class (all_isNameChar_of_isName h) (by decide)

theorem newline_notMem_of_keyword {word : List Char} (h : String.ofList word ∈ keywords) :
    '\n' ∉ word := by
  have hname := isName_of_mem_keywords _ h
  rw [String.toList_ofList] at hname
  exact newline_notMem_of_isName hname

theorem newline_notMem_of_spells {t : Token} {word : List Char} (h : Spells t word) :
    '\n' ∉ word ∧ t.isNewline = false := by
  cases h with
  | keyword hkey => exact ⟨newline_notMem_of_keyword hkey, rfl⟩
  | name hname => exact ⟨newline_notMem_of_isName hname, rfl⟩
  | numeral _ hall => exact ⟨newline_notMem_of_class (List.all_eq_true.mp hall) (by decide), rfl⟩
  | mark hmark =>
    exact ⟨newline_notMem_of_class (p := isMark) (by simpa using hmark) (by decide), rfl⟩
  | arrow => exact ⟨by decide, rfl⟩
  | operator hop =>
    exact ⟨newline_notMem_of_class (p := isOperator) (by simpa using hop) (by decide), rfl⟩
  | note hquote _ hline =>
    refine ⟨?_, rfl⟩
    rcases hquote with rfl | rfl <;> simpa using hline

theorem isNewline_reserved (t : Token) : t.reserved.isNewline = t.isNewline := by
  unfold reserved
  split
  · split <;> rfl
  · rfl

theorem count_shown {t : Token} (h : Rereadable t) :
    t.shown.toList.count '\n' = if t.isNewline then 1 else 0 := by
  rcases h with rfl | h
  · rfl
  · obtain ⟨hline, hkind⟩ := newline_notMem_of_spells h
    rw [isNewline_reserved] at hkind
    rw [List.count_eq_zero.mpr hline, if_neg (by simp [hkind])]

theorem count_spelled {ts : List Token} (hts : ∀ t ∈ ts, Rereadable t) :
    (spelled ts).count '\n' = ts.countP isNewline := by
  induction ts with
  | nil => rfl
  | cons t ts ih =>
    obtain ⟨ht, hrest⟩ := List.forall_mem_cons.mp hts
    rw [spelled, List.count_append, count_shown ht, ih hrest, List.countP_cons, Nat.add_comm]

theorem all_of_run? {p : Char → Bool} {cs : List Char} {parts : List Char × List Char}
    (h : run? p cs = some parts) : ∀ c ∈ parts.1, p c = true := by
  unfold run? at h
  split at h
  · contradiction
  · cases h
    exact List.all_eq_true.mp List.all_takeWhile

theorem newline_notMem_of_comment? {cs : List Char} {parts : List Char × List Char}
    (h : comment? cs = some parts) : '\n' ∉ parts.1 := by
  cases cs with
  | nil => simp [comment?] at h
  | cons c cs =>
    simp only [comment?] at h
    split at h
    · next hc =>
      cases h
      have hline : '\n' ∉ cs.takeWhile (· ≠ '\n') :=
        newline_notMem_of_class (p := (· ≠ '\n')) (List.all_eq_true.mp List.all_takeWhile)
          (by decide)
      simpa [hc] using hline
    · contradiction

/-- A rule takes a newline only where it gives one. -/
theorem count_lexeme {before : Option Char} {cs : List Char} {m : Match}
    (h : next? before cs = some m) :
    m.lexeme.count '\n' = m.token?.toList.countP isNewline := by
  have htake := take?_of_next? h
  obtain ⟨rule, lexeme, rest⟩ := m
  cases rule with
  | keyword => exact List.count_eq_zero.mpr (newline_notMem_of_keyword (keyword_of_keyword? htake))
  | name => exact List.count_eq_zero.mpr (newline_notMem_of_isName (isName_of_name? htake))
  | numeral => exact List.count_eq_zero.mpr (newline_notMem_of_class (all_of_run? htake) (by decide))
  | mark =>
    obtain ⟨c, hmark, hparts⟩ := exists_of_one? htake
    obtain rfl : lexeme = [c] := hparts
    refine List.count_eq_zero.mpr ?_
    exact newline_notMem_of_class (p := isMark) (by simpa using hmark) (by decide)
  | operator => exact List.count_eq_zero.mpr (newline_notMem_of_spells (spells_of_operator? htake)).1
  | blank => exact List.count_eq_zero.mpr (newline_notMem_of_class (all_of_run? htake) (by decide))
  | note => exact List.count_eq_zero.mpr (newline_notMem_of_spells (spells_of_note? htake)).1
  | comment => exact List.count_eq_zero.mpr (newline_notMem_of_comment? htake)
  | newline =>
    obtain ⟨c, hline, hparts⟩ := exists_of_one? htake
    obtain rfl : lexeme = [c] := hparts
    rw [of_decide_eq_true hline]
    rfl

theorem countP_readAfter {before : Option Char} {cs : List Char}
    (h : (readAfter before cs).ending = .finished) :
    (readAfter before cs).tokens.countP isNewline = cs.count '\n' := by
  induction before, cs using readAfter_induction with
  | finished before => rfl
  | unknown before c cs hm =>
    rw [readAfter_of_unknown hm] at h
    cases h
  | overlong before c cs m hm hlength =>
    rw [readAfter_of_overlong hm hlength] at h
    cases h
  | lexeme before cs m hm hlength ih =>
    rw [readAfter_of_next? hm hlength] at h ⊢
    rw [List.countP_append, ih h, ← count_lexeme hm, ← List.count_append, (splits_of_next? hm).1]

end Lexer
end PlotScript
