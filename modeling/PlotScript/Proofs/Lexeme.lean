import PlotScript.Token.Splitting

/-! The first character of a text decides which rule reads it. The classes of first characters
are apart from each other, so each rule has an equation of its own. -/

namespace PlotScript.Lexer
open Text

def isBlank (c : Char) : Bool := c = ' ' || c = '\t'

/-- A first character that a name may have, and only such characters behind it. -/
def isName : List Char → Bool
  | [] => false
  | c :: cs => isNameStart c && cs.all isNameChar

theorem exists_zero_of_isDigit {c : Char} (h : isDigit c = true) :
    ∃ z ∈ digitZeros, z ≤ c.toNat ∧ c.toNat < z + 10 := by
  obtain ⟨n, hn⟩ := Option.isSome_iff_exists.mp h
  obtain ⟨z, hz, hv⟩ := List.exists_of_findSome?_eq_some hn
  split at hv
  · next hrange => exact ⟨z, hz, hrange⟩
  · contradiction

theorem digitZeros_apart : ∀ z ∈ digitZeros, z + 10 ≤ 65 ∨ 122 < z := by
  decide

theorem isNameStart_range {c : Char} (h : isNameStart c = true) :
    65 ≤ c.toNat ∧ c.toNat ≤ 122 := by
  delta isNameStart Char.isAlpha Char.isUpper Char.isLower at h
  simp only [Bool.or_eq_true, Bool.and_eq_true, decide_eq_true_eq] at h
  rcases h with (⟨h1, h2⟩ | ⟨h1, h2⟩) | rfl
  · have hupper : c.toNat ≤ 90 := h2
    exact ⟨h1, by omega⟩
  · have hlower : 97 ≤ c.toNat := h1
    exact ⟨by omega, h2⟩
  · decide

theorem isNameStart_eq_false_of_isDigit {c : Char} (h : isDigit c = true) :
    isNameStart c = false := by
  obtain ⟨z, hz, hle, hlt⟩ := exists_zero_of_isDigit h
  refine Bool.eq_false_iff.mpr fun hname => ?_
  have hrange := isNameStart_range hname
  have hapart := digitZeros_apart z hz
  omega

theorem isNameChar_of_isNameStart {c : Char} (h : isNameStart c = true) :
    isNameChar c = true := by
  simp only [isNameStart, isNameChar, Char.isAlphanum, Bool.or_eq_true] at h ⊢
  rcases h with h | h
  · exact .inl (.inl h)
  · exact .inr h

theorem isWordChar_of_isNameChar {c : Char} (h : isNameChar c = true) : isWordChar c = true := by
  have hascii : c.toNat < 128 := by
    delta isNameChar Char.isAlphanum Char.isAlpha Char.isUpper Char.isLower at h
    simp only [Char.isDigit, Bool.or_eq_true, Bool.and_eq_true, decide_eq_true_eq] at h
    rcases h with ((⟨-, h⟩ | ⟨-, h⟩) | ⟨-, h⟩) | rfl
    · exact Nat.lt_of_le_of_lt (m := 90) h (by decide)
    · exact Nat.lt_of_le_of_lt (m := 122) h (by decide)
    · exact Nat.lt_of_le_of_lt (m := 57) h (by decide)
    · decide
  rw [isWordChar, if_pos hascii]
  exact h

theorem all_isNameChar_of_isName {w : List Char} (h : isName w = true) :
    ∀ c ∈ w, isNameChar c = true := by
  cases w with
  | nil => simp [isName] at h
  | cons c cs =>
    simp only [isName, Bool.and_eq_true, List.all_eq_true] at h
    intro d hd
    rcases List.mem_cons.mp hd with rfl | hd
    · exact isNameChar_of_isNameStart h.1
    · exact h.2 d hd

theorem all_isWordChar_of_isName {w : List Char} (h : isName w = true) :
    ∀ c ∈ w, isWordChar c = true :=
  fun c hc => isWordChar_of_isNameChar (all_isNameChar_of_isName h c hc)

theorem isName_of_mem_keywords : ∀ k ∈ keywords, isName k.toList = true := by
  decide

/-! Rules that do not apply. -/

theorem keyword?_eq_none {before : Option Char} {c : Char} {cs : List Char}
    (h : isNameStart c = false) : keyword? before (c :: cs) = none := by
  rw [keyword?]
  split
  · rfl
  · rw [List.findSome?_eq_none_iff]
    intro k hk
    have hname := isName_of_mem_keywords k hk
    cases hword : k.toList with
    | nil => simp [hword, isName] at hname
    | cons w ws =>
      have hstart : isNameStart w = true := by
        rw [hword, isName, Bool.and_eq_true] at hname
        exact hname.1
      have hne : w ≠ c := fun he => by simp [he, h] at hstart
      simp [dropWord?, hne]

theorem name?_eq_none {c : Char} {cs : List Char} (h : isNameStart c = false) :
    name? (c :: cs) = none := by
  simp [name?, h]

theorem run?_eq_none {p : Char → Bool} {c : Char} {cs : List Char} (h : p c = false) :
    run? p (c :: cs) = none := by
  simp [run?, h]

theorem run?_cons {p : Char → Bool} {c : Char} {cs : List Char} (h : p c = true) :
    run? p (c :: cs) = some (c :: cs.takeWhile p, cs.dropWhile p) := by
  simp [run?, h]

theorem one?_eq_none {p : Char → Bool} {c : Char} {cs : List Char} (h : p c = false) :
    one? p (c :: cs) = none := by
  simp [one?, h]

theorem one?_cons {p : Char → Bool} {c : Char} {cs : List Char} (h : p c = true) :
    one? p (c :: cs) = some ([c], cs) := by
  simp [one?, h]

theorem operator?_eq_none {c : Char} {cs : List Char} (h : isOperator c = false) :
    operator? (c :: cs) = none := by
  have hne : '-' ≠ c := by
    rintro rfl
    simp [isOperator] at h
  simp [operator?, dropWord?, hne, one?_eq_none h]

theorem comment?_eq_none {c : Char} {cs : List Char} (h : c ≠ '#') :
    comment? (c :: cs) = none := by
  simp [comment?, h]

/-! The rule that applies, by the class of the first character. -/

theorem isMark_classes {c : Char} (h : isMark c = true) :
    isNameStart c = false ∧ isDigit c = false := by
  have hall : ['\x7b', '\x7d', '[', ']', '(', ')', '.', ',', ';', '!'].all
      (fun m => !isNameStart m && !isDigit m) = true := by decide
  simpa using List.all_eq_true.mp hall c (by simpa [isMark] using h)

theorem isOperator_classes {c : Char} (h : isOperator c = true) :
    isNameStart c = false ∧ isDigit c = false ∧ isMark c = false := by
  have hall : ['+', '-', '*', '/', '>', '<', '=', '^'].all
      (fun m => !isNameStart m && (!isDigit m && !isMark m)) = true := by decide
  simpa using List.all_eq_true.mp hall c (by simpa [isOperator] using h)

theorem isBlank_cases {c : Char} (h : isBlank c = true) : c = ' ' ∨ c = '\t' := by
  simpa [isBlank] using h

theorem next?_of_isNameStart {before : Option Char} {c : Char} {cs : List Char}
    (h : isNameStart c = true) :
    next? before (c :: cs) = some ((keyword? before (c :: cs)).elim
      (Match.of .name (c :: cs.takeWhile isNameChar, cs.dropWhile isNameChar))
      (Match.of .keyword)) := by
  cases hk : keyword? before (c :: cs) <;> simp [next?, name?, h, hk]

theorem next?_of_isDigit {before : Option Char} {c : Char} {cs : List Char}
    (h : isDigit c = true) :
    next? before (c :: cs) =
      some ⟨.numeral, c :: cs.takeWhile isDigit, cs.dropWhile isDigit⟩ := by
  have hname := isNameStart_eq_false_of_isDigit h
  simp [next?, keyword?_eq_none hname, name?_eq_none hname, run?_cons h, Match.of]

theorem next?_of_isMark {before : Option Char} {c : Char} {cs : List Char}
    (h : isMark c = true) : next? before (c :: cs) = some ⟨.mark, [c], cs⟩ := by
  obtain ⟨hname, hdigit⟩ := isMark_classes h
  simp [next?, keyword?_eq_none hname, name?_eq_none hname, run?_eq_none hdigit, one?_cons h,
    Match.of]

theorem next?_of_isOperator {before : Option Char} {c : Char} {cs : List Char}
    (h : isOperator c = true) :
    next? before (c :: cs) = (operator? (c :: cs)).map (Match.of .operator) := by
  obtain ⟨hname, hdigit, hmark⟩ := isOperator_classes h
  have hsome : ∃ parts, operator? (c :: cs) = some parts := by
    rw [operator?]
    split
    · exact ⟨_, rfl⟩
    · exact ⟨_, one?_cons h⟩
  obtain ⟨parts, hparts⟩ := hsome
  simp [next?, keyword?_eq_none hname, name?_eq_none hname, run?_eq_none hdigit,
    one?_eq_none hmark, hparts]

/-- No letter, digit, mark or operator. -/
def isSpecial (c : Char) : Bool := !isNameStart c && !isDigit c && !isMark c && !isOperator c

theorem next?_of_isSpecial {before : Option Char} {c : Char} {cs : List Char}
    (h : isSpecial c = true) :
    next? before (c :: cs) =
      (((run? isBlank (c :: cs)).map (Match.of .blank)).or
      (((note? (c :: cs)).map (Match.of .note)).or
      (((comment? (c :: cs)).map (Match.of .comment)).or
      ((one? (· = '\n') (c :: cs)).map (Match.of .newline))))) := by
  simp only [isSpecial, Bool.and_eq_true, Bool.not_eq_true'] at h
  obtain ⟨⟨⟨hname, hdigit⟩, hmark⟩, hop⟩ := h
  have hblank : run? (fun c => c = ' ' || c = '\t') (c :: cs) = run? isBlank (c :: cs) := rfl
  simp only [next?, keyword?_eq_none hname, name?_eq_none hname, run?_eq_none hdigit,
    one?_eq_none hmark, operator?_eq_none hop, hblank, Option.map_none,
    Option.orElse_eq_orElse, Option.orElse_eq_or, Option.none_or]

theorem next?_of_isBlank (before : Option Char) {c : Char} (cs : List Char)
    (h : isBlank c = true) :
    next? before (c :: cs) = some ⟨.blank, c :: cs.takeWhile isBlank, cs.dropWhile isBlank⟩ := by
  have hspecial : isSpecial c = true := by
    rcases isBlank_cases h with rfl | rfl <;> decide
  simp [next?_of_isSpecial hspecial, run?_cons h, Match.of]

theorem next?_of_quote {before : Option Char} {c : Char} {cs : List Char}
    (h : c = '\x22' ∨ c = '\x27') :
    next? before (c :: cs) = (note? (c :: cs)).map (Match.of .note) := by
  have hclass : isSpecial c = true ∧ isBlank c = false ∧ c ≠ '#' ∧ c ≠ '\n' := by
    rcases h with rfl | rfl <;> decide
  obtain ⟨hspecial, hblank, hhash, hline⟩ := hclass
  simp [next?_of_isSpecial hspecial, run?_eq_none hblank, comment?_eq_none hhash, one?, hline]

theorem next?_hash {before : Option Char} {cs : List Char} :
    next? before ('#' :: cs) =
      some ⟨.comment, '#' :: cs.takeWhile (· ≠ '\n'), cs.dropWhile (· ≠ '\n')⟩ := by
  have hspecial : isSpecial '#' = true := by decide
  have hblank : isBlank '#' = false := by decide
  simp [next?_of_isSpecial hspecial, run?_eq_none hblank, note?, comment?, Match.of]

theorem next?_newline {before : Option Char} {cs : List Char} :
    next? before ('\n' :: cs) = some ⟨.newline, ['\n'], cs⟩ := by
  have hspecial : isSpecial '\n' = true := by decide
  have hblank : isBlank '\n' = false := by decide
  simp [next?_of_isSpecial hspecial, run?_eq_none hblank, note?, comment?, one?, Match.of]

end PlotScript.Lexer
