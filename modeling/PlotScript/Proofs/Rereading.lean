import PlotScript.Compiler
import PlotScript.Proofs.Layout

/-! The texts of all tokens, joined by spaces, are read as the same tokens again. Only a name
that reads like a keyword becomes one, since it now stands apart. -/

namespace PlotScript
open Lexer Text

/-- The token that comes of reading a token apart from its neighbours. -/
def Token.reserved : Token → Token
  | .word .name text => if text ∈ keywords then .word .keyword text else .word .name text
  | t => t

/-- The texts of tokens with spaces between them. -/
def Token.joined (ts : List Token) : String := " ".intercalate (ts.map Token.shown)

theorem Compiler.joinedTokens_eq (c : Compiler) :
    c.joinedTokens = Token.joined c.tokens.toList := rfl

theorem Token.shown_reserved (t : Token) : t.reserved.shown = t.shown := by
  unfold reserved
  split
  · split <;> rfl
  · rfl

theorem Token.joined_map_reserved (ts : List Token) :
    joined (ts.map reserved) = joined ts := by
  simp only [joined, List.map_map, Function.comp_def, shown_reserved]

theorem Token.reserved_of_notMem {t : Token} (h : ∀ k ∈ keywords, t ≠ .word .name k) :
    t.reserved = t := by
  unfold reserved
  split
  · next text =>
    rw [if_neg]
    intro hk
    exact h text hk rfl
  · rfl

namespace Lexer

/-! The value of a numeral, and its digits in decimal. -/

theorem digitValue?_lt {c : Char} {n : Nat} (h : digitValue? c = some n) : n < 10 := by
  obtain ⟨z, -, hv⟩ := List.exists_of_findSome?_eq_some h
  split at hv
  · cases hv
    omega
  · contradiction

theorem numeralValue_foldl_lt (digits : List Char) (n : Nat) :
    digits.foldl (fun n c => 10 * n + (digitValue? c).getD 0) n <
      (n + 1) * Nat.pow 10 digits.length := by
  induction digits generalizing n with
  | nil => exact Nat.lt_of_lt_of_eq (Nat.lt_succ_self n) (Nat.mul_one (n + 1)).symm
  | cons c digits ih =>
    have hdigit : (digitValue? c).getD 0 < 10 := by
      cases hv : digitValue? c with
      | none => simp
      | some d => simpa using digitValue?_lt hv
    have hstep : 10 * n + (digitValue? c).getD 0 + 1 ≤ (n + 1) * 10 := by omega
    calc (c :: digits).foldl (fun n c => 10 * n + (digitValue? c).getD 0) n
        < (10 * n + (digitValue? c).getD 0 + 1) * Nat.pow 10 digits.length := ih _
      _ ≤ (n + 1) * 10 * Nat.pow 10 digits.length := Nat.mul_le_mul_right _ hstep
      _ = (n + 1) * Nat.pow 10 (c :: digits).length := by
        rw [List.length_cons, Nat.mul_assoc, Nat.mul_comm 10]
        rfl

theorem numeralValue_lt (digits : List Char) :
    numeralValue digits < Nat.pow 10 digits.length := by
  have hfold := numeralValue_foldl_lt digits 0
  rwa [Nat.zero_add, Nat.one_mul] at hfold

theorem digitValue?_of_isDigit {c : Char} (h : c.isDigit = true) :
    digitValue? c = some (c.toNat - 48) := by
  have hrange : 48 ≤ c.toNat ∧ c.toNat < 48 + 10 := by
    simp only [Char.isDigit, Bool.and_eq_true, decide_eq_true_eq] at h
    have hle : c.toNat ≤ 57 := h.2
    exact ⟨h.1, by omega⟩
  simp [digitValue?, digitZeros, hrange]

theorem all_isDigit_toDigits (n : Nat) : (Nat.toDigits 10 n).all isDigit = true := by
  rw [List.all_eq_true]
  intro c hc
  have hdigit := Nat.isDigit_of_mem_toDigits (by decide) (by decide) hc
  simp [isDigit, digitValue?_of_isDigit hdigit]

theorem numeralValue_toDigits (n : Nat) : numeralValue (Nat.toDigits 10 n) = n := by
  have hsame : ∀ (digits : List Char) (start : Nat), (∀ c ∈ digits, c.isDigit = true) →
      digits.foldl (fun n c => 10 * n + (digitValue? c).getD 0) start =
        Nat.ofDigitChars 10 digits start := by
    intro digits
    induction digits with
    | nil => simp
    | cons c digits ih =>
      intro start hall
      rw [List.foldl_cons, Nat.ofDigitChars_cons, digitValue?_of_isDigit (hall c (by simp)),
        ih _ fun d hd => hall d (by simp [hd])]
      rfl
  rw [numeralValue, hsame _ _ fun c hc =>
    Nat.isDigit_of_mem_toDigits (by decide) (by decide) hc]
  exact Nat.ofDigitChars_ten_toDigits

/-- A numeral in decimal has no more digits than it was written with. -/
theorem spells_numeral {digits : List Char} (hne : digits ≠ [])
    (hlength : digits.length ≤ maxDigits) :
    Spells (.numeral (numeralValue digits)) (Token.numeral (numeralValue digits)).shown.toList := by
  have hshort : (Nat.toDigits 10 (numeralValue digits)).length ≤ digits.length :=
    (Nat.length_toDigits_le_iff (by decide) (List.length_pos_iff.mpr hne)).mpr
      (numeralValue_lt digits)
  have hspell := Spells.numeral (Nat.toDigits_ne_nil (n := numeralValue digits) (b := 10))
    (all_isDigit_toDigits _) (Nat.le_trans hshort hlength)
  rwa [numeralValue_toDigits, ← Nat.toList_repr] at hspell

/-! What a rule took, seen as a token of its own. -/

theorem isName_of_name? {cs : List Char} {parts : List Char × List Char}
    (h : name? cs = some parts) : isName parts.1 = true := by
  cases cs with
  | nil => simp [name?] at h
  | cons c cs =>
    simp only [name?] at h
    split at h
    · next hstart =>
      cases h
      rw [isName, hstart, Bool.true_and]
      exact List.all_takeWhile
    · contradiction

theorem keyword_of_keyword? {before : Option Char} {cs : List Char}
    {parts : List Char × List Char} (h : keyword? before cs = some parts) :
    String.ofList parts.1 ∈ keywords := by
  rw [keyword?] at h
  split at h
  · contradiction
  · obtain ⟨k, hk, hparts⟩ := List.exists_of_findSome?_eq_some h
    obtain ⟨rest, -, hrest⟩ := Option.bind_eq_some_iff.mp hparts
    split at hrest
    · cases hrest
      rwa [String.ofList_toList]
    · contradiction

theorem exists_of_one? {p : Char → Bool} {cs : List Char} {parts : List Char × List Char}
    (h : one? p cs = some parts) : ∃ c, p c = true ∧ parts.1 = [c] := by
  cases cs with
  | nil => simp [one?] at h
  | cons c cs =>
    rw [one?] at h
    split at h
    · next hc =>
      cases h
      exact ⟨c, hc, rfl⟩
    · contradiction

theorem spells_of_operator? {cs : List Char} {parts : List Char × List Char}
    (h : operator? cs = some parts) :
    Spells (.word .operator (String.ofList parts.1)) parts.1 := by
  rw [operator?] at h
  split at h
  · cases h
    exact .arrow
  · obtain ⟨c, hop, hparts⟩ := exists_of_one? h
    rw [hparts]
    exact .operator hop

theorem closed_of_closeNote? {quote : Char} {cs : List Char} {parts : List Char × List Char}
    (h : closeNote? quote cs = some parts) :
    ∃ inside, parts.1 = inside ++ [quote] ∧ quote ∉ inside ∧ '\n' ∉ inside := by
  induction cs generalizing parts with
  | nil => simp [closeNote?] at h
  | cons c cs ih =>
    rw [closeNote?] at h
    split at h
    · next hc =>
      cases h
      exact ⟨[], by simp [hc], by simp, by simp⟩
    · next hc =>
      split at h
      · contradiction
      · next hline =>
        obtain ⟨inner, hinner, rfl⟩ := Option.map_eq_some_iff.mp h
        obtain ⟨inside, hparts, hclosed, hsame⟩ := ih hinner
        refine ⟨c :: inside, by simp [hparts], ?_, ?_⟩
        · simpa [hclosed] using Ne.symm hc
        · simpa [hsame] using Ne.symm hline

theorem spells_of_note? {cs : List Char} {parts : List Char × List Char}
    (h : note? cs = some parts) : Spells (.word .note (String.ofList parts.1)) parts.1 := by
  cases cs with
  | nil => simp [note?] at h
  | cons c cs =>
    rw [note?] at h
    split at h
    · next hquote =>
      obtain ⟨⟨body, rest⟩, hbody, rfl⟩ := Option.map_eq_some_iff.mp h
      obtain ⟨inside, hparts, hclosed, hline⟩ := closed_of_closeNote? hbody
      dsimp only at hparts
      subst hparts
      exact .note hquote hclosed hline
    · contradiction

/-- A token that is a newline, or that its own text spells once it stands apart. -/
def Rereadable (t : Token) : Prop :=
  t = Token.newline ∨ Spells t.reserved t.shown.toList

theorem rereadable_of_next? {before : Option Char} {cs : List Char} {m : Match} {t : Token}
    (h : next? before cs = some m) (hlength : m.isOverlong = false) (ht : m.token? = some t) :
    Rereadable t := by
  have htake := take?_of_next? h
  obtain ⟨rule, lexeme, rest⟩ := m
  cases rule with
  | keyword =>
    cases ht
    refine .inr ?_
    rw [Token.shown, String.toList_ofList]
    exact .keyword (keyword_of_keyword? htake)
  | name =>
    cases ht
    refine .inr ?_
    rw [Token.shown, String.toList_ofList, Token.reserved]
    split
    · next hkey => exact .keyword hkey
    · next hkey => exact .name (isName_of_name? htake) hkey
  | numeral =>
    cases ht
    refine .inr (spells_numeral (splits_of_run? htake).2 ?_)
    simp only [Match.isOverlong, decide_true, Bool.true_and] at hlength
    exact Nat.le_of_not_lt (of_decide_eq_false hlength)
  | mark =>
    cases ht
    obtain ⟨c, hmark, hparts⟩ := exists_of_one? htake
    obtain rfl : lexeme = [c] := hparts
    refine .inr ?_
    rw [Token.shown, String.toList_ofList]
    exact .mark hmark
  | operator =>
    cases ht
    refine .inr ?_
    rw [Token.shown, String.toList_ofList]
    exact spells_of_operator? htake
  | blank => cases ht
  | note =>
    cases ht
    refine .inr ?_
    rw [Token.shown, String.toList_ofList]
    exact spells_of_note? htake
  | comment => cases ht
  | newline =>
    cases ht
    obtain ⟨c, hline, hparts⟩ := exists_of_one? htake
    obtain rfl : lexeme = [c] := hparts
    rw [of_decide_eq_true hline]
    exact .inl rfl

theorem rereadable_of_mem_read {text : String} {t : Token} (h : t ∈ (read text).tokens) :
    Rereadable t := by
  obtain ⟨before, cs, m, -, hm, hlength, ht⟩ := exists_lexeme_of_mem_readAfter h
  exact rereadable_of_next? hm hlength ht

/-- A token in front of a text that begins with a blank, or of no text at all. -/
theorem written_cons {t : Token} {rest : List Char} {ts : List Token} (ht : Rereadable t)
    (hgap : atGap rest = true) (hrest : Written rest ts) :
    Written (t.shown.toList ++ rest) (t.reserved :: ts) := by
  rcases ht with rfl | hspells
  · exact .newline hrest
  · exact .token hspells hgap hrest

theorem written_joined {ts : List Token} (h : ∀ t ∈ ts, Rereadable t) :
    Written (Token.joined ts).toList (ts.map Token.reserved) := by
  induction ts with
  | nil => exact .done
  | cons t ts ih =>
    have hlater := ih fun u hu => h u (by simp [hu])
    have ht := h t (by simp)
    cases ts with
    | nil => simpa [Token.joined] using written_cons ht rfl .done
    | cons u us =>
      have hspaced := written_cons ht rfl (.blank (c := ' ') (by decide) hlater)
      simpa [Token.joined] using hspaced

/-- A text with a space between each two of its tokens. -/
theorem written_of_read {text : String} {ts : List Token} (hread : (read text).tokens = ts)
    (hjoined : Token.joined ts = text) (hreserved : ts.map Token.reserved = ts) :
    Written text.toList ts := by
  subst hread
  have hwritten := written_joined fun t (ht : t ∈ (read text).tokens) => rereadable_of_mem_read ht
  rwa [hjoined, hreserved] at hwritten

theorem read_of_written {text : String} {ts : List Token} (h : Written text.toList ts) :
    read text = ⟨ts, text.length, .finished⟩ := by
  rw [read_eq_readAfter, readAfter_of_written h none (.inl rfl), String.length_toList]

/-- Reading the joined texts of the tokens of any text, once and once more. -/
theorem read_joined_tokens (text : String) :
    read (Token.joined (read text).tokens) =
        ⟨(read text).tokens.map Token.reserved, (Token.joined (read text).tokens).length,
          .finished⟩ ∧
      ((∀ k ∈ keywords, Token.word .name k ∉ (read text).tokens) →
        (read (Token.joined (read text).tokens)).tokens = (read text).tokens) ∧
      read (Token.joined (read (Token.joined (read text).tokens)).tokens) =
        read (Token.joined (read text).tokens) := by
  have hfirst : read (Token.joined (read text).tokens) =
      ⟨(read text).tokens.map Token.reserved, (Token.joined (read text).tokens).length,
        .finished⟩ :=
    read_of_written (written_joined fun t ht => rereadable_of_mem_read ht)
  refine ⟨hfirst, ?_, ?_⟩
  · intro hnames
    rw [hfirst]
    refine (List.map_congr_left fun t ht => ?_).trans (List.map_id _)
    refine Token.reserved_of_notMem fun k hk he => ?_
    exact hnames k hk (he ▸ ht)
  · simp only [hfirst, Token.joined_map_reserved]

end Lexer
end PlotScript
