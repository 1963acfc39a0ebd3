import PlotScript.Token.Lexer

/-! Every rule splits the text in two and takes at least one character, so as many lexemes as
the text has characters are always enough to read it. -/

namespace PlotScript.Lexer
open Text

/-- A split of `cs` into a part that is not empty and the rest. -/
def Splits (cs : List Char) (parts : List Char × List Char) : Prop :=
  parts.1 ++ parts.2 = cs ∧ parts.1 ≠ []

theorem eq_append_of_dropWord? {word cs rest : List Char} (h : dropWord? word cs = some rest) :
    word ++ rest = cs := by
  induction word generalizing cs with
  | nil => simpa [dropWord?, eq_comm] using h
  | cons w word ih =>
    cases cs with
    | nil => simp [dropWord?] at h
    | cons c cs =>
      simp only [dropWord?] at h
      split at h
      · next hc => rw [List.cons_append, ih h, hc]
      · contradiction

theorem keywords_nonempty : ∀ k ∈ keywords, k.toList ≠ [] := by
  simp [keywords]

theorem splits_of_keyword? {before : Option Char} {cs : List Char}
    {parts : List Char × List Char} (h : keyword? before cs = some parts) : Splits cs parts := by
  simp only [keyword?] at h
  split at h
  · contradiction
  · obtain ⟨k, hk, hr⟩ := List.exists_of_findSome?_eq_some h
    obtain ⟨rest, hd, he⟩ := Option.bind_eq_some_iff.mp hr
    split at he
    · cases he
      exact ⟨eq_append_of_dropWord? hd, keywords_nonempty k hk⟩
    · contradiction

theorem splits_of_name? {cs : List Char} {parts : List Char × List Char}
    (h : name? cs = some parts) : Splits cs parts := by
  cases cs with
  | nil => simp [name?] at h
  | cons c cs =>
    simp only [name?] at h
    split at h
    · cases h
      exact ⟨by simp, by simp⟩
    · contradiction

theorem splits_of_run? {p : Char → Bool} {cs : List Char} {parts : List Char × List Char}
    (h : run? p cs = some parts) : Splits cs parts := by
  simp only [run?] at h
  split at h
  · contradiction
  · next hne =>
    cases h
    exact ⟨List.takeWhile_append_dropWhile, by simpa using hne⟩

theorem splits_of_one? {p : Char → Bool} {cs : List Char} {parts : List Char × List Char}
    (h : one? p cs = some parts) : Splits cs parts := by
  cases cs with
  | nil => simp [one?] at h
  | cons c cs =>
    simp only [one?] at h
    split at h
    · cases h
      exact ⟨rfl, by simp⟩
    · contradiction

theorem splits_of_operator? {cs : List Char} {parts : List Char × List Char}
    (h : operator? cs = some parts) : Splits cs parts := by
  simp only [operator?] at h
  split at h
  · next rest hd =>
    cases h
    exact ⟨eq_append_of_dropWord? hd, by simp⟩
  · exact splits_of_one? h

theorem splits_of_closeNote? {quote : Char} {cs : List Char} {parts : List Char × List Char}
    (h : closeNote? quote cs = some parts) : Splits cs parts := by
  induction cs generalizing parts with
  | nil => simp [closeNote?] at h
  | cons c cs ih =>
    simp only [closeNote?] at h
    split at h
    · cases h
      exact ⟨rfl, by simp⟩
    · split at h
      · contradiction
      · obtain ⟨inner, hi, rfl⟩ := Option.map_eq_some_iff.mp h
        exact ⟨by rw [List.cons_append, (ih hi).1], by simp⟩

theorem splits_of_note? {cs : List Char} {parts : List Char × List Char}
    (h : note? cs = some parts) : Splits cs parts := by
  cases cs with
  | nil => simp [note?] at h
  | cons c cs =>
    simp only [note?] at h
    split at h
    · obtain ⟨inner, hi, rfl⟩ := Option.map_eq_some_iff.mp h
      exact ⟨by rw [List.cons_append, (splits_of_closeNote? hi).1], by simp⟩
    · contradiction

theorem splits_of_comment? {cs : List Char} {parts : List Char × List Char}
    (h : comment? cs = some parts) : Splits cs parts := by
  cases cs with
  | nil => simp [comment?] at h
  | cons c cs =>
    simp only [comment?] at h
    split at h
    · cases h
      exact ⟨by simp, by simp⟩
    · contradiction

/-- What a rule takes from the front of a text, and what it leaves. -/
def Rule.take? (before : Option Char) (cs : List Char) : Rule → Option (List Char × List Char)
  | .keyword => keyword? before cs
  | .name => name? cs
  | .numeral => run? isDigit cs
  | .mark => one? isMark cs
  | .operator => operator? cs
  | .blank => run? (fun c => c = ' ' || c = '\t') cs
  | .note => note? cs
  | .comment => comment? cs
  | .newline => one? (· = '\n') cs

theorem take?_of_next? {before : Option Char} {cs : List Char} {m : Match}
    (h : next? before cs = some m) : m.rule.take? before cs = some (m.lexeme, m.rest) := by
  simp only [next?, Option.orElse_eq_orElse, Option.orElse_eq_or, Option.or_eq_some_iff,
    Option.map_eq_some_iff] at h
  obtain ⟨_, hp, rfl⟩ | ⟨_, ⟨_, hp, rfl⟩ | ⟨_, ⟨_, hp, rfl⟩ | ⟨_, ⟨_, hp, rfl⟩ |
    ⟨_, ⟨_, hp, rfl⟩ | ⟨_, ⟨_, hp, rfl⟩ | ⟨_, ⟨_, hp, rfl⟩ | ⟨_, ⟨_, hp, rfl⟩ |
    ⟨_, _, hp, rfl⟩⟩⟩⟩⟩⟩⟩⟩ := h
  all_goals exact hp

/-- What the first rule that applies took and left make up the text. -/
theorem splits_of_next? {before : Option Char} {cs : List Char} {m : Match}
    (h : next? before cs = some m) : Splits cs (m.lexeme, m.rest) := by
  have htake := take?_of_next? h
  generalize m.rule = rule at htake
  cases rule with
  | keyword => exact splits_of_keyword? htake
  | name => exact splits_of_name? htake
  | numeral => exact splits_of_run? htake
  | mark => exact splits_of_one? htake
  | operator => exact splits_of_operator? htake
  | blank => exact splits_of_run? htake
  | note => exact splits_of_note? htake
  | comment => exact splits_of_comment? htake
  | newline => exact splits_of_one? htake

theorem length_rest_lt {before : Option Char} {cs : List Char} {m : Match}
    (h : next? before cs = some m) : m.rest.length < cs.length := by
  obtain ⟨happend, hne⟩ := splits_of_next? h
  have hlen := congrArg List.length happend
  have hpos := List.length_pos_iff.mpr hne
  simp only [List.length_append] at hlen hpos
  omega

/-- More fuel than the text has characters changes nothing. -/
theorem readFrom_of_length_le {fuel : Nat} {before : Option Char} {cs : List Char}
    (h : cs.length ≤ fuel) : readFrom fuel before cs = readFrom cs.length before cs := by
  induction hn : cs.length using Nat.strongRecOn generalizing fuel before cs with
  | _ n ih =>
    subst hn
    cases cs with
    | nil => simp [readFrom]
    | cons c cs =>
      cases fuel with
      | zero => simp at h
      | succ fuel =>
        simp only [List.length_cons, readFrom]
        cases hm : next? before (c :: cs) with
        | none => rfl
        | some m =>
          have hlt := length_rest_lt hm
          simp only [List.length_cons] at h hlt
          have hfuel : readFrom fuel m.lexeme.getLast? m.rest =
              readFrom m.rest.length m.lexeme.getLast? m.rest := ih _ hlt (by omega) rfl
          have hlength : readFrom cs.length m.lexeme.getLast? m.rest =
              readFrom m.rest.length m.lexeme.getLast? m.rest := ih _ hlt (by omega) rfl
          simp only [hfuel, hlength]

end PlotScript.Lexer
