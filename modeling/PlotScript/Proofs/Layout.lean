import PlotScript.Proofs.Lexeme

/-! Texts in which every token stands apart from the next one. Such a text is read token by
token, whatever blanks and comments lie between. -/

namespace PlotScript.Lexer
open Text

/-- The text ends here, or goes on with a blank or a newline. -/
def atGap : List Char → Bool
  | [] => true
  | c :: _ => isBlank c || c = '\n'

/-- How a token may be written. Digits may be of any script and may begin with zeros. -/
inductive Spells : Token → List Char → Prop
  | keyword {word : List Char} (hkey : String.ofList word ∈ keywords) :
      Spells (.word .keyword (String.ofList word)) word
  | name {word : List Char} (hname : isName word = true) (hkey : String.ofList word ∉ keywords) :
      Spells (.word .name (String.ofList word)) word
  | numeral {digits : List Char} (hne : digits ≠ []) (hall : digits.all isDigit = true)
      (hlength : digits.length ≤ maxDigits) : Spells (.numeral (numeralValue digits)) digits
  | mark {c : Char} (hmark : isMark c = true) : Spells (.word .mark (String.ofList [c])) [c]
  | arrow : Spells (.word .operator (String.ofList ['-', '>'])) ['-', '>']
  | operator {c : Char} (hop : isOperator c = true) :
      Spells (.word .operator (String.ofList [c])) [c]
  | note {quote : Char} {inside : List Char} (hquote : quote = '\x22' ∨ quote = '\x27')
      (hclosed : quote ∉ inside) (hline : '\n' ∉ inside) :
      Spells (.word .note (String.ofList (quote :: (inside ++ [quote]))))
        (quote :: (inside ++ [quote]))

/-- Texts made of tokens that stand apart, newlines, blanks and comments. -/
inductive Written : List Char → List Token → Prop
  | done : Written [] []
  | blank {c : Char} {rest : List Char} {ts : List Token} (hblank : isBlank c = true)
      (hrest : Written rest ts) : Written (c :: rest) ts
  | comment {text rest : List Char} {ts : List Token} (htext : '\n' ∉ text)
      (hend : ∀ c ∈ rest.head?, c = '\n') (hrest : Written rest ts) :
      Written ('#' :: (text ++ rest)) ts
  | newline {rest : List Char} {ts : List Token} (hrest : Written rest ts) :
      Written ('\n' :: rest) (Token.newline :: ts)
  | token {t : Token} {word rest : List Char} {ts : List Token} (hword : Spells t word)
      (hgap : atGap rest = true) (hrest : Written rest ts) : Written (word ++ rest) (t :: ts)

/-- A text may be put behind another where a new line begins. -/
theorem Written.append {a b : List Char} {ts us : List Token} (ha : Written a ts)
    (hb : Written b us) (hline : ∀ c ∈ b.head?, c = '\n') : Written (a ++ b) (ts ++ us) := by
  have hstart : ∀ rest : List Char, (∀ c ∈ rest.head?, c = '\n') →
      ∀ c ∈ (rest ++ b).head?, c = '\n' := by
    intro rest hrest
    cases rest with
    | nil => exact hline
    | cons c rest => exact hrest
  induction ha with
  | done => exact hb
  | blank hblank _ ih => exact .blank hblank ih
  | comment htext hend _ ih =>
    rw [List.cons_append, List.append_assoc]
    exact .comment htext (hstart _ hend) ih
  | newline _ ih => exact .newline ih
  | @token t word rest ts hword hgap _ ih =>
    rw [List.append_assoc]
    refine .token hword ?_ ih
    cases rest with
    | cons c rest => exact hgap
    | nil =>
      cases b with
      | nil => rfl
      | cons c b => simp [atGap, hline c (by simp)]

theorem takeWhile_append_of_head {p : Char → Bool} {word rest : List Char}
    (hword : ∀ c ∈ word, p c = true) (hrest : ∀ c ∈ rest.head?, p c = false) :
    (word ++ rest).takeWhile p = word := by
  rw [List.takeWhile_append_of_pos hword]
  cases rest with
  | nil => simp
  | cons c rest => simp [hrest c (by simp)]

theorem dropWhile_append_of_head {p : Char → Bool} {word rest : List Char}
    (hword : ∀ c ∈ word, p c = true) (hrest : ∀ c ∈ rest.head?, p c = false) :
    (word ++ rest).dropWhile p = rest := by
  rw [List.dropWhile_append_of_pos hword]
  cases rest with
  | nil => simp
  | cons c rest => simp [hrest c (by simp)]

theorem gap_head {rest : List Char} (h : atGap rest = true) :
    ∀ c ∈ rest.head?, c = ' ' ∨ c = '\t' ∨ c = '\n' := by
  cases rest with
  | nil => simp
  | cons c rest => simpa [atGap, isBlank, or_assoc] using h

theorem gap_head_fails {p : Char → Bool} {rest : List Char} (h : atGap rest = true)
    (hspace : p ' ' = false) (htab : p '\t' = false) (hline : p '\n' = false) :
    ∀ c ∈ rest.head?, p c = false := by
  intro c hc
  rcases gap_head h c hc with rfl | rfl | rfl
  · exact hspace
  · exact htab
  · exact hline

theorem atWordEnd_iff {rest : List Char} :
    atWordEnd rest = true ↔ ∀ c ∈ rest.head?, isWordChar c = false := by
  cases rest <;> simp [atWordEnd]

theorem dropWord?_append (word rest : List Char) : dropWord? word (word ++ rest) = some rest := by
  induction word with
  | nil => rfl
  | cons w word ih => simpa [dropWord?] using ih

/-- Only the whole of a word can be a keyword. -/
theorem keyword?_append {before : Option Char} {word rest : List Char}
    (hbefore : before.any isWordChar = false) (hname : isName word = true)
    (hrest : atWordEnd rest = true) :
    keyword? before (word ++ rest) =
      if String.ofList word ∈ keywords then some (word, rest) else none := by
  have hword := all_isWordChar_of_isName hname
  -- word and rest are told apart by their characters, so a keyword in front is the word
  have hwhole : ∀ k ∈ keywords, ∀ left, dropWord? k.toList (word ++ rest) = some left →
      atWordEnd left = true → k.toList = word ∧ left = rest := by
    intro k hk left hdrop hleft
    have hsplit := eq_append_of_dropWord? hdrop
    have hkey := all_isWordChar_of_isName (isName_of_mem_keywords k hk)
    have htake := takeWhile_append_of_head hkey (atWordEnd_iff.mp hleft)
    rw [hsplit, takeWhile_append_of_head hword (atWordEnd_iff.mp hrest)] at htake
    have hdropped := dropWhile_append_of_head hkey (atWordEnd_iff.mp hleft)
    rw [hsplit, dropWhile_append_of_head hword (atWordEnd_iff.mp hrest)] at hdropped
    exact ⟨htake.symm, hdropped.symm⟩
  rw [keyword?, if_neg (by simp [hbefore])]
  cases hfound : keywords.findSome? _ with
  | none =>
    rw [if_neg]
    intro hk
    have hnone := List.findSome?_eq_none_iff.mp hfound _ hk
    simp [String.toList_ofList, dropWord?_append, hrest] at hnone
  | some parts =>
    obtain ⟨k, hk, hparts⟩ := List.exists_of_findSome?_eq_some hfound
    obtain ⟨left, hdrop, hleft⟩ := Option.bind_eq_some_iff.mp hparts
    split at hleft
    · next hend =>
      obtain ⟨hkey, rfl⟩ := hwhole k hk left hdrop hend
      cases hleft
      have hmem : String.ofList word ∈ keywords := by
        rw [← hkey, String.ofList_toList]
        exact hk
      rw [if_pos hmem, hkey]
    · contradiction

theorem closeNote?_append {quote : Char} {inside rest : List Char} (hclosed : quote ∉ inside)
    (hline : '\n' ∉ inside) :
    closeNote? quote (inside ++ quote :: rest) = some (inside ++ [quote], rest) := by
  induction inside with
  | nil => simp [closeNote?]
  | cons c inside ih =>
    simp only [List.mem_cons, not_or] at hclosed hline
    simp [closeNote?, ih hclosed.2 hline.2, Ne.symm hclosed.1, Ne.symm hline.1]

theorem atGap_append_of_spells {t : Token} {word rest : List Char} (h : Spells t word) :
    atGap (word ++ rest) = false := by
  -- no class of first characters holds a blank or a newline
  have hclass : ∀ {p : Char → Bool} {c : Char} {cs : List Char}, p c = true → p ' ' = false →
      p '\t' = false → p '\n' = false → atGap (c :: cs) = false := by
    intro p c cs hc hspace htab hline
    refine Bool.eq_false_iff.mpr fun hgap => ?_
    simp [gap_head_fails hgap hspace htab hline c (by simp)] at hc
  have hword : ∀ {w : List Char}, isName w = true → atGap (w ++ rest) = false := by
    intro w hw
    cases w with
    | nil => simp [isName] at hw
    | cons c cs =>
      rw [isName, Bool.and_eq_true] at hw
      exact hclass hw.1 (by decide) (by decide) (by decide)
  cases h with
  | keyword hkey =>
    have hname := isName_of_mem_keywords _ hkey
    rw [String.toList_ofList] at hname
    exact hword hname
  | name hname hkey => exact hword hname
  | numeral hne hall hlength =>
    cases word with
    | nil => contradiction
    | cons c cs =>
      rw [List.all_cons, Bool.and_eq_true] at hall
      exact hclass hall.1 (by decide) (by decide) (by decide)
  | mark hmark => exact hclass hmark (by decide) (by decide) (by decide)
  | arrow => rfl
  | operator hop => exact hclass hop (by decide) (by decide) (by decide)
  | note hquote hclosed hline => rcases hquote with rfl | rfl <;> rfl

/-- What follows a token is not read as part of it. -/
def Clear (t : Token) (rest : List Char) : Prop :=
  match t with
  | .numeral _ => ∀ c ∈ rest.head?, isDigit c = false
  | .word .keyword _ | .word .name _ => atWordEnd rest = true
  | .word .operator text => text = "-" → ∀ c ∈ rest.head?, c ≠ '>'
  | _ => True

theorem clear_of_atGap (t : Token) {rest : List Char} (hgap : atGap rest = true) :
    Clear t rest := by
  have hwordEnd : atWordEnd rest = true :=
    atWordEnd_iff.mpr (gap_head_fails hgap (by decide) (by decide) (by decide))
  unfold Clear
  split
  · exact gap_head_fails hgap (by decide) (by decide) (by decide)
  · exact hwordEnd
  · exact hwordEnd
  · rintro - c hc rfl
    rcases gap_head hgap _ hc with h | h | h <;> cases h
  · trivial

/-- A token is read back where nothing joins it, and nothing of what follows is taken. -/
theorem next?_of_clear {before : Option Char} {t : Token} {word rest : List Char}
    (h : Spells t word) (hbefore : t.isKind .keyword = true → before.any isWordChar = false)
    (hclear : Clear t rest) :
    ∃ m, next? before (word ++ rest) = some m ∧ m.lexeme = word ∧ m.rest = rest ∧
      m.token? = some t ∧ m.isOverlong = false := by
  cases h with
  | keyword hkey =>
    have hname := isName_of_mem_keywords _ hkey
    rw [String.toList_ofList] at hname
    have hmatch := keyword?_append (hbefore rfl) hname hclear
    rw [if_pos hkey] at hmatch
    refine ⟨⟨.keyword, word, rest⟩, ?_, rfl, rfl, rfl, rfl⟩
    simp [next?, hmatch, Match.of]
  | name hname hkey =>
    have hwordEnd : atWordEnd rest = true := hclear
    have hmatch : keyword? before (word ++ rest) = none := by
      cases hword : before.any isWordChar with
      | true => simp [keyword?, hword]
      | false => rw [keyword?_append hword hname hwordEnd, if_neg hkey]
    have hstop : ∀ c ∈ rest.head?, isNameChar c = false := by
      intro c hc
      refine Bool.eq_false_iff.mpr fun hchar => ?_
      have hword := atWordEnd_iff.mp hwordEnd c hc
      simp [isWordChar_of_isNameChar hchar] at hword
    refine ⟨⟨.name, word, rest⟩, ?_, rfl, rfl, rfl, rfl⟩
    cases word with
    | nil => simp [isName] at hname
    | cons c cs =>
      have hall := all_isNameChar_of_isName hname
      have hcs : ∀ d ∈ cs, isNameChar d = true := fun d hd => hall d (by simp [hd])
      rw [isName, Bool.and_eq_true] at hname
      rw [List.cons_append] at hmatch ⊢
      rw [next?_of_isNameStart hname.1, hmatch, takeWhile_append_of_head hcs hstop,
        dropWhile_append_of_head hcs hstop]
      rfl
  | numeral hne hall hlength =>
    refine ⟨⟨.numeral, word, rest⟩, ?_, rfl, rfl, rfl, by simpa [Match.isOverlong] using hlength⟩
    cases word with
    | nil => contradiction
    | cons c cs =>
      rw [List.all_cons, Bool.and_eq_true, List.all_eq_true] at hall
      rw [List.cons_append, next?_of_isDigit hall.1, takeWhile_append_of_head hall.2 hclear,
        dropWhile_append_of_head hall.2 hclear]
  | mark hmark => exact ⟨_, next?_of_isMark hmark, rfl, rfl, rfl, rfl⟩
  | arrow =>
    refine ⟨⟨.operator, ['-', '>'], rest⟩, ?_, rfl, rfl, rfl, rfl⟩
    rw [List.cons_append, next?_of_isOperator (by decide)]
    rfl
  | @operator c hop =>
    -- what follows a minus cannot make an arrow of it
    have harrow : dropWord? ['-', '>'] (c :: rest) = none := by
      by_cases hminus : '-' = c
      · subst hminus
        cases rest with
        | nil => simp [dropWord?]
        | cons d rest =>
          have hd : d ≠ '>' := hclear rfl d (by simp)
          simp [dropWord?, hd.symm]
      · simp [dropWord?, hminus]
    refine ⟨⟨.operator, [c], rest⟩, ?_, rfl, rfl, rfl, rfl⟩
    rw [List.cons_append, next?_of_isOperator hop, List.nil_append, operator?, harrow]
    simp [one?_cons hop, Match.of]
  | @note quote inside hquote hclosed hline =>
    refine ⟨⟨.note, quote :: (inside ++ [quote]), rest⟩, ?_, rfl, rfl, rfl, rfl⟩
    rw [List.cons_append, next?_of_quote hquote, List.append_assoc, List.cons_append,
      List.nil_append]
    simp [note?, hquote, closeNote?_append hclosed hline, Match.of]

/-! Reading on from a place, with all the fuel that can be needed. -/

def readAfter (before : Option Char) (cs : List Char) : Reading :=
  readFrom cs.length before cs

theorem read_eq_readAfter (text : String) : read text = readAfter none text.toList := rfl

theorem readAfter_of_next? {before : Option Char} {cs : List Char} {m : Match}
    (h : next? before cs = some m) (hlength : m.isOverlong = false) :
    readAfter before cs =
      ⟨m.token?.toList ++ (readAfter m.lexeme.getLast? m.rest).tokens,
        m.lexeme.length + (readAfter m.lexeme.getLast? m.rest).consumed,
        (readAfter m.lexeme.getLast? m.rest).ending⟩ := by
  cases cs with
  | nil =>
    obtain ⟨hsplit, hne⟩ := splits_of_next? h
    exact absurd (List.append_eq_nil_iff.mp hsplit).1 hne
  | cons c cs =>
    have hlt := length_rest_lt h
    rw [List.length_cons] at hlt
    have hfuel : readFrom cs.length m.lexeme.getLast? m.rest =
        readAfter m.lexeme.getLast? m.rest := readFrom_of_length_le (by omega)
    rw [readAfter, List.length_cons, readFrom, h]
    simp [hlength, hfuel]

theorem readAfter_of_unknown {before : Option Char} {c : Char} {cs : List Char}
    (h : next? before (c :: cs) = none) :
    readAfter before (c :: cs) = ⟨[], 0, .unknown c⟩ := by
  rw [readAfter, List.length_cons, readFrom, h]

theorem readAfter_of_overlong {before : Option Char} {c : Char} {cs : List Char} {m : Match}
    (h : next? before (c :: cs) = some m) (hlength : m.isOverlong = true) :
    readAfter before (c :: cs) = ⟨[], 0, .overlong⟩ := by
  rw [readAfter, List.length_cons, readFrom, h]
  exact if_pos hlength

/-- Induction over a reading: there is no text left, the reading stops at once, or a lexeme is taken
and the reading goes on behind it. -/
@[elab_as_elim]
theorem readAfter_induction {motive : Option Char → List Char → Prop}
    (finished : ∀ before, motive before [])
    (unknown : ∀ before c cs, next? before (c :: cs) = none → motive before (c :: cs))
    (overlong : ∀ before c cs m, next? before (c :: cs) = some m → m.isOverlong = true →
      motive before (c :: cs))
    (lexeme : ∀ before cs m, next? before cs = some m → m.isOverlong = false →
      motive m.lexeme.getLast? m.rest → motive before cs)
    (before : Option Char) (cs : List Char) : motive before cs := by
  -- every lexeme takes a character, so what is left gets shorter
  induction hn : cs.length using Nat.strongRecOn generalizing before cs with
  | _ n ih =>
    subst hn
    cases cs with
    | nil => exact finished before
    | cons c cs =>
      cases hm : next? before (c :: cs) with
      | none => exact unknown before c cs hm
      | some m =>
        cases hlength : m.isOverlong with
        | true => exact overlong before c cs m hm hlength
        | false =>
          have hrest := ih _ (length_rest_lt hm) m.lexeme.getLast? m.rest rfl
          exact lexeme before (c :: cs) m hm hlength hrest

/-- Every token comes from a lexeme somewhere in the text. -/
theorem exists_lexeme_of_mem_readAfter {before : Option Char} {cs : List Char} {t : Token}
    (h : t ∈ (readAfter before cs).tokens) :
    ∃ before' cs' m, cs' <:+ cs ∧ next? before' cs' = some m ∧ m.isOverlong = false ∧
      m.token? = some t := by
  induction before, cs using readAfter_induction with
  | finished before => cases h
  | unknown before c cs hm =>
    rw [readAfter_of_unknown hm] at h
    cases h
  | overlong before c cs m hm hlength =>
    rw [readAfter_of_overlong hm hlength] at h
    cases h
  | lexeme before cs m hm hlength ih =>
    rw [readAfter_of_next? hm hlength] at h
    rcases List.mem_append.mp h with htoken | hlater
    · exact ⟨before, cs, m, List.suffix_refl cs, hm, hlength, by simpa using htoken⟩
    · obtain ⟨before', cs', m', hsuffix, hfound⟩ := ih hlater
      have hrest : m.rest <:+ cs := ⟨m.lexeme, (splits_of_next? hm).1⟩
      exact ⟨before', cs', m', hsuffix.trans hrest, hfound⟩

/-- Blanks may be taken one at a time. -/
theorem readAfter_blank {before : Option Char} {c : Char} {rest : List Char}
    (h : isBlank c = true) :
    readAfter before (c :: rest) =
      ⟨(readAfter (some c) rest).tokens, 1 + (readAfter (some c) rest).consumed,
        (readAfter (some c) rest).ending⟩ := by
  have hrun := readAfter_of_next? (next?_of_isBlank before rest h) rfl
  cases rest with
  | nil => simpa [Match.token?] using hrun
  | cons d rest =>
    by_cases hd : isBlank d = true
    · have hlater := readAfter_of_next? (next?_of_isBlank (some c) rest hd) rfl
      rw [hrun, hlater]
      simp [hd, Match.token?]
      omega
    · simpa [hd, Match.token?] using hrun

/-- A text whose tokens stand apart is read to its end. -/
theorem readAfter_of_written {cs : List Char} {ts : List Token} (h : Written cs ts)
    (before : Option Char) (hbefore : before.any isWordChar = false ∨ atGap cs = true) :
    readAfter before cs = ⟨ts, cs.length, .finished⟩ := by
  induction h generalizing before with
  | done => rfl
  | @blank c rest ts hblank hrest ih =>
    have hnonword : (some c).any isWordChar = false := by
      rcases isBlank_cases hblank with rfl | rfl <;> decide
    rw [readAfter_blank hblank, ih (some c) (.inl hnonword)]
    simp [Nat.add_comm]
  | @comment text rest ts htext hend hrest ih =>
    have hplain : ∀ c ∈ text, decide (c ≠ '\n') = true := by
      intro c hc
      have hne : c ≠ '\n' := fun he => htext (he ▸ hc)
      simpa using hne
    have hstop : ∀ c ∈ rest.head?, decide (c ≠ '\n') = false := by
      intro c hc
      simp [hend c hc]
    have hgap : atGap rest = true := by
      cases rest with
      | nil => rfl
      | cons c rest => simp [atGap, hend c (by simp)]
    rw [readAfter_of_next? next?_hash rfl]
    simp only [takeWhile_append_of_head hplain hstop, dropWhile_append_of_head hplain hstop]
    rw [ih _ (.inr hgap)]
    simp [Match.token?]
    omega
  | newline hrest ih =>
    rw [readAfter_of_next? next?_newline rfl]
    have hnonword : (some '\n').any isWordChar = false := by decide
    simp only [List.getLast?_singleton, ih _ (.inl hnonword)]
    simp [Match.token?, Token.newline, Nat.add_comm]
  | @token t word rest ts hword hgap hrest ih =>
    have hready : before.any isWordChar = false := by
      rcases hbefore with hbefore | hbefore
      · exact hbefore
      · exact absurd hbefore (by simp [atGap_append_of_spells hword])
    obtain ⟨m, hnext, hlexeme, hleft, htoken, hlength⟩ :=
      next?_of_clear hword (fun _ => hready) (clear_of_atGap t hgap)
    rw [readAfter_of_next? hnext hlength, hlexeme, hleft, htoken, ih _ (.inr hgap)]
    simp

end PlotScript.Lexer
