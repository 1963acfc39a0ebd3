import PlotScript.Grammar.Splice
import PlotScript.Proofs.Juxtaposed

/-! Placeholders. In a text they are replaced wherever their characters stand; in a list of
tokens, wherever their three tokens stand. The two agree on tokens that do not fuse, as long as no
note shows the placeholder. -/

namespace PlotScript

namespace Text

section substitute
variable {old new rest word : List Char}

theorem substituteFrom_skip (old new : List Char) (word rest : List Char) :
    substituteFrom old new word.length (word ++ rest) = substituteFrom old new 0 rest := by
  induction word with
  | nil => rfl
  | cons c word ih => exact ih

theorem substituteFrom_occurrence (h : old ≠ []) :
    substituteFrom old new 0 (old ++ rest) = new ++ substituteFrom old new 0 rest := by
  cases old with
  | nil => contradiction
  | cons c old =>
    have hprefix : (c :: old).isPrefixOf (c :: (old ++ rest)) = true := by simp
    rw [List.cons_append, substituteFrom, if_pos hprefix]
    exact congrArg (new ++ ·) (substituteFrom_skip _ _ old rest)

/-- Where no occurrence begins, the text stays. -/
theorem substituteFrom_append (h : ∀ s, s <:+ word → s ≠ [] → ¬ old <+: s ++ rest) :
    substituteFrom old new 0 (word ++ rest) = word ++ substituteFrom old new 0 rest := by
  induction word with
  | nil => rfl
  | cons c word ih =>
    have hhead : ¬ old.isPrefixOf (c :: (word ++ rest)) = true := by
      rw [List.isPrefixOf_iff_prefix]
      exact h (c :: word) (List.suffix_refl _) (by simp)
    rw [List.cons_append, substituteFrom, if_neg hhead,
      ih fun s hs => h s (hs.trans (List.suffix_cons c word)), List.cons_append]

theorem count_substituteFrom {x : Char} (hne : old ≠ []) (hold : x ∉ old) (hnew : x ∉ new)
    (skip : Nat) (cs : List Char) :
    (substituteFrom old new skip cs).count x = (cs.drop skip).count x := by
  induction cs generalizing skip with
  | nil => simp [substituteFrom]
  | cons c cs ih =>
    cases skip with
    | succ skip => exact ih skip
    | zero =>
      rw [substituteFrom]
      split
      · next hprefix =>
        obtain ⟨left, hleft⟩ := List.isPrefixOf_iff_prefix.mp hprefix
        cases old with
        | nil => contradiction
        | cons d old =>
          rw [List.cons_append, List.cons.injEq] at hleft
          obtain ⟨rfl, rfl⟩ := hleft
          rw [List.count_append, ih, List.count_eq_zero.mpr hnew, List.length_cons,
            Nat.add_sub_cancel, List.drop_left, List.drop_zero, ← List.cons_append,
            List.count_append, List.count_eq_zero.mpr hold]
      · rw [List.count_cons, ih, List.drop_zero, List.drop_zero, List.count_cons]

end substitute
end Text

namespace Token

/-- The token that three tokens stand for: the name of a parameter in braces. -/
def argument? (arguments : List (String × Token)) (t u v : Token) : Option Token :=
  if t.is "\x7b" && v.is "\x7d" then (arguments.find? fun x => u.is x.1).map Prod.snd else none

/-- The tokens with every parameter in braces replaced by its argument, all at once. -/
def filled (arguments : List (String × Token)) : List Token → List Token
  | [] => []
  | t :: u :: v :: rest =>
    match argument? arguments t u v with
    | some a => a :: filled arguments rest
    | none => t :: filled arguments (u :: v :: rest)
  | t :: rest => t :: filled arguments rest

example : filled [("p", .word .name "x"), ("q", .word .name "p")]
    [.word .mark "\x7b", .word .name "p", .word .mark "\x7d", .word .operator "+",
      .word .mark "\x7b", .word .name "q", .word .mark "\x7d"] =
    [.word .name "x", .word .operator "+", .word .name "p"] := by decide

theorem argument?_eq_some {arguments : List (String × Token)} {t u v a : Token}
    (h : argument? arguments t u v = some a) :
    t.is "\x7b" = true ∧ v.is "\x7d" = true ∧ ∃ x ∈ arguments, u.is x.1 = true ∧ x.2 = a := by
  unfold argument? at h
  split at h
  · next hbraces =>
    obtain ⟨x, hfind, hx⟩ := Option.map_eq_some_iff.mp h
    have hparameter := List.find?_some (p := fun x : String × Token => u.is x.1) hfind
    rw [Bool.and_eq_true] at hbraces
    exact ⟨hbraces.1, hbraces.2, x, List.mem_of_find?_eq_some hfind, hparameter, hx⟩
  · contradiction

/-- Where the first token stays, so does the beginning. -/
theorem head?_filled (arguments : List (String × Token)) (t : Token) (ts : List Token) :
    (filled arguments (t :: ts)).head? = some t ∨ t.is "\x7b" = true := by
  unfold filled
  split
  · contradiction
  · next u v rest heq =>
    cases heq
    split
    · next a ha => exact .inr (argument?_eq_some ha).1
    · exact .inl rfl
  · next heq =>
    cases heq
    exact .inl rfl

end Token

namespace Lexer
open Token Text Grammar

theorem toList_placeholder (parameter : String) :
    (placeholder parameter).toList = '\x7b' :: (parameter.toList ++ ['\x7d']) := by
  simp [placeholder]

section braces
variable {t u : Token}

theorem isWordy_of_is (h : Stable t) {text : String} (his : t.is text = true)
    (hname : isName text.toList = false) : t.isWordy = false := by
  rw [← shown_of_is his] at hname
  rcases h with rfl | h
  · rfl
  generalize t.shown.toList = word at h hname
  cases h with
  | keyword hkey =>
    have hword := isName_of_mem_keywords _ hkey
    rw [String.toList_ofList, hname] at hword
    contradiction
  | name hword => simp [hname] at hword
  | numeral => contradiction
  | mark | arrow | operator | note => rfl

/-- Braces fuse with nothing. -/
theorem fuses_of_brace (h : Stable t) (hbrace : t.is "\x7b" = true ∨ t.is "\x7d" = true) :
    t.fuses u = false ∧ u.fuses t = false := by
  have hfacts : t.isWordy = false ∧ t.is "-" = false ∧ t.is ">" = false := by
    rcases hbrace with his | his
    · exact ⟨isWordy_of_is h his (by decide), is_of_is his (by decide), is_of_is his (by decide)⟩
    · exact ⟨isWordy_of_is h his (by decide), is_of_is his (by decide), is_of_is his (by decide)⟩
  obtain ⟨hwordy, hminus, hgreater⟩ := hfacts
  have hkinds := hwordy
  simp only [isWordy, Bool.or_eq_false_iff] at hkinds
  obtain ⟨⟨hnumeral, hkeyword⟩, -⟩ := hkinds
  constructor
  · simp [fuses, hnumeral, hwordy, hminus]
  · unfold fuses
    split
    · simp [hnumeral, hkeyword]
    · split
      · exact hwordy
      · simp [hgreater]

theorem brace_notMem (h : Stable t) (hbrace : t.is "\x7b" = false)
    (hnote : t.isKind .note = false) : '\x7b' ∉ t.shown.toList := by
  rcases h with rfl | h
  · decide
  have hname : ∀ {w : List Char}, isName w = true → '\x7b' ∉ w := by
    intro w hw hmem
    exact absurd (all_isNameChar_of_isName hw _ hmem) (by decide)
  generalize t.shown.toList = word at h
  cases h with
  | keyword hkey =>
    have hword := isName_of_mem_keywords _ hkey
    rw [String.toList_ofList] at hword
    exact hname hword
  | name hword => exact hname hword
  | numeral _ hall =>
    intro hmem
    exact absurd (List.all_eq_true.mp hall _ hmem) (by decide)
  | mark hmark =>
    rw [List.mem_singleton]
    rintro rfl
    contradiction
  | arrow => decide
  | operator hop =>
    rw [List.mem_singleton]
    rintro rfl
    exact absurd hop (by decide)
  | note => contradiction

end braces

/-- Tokens that do not fuse with their arguments in place did not before either. -/
theorem sideBySide_of_filled {arguments : List (String × Token)} {ts : List Token}
    (hts : ∀ t ∈ ts, Stable t) (h : sideBySide (filled arguments ts) = true) :
    sideBySide ts = true := by
  have hcons : ∀ {t : Token} {rest : List Token}, Stable t →
      sideBySide (t :: filled arguments rest) = true → (∀ u ∈ rest, Stable u) →
      sideBySide rest = true → sideBySide (t :: rest) = true := by
    intro t rest ht hfilled hrest hside
    cases rest with
    | nil => rfl
    | cons u rest =>
      refine sideBySide_cons_cons.mpr ⟨?_, hside⟩
      rcases head?_filled arguments u rest with hhead | hbrace
      · obtain ⟨us, hus⟩ := List.head?_eq_some_iff.mp hhead
        rw [hus] at hfilled
        exact (sideBySide_cons_cons.mp hfilled).1
      · exact (fuses_of_brace (hrest u (by simp)) (.inl hbrace)).2
  fun_induction filled arguments ts with
  | case1 => rfl
  | case2 t u v rest a ha ih =>
    obtain ⟨hopen, hclose, -⟩ := argument?_eq_some ha
    have hrest : sideBySide rest = true := ih (fun w hw => hts w (by simp [hw])) (sideBySide_tail h)
    have ht := hts t (by simp)
    have hv := hts v (by simp)
    refine sideBySide_cons_cons.mpr ⟨(fuses_of_brace ht (.inl hopen)).1, ?_⟩
    refine sideBySide_cons_cons.mpr ⟨(fuses_of_brace hv (.inr hclose)).2, ?_⟩
    cases rest with
    | nil => rfl
    | cons w rest => exact sideBySide_cons_cons.mpr ⟨(fuses_of_brace hv (.inr hclose)).1, hrest⟩
  | case3 t u v rest hnone ih =>
    have hrest : ∀ w ∈ u :: v :: rest, Stable w := fun w hw => hts w (List.mem_cons_of_mem t hw)
    exact hcons (hts t (by simp)) h hrest (ih hrest (sideBySide_tail h))
  | case4 t rest hshort ih =>
    have hrest : ∀ w ∈ rest, Stable w := fun w hw => hts w (List.mem_cons_of_mem t hw)
    exact hcons (hts t (by simp)) h hrest (ih hrest (sideBySide_tail h))

/-! Where the characters of a placeholder stand, its tokens stand. -/

theorem prefix_of_notMem {old s rest : List Char} {q : Char} (hq : q ∉ old)
    (h : old <+: s ++ q :: rest) : old <+: s := by
  induction s generalizing old with
  | nil =>
    cases old with
    | nil => exact List.prefix_refl _
    | cons c old =>
      obtain ⟨rfl, -⟩ := List.cons_prefix_cons.mp h
      exact absurd (List.mem_cons_self ..) hq
  | cons d s ih =>
    cases old with
    | nil => exact List.nil_prefix
    | cons c old =>
      obtain ⟨rfl, htail⟩ := List.cons_prefix_cons.mp h
      exact List.cons_prefix_cons.mpr ⟨rfl, ih (fun hmem => hq (List.mem_cons_of_mem _ hmem)) htail⟩

/-- An occurrence that begins in a note does not go beyond its closing quote. -/
theorem infix_of_prefix {old s body rest : List Char} {quote : Char} (hquote : quote ∉ old)
    (hs : s <:+ body ++ [quote]) (hne : s ≠ []) (h : old <+: s ++ rest) :
    old <:+: body ++ [quote] := by
  rcases List.suffix_concat_iff.mp hs with hnil | ⟨inner, rfl, hinner⟩
  · contradiction
  · rw [List.append_assoc, List.singleton_append] at h
    have hin : old <:+: inner := (prefix_of_notMem hquote h).isInfix
    exact (hin.trans hinner.isInfix).trans (List.prefix_append body [quote]).isInfix

theorem shown_of_isNote {t : Token} (h : Stable t) (hnote : t.isKind .note = true) :
    ∃ body quote, t.shown.toList = body ++ [quote] ∧ (quote = '\x22' ∨ quote = '\x27') := by
  rcases h with rfl | h
  · contradiction
  generalize t.shown.toList = word at h
  cases h with
  | keyword | name | numeral | mark | arrow | operator => contradiction
  | @note quote inside hquote => exact ⟨quote :: inside, quote, rfl, hquote⟩

theorem isWordy_of_begins {u : Token} {c : Char} (h : Begins u c)
    (hstart : isNameStart c = true) : u.isWordy = true ∧ u.isNumeral = false := by
  cases h with
  | word hwordy hnumeral => exact ⟨hwordy, hnumeral⟩
  | numeral _ hdigit => simp [isNameStart_eq_false_of_isDigit hdigit] at hstart
  | mark hmark => simp [(isMark_classes hmark).1] at hstart
  | arrow => exact absurd hstart (by decide)
  | operator hop => simp [(isOperator_classes hop).1] at hstart
  | note hquote => rcases hquote with rfl | rfl <;> exact absurd hstart (by decide)
  | newline => exact absurd hstart (by decide)

theorem isName_of_isWordy {u : Token} (h : Stable u) (hwordy : u.isWordy = true)
    (hnumeral : u.isNumeral = false) : isName u.shown.toList = true := by
  rcases h with rfl | h
  · contradiction
  generalize u.shown.toList = word at h
  cases h with
  | keyword hkey =>
    have hname := isName_of_mem_keywords _ hkey
    rwa [String.toList_ofList] at hname
  | name hname => exact hname
  | numeral | mark | arrow | operator | note => contradiction

theorem is_brace_of_begins {v : Token} (h : Begins v '\x7d') : v.is "\x7d" = true := by
  cases h with
  | word _ _ hstart => exact absurd hstart (by decide)
  | numeral _ hdigit => exact absurd hdigit (by decide)
  | mark hmark => decide
  | operator hop => exact absurd hop (by decide)
  | note hquote => exact absurd hquote (by decide)

theorem tokens_of_prefix {name : List Char} (hname : isName name = true) {ts : List Token}
    (hts : ∀ t ∈ ts, Stable t) (hside : sideBySide ts = true)
    (h : name ++ ['\x7d'] <+: spelled ts) :
    ∃ u v rest, ts = u :: v :: rest ∧ u.is (String.ofList name) = true ∧ v.is "\x7d" = true := by
  obtain ⟨left, hleft⟩ := h
  have hall := all_isWordChar_of_isName hname
  have hend : ∀ c ∈ ('\x7d' :: left).head?, isWordChar c = false := by
    intro c hc
    cases hc
    decide
  rw [List.append_assoc, List.cons_append, List.nil_append] at hleft
  match ts, hts, hside, hleft with
  | [], _, _, hleft => simp [spelled] at hleft
  | u :: ts, hts, hside, hleft =>
    have hu := hts u (by simp)
    obtain ⟨c, cs, hshown, hbegins⟩ := begins_of_stable hu
    -- the first character is that of the name, so the first token is a word
    have hword : u.isWordy = true ∧ u.isNumeral = false := by
      refine isWordy_of_begins hbegins ?_
      cases name with
      | nil => simp [isName] at hname
      | cons d name =>
        rw [isName, Bool.and_eq_true] at hname
        rw [spelled, hshown] at hleft
        exact (List.cons.inj hleft).1 ▸ hname.1
    have hwordchars := all_isWordChar_of_isName (isName_of_isWordy hu hword.1 hword.2)
    have hclear : ∀ d ∈ (spelled ts).head?, isWordChar d = false := by
      intro d hd
      cases ts with
      | nil => contradiction
      | cons v ts =>
        obtain ⟨e, es, hv, hbegins'⟩ := begins_of_stable (hts v (by simp))
        rw [spelled, hv] at hd
        cases hd
        have hfuses := (sideBySide_cons_cons.mp hside).1
        rw [fuses, hword.2, hword.1] at hfuses
        exact hbegins'.isWordChar_eq_false hfuses
    -- so the two words are the same, and the brace begins the next token
    have hsame : name = u.shown.toList := by
      rw [← takeWhile_append_of_head hall hend, hleft, spelled,
        takeWhile_append_of_head hwordchars hclear]
    have hrest : '\x7d' :: left = spelled ts := by
      rw [← dropWhile_append_of_head hall hend, hleft, spelled,
        dropWhile_append_of_head hwordchars hclear]
    cases ts with
    | nil => simp [spelled] at hrest
    | cons v ts =>
      refine ⟨u, v, ts, rfl, ?_, ?_⟩
      · rw [hsame, String.ofList_toList]
        exact is_shown hword.2
      · obtain ⟨e, es, hv, hbegins'⟩ := begins_of_stable (hts v (by simp))
        rw [spelled, hv] at hrest
        exact is_brace_of_begins ((List.cons.inj hrest).1 ▸ hbegins')

section placeholder
variable {parameter : String} {new : List Char} {t : Token} {ts : List Token}

theorem quote_notMem_placeholder (hparameter : isName parameter.toList = true) {quote : Char}
    (hquote : quote = '\x22' ∨ quote = '\x27') : quote ∉ (placeholder parameter).toList := by
  have hchars : quote ∉ parameter.toList := by
    intro hmem
    have hchar := all_isNameChar_of_isName hparameter _ hmem
    rcases hquote with rfl | rfl <;> exact absurd hchar (by decide)
  rw [toList_placeholder]
  rcases hquote with rfl | rfl <;> simpa using hchars

/-- A placeholder does not begin inside of a token, unless a note shows it. -/
theorem not_prefix_of_suffix {s rest : List Char} (hparameter : isName parameter.toList = true)
    (ht : Stable t) (hbrace : t.is "\x7b" = false)
    (hnote : t.isKind .note = true → ¬ (placeholder parameter).toList <:+: t.shown.toList)
    (hs : s <:+ t.shown.toList) (hne : s ≠ []) :
    ¬ (placeholder parameter).toList <+: s ++ rest := by
  intro hprefix
  cases hkind : t.isKind .note with
  | true =>
    obtain ⟨body, quote, hshown, hquote⟩ := shown_of_isNote ht hkind
    have hquoteless := quote_notMem_placeholder hparameter hquote
    apply hnote hkind
    rw [hshown] at hs ⊢
    exact infix_of_prefix hquoteless hs hne hprefix
  | false =>
    rw [toList_placeholder] at hprefix
    cases s with
    | nil => contradiction
    | cons c s =>
      obtain ⟨rfl, -⟩ := List.cons_prefix_cons.mp hprefix
      exact brace_notMem ht hbrace hkind (hs.subset (by simp))

/-- A token that begins no placeholder stays. -/
theorem substituteFrom_token (hparameter : isName parameter.toList = true)
    (hts : ∀ u ∈ t :: ts, Stable u) (hside : sideBySide (t :: ts) = true)
    (hnote : t.isKind .note = true → ¬ (placeholder parameter).toList <:+: t.shown.toList)
    (hgroup : ∀ u v rest, ts = u :: v :: rest → t.is "\x7b" = true → u.is parameter = true →
      v.is "\x7d" = false) :
    substituteFrom (placeholder parameter).toList new 0 (t.shown.toList ++ spelled ts) =
      t.shown.toList ++ substituteFrom (placeholder parameter).toList new 0 (spelled ts) := by
  refine substituteFrom_append fun s hs hne => ?_
  cases hbrace : t.is "\x7b" with
  | false => exact not_prefix_of_suffix hparameter (hts t (by simp)) hbrace hnote hs hne
  | true =>
    rw [shown_of_is hbrace] at hs
    obtain rfl : s = ['\x7b'] := by
      rcases List.suffix_cons_iff.mp hs with h | h
      · exact h
      · exact absurd (List.suffix_nil.mp h) hne
    intro hprefix
    rw [toList_placeholder, List.singleton_append] at hprefix
    have hname := (List.cons_prefix_cons.mp hprefix).2
    obtain ⟨u, v, rest, rfl, hu, hv⟩ := tokens_of_prefix hparameter
      (fun u hu => hts u (List.mem_cons_of_mem t hu)) (sideBySide_tail hside) hname
    rw [String.ofList_toList] at hu
    simp [hgroup u v rest rfl hbrace hu] at hv

/-- Replacing a placeholder in the texts of tokens replaces it among the tokens. -/
theorem substituteFrom_spelled {a : Token} (hparameter : isName parameter.toList = true)
    (hts : ∀ t ∈ ts, Stable t) (hside : sideBySide ts = true)
    (hnotes : ∀ t ∈ ts, t.isKind .note = true →
      ¬ (placeholder parameter).toList <:+: t.shown.toList) :
    substituteFrom (placeholder parameter).toList a.shown.toList 0 (spelled ts) =
      spelled (filled [(parameter, a)] ts) := by
  fun_induction filled [(parameter, a)] ts with
  | case1 => rfl
  | case2 t u v rest b hb ih =>
    obtain ⟨hopen, hclose, x, hx, hu, rfl⟩ := argument?_eq_some hb
    obtain rfl := List.mem_singleton.mp hx
    have hrest := ih (fun w hw => hts w (by simp [hw]))
      (sideBySide_tail (sideBySide_tail (sideBySide_tail hside)))
      fun w hw => hnotes w (by simp [hw])
    have hshown : spelled (t :: u :: v :: rest) =
        (placeholder parameter).toList ++ spelled rest := by
      simp [spelled, shown_of_is hopen, shown_of_is hclose, shown_of_is hu, toList_placeholder]
    have hne : (placeholder parameter).toList ≠ [] := by simp [toList_placeholder]
    rw [hshown, substituteFrom_occurrence hne, hrest, spelled]
  | case3 t u v rest hnone ih =>
    have hlater := ih (fun w hw => hts w (List.mem_cons_of_mem t hw)) (sideBySide_tail hside)
      fun w hw => hnotes w (List.mem_cons_of_mem t hw)
    rw [spelled, substituteFrom_token hparameter hts hside (hnotes t (by simp)), hlater, spelled]
    intro u' v' rest' heq hopen hu
    cases heq
    refine Bool.eq_false_iff.mpr fun hclose => ?_
    simp [argument?, hopen, hclose, hu] at hnone
  | case4 t rest hshort ih =>
    have hlater := ih (fun w hw => hts w (List.mem_cons_of_mem t hw)) (sideBySide_tail hside)
      fun w hw => hnotes w (List.mem_cons_of_mem t hw)
    rw [spelled, substituteFrom_token hparameter hts hside (hnotes t (by simp)), hlater, spelled]
    intro u v rest' heq
    exact absurd heq (hshort u v rest')

theorem stable_filled {arguments : List (String × Token)} (hts : ∀ t ∈ ts, Stable t)
    (harguments : ∀ x ∈ arguments, Stable x.2) : ∀ t ∈ filled arguments ts, Stable t := by
  fun_induction filled arguments ts with
  | case1 => exact hts
  | case2 t u v rest a ha ih =>
    obtain ⟨-, -, x, hx, -, rfl⟩ := argument?_eq_some ha
    have hrest := ih fun w hw => hts w (by simp [hw])
    exact List.forall_mem_cons.mpr ⟨harguments x hx, hrest⟩
  | case3 t u v rest hnone ih =>
    obtain ⟨ht, hrest⟩ := List.forall_mem_cons.mp hts
    exact List.forall_mem_cons.mpr ⟨ht, ih hrest⟩
  | case4 t rest hshort ih =>
    obtain ⟨ht, hrest⟩ := List.forall_mem_cons.mp hts
    exact List.forall_mem_cons.mpr ⟨ht, ih hrest⟩

/-- A text with one placeholder is read as its tokens with the argument in place, if these do not
fuse. -/
theorem read_substitute {a : Token} (hparameter : isName parameter.toList = true)
    (hts : ∀ t ∈ ts, Stable t) (ha : Stable a)
    (hnotes : ∀ t ∈ ts, t.isKind .note = true →
      ¬ (placeholder parameter).toList <:+: t.shown.toList)
    (hside : sideBySide (filled [(parameter, a)] ts) = true) :
    (read (substitute (String.ofList (spelled ts)) (placeholder parameter) a.shown)).tokens =
        filled [(parameter, a)] ts ∧
      (read (substitute (String.ofList (spelled ts)) (placeholder parameter) a.shown)).ending =
        .finished := by
  have hstable : ∀ t ∈ filled [(parameter, a)] ts, Stable t := by
    refine stable_filled hts fun x hx => ?_
    rw [List.mem_singleton] at hx
    exact hx ▸ ha
  rw [substitute, String.toList_ofList,
    substituteFrom_spelled hparameter hts (sideBySide_of_filled hts hside) hnotes,
    read_spelled hstable hside]
  exact ⟨rfl, rfl⟩

end placeholder

theorem isNewline_of_is {t : Token} (h : Rereadable t) {text : String} (his : t.is text = true)
    (hne : text ≠ "\n") : t.isNewline = false := by
  rcases h with rfl | h
  · exact absurd (of_decide_eq_true his).symm hne
  · rw [← isNewline_reserved]
    exact (newline_notMem_of_spells h).2

theorem countP_filled {arguments : List (String × Token)} {ts : List Token}
    (hts : ∀ t ∈ ts, Rereadable t)
    (harguments : ∀ x ∈ arguments, x.1 ≠ "\n" ∧ x.2.isNewline = false) :
    (filled arguments ts).countP isNewline = ts.countP isNewline := by
  fun_induction filled arguments ts with
  | case1 => rfl
  | case2 t u v rest a ha ih =>
    obtain ⟨hopen, hclose, x, hx, hu, rfl⟩ := argument?_eq_some ha
    have ht := isNewline_of_is (hts t (by simp)) hopen (by decide)
    have hv := isNewline_of_is (hts v (by simp)) hclose (by decide)
    have hu' := isNewline_of_is (hts u (by simp)) hu (harguments x hx).1
    simp [ht, hu', hv, (harguments x hx).2, ih fun w hw => hts w (by simp [hw])]
  | case3 t u v rest hnone ih =>
    rw [List.countP_cons, ih (List.forall_mem_cons.mp hts).2, ← List.countP_cons]
  | case4 t rest hshort ih =>
    rw [List.countP_cons, ih (List.forall_mem_cons.mp hts).2, ← List.countP_cons]

end Lexer
end PlotScript
