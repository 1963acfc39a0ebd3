import PlotScript.Scope

/-! Sized brackets in LaTeX. Each opening one must be closed by its own kind, the innermost first.
A text is put together from pieces that break no delimiter in two, and each piece takes the
brackets that are open before it to those that are open behind it. -/

namespace PlotScript.Latex

inductive Bracket
  | round | square | curly
  deriving DecidableEq, Repr

inductive Delimiter
  | opening (kind : Bracket)
  | closing (kind : Bracket)
  deriving DecidableEq, Repr

def Delimiter.text : Delimiter → List Char
  | .opening .round => "\\left(".toList
  | .closing .round => "\\right)".toList
  | .opening .square => "\\left[".toList
  | .closing .square => "\\right]".toList
  | .opening .curly => "\\left\\\x7b".toList
  | .closing .curly => "\\right\\\x7d".toList

def Delimiter.all : List Delimiter :=
  [.opening .round, .closing .round, .opening .square, .closing .square, .opening .curly,
    .closing .curly]

/-- The delimiter that a text begins with. -/
def delimiterAt? (cs : List Char) : Option Delimiter :=
  Delimiter.all.find? fun d => d.text.isPrefixOf cs

/-- The delimiters of a text from left to right. -/
def delimiters : List Char → List Delimiter
  | [] => []
  | c :: cs => (delimiterAt? (c :: cs)).toList ++ delimiters cs

/-- The brackets that are open behind some delimiters, the innermost first; there are none if one
is closed that is not the innermost. -/
def openBehind : List Delimiter → List Bracket → Option (List Bracket)
  | [], stack => some stack
  | .opening kind :: ds, stack => openBehind ds (kind :: stack)
  | .closing _ :: _, [] => none
  | .closing kind :: ds, top :: stack => if kind = top then openBehind ds stack else none

/-- All brackets of a text are properly nested and closed. -/
def Nested (text : String) : Prop := openBehind (delimiters text.toList) [] = some []

instance (text : String) : Decidable (Nested text) :=
  inferInstanceAs (Decidable (_ = _))

/-- No end of a text is the beginning of a delimiter that goes on behind it. -/
def unbroken : List Char → Bool
  | [] => true
  | c :: cs =>
    (Delimiter.all.all fun d => (c :: cs) = d.text || !(c :: cs).isPrefixOf d.text) && unbroken cs

/-- A command that is no delimiter, and that does not become one by what stands behind it. -/
def isCommand : List Char → Bool
  | [] => false
  | c :: cs =>
    (Delimiter.all.all fun d => !d.text.isPrefixOf (c :: cs) && !(c :: cs).isPrefixOf d.text) &&
      !cs.contains '\\'

/-- A piece of text that takes the open brackets `u` to `v`, whatever is open around them. -/
structure Piece (u v : List Bracket) (text : String) : Prop where
  isUnbroken : unbroken text.toList = true
  leads : ∀ stack, openBehind (delimiters text.toList) (u ++ stack) = some (v ++ stack)

theorem delimiterAt?_append {s b : List Char}
    (h : ∀ d ∈ Delimiter.all, s = d.text ∨ ¬ s <+: d.text) :
    delimiterAt? (s ++ b) = delimiterAt? s := by
  have hsame : ∀ d ∈ Delimiter.all, d.text.isPrefixOf (s ++ b) = d.text.isPrefixOf s := by
    intro d hd
    rw [Bool.eq_iff_iff, List.isPrefixOf_iff_prefix, List.isPrefixOf_iff_prefix]
    refine ⟨fun hlong => ?_, fun hshort => hshort.trans (List.prefix_append s b)⟩
    rcases h d hd with hd | hd
    · exact hd ▸ List.prefix_refl s
    · exact (List.prefix_or_prefix_of_prefix hlong (List.prefix_append s b)).resolve_right hd
  rw [delimiterAt?, delimiterAt?, ← List.head?_filter, ← List.head?_filter,
    List.filter_congr hsame]

theorem unbroken_cons {c : Char} {cs : List Char} :
    unbroken (c :: cs) = true ↔
      (∀ d ∈ Delimiter.all, c :: cs = d.text ∨ ¬ c :: cs <+: d.text) ∧ unbroken cs = true := by
  rw [unbroken, Bool.and_eq_true, List.all_eq_true]
  refine and_congr_left fun _ => forall_congr' fun d => imp_congr_right fun _ => ?_
  simp [← List.isPrefixOf_iff_prefix]

theorem delimiters_append {a : List Char} (h : unbroken a = true) (b : List Char) :
    delimiters (a ++ b) = delimiters a ++ delimiters b := by
  induction a with
  | nil => rfl
  | cons c a ih =>
    obtain ⟨hhere, hlater⟩ := unbroken_cons.mp h
    have hat := delimiterAt?_append (b := b) hhere
    rw [List.cons_append] at hat
    rw [List.cons_append, delimiters, delimiters, hat, ih hlater, List.append_assoc]

theorem unbroken_append {a b : List Char} (ha : unbroken a = true) (hb : unbroken b = true) :
    unbroken (a ++ b) = true := by
  induction a with
  | nil => exact hb
  | cons c a ih =>
    -- what begins a delimiter here and goes on into `b` begins it in `a` already
    obtain ⟨hhere, hlater⟩ := unbroken_cons.mp ha
    refine unbroken_cons.mpr ⟨fun d hd => ?_, ih hlater⟩
    show c :: a ++ b = d.text ∨ ¬ c :: a ++ b <+: d.text
    rcases hhere d hd with hsame | hnot
    · cases b with
      | nil => exact .inl (by rw [List.append_nil, hsame])
      | cons c' b =>
        refine .inr fun hlong => ?_
        have hlength := hlong.length_le
        rw [hsame, List.length_append, List.length_cons] at hlength
        omega
    · exact .inr fun hlong => hnot ((List.prefix_append _ b).trans hlong)

theorem openBehind_append (ds es : List Delimiter) (stack : List Bracket) :
    openBehind (ds ++ es) stack = (openBehind ds stack).bind (openBehind es) := by
  fun_induction openBehind ds stack with
  | case1 stack => rfl
  | case2 kind ds stack ih => exact ih
  | case3 kind ds => rfl
  | case4 ds top stack ih => simpa [openBehind] using ih
  | case5 kind ds top stack h => simp [openBehind, h]

theorem Delimiter.text_cons (d : Delimiter) : ∃ rest, d.text = '\\' :: rest := by
  rcases d with kind | kind <;> cases kind <;> exact ⟨_, rfl⟩

theorem unbroken_of_plain {cs : List Char} (h : '\\' ∉ cs) : unbroken cs = true := by
  induction cs with
  | nil => rfl
  | cons c cs ih =>
    refine unbroken_cons.mpr ⟨fun d _ => .inr fun hprefix => ?_,
      ih (List.not_mem_of_not_mem_cons h)⟩
    obtain ⟨rest, hrest⟩ := d.text_cons
    rw [hrest] at hprefix
    exact h ((List.cons_prefix_cons.mp hprefix).1 ▸ List.mem_cons_self)

theorem delimiters_of_plain {cs : List Char} (h : '\\' ∉ cs) : delimiters cs = [] := by
  induction cs with
  | nil => rfl
  | cons c cs ih =>
    have hnone : delimiterAt? (c :: cs) = none := by
      refine List.find?_eq_none.mpr fun d _ hprefix => ?_
      obtain ⟨rest, hrest⟩ := d.text_cons
      rw [List.isPrefixOf_iff_prefix, hrest] at hprefix
      exact h ((List.cons_prefix_cons.mp hprefix).1 ▸ List.mem_cons_self)
    rw [delimiters, hnone, ih (List.not_mem_of_not_mem_cons h)]
    rfl

namespace Piece
variable {u v w : List Bracket} {a b : String}

theorem append (ha : Piece u v a) (hb : Piece v w b) : Piece u w (a ++ b) := by
  constructor
  · rw [String.toList_append]
    exact unbroken_append ha.isUnbroken hb.isUnbroken
  · intro stack
    rw [String.toList_append, delimiters_append ha.isUnbroken, openBehind_append, ha.leads]
    exact hb.leads stack

theorem plain (h : '\\' ∉ a.toList) : Piece u u a :=
  ⟨unbroken_of_plain h, fun stack => by rw [delimiters_of_plain h]; rfl⟩

/-- A piece is known by its delimiters. -/
theorem of_delimiters (ds : List Delimiter) (hunbroken : unbroken a.toList = true)
    (hds : delimiters a.toList = ds)
    (hleads : ∀ stack, openBehind ds (u ++ stack) = some (v ++ stack)) : Piece u v a :=
  ⟨hunbroken, hds ▸ hleads⟩

theorem leftRound : Piece u (.round :: u) "\\left(" :=
  of_delimiters [.opening .round] (by decide) (by decide) fun _ => rfl

theorem rightRound : Piece (.round :: u) u "\\right)" :=
  of_delimiters [.closing .round] (by decide) (by decide) fun _ => rfl

theorem leftSquare : Piece u (.square :: u) "\\left[" :=
  of_delimiters [.opening .square] (by decide) (by decide) fun _ => rfl

theorem rightSquare : Piece (.square :: u) u "\\right]" :=
  of_delimiters [.closing .square] (by decide) (by decide) fun _ => rfl

theorem leftCurly : Piece u (.curly :: u) "\\left\\\x7b" :=
  of_delimiters [.opening .curly] (by decide) (by decide) fun _ => rfl

theorem rightCurly : Piece (.curly :: u) u "\\right\\\x7d" :=
  of_delimiters [.closing .curly] (by decide) (by decide) fun _ => rfl

theorem command (h : isCommand a.toList = true) : Piece u u a := by
  cases hchars : a.toList with
  | nil => simp [hchars, isCommand] at h
  | cons c cs =>
    rw [hchars, isCommand, Bool.and_eq_true, List.all_eq_true] at h
    have hplain : '\\' ∉ cs := by simpa using h.2
    have hapart : ∀ d ∈ Delimiter.all, ¬ d.text <+: c :: cs ∧ ¬ c :: cs <+: d.text := by
      intro d hd
      simpa [← List.isPrefixOf_iff_prefix] using h.1 d hd
    have hnone : delimiterAt? (c :: cs) = none := by
      refine List.find?_eq_none.mpr fun d hd hprefix => ?_
      exact (hapart d hd).1 (List.isPrefixOf_iff_prefix.mp hprefix)
    refine of_delimiters [] ?_ ?_ fun _ => rfl
    · rw [hchars]
      exact unbroken_cons.mpr ⟨fun d hd => .inr (hapart d hd).2, unbroken_of_plain hplain⟩
    · rw [hchars, delimiters, hnone, delimiters_of_plain hplain]
      rfl

theorem nested (h : Piece [] [] a) : Nested a := h.leads []

end Piece
end PlotScript.Latex
