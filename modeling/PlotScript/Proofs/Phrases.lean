import PlotScript.Grammar.Term
import PlotScript.Proofs.Juxtaposed

/-! Phrases. A part of the tokens from one place to another is a phrase if it is built by the rules
for expressions. Without slips these are operands with operators between them; with slips an
operand may be missing, a sign may stand alone or before anything, and a token may be passed over
behind a point. Where every token fits the one in front of it there is no room for a slip. -/

namespace PlotScript
open Grammar

namespace Token

def isOperation (t : Token) : Bool := t.isOneOf operators

/-- A name or a numeral. -/
def isAtom (t : Token) : Bool := t.isKind .name || t.isNumeral

/-- An expression may end in front of it. -/
def isEnd (t : Token) : Bool := t.isNewline || t.isOneOf [",", "]", ")"]

/-- An operand is needed behind it. -/
def isOpening (t : Token) : Bool := t.isOperation || t.isOneOf ["(", "[", ","]

end Token

/-- What an expression is read from: the tokens, and the functions that the script has defined. -/
structure Ground where
  tokens : Array Token
  functions : List String

namespace Ground
variable (g : Ground)

def at? (p : Int) : Option Token := Place.get? g.tokens p

/-- There is a token of the given text at a place. -/
def Has (p : Int) (text : String) : Prop := ∃ t, g.at? p = some t ∧ t.is text = true

/-- The name of a function. -/
def isCall (t : Token) : Bool :=
  t.text?.any fun text => g.functions.contains text || builtinFunctions.contains text

/-- An operand may begin with it. -/
def begins (t : Token) : Bool :=
  t.is "(" || t.is "[" || g.isCall t || t.isAtom || t.is "-"

/-- The second token may stand behind the first: an operand behind what needs one, and an operator
or an end behind an operand, but for the brackets of a list access or of a call. -/
def fits (a b : Token) : Bool :=
  (!a.isOpening || (if b.is "]" then a.is "[" else g.begins b)) &&
    (!a.isOneOf [")", "]"] || b.isOperation || b.isEnd) &&
    (!a.isAtom || b.isOperation || b.isEnd || b.is "[" || g.isCall a && b.is "(")

/-- Behind the first place, and behind a token that needs an operand. -/
def Opened (first p : Int) : Prop :=
  first < p ∧ ∃ o ∈ g.at? (p - 1), o.isOpening = true

instance (first p : Int) : Decidable (g.Opened first p) := inferInstanceAs (Decidable (_ ∧ _))

/-- The token behind a place fits that at the place. A minus in front of an operand needs a
variable or a numeral. -/
def NeatAt (first i : Int) : Prop :=
  ∀ a ∈ g.at? i, ∀ b ∈ g.at? (i + 1), g.fits a b = true ∧
    (a.is "-" = true → i = first ∨ g.Opened first i → b.isAtom = true ∧ g.isCall b = false)

instance (first i : Int) : Decidable (g.NeatAt first i) :=
  inferInstanceAs (Decidable (∀ a ∈ g.at? i, ∀ b ∈ g.at? (i + 1), _ ∧ _))

/-- From the first place to the last every token fits the one in front of it, and an operand may
begin at the first. -/
structure Neat (first last : Int) : Prop where
  begins : ∀ t ∈ g.at? first, g.begins t = true
  fits : ∀ i, first ≤ i → i < last → g.NeatAt first i

instance (first last : Int) : Decidable (g.Neat first last) :=
  decidable_of_iff ((∀ t ∈ g.at? first, g.begins t = true) ∧
    ∀ k, k < (last - first).toNat → g.NeatAt first (first + k))
    ⟨fun h => ⟨h.1, fun i hi hlast => by
      have hplace := h.2 (i - first).toNat (by omega)
      rwa [Int.toNat_of_nonneg (by omega), Int.add_comm, Int.sub_add_cancel] at hplace⟩,
    fun h => ⟨h.begins, fun k hk => h.fits _ (by omega) (by omega)⟩⟩

/-- An operand ends in front of the place, and no list access follows. -/
def Closed (first q : Int) : Prop :=
  first < q ∧ ∃ a, g.at? (q - 1) = some a ∧
    (a.isOneOf [")", "]"] = true ∨
      a.isAtom = true ∧ g.isCall a = false ∧ ∀ b, g.at? q = some b → b.is "[" = false)

end Ground

/-- The parts of a phrase. -/
inductive Part
  | expression | nothing | tail | operand | point | atom | access | list | items | more | arguments

/-- The tokens from one place to another are such a part. `nothing` stands where an expression is
missing; only with slips is there such a place. -/
inductive Phrase (g : Ground) (slips : Bool) : Part → Int → Int → Prop
  | expression {p m q : Int} (first : Phrase g slips .operand p m)
      (rest : Phrase g slips .tail m q) : Phrase g slips .expression p q
  | passingOver {p m k l q : Int} {t : Token} (slip : slips = true)
      (first : Phrase g slips .point p m) (rest : Phrase g slips .tail m k)
      (passed : g.at? k = some t) (stray : t.isEnd = false)
      (second : Phrase g slips .operand (k + 1) l) (last : Phrase g slips .tail l q) :
      Phrase g slips .expression p q
  | missing {p : Int} {t : Token} (slip : slips = true) (here : g.at? p = some t)
      (other : (g.begins t || t.is "+") = false) : Phrase g slips .nothing p p
  | missingBehind {p m k : Int} {t : Token} (slip : slips = true)
      (first : Phrase g slips .point p m) (rest : Phrase g slips .tail m k)
      (passed : g.at? k = some t) (stray : t.isEnd = false) : Phrase g slips .nothing p (k + 1)
  | noTail {p : Int} (none : ∀ t, g.at? p = some t → t.isOperation = false) :
      Phrase g slips .tail p p
  | operation {p q : Int} {t : Token} (here : g.at? p = some t) (operator : t.isOperation = true)
      (rest : Phrase g slips .expression (p + 1) q) : Phrase g slips .tail p q
  | bareOperator {p q : Int} {t : Token} (here : g.at? p = some t)
      (operator : t.isOperation = true) (rest : Phrase g slips .nothing (p + 1) q) :
      Phrase g slips .tail p q
  | bracketed {p q : Int} (opening : g.Has p "(") (inside : Phrase g slips .expression (p + 1) q)
      (closing : g.Has q ")") : Phrase g slips .operand p (q + 1)
  | emptyBrackets {p q : Int} (opening : g.Has p "(") (inside : Phrase g slips .nothing (p + 1) q)
      (closing : g.Has q ")") : Phrase g slips .operand p (q + 1)
  | pointed {p q : Int} (whole : Phrase g slips .point p q) : Phrase g slips .operand p q
  | listed {p q : Int} (whole : Phrase g slips .list p q) : Phrase g slips .operand p q
  | value {p m q : Int} (first : Phrase g slips .atom p m) (rest : Phrase g slips .access m q) :
      Phrase g slips .operand p q
  | call {p m q : Int} {t : Token} (here : g.at? p = some t) (function : g.isCall t = true)
      (opening : g.Has (p + 1) "(") (first : Phrase g slips .expression (p + 2) m)
      (rest : Phrase g slips .arguments m q) : Phrase g slips .operand p q
  | point {p m q : Int} (opening : g.Has p "(") (first : Phrase g slips .expression (p + 1) m)
      (comma : g.Has m ",") (second : Phrase g slips .expression (m + 1) q)
      (closing : g.Has q ")") : Phrase g slips .point p (q + 1)
  | atom {p : Int} {t : Token} (here : g.at? p = some t) (isAtom : t.isAtom = true)
      (other : g.isCall t = false) : Phrase g slips .atom p (p + 1)
  | negated {p : Int} {t : Token} (sign : g.Has p "-") (here : g.at? (p + 1) = some t)
      (isAtom : t.isAtom = true) : Phrase g slips .atom p (p + 2)
  | lonePlus {p : Int} {t : Token} (slip : slips = true) (here : g.at? p = some t)
      (sign : t.is "+" = true) (other : g.begins t = false) : Phrase g slips .atom p (p + 1)
  | negatedOther {p : Int} {t : Token} (slip : slips = true) (sign : g.Has p "-")
      (here : g.at? (p + 1) = some t) (other : t.isAtom = false) : Phrase g slips .atom p (p + 2)
  | noAccess {p : Int} (none : ∀ t, g.at? p = some t → t.is "[" = false) :
      Phrase g slips .access p p
  | access {p q : Int} (whole : Phrase g slips .list p q) : Phrase g slips .access p q
  | emptyList {p : Int} (opening : g.Has p "[") (closing : g.Has (p + 1) "]") :
      Phrase g slips .list p (p + 2)
  | list {p q : Int} (opening : g.Has p "[") (inside : Phrase g slips .items (p + 1) q) :
      Phrase g slips .list p q
  | item {p m q : Int} (first : Phrase g slips .expression p m)
      (rest : Phrase g slips .more m q) : Phrase g slips .items p q
  | emptyItem {p m q : Int} (inside : ∀ t, g.at? p = some t → t.is "]" = false)
      (first : Phrase g slips .nothing p m) (rest : Phrase g slips .more m q) :
      Phrase g slips .items p q
  | noMore {p : Int} (closing : g.Has p "]") : Phrase g slips .more p (p + 1)
  | more {p q : Int} (comma : g.Has p ",") (rest : Phrase g slips .items (p + 1) q) :
      Phrase g slips .more p q
  | lastComma {p : Int} (slip : slips = true) (comma : g.Has p ",") (closing : g.Has (p + 1) "]") :
      Phrase g slips .more p (p + 2)
  | noArguments {p : Int} (closing : g.Has p ")") : Phrase g slips .arguments p (p + 1)
  | argument {p m q : Int} (comma : g.Has p ",") (first : Phrase g slips .expression (p + 1) m)
      (rest : Phrase g slips .arguments m q) : Phrase g slips .arguments p q

namespace Phrase
variable {g : Ground} {slips : Bool} {part : Part} {p q : Int}

theorem le (h : Phrase g slips part p q) : p ≤ q := by
  induction h <;> omega

end Phrase

namespace Ground
variable {g : Ground} {first last p q : Int}

theorem Has.opened {text : String} (h : g.Has p text) (hfirst : first ≤ p)
    (htext : text = "(" ∨ text = "[" ∨ text = ",") : g.Opened first (p + 1) := by
  obtain ⟨t, ht, his⟩ := h
  refine ⟨by omega, t, by rwa [Int.add_sub_cancel], ?_⟩
  rcases htext with rfl | rfl | rfl <;> simp [Token.isOpening, Token.isOneOf, his]

theorem opened_of_operation {t : Token} (ht : g.at? p = some t) (hoperation : t.isOperation = true)
    (hfirst : first ≤ p) : g.Opened first (p + 1) :=
  ⟨by omega, t, by rwa [Int.add_sub_cancel], by simp [Token.isOpening, hoperation]⟩

theorem Has.not_operation {text : String} (h : g.Has p text) {t : Token} (ht : g.at? p = some t)
    (htext : text ∉ operators) : t.isOperation = false := by
  obtain ⟨u, hu, his⟩ := h
  obtain rfl : u = t := Option.some.inj (hu.symm.trans ht)
  simp only [Token.isOperation, Token.isOneOf, List.any_eq_false]
  intro other hother
  rw [Token.is_of_is his fun hsame => htext (hsame ▸ hother)]
  decide

theorem Has.unique {text other : String} (h : g.Has p text) (h' : g.Has p other)
    (hne : text ≠ other) : False := by
  obtain ⟨t, ht, his⟩ := h
  obtain ⟨u, hu, his'⟩ := h'
  obtain rfl : t = u := Option.some.inj (ht.symm.trans hu)
  rw [Token.is_of_is his hne] at his'
  cases his'

theorem Has.closed {text : String} (h : g.Has q text) (hfirst : first ≤ q)
    (htext : text = ")" ∨ text = "]") : g.Closed first (q + 1) := by
  obtain ⟨t, ht, his⟩ := h
  refine ⟨by omega, t, by rwa [Int.add_sub_cancel], .inl ?_⟩
  rcases htext with rfl | rfl <;> simp [Token.isOneOf, his]

namespace Neat
variable (h : g.Neat first last)
include h

/-- Behind an operand there is an operator or an end. -/
theorem isEnd_of_closed (hq : q ≤ last) (hclosed : g.Closed first q) {b : Token}
    (hb : g.at? q = some b) (hoperation : b.isOperation = false) : b.isEnd = true := by
  obtain ⟨hfirst, a, ha, hkind⟩ := hclosed
  have hfits := (h.fits (q - 1) (by omega) (by omega) a ha b (by rwa [Int.sub_add_cancel])).1
  simp only [Ground.fits, Bool.and_eq_true] at hfits
  obtain ⟨⟨-, hbracket⟩, hatom⟩ := hfits
  rcases hkind with hkind | ⟨hkind, hcall, haccess⟩
  · simpa [hkind, hoperation] using hbracket
  · simpa [hkind, hoperation, hcall, haccess b hb] using hatom

/-- Behind what needs an operand one may begin, or a list is empty. -/
theorem begins_of_opened (hp : p ≤ last) (hopened : g.Opened first p) {t : Token}
    (ht : g.at? p = some t) :
    t.is "]" = true ∧ g.Has (p - 1) "[" ∨ t.is "]" = false ∧ g.begins t = true := by
  obtain ⟨hfirst, o, ho, hopening⟩ := hopened
  have hfits := (h.fits (p - 1) (by omega) (by omega) o ho t (by rwa [Int.sub_add_cancel])).1
  simp only [Ground.fits, Bool.and_eq_true] at hfits
  have hbegins := hfits.1.1
  cases hclose : t.is "]" with
  | true =>
    refine .inl ⟨rfl, o, ho, ?_⟩
    simpa [hopening, hclose] using hbegins
  | false =>
    refine .inr ⟨rfl, ?_⟩
    simpa [hopening, hclose] using hbegins

/-- An operand begins where one is needed, but for the end of an empty list. -/
theorem begins_at (hp : p ≤ last) (hbegun : p = first ∨ g.Opened first p) {t : Token}
    (ht : g.at? p = some t) (hclose : t.is "]" = false) : g.begins t = true := by
  rcases hbegun with rfl | hopened
  · exact h.begins t ht
  · refine ((h.begins_of_opened hp hopened ht).resolve_left fun hempty => ?_).2
    rw [hclose] at hempty
    exact absurd hempty.1 (by decide)

/-- Behind a comma a list is not at its end. -/
theorem not_closing_of_comma (hp : p + 1 ≤ last) (hfirst : first ≤ p) (hcomma : g.Has p ",") :
    ¬ g.Has (p + 1) "]" := by
  rintro ⟨t, ht, hclose⟩
  have hopened : g.Opened first (p + 1) := hcomma.opened hfirst (.inr (.inr rfl))
  rcases h.begins_of_opened hp hopened ht with ⟨-, hbracket⟩ | ⟨hother, -⟩
  · rw [Int.add_sub_cancel] at hbracket
    exact hcomma.unique hbracket (by decide)
  · rw [hclose] at hother
    cases hother

end Neat

/-- What becomes of a part where every token fits: it has no slip in it, and what it ends with. -/
def Proper (g : Ground) (first : Int) : Part → Int → Int → Prop
  | .expression, p, q => p = first ∨ g.Opened first p → Phrase g false .expression p q ∧
      g.Closed first q ∧ ∀ t, g.at? q = some t → t.isOperation = false
  | .nothing, p, _ => g.Opened first p →
      (g.Has (p - 1) "[" → ∀ t, g.at? p = some t → t.is "]" = false) → False
  | .tail, p, q => g.Closed first p → Phrase g false .tail p q ∧
      g.Closed first q ∧ ∀ t, g.at? q = some t → t.isOperation = false
  | .atom, p, q => p = first ∨ g.Opened first p → Phrase g false .atom p q ∧ first < q ∧
      ∃ a, g.at? (q - 1) = some a ∧ a.isAtom = true ∧ g.isCall a = false
  | .access, p, q => first < p →
      (∃ a, g.at? (p - 1) = some a ∧ a.isAtom = true ∧ g.isCall a = false) →
      Phrase g false .access p q ∧ g.Closed first q
  | .operand, p, q => p = first ∨ g.Opened first p → Phrase g false .operand p q ∧ g.Closed first q
  | .items, p, q => g.Opened first p → Phrase g false .items p q ∧ g.Closed first q
  | part, p, q => Phrase g false part p q ∧ g.Closed first q

end Ground

/-- Behind a point and its operation there is an end, so nothing is passed over. -/
theorem Ground.Neat.not_stray {g : Ground} {first last p m k : Int} (h : g.Neat first last)
    (hk : k ≤ last) (hpoint : g.Proper first .point p m) (htail : g.Proper first .tail m k)
    {t : Token} (ht : g.at? k = some t) : t.isEnd = true := by
  obtain ⟨-, hclosed, hoperation⟩ := htail hpoint.2
  exact h.isEnd_of_closed hk hclosed ht (hoperation t ht)

/-- By induction over the phrase, one case for each rule. -/
theorem Phrase.proper {g : Ground} {start last p q : Int} {part : Part}
    (hneat : g.Neat start last) (h : Phrase g true part p q) (hstart : start ≤ p)
    (hlast : q ≤ last) : g.Proper start part p q := by
  induction h with
  | expression first rest ihfirst ihrest =>
    intro hbegun
    obtain ⟨hoperand, hclosed⟩ := ihfirst hstart (by have := rest.le; omega) hbegun
    obtain ⟨htail, hend⟩ := ihrest (by have := first.le; omega) hlast hclosed
    exact ⟨.expression hoperand htail, hend⟩
  | passingOver slip first rest passed stray second last ihfirst ihrest ihsecond ihlast =>
    have hfirst := first.le
    have hrest := rest.le
    have hsecond := second.le
    have hend := last.le
    rw [hneat.not_stray (by omega) (ihfirst hstart (by omega)) (ihrest (by omega) (by omega))
      passed] at stray
    cases stray
  | missing slip here other =>
    intro hopened hlist
    rcases hneat.begins_of_opened hlast hopened here with ⟨hclose, hbracket⟩ | ⟨-, hbegins⟩
    · rw [hlist hbracket _ here] at hclose
      cases hclose
    · simp [hbegins] at other
  | missingBehind slip first rest passed stray ihfirst ihrest =>
    intro _ _
    have hrest := rest.le
    have hfirst := first.le
    rw [hneat.not_stray (by omega) (ihfirst hstart (by omega)) (ihrest (by omega) (by omega))
      passed] at stray
    cases stray
  | noTail none => exact fun hclosed => ⟨.noTail none, hclosed, none⟩
  | operation here operator rest ihrest =>
    intro _
    have hopened := Ground.opened_of_operation here operator hstart
    obtain ⟨hexpression, hend⟩ := ihrest (by omega) hlast (.inr hopened)
    exact ⟨.operation here operator hexpression, hend⟩
  | bareOperator here operator rest ihrest =>
    have hopened := Ground.opened_of_operation here operator hstart
    refine (ihrest (by omega) hlast hopened fun hbracket => ?_).elim
    rw [Int.add_sub_cancel] at hbracket
    rw [hbracket.not_operation here (by decide)] at operator
    cases operator
  | bracketed opening inside closing ih =>
    intro _
    have hinside := inside.le
    obtain ⟨hexpression, -⟩ := ih (by omega) (by omega) (.inr (opening.opened hstart (.inl rfl)))
    exact ⟨.bracketed opening hexpression closing, closing.closed (by omega) (.inl rfl)⟩
  | @emptyBrackets p q opening inside closing ih =>
    refine (ih (by omega) (by omega) (opening.opened hstart (.inl rfl)) fun hbracket => ?_).elim
    rw [Int.add_sub_cancel] at hbracket
    exact (opening.unique hbracket (by decide)).elim
  | pointed whole ih =>
    intro _
    obtain ⟨hpoint, hclosed⟩ := ih hstart hlast
    exact ⟨.pointed hpoint, hclosed⟩
  | listed whole ih =>
    intro _
    obtain ⟨hlist, hclosed⟩ := ih hstart hlast
    exact ⟨.listed hlist, hclosed⟩
  | value first rest ihfirst ihrest =>
    intro hbegun
    have hrest := rest.le
    obtain ⟨hatom, hbefore, hkind⟩ := ihfirst hstart (by omega) hbegun
    obtain ⟨haccess, hclosed⟩ := ihrest (by omega) hlast hbefore hkind
    exact ⟨.value hatom haccess, hclosed⟩
  | @call p m q t here function opening first rest ihfirst ihrest =>
    intro _
    have hfirst := first.le
    have hrest := rest.le
    have hopened : g.Opened start (p + 2) := by
      have hbracket : g.Opened start (p + 1 + 1) := opening.opened (by omega) (.inl rfl)
      rwa [Int.add_assoc] at hbracket
    obtain ⟨hexpression, -⟩ := ihfirst (by omega) (by omega) (.inr hopened)
    obtain ⟨harguments, hclosed⟩ := ihrest (by omega) hlast
    exact ⟨.call here function opening hexpression harguments, hclosed⟩
  | point opening first comma second closing ihfirst ihsecond =>
    have hfirst := first.le
    have hsecond := second.le
    obtain ⟨hx, -⟩ := ihfirst (by omega) (by omega) (.inr (opening.opened hstart (.inl rfl)))
    obtain ⟨hy, -⟩ := ihsecond (by omega) (by omega)
      (.inr (comma.opened (by omega) (.inr (.inr rfl))))
    exact ⟨.point opening hx comma hy closing, closing.closed (by omega) (.inl rfl)⟩
  | @atom p t here isAtom other =>
    intro _
    exact ⟨.atom here isAtom other, by omega, t, by rwa [Int.add_sub_cancel], isAtom, other⟩
  | @negated p t sign here isAtom =>
    intro hbegun
    obtain ⟨a, ha, hminus⟩ := sign
    have hcall := ((hneat.fits p hstart (by omega) a ha t here).2 hminus hbegun).2
    have hplace : p + 2 - 1 = p + 1 := by omega
    exact ⟨.negated ⟨a, ha, hminus⟩ here isAtom, by omega, t, hplace ▸ here, isAtom, hcall⟩
  | lonePlus slip here sign other =>
    intro hbegun
    rw [hneat.begins_at (by omega) hbegun here (Token.is_of_is sign (by decide))] at other
    cases other
  | @negatedOther p t slip sign here other =>
    intro hbegun
    obtain ⟨a, ha, hminus⟩ := sign
    rw [((hneat.fits p hstart (by omega) a ha t here).2 hminus hbegun).1] at other
    cases other
  | noAccess none =>
    rintro hbefore ⟨a, ha, hatom, hcall⟩
    exact ⟨.noAccess none, hbefore, a, ha, .inr ⟨hatom, hcall, none⟩⟩
  | access whole ih =>
    intro _ _
    obtain ⟨hlist, hclosed⟩ := ih hstart hlast
    exact ⟨.access hlist, hclosed⟩
  | @emptyList p opening closing =>
    refine ⟨.emptyList opening closing, ?_⟩
    have hclosed : g.Closed start (p + 1 + 1) := closing.closed (by omega) (.inr rfl)
    rwa [Int.add_assoc] at hclosed
  | list opening inside ih =>
    obtain ⟨hitems, hclosed⟩ := ih (by omega) hlast (opening.opened hstart (.inr (.inl rfl)))
    exact ⟨.list opening hitems, hclosed⟩
  | item first rest ihfirst ihrest =>
    intro hopened
    have hfirst := first.le
    have hrest := rest.le
    obtain ⟨hexpression, -⟩ := ihfirst hstart (by omega) (.inr hopened)
    obtain ⟨hmore, hclosed⟩ := ihrest (by omega) hlast
    exact ⟨.item hexpression hmore, hclosed⟩
  | emptyItem inside first rest ihfirst ihrest =>
    intro hopened
    have hrest := rest.le
    exact (ihfirst hstart (by omega) hopened fun _ => inside).elim
  | noMore closing => exact ⟨.noMore closing, closing.closed hstart (.inr rfl)⟩
  | more comma rest ih =>
    obtain ⟨hitems, hclosed⟩ := ih (by omega) hlast (comma.opened hstart (.inr (.inr rfl)))
    exact ⟨.more comma hitems, hclosed⟩
  | lastComma slip comma closing =>
    exact absurd closing (hneat.not_closing_of_comma (by omega) hstart comma)
  | noArguments closing => exact ⟨.noArguments closing, closing.closed hstart (.inl rfl)⟩
  | argument comma first rest ihfirst ihrest =>
    have hfirst := first.le
    have hrest := rest.le
    obtain ⟨hexpression, -⟩ := ihfirst (by omega) (by omega)
      (.inr (comma.opened hstart (.inr (.inr rfl))))
    obtain ⟨harguments, hclosed⟩ := ihrest (by omega) hlast
    exact ⟨.argument comma hexpression harguments, hclosed⟩

/-- Without slips, whatever is not empty ends with a name, a numeral or a closing bracket. -/
theorem Phrase.ends_operand {g : Ground} {p q : Int} {part : Part} (h : Phrase g false part p q) :
    (part = .tail ∨ part = .access) ∧ q = p ∨
      ∃ a, g.at? (q - 1) = some a ∧ (a.isAtom = true ∨ a.isOneOf [")", "]"] = true) := by
  have hbracket : ∀ {q : Int} {text : String}, g.Has q text → text = ")" ∨ text = "]" →
      ∃ a, g.at? (q + 1 - 1) = some a ∧ (a.isAtom = true ∨ a.isOneOf [")", "]"] = true) := by
    rintro q text ⟨t, ht, his⟩ htext
    refine ⟨t, by rwa [Int.add_sub_cancel], .inr ?_⟩
    rcases htext with rfl | rfl <;> simp [Token.isOneOf, his]
  generalize hslips : false = slips at h
  induction h with
  | expression first rest ihfirst ihrest =>
    rcases ihrest with ⟨-, rfl⟩ | hend
    · exact .inr (ihfirst.resolve_left (by simp))
    · exact .inr hend
  | value first rest ihfirst ihrest =>
    rcases ihrest with ⟨-, rfl⟩ | hend
    · exact .inr (ihfirst.resolve_left (by simp))
    · exact .inr hend
  | noTail none => exact .inl ⟨.inl rfl, rfl⟩
  | noAccess none => exact .inl ⟨.inr rfl, rfl⟩
  | operation here operator rest ih => exact .inr (ih.resolve_left (by simp))
  | bareOperator here operator rest ih => exact .inr (ih.resolve_left (by simp))
  | bracketed opening inside closing ih => exact .inr (hbracket closing (.inl rfl))
  | emptyBrackets opening inside closing ih => exact .inr (hbracket closing (.inl rfl))
  | pointed whole ih => exact .inr (ih.resolve_left (by simp))
  | listed whole ih => exact .inr (ih.resolve_left (by simp))
  | access whole ih => exact .inr (ih.resolve_left (by simp))
  | call here function opening first rest ihfirst ihrest =>
    exact .inr (ihrest.resolve_left (by simp))
  | point opening first comma second closing ihfirst ihsecond =>
    exact .inr (hbracket closing (.inl rfl))
  | @atom p t here isAtom other =>
    exact .inr ⟨t, by rwa [Int.add_sub_cancel], .inl isAtom⟩
  | @negated p t sign here isAtom =>
    have hplace : p + 2 - 1 = p + 1 := by omega
    exact .inr ⟨t, hplace ▸ here, .inl isAtom⟩
  | @emptyList p opening closing =>
    have hend := hbracket closing (.inr rfl)
    rw [Int.add_assoc] at hend
    exact .inr hend
  | list opening inside ih => exact .inr (ih.resolve_left (by simp))
  | item first rest ihfirst ihrest => exact .inr (ihrest.resolve_left (by simp))
  | emptyItem inside first rest ihfirst ihrest => exact .inr (ihrest.resolve_left (by simp))
  | noMore closing => exact .inr (hbracket closing (.inr rfl))
  | more comma rest ih => exact .inr (ih.resolve_left (by simp))
  | noArguments closing => exact .inr (hbracket closing (.inl rfl))
  | argument comma first rest ihfirst ihrest => exact .inr (ihrest.resolve_left (by simp))
  | passingOver slip => simp [← hslips] at slip
  | missing slip => simp [← hslips] at slip
  | missingBehind slip => simp [← hslips] at slip
  | lonePlus slip => simp [← hslips] at slip
  | negatedOther slip => simp [← hslips] at slip
  | lastComma slip => simp [← hslips] at slip

end PlotScript
