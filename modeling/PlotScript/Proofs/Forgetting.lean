import PlotScript.Proofs.Shifting

/-! Tokens that were passed do not matter. With other tokens in front of those that are left, every
form of the grammar does the same at a position that is shifted by as much, as long as no macro is
called and nothing is imported. -/

namespace PlotScript
open Compile Grammar

/-- The state with further tokens in front of its own. -/
def Compiler.behind (front : Array Token) (c : Compiler) : Compiler :=
  { c with tokens := front ++ c.tokens, position := front.size + c.position }

/-- The reading can go on from the second state as well as from the first. -/
structure Reseated (ts : Array Token) (c d : Compiler) : Prop where
  seated : d.Seated ts
  isOpen : c.IsOpen → d.IsOpen

/-- A result with further tokens in front of those of its state. -/
def moved {α : Type} (front : Array Token) :
    EStateM.Result Fault Compiler α → EStateM.Result Fault Compiler α
  | .ok a c => .ok a (c.behind front)
  | .error e c => .error e (c.behind front)

/-- The action does the same behind further tokens, and the next one may start where it ends. -/
def Carries {α : Type} (front ts : Array Token) (x : Compile α) : Prop :=
  ∀ c : Compiler, c.Seated ts →
    x (c.behind front) = moved front (x c) ∧ Reseated ts c (stateAfter (x c))

/-- A descent whose expressions and statements do the same behind further tokens. -/
structure Carried (front ts : Array Token) (down : Descent) : Prop where
  expression : Carries front ts down.expression
  statement : ∀ fresh, Carries front ts (down.statement fresh)

/-- The place behind further tokens, on the same line. -/
def Shift.past (front : Array Token) : Shift where
  front
  down := 0
  code := id
  lines := id
  diagnostic := id
  Fits _ _ := True
  fits_next _ := trivial
  locate {ls line} message _ := by
    rw [Int.add_zero]
    cases hlocate : Diagnostic.locate message ls line <;> simp [hlocate, Except.map]

section past
variable {front ts : Array Token}

theorem Compiler.shifted_past (c : Compiler) : c.shifted (.past front) = c.behind front := by
  simp [shifted, Shift.past, behind]

theorem Shift.moved_past {α : Type} (r : EStateM.Result Fault Compiler α) :
    (Shift.past front).moved r = PlotScript.moved front r := by
  cases r with
  | ok a c => rw [Shift.moved, Compiler.shifted_past, PlotScript.moved]
  | error e c =>
    have hfault : (Shift.past front).fault e = e := by cases e <;> rfl
    rw [Shift.moved, Compiler.shifted_past, PlotScript.moved, hfault]

theorem Shifts.carries {α : Type} {x : Compile α} (h : Shifts (.past front) ts x) :
    Carries front ts x := by
  intro c hc
  obtain ⟨hsame, hkeeps⟩ := h c ⟨hc, trivial⟩
  rw [Compiler.shifted_past, Shift.moved_past] at hsame
  exact ⟨hsame, hkeeps.suits.toSeated, hkeeps.isOpen⟩

/-- Everything below a budget of levels does the same behind further tokens. -/
theorem carried_descent (hcalm : Calm ts) (levels : Nat) : Carried front ts (descent levels) :=
  ⟨(shiftsDown_descent hcalm levels).expression.carries,
    fun fresh => ((shiftsDown_descent hcalm levels).statement fresh).carries⟩

end past

/-- Two states that differ only in the tokens in front of the given ones, and in the position as
far as it counts those in front. -/
structure Compiler.DiffersInFront (front other rest : Array Token) (c d : Compiler) : Prop where
  tokens : c.tokens = front ++ rest
  eq : d = { c with
    tokens := other ++ rest
    position := c.position - front.size + other.size }

/-- The same value or the same fault, in states that stand in a relation. -/
def SameOutcome {α : Type} (R : Compiler → Compiler → Prop) :
    EStateM.Result Fault Compiler α → EStateM.Result Fault Compiler α → Prop
  | .ok a c, .ok b d => a = b ∧ R c d
  | .error e c, .error f d => e = f ∧ R c d
  | _, _ => False

section fronts
variable {front other rest : Array Token}

theorem Compiler.behind_differsInFront {c : Compiler} (h : c.tokens = rest) :
    (c.behind front).DiffersInFront front other rest (c.behind other) := by
  refine ⟨by rw [← h]; rfl, ?_⟩
  have hposition : (front.size : Int) + c.position - front.size + other.size =
      other.size + c.position := by omega
  simp only [behind, ← h, hposition]

/-- Both states are the one without anything in front, behind the one or the other. -/
theorem Compiler.DiffersInFront.eq_behind {c d : Compiler}
    (h : c.DiffersInFront front other rest d) :
    c = behind front { c with tokens := rest, position := c.position - front.size } ∧
      d = behind other { c with tokens := rest, position := c.position - front.size } := by
  have hfront : (front.size : Int) + (c.position - front.size) = c.position := by omega
  have hother : (other.size : Int) + (c.position - front.size) =
      c.position - front.size + other.size := Int.add_comm _ _
  refine ⟨?_, ?_⟩
  · simp only [behind, hfront, ← h.tokens]
  · rw [h.eq]
    simp only [behind, hother]

theorem sameOutcome_moved {α : Type} {r : EStateM.Result Fault Compiler α}
    (h : (stateAfter r).tokens = rest) :
    SameOutcome (Compiler.DiffersInFront front other rest) (moved front r) (moved other r) := by
  cases r with
  | ok a c => exact ⟨rfl, Compiler.behind_differsInFront h⟩
  | error e c => exact ⟨rfl, Compiler.behind_differsInFront h⟩

end fronts

/-- A budget that exceeds the number of tokens that are left is enough for a statement. -/
theorem statementWithin_ne_exhausted {ts : Array Token} (hcalm : Calm ts) {c : Compiler}
    (hc : c.Settled ts) (hcurrent : c.current.isSome = true) {levels : Nat}
    (hlevels : c.remaining < levels) (fresh : Bool) (d : Compiler) :
    statementWithin levels fresh c ≠ .error .exhausted d := by
  intro hrun
  have hagree := agree_reader hcalm (Nat.le_refl levels) (Nat.le_refl levels)
  obtain ⟨hsame, honward⟩ := hagree.statement fresh c hc hlevels hcurrent
  rw [← hsame] at honward
  change Onward ts (fun _ => False) c (statementWithin levels fresh c) at honward
  rw [hrun] at honward
  exact honward.2

/-- Without macro calls and imports among the tokens that are left, a statement does the same
whatever stands in front of them, and a budget that exceeds their number is enough for it. -/
theorem statement_ignores_passed_tokens {front other rest : Array Token}
    (hcalm : ∀ t ∈ rest, t.is "import" = false ∧ t.is "!" = false)
    {i : Nat} {t : Token} {c d : Compiler} (ht : rest[i]? = some t)
    (hposition : c.position = front.size + i) (hcurrent : c.current = some t)
    (hcd : c.DiffersInFront front other rest d) (levels : Nat) (fresh : Bool) :
    SameOutcome (Compiler.DiffersInFront front other rest) (statementWithin levels fresh c)
        (statementWithin levels fresh d) ∧
      (rest.size < levels → ∀ s, statementWithin levels fresh c ≠ .error .exhausted s) := by
  obtain ⟨hfront, hother⟩ := hcd.eq_behind
  -- the state that both become without what is in front of them
  let s : Compiler := { c with tokens := rest, position := c.position - front.size }
  have hplace : s.position = i := by
    show c.position - front.size = i
    omega
  have hseated : s.Seated rest := by
    refine ⟨⟨rfl, fun u hu => ?_⟩, by omega⟩
    obtain rfl : t = u := Option.some.inj (hcurrent.symm.trans hu)
    rw [hplace, Place.get?_natCast]
    exact ⟨Int.natCast_nonneg i, ht⟩
  have hcarried : ∀ before, Carries before rest (statementWithin levels fresh) :=
    fun _ => (carried_descent hcalm levels).statement fresh
  have hrun : ∀ before, statementWithin levels fresh (s.behind before) =
      moved before (statementWithin levels fresh s) := fun before => (hcarried before s hseated).1
  rw [hfront, hother, hrun, hrun]
  refine ⟨sameOutcome_moved (hcarried front s hseated).2.seated.tokens, fun hlevels e he => ?_⟩
  have hremaining : s.remaining ≤ rest.size := remaining_le_size hseated.toSettled
  have hsome : s.current.isSome = true := Option.isSome_iff_exists.mpr ⟨t, hcurrent⟩
  have henough := statementWithin_ne_exhausted hcalm hseated.toSettled hsome
    (Nat.lt_of_le_of_lt hremaining hlevels) fresh
  cases hlast : statementWithin levels fresh s with
  | ok a s' =>
    rw [hlast] at he
    cases he
  | error f s' =>
    rw [hlast] at he
    cases he
    exact henough s' hlast

/-- A line with a bracket that is no point. -/
def bracketLine : Array Token :=
  #[.word .mark "(", .numeral 1, .word .mark ")", Token.newline]

/-- The line behind other tokens, where its statement is about to be read. -/
def bracketBehind (front : Array Token) : Compiler where
  code := "(1)"
  lines := ["(1)"]
  tokens := front ++ bracketLine
  current := some (.word .mark "(")
  position := front.size
  line := 1
  document := some #[]

/-- The reading goes back to in front of the bracket: once there is nothing, and once there is a
word that would import. -/
theorem bracket_ignores_import :
    SameOutcome (Compiler.DiffersInFront #[] #[.word .keyword "import"] bracketLine)
        (statementWithin 9 true (bracketBehind #[]))
        (statementWithin 9 true (bracketBehind #[.word .keyword "import"])) ∧
      ∀ s, statementWithin 9 true (bracketBehind #[]) ≠ .error .exhausted s := by
  have hcalm : ∀ t ∈ bracketLine, t.is "import" = false ∧ t.is "!" = false := by decide
  have hfirst : bracketLine[0]? = some (.word .mark "(") := rfl
  have hdiffers : (bracketBehind #[]).DiffersInFront #[] #[.word .keyword "import"] bracketLine
      (bracketBehind #[.word .keyword "import"]) := ⟨rfl, by simp [bracketBehind]⟩
  have hposition : (bracketBehind #[]).position = (#[] : Array Token).size + (0 : Nat) := rfl
  have hcurrent : (bracketBehind #[]).current = some (.word .mark "(") := rfl
  have hboth := statement_ignores_passed_tokens hcalm hfirst hposition hcurrent hdiffers 9 true
  have henough : bracketLine.size < 9 := by decide
  exact hboth.imp_right fun h => h henough

end PlotScript
