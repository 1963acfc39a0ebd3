import PlotScript.Grammar.Conditional
import PlotScript.Proofs.Cursor
import PlotScript.Proofs.Translation

/-! Conditionals. A chain of conditions, each with a value in braces, is written as one piecewise
value; newlines around the values only count as lines. -/

namespace PlotScript
open Compile Grammar

namespace Tree

/-- Two values, the first of which is less or greater than the second. -/
structure Condition where
  left : Value
  isGreater : Bool
  right : Value
  deriving DecidableEq, Repr

/-- A value in braces, with newlines in front of it and behind it. -/
structure Branch where
  before : Nat
  value : Value
  behind : Nat
  deriving DecidableEq, Repr

structure Case where
  condition : Condition
  branch : Branch
  deriving DecidableEq, Repr

/-- At least one case, and perhaps a value for all others. -/
structure Chain where
  first : Case
  others : List Case
  last : Option Branch
  deriving DecidableEq, Repr

/-! The tokens. -/

def Condition.sign (k : Condition) : Operator := if k.isGreater then .greater else .less

def Condition.tokens (k : Condition) : List Token :=
  k.left.tokens ++ k.sign.token :: k.right.tokens

def Branch.tokens (b : Branch) : List Token :=
  mark "\x7b" :: (List.replicate b.before Token.newline ++
    (b.value.tokens ++ (List.replicate b.behind Token.newline ++ [mark "\x7d"])))

def Case.tokens (k : Case) : List Token := k.condition.tokens ++ k.branch.tokens

/-- The word that a further case begins with, which is read as a name. -/
def elif : Token := .word .name "elif"

/-- What follows the first case. -/
def tailTokens (last : Option Branch) : List Case → List Token
  | [] => last.elim [] fun b => .word .keyword "else" :: b.tokens
  | k :: others => elif :: (k.tokens ++ tailTokens last others)

def Chain.tokens (chain : Chain) : List Token :=
  .word .keyword "if" :: (chain.first.tokens ++ tailTokens chain.last chain.others)

/-! The LaTeX in a scope. -/

section latex
variable (scope : List String)

def Condition.latex (k : Condition) : String :=
  k.left.latex scope ++ k.sign.text ++ k.right.latex scope

def Case.latex (k : Case) : String :=
  k.condition.latex scope ++ ":" ++ k.branch.value.latex scope

def tailLatex (last : Option Branch) : List Case → String
  | [] => last.elim "" fun b => "," ++ b.value.latex scope
  | k :: others => "," ++ k.latex scope ++ tailLatex last others

def Chain.latex (chain : Chain) : String :=
  "\\left\\\x7b" ++ chain.first.latex scope ++ tailLatex scope chain.last chain.others ++
    "\\right\\\x7d"

end latex

/-! The newlines and the names. -/

def Branch.newlines (b : Branch) : Nat := b.before + b.behind

def tailNewlines (last : Option Branch) : List Case → Nat
  | [] => last.elim 0 Branch.newlines
  | k :: others => k.branch.newlines + tailNewlines last others

def Chain.newlines (chain : Chain) : Nat :=
  chain.first.branch.newlines + tailNewlines chain.last chain.others

def Value.variables (v : Value) : List String := v.atom.variables

def Case.variables (k : Case) : List String :=
  k.condition.left.variables ++ k.condition.right.variables ++ k.branch.value.variables

def Chain.variables (chain : Chain) : List String :=
  chain.first.variables ++ chain.others.flatMap Case.variables ++
    chain.last.elim [] fun b => b.value.variables

end Tree

open PlotScript.Tree

/-- The state some lines further down. -/
def Compiler.downBy (c : Compiler) (n : Nat) : Compiler := { c with line := c.line + n }

@[simp] theorem Compiler.downBy_scope (c : Compiler) (n : Nat) : (c.downBy n).scope = c.scope := rfl

@[simp] theorem Compiler.downBy_functions (c : Compiler) (n : Nat) :
    (c.downBy n).functions = c.functions := rfl

theorem Compiler.downBy_zero (c : Compiler) : c.downBy 0 = c := by
  simp [downBy]

theorem Compiler.downBy_downBy (c : Compiler) (m n : Nat) :
    (c.downBy m).downBy n = c.downBy (m + n) := by
  simp [downBy, Int.add_assoc]

section blank
variable {c : Compiler} {i : Nat} {u : Token} {rest : List Token}

theorem skipWhile_seenAt {test : Token → Bool} (hnewline : test Token.newline = true) {n : Nat}
    (hahead : c.Ahead i (List.replicate n Token.newline ++ u :: rest)) (hu : test u = false)
    (text : String) :
    skipWhile test (c.seenAt i text) = .ok () ((c.downBy n).seenAt (i + n) text) := by
  have hnext : (c.downBy n).tokens[i + n]? = some u := hahead.skip_replicate.head
  have hlater : (c.downBy n).seenAt (i + n) text =
      (c.withText text).cursorAt (i + n) (some u) (c.line + n) := by
    rw [Compiler.seenAt, hnext]
    rfl
  have hskip : skipWhile test ((c.withText text).cursorAt i c.tokens[i]? c.line) = _ :=
    skipWhile_cursorAt hnewline hahead hu
  rw [hlater]
  exact hskip

theorem skipBlank_seenAt {n : Nat}
    (hahead : c.Ahead i (List.replicate n Token.newline ++ u :: rest)) (hu : u.is "\n" = false)
    (text : String) :
    skipBlank (c.seenAt i text) = .ok () ((c.downBy n).seenAt (i + n) text) :=
  skipWhile_seenAt rfl hahead hu text

theorem skipNewlines_seenAt {n : Nat}
    (hahead : c.Ahead i (List.replicate n Token.newline ++ u :: rest)) (hu : u.isNewline = false)
    (text : String) :
    skipNewlines (c.seenAt i text) = .ok () ((c.downBy n).seenAt (i + n) text) :=
  skipWhile_seenAt rfl hahead hu text

theorem advance_before {t : Token} (ht : t.isNewline = false) (hahead : c.Ahead i (t :: rest))
    (hrest : rest ≠ []) (text : String) :
    advance (c.seenAt i text) = .ok () (c.seenAt (i + 1) text) := by
  obtain ⟨u, more, rfl⟩ := List.exists_cons_of_ne_nil hrest
  exact advance_seenAt hahead.head ht hahead.tail.head text

end blank

section run
variable {c : Compiler} (down : Descent) {i : Nat} {u : Token} {rest : List Token}

/-- A value that neither a dot, a bracket nor an equals sign follows. -/
theorem value_seenAt_plain (hc : c.IsOpen) {v : Value} (hknown : ∀ x ∈ v.variables, c.Knows x)
    (hahead : c.Ahead i (v.tokens ++ u :: rest)) (hu : ∀ word ∈ [".", "[", "="], u.is word = false)
    (text : String) :
    value down (c.seenAt i text) =
      .ok true (c.seenAt (i + v.tokens.length) (text ++ v.latex c.scope)) := by
  have hdot : u.is "." = false := hu "." (by decide)
  have hbracket : u.is "[" = false := hu "[" (by decide)
  have hequals : u.is "=" = false := hu "=" (by decide)
  rw [value_seenAt hc hknown hahead hdot fun _ _ => .inr hequals]
  simp [listAccess, currentIs_seenAt hahead.skip.head, hbracket]

theorem condition_seenAt (hc : c.IsOpen) {k : Condition}
    (hleft : ∀ x ∈ k.left.variables, c.Knows x) (hright : ∀ x ∈ k.right.variables, c.Knows x)
    (hahead : c.Ahead i (k.tokens ++ u :: rest)) (hu : ∀ word ∈ [".", "[", "="], u.is word = false)
    (text : String) :
    condition down (c.seenAt i text) =
      .ok () (c.seenAt (i + k.tokens.length) (text ++ k.latex c.scope)) := by
  rw [Condition.tokens, List.append_assoc, List.cons_append] at hahead
  have hsign : ∀ word ∈ [".", "[", "="], k.sign.token.is word = false := by
    rw [Condition.sign]
    cases k.isGreater <;> decide
  have hcompares : k.sign.token.isOneOf comparisons = true := by
    rw [Condition.sign]
    cases k.isGreater <;> decide
  have hline : k.sign.token.isNewline = false := rfl
  have hshown : k.sign.token.shown = k.sign.text := rfl
  have hfirst := value_seenAt_plain down hc hleft hahead hsign text
  have hadvance := advance_before hline hahead.skip (by simp)
  have hsecond := value_seenAt_plain down hc hright hahead.skip.tail hu
  have hlength : i + k.tokens.length = i + k.left.tokens.length + 1 + k.right.tokens.length := by
    simp only [Condition.tokens, List.length_append, List.length_cons]
    omega
  rw [hlength, Condition.latex, ← String.append_assoc, ← String.append_assoc]
  simp [condition, hfirst, current_seenAt hahead.skip.head, hcompares, hshown, emit_seenAt hc,
    hadvance, hsecond]

/-- No value begins with what is passed over in front of it. -/
theorem Tree.Value.tokens_not_blank (v : Value) :
    ∃ t ts, v.tokens = t :: ts ∧ t.is "\n" = false := by
  rw [Value.tokens]
  split
  · exact ⟨_, _, rfl, by decide⟩
  · exact ⟨_, _, rfl, v.atom.token_is (by decide)⟩

theorem replicate_newline_brace (n : Nat) (rest : List Token) :
    ∃ t ts, List.replicate n Token.newline ++ mark "\x7d" :: rest = t :: ts ∧
      ∀ word ∈ [".", "[", "="], t.is word = false := by
  cases n with
  | zero => exact ⟨mark "\x7d", rest, rfl, by decide⟩
  | succ n => exact ⟨Token.newline, _, rfl, by decide⟩

/-- A value in braces; `opening` writes something in front of the value. -/
theorem branch_seenAt (hc : c.IsOpen) {b : Branch} (hknown : ∀ x ∈ b.value.variables, c.Knows x)
    (opening : Compile Unit) (colon : String)
    (hopening : ∀ text, opening (c.seenAt (i + 1) text) = .ok () (c.seenAt (i + 1) (text ++ colon)))
    (hahead : c.Ahead i (b.tokens ++ u :: rest)) (text : String) :
    branch down opening (c.seenAt i text) =
      .ok () ((c.downBy b.newlines).seenAt (i + b.tokens.length)
        (text ++ colon ++ b.value.latex c.scope)) := by
  simp only [Branch.tokens, List.cons_append, List.append_assoc, List.nil_append] at hahead
  have hopened := advance_before (by decide) hahead (by simp) text
  obtain ⟨first, ts, hfirst, hblank⟩ := b.value.tokens_not_blank
  have hbefore := skipBlank_seenAt
    (by rw [hfirst, List.cons_append] at hahead; exact hahead.tail) hblank (text ++ colon)
  have hvalue := hahead.tail.skip_replicate
  -- behind the value stands a newline or the closing brace
  obtain ⟨next, more, hnext, hplain⟩ := replicate_newline_brace b.behind (u :: rest)
  have hread := value_seenAt_plain (c := c.downBy b.before) down hc hknown (hnext ▸ hvalue) hplain
    (text ++ colon)
  have hclosing := hvalue.skip.skip_replicate
  have hbehind := skipBlank_seenAt (c := c.downBy b.before) hvalue.skip (by decide)
    (text ++ colon ++ b.value.latex c.scope)
  have hclosed := advance_before (c := (c.downBy b.before).downBy b.behind) (by decide) hclosing
    (by simp) (text ++ colon ++ b.value.latex c.scope)
  have hlength : i + b.tokens.length =
      i + 1 + b.before + b.value.tokens.length + b.behind + 1 := by
    simp only [Branch.tokens, List.length_cons, List.length_append, List.length_replicate,
      List.length_nil]
    omega
  have hbrace : ((c.downBy b.before).downBy b.behind).tokens[
      i + 1 + b.before + b.value.tokens.length + b.behind]? = some (mark "\x7d") := hclosing.head
  rw [hlength, Branch.newlines, ← Compiler.downBy_downBy]
  simp [branch, currentIs_seenAt hahead.head, hopened, hopening, hbefore, hread, hbehind,
    currentIs_seenAt hbrace, hclosed]

/-- A condition and its value. -/
theorem case_seenAt (hc : c.IsOpen) {k : Case} (hknown : ∀ x ∈ k.variables, c.Knows x)
    (hahead : c.Ahead i (k.tokens ++ u :: rest)) (text : String) :
    condition down (c.seenAt i text) =
        .ok () (c.seenAt (i + k.condition.tokens.length) (text ++ k.condition.latex c.scope)) ∧
      branch down (emit ":") (c.seenAt (i + k.condition.tokens.length)
          (text ++ k.condition.latex c.scope)) =
        .ok () ((c.downBy k.branch.newlines).seenAt (i + k.tokens.length)
          (text ++ k.latex c.scope)) := by
  rw [Case.tokens, List.append_assoc] at hahead
  have hcondition := condition_seenAt down (k := k.condition) hc
    (fun x hx => hknown x (by simp [Case.variables, hx]))
    (fun x hx => hknown x (by simp [Case.variables, hx])) hahead (by decide) text
  have hbranch := branch_seenAt down hc (b := k.branch)
    (fun x hx => hknown x (by simp [Case.variables, hx])) (emit ":") ":"
    (fun text => emit_seenAt hc ":") hahead.skip (text ++ k.condition.latex c.scope)
  rw [Case.tokens, List.length_append, Case.latex, ← Nat.add_assoc, ← String.append_assoc,
    ← String.append_assoc]
  exact ⟨hcondition, hbranch⟩

theorem otherwise_seenAt (hc : c.IsOpen) {b : Branch} (hknown : ∀ x ∈ b.value.variables, c.Knows x)
    (hahead : c.Ahead i (.word .keyword "else" :: (b.tokens ++ u :: rest))) (text : String) :
    otherwise down (c.seenAt i text) =
      .ok true ((c.downBy b.newlines).seenAt (i + 1 + b.tokens.length)
        (text ++ b.value.latex c.scope)) := by
  have hadvance := advance_before (by decide) hahead (by simp) text
  have hbranch := branch_seenAt down hc hknown (pure ()) ""
    (fun text => by rw [String.append_empty]; rfl) hahead.tail text
  rw [String.append_empty] at hbranch
  have helse : (Token.word .keyword "else").is "else" = true := rfl
  simp [otherwise, currentIs_seenAt hahead.head, helse, hadvance, hbranch]

/-- What follows a case, by induction on the further cases. -/
theorem chainTail_seenAt (hc : c.IsOpen) {last : Option Branch} {others : List Case}
    (hothers : ∀ k ∈ others, ∀ x ∈ k.variables, c.Knows x)
    (hlast : ∀ b ∈ last, ∀ x ∈ b.value.variables, c.Knows x) {rounds : Nat}
    (hrounds : others.length ≤ rounds)
    (hahead : c.Ahead i (tailTokens last others ++ Token.newline :: rest)) (text : String) :
    chainTail (furtherCondition down rounds) (otherwise down) (c.seenAt i text) =
      .ok () ((c.downBy (tailNewlines last others)).seenAt (i + (tailTokens last others).length)
        (text ++ tailLatex c.scope last others)) := by
  induction others generalizing c i text rounds with
  | nil =>
    cases last with
    | none =>
      have hend : c.tokens[i]? = some Token.newline := hahead.head
      have helif : Token.newline.is "elif" = false := rfl
      have helse : Token.newline.is "else" = false := rfl
      simp [chainTail, endingQuietly, currentIs_seenAt hend, helif, helse, tailNewlines, tailTokens,
        tailLatex, Compiler.downBy_zero]
    | some b =>
      have hword : c.tokens[i]? = some (.word .keyword "else") := hahead.head
      have helif : (Token.word .keyword "else").is "elif" = false := rfl
      have helse : (Token.word .keyword "else").is "else" = true := rfl
      have hvalue := otherwise_seenAt down hc (hlast b rfl) hahead (text ++ ",")
      have hlength : i + (tailTokens (some b) []).length = i + 1 + b.tokens.length := by
        simp only [tailTokens, Option.elim, List.length_cons]
        omega
      rw [hlength]
      simp [chainTail, endingQuietly, currentIs_seenAt hword, helif, helse, emit_seenAt hc, hvalue,
        tailNewlines, tailLatex, String.append_assoc]
  | cons k others ih =>
    obtain ⟨rounds, rfl⟩ := Nat.exists_eq_succ_of_ne_zero (Nat.ne_zero_of_lt hrounds)
    rw [tailTokens, List.cons_append, List.append_assoc] at hahead
    have hword : c.tokens[i]? = some elif := hahead.head
    have helif : elif.is "elif" = true := rfl
    have hadvance := advance_before (by rfl) hahead (by simp) (text ++ ",")
    obtain ⟨u, more, hmore⟩ : ∃ u more, tailTokens last others ++ Token.newline :: rest =
        u :: more := List.exists_cons_of_ne_nil (by simp)
    obtain ⟨hcondition, hbranch⟩ := case_seenAt down hc (hothers k (by simp))
      (hmore ▸ hahead.tail) (text ++ ",")
    have hlater := ih (c := c.downBy k.branch.newlines) hc
      (fun k hk => hothers k (by simp [hk])) hlast (Nat.le_of_succ_le_succ hrounds)
      hahead.tail.skip (text ++ "," ++ k.latex c.scope)
    have hlength : i + (tailTokens last (k :: others)).length =
        i + 1 + k.tokens.length + (tailTokens last others).length := by
      simp only [tailTokens, List.length_cons, List.length_append]
      omega
    have hfurther : furtherCondition down (rounds + 1) (c.seenAt i (text ++ ",")) =
        .ok true ((c.downBy (tailNewlines last (k :: others))).seenAt
          (i + (tailTokens last (k :: others)).length)
          (text ++ tailLatex c.scope last (k :: others))) := by
      rw [hlength, tailNewlines, tailLatex, ← Compiler.downBy_downBy, ← String.append_assoc,
        ← String.append_assoc]
      simp [furtherCondition, currentIs_seenAt hword, helif, hadvance, hcondition, hbranch, hlater]
    simp [chainTail, endingQuietly, currentIs_seenAt hword, helif, emit_seenAt hc, hfurther]

theorem conditional_seenAt (hc : c.IsOpen) {chain : Chain}
    (hknown : ∀ x ∈ chain.variables, c.Knows x) (hrounds : chain.others.length ≤ down.rounds)
    (hahead : c.Ahead i (chain.tokens ++ Token.newline :: rest)) (text : String) :
    conditional down (c.seenAt i text) =
      .ok true ((c.downBy chain.newlines).seenAt (i + chain.tokens.length)
        (text ++ chain.latex c.scope)) := by
  rw [Chain.tokens, List.cons_append, List.append_assoc] at hahead
  have hword : c.tokens[i]? = some (.word .keyword "if") := hahead.head
  have hif : (Token.word .keyword "if").is "if" = true := rfl
  have hadvance := advance_before (by decide) hahead (by simp) text
  obtain ⟨u, more, hmore⟩ : ∃ u more, tailTokens chain.last chain.others ++ Token.newline :: rest =
      u :: more := List.exists_cons_of_ne_nil (by simp)
  obtain ⟨hcondition, hbranch⟩ := case_seenAt down hc
    (fun x hx => hknown x (by simp [Chain.variables, hx])) (hmore ▸ hahead.tail)
    (text ++ "\\left\\\x7b")
  have htail := chainTail_seenAt (c := c.downBy chain.first.branch.newlines) down hc
    (fun k hk x hx => hknown x (List.mem_append_left _ (List.mem_append_right _
      (List.mem_flatMap.mpr ⟨k, hk, hx⟩))))
    (fun b hb x hx => hknown x (by simp [Chain.variables, Option.mem_def.mp hb, hx])) hrounds
    hahead.tail.skip (text ++ "\\left\\\x7b" ++ chain.first.latex c.scope)
  have hlength : i + chain.tokens.length =
      i + 1 + chain.first.tokens.length + (tailTokens chain.last chain.others).length := by
    simp only [Chain.tokens, List.length_cons, List.length_append]
    omega
  have hopen : (c.downBy (chain.first.branch.newlines +
      tailNewlines chain.last chain.others)).IsOpen := hc
  rw [hlength, Chain.newlines, Chain.latex, ← String.append_assoc, ← String.append_assoc,
    ← String.append_assoc]
  simp [conditional, currentIs_seenAt hword, hif, hadvance, emit_seenAt hc, hcondition, hbranch,
    htail, Compiler.downBy_downBy, emit_seenAt hopen]

end run

/-- A chain of conditions with a newline behind it is written as one piecewise value. The cursor
goes on to that newline, the newlines in the braces are counted, and nothing else changes. -/
theorem conditional_writes_chain {c : Compiler} {chain : Chain} {i : Nat} {text : String}
    {rest : List Token} {down : Descent} (hrounds : chain.others.length ≤ down.rounds)
    (hposition : c.position = i)
    (htokens : c.tokens.toList.drop i = chain.tokens ++ Token.newline :: rest)
    (hcurrent : c.current = c.tokens[i]?) (htext : c.text? = some text)
    (hknown : ∀ v ∈ chain.variables, c.Knows v) :
    conditional down c = .ok true { c.withText (text ++ chain.latex c.scope) with
      position := i + chain.tokens.length
      current := some Token.newline
      line := c.line + chain.newlines } := by
  have hahead : c.Ahead i (chain.tokens ++ Token.newline :: rest) := htokens
  have hend : c.tokens[i + chain.tokens.length]? = some Token.newline := hahead.skip.head
  have hread := conditional_seenAt down (Compiler.isOpen_of_text? htext) hknown hrounds hahead text
  rw [Compiler.seenAt_eq_self htext hposition hcurrent] at hread
  have hlast : (c.downBy chain.newlines).tokens[i + chain.tokens.length]? = some Token.newline :=
    hend
  rw [hread, Compiler.seenAt, hlast]
  rfl

/-- Two cases and a value for all others, with newlines in some of the braces. -/
def piecewise : Chain :=
  let b : Atom := .name ⟨"b", by decide, by decide⟩
  let y : Atom := .name ⟨"Y", by decide, by decide⟩
  { first := ⟨⟨⟨false, b⟩, false, ⟨true, .numeral 2⟩⟩, ⟨1, ⟨false, b⟩, 1⟩⟩
    others := [⟨⟨⟨false, .numeral 1⟩, true, ⟨false, y⟩⟩, ⟨0, ⟨false, .numeral 3⟩, 0⟩⟩]
    last := some ⟨2, ⟨true, b⟩, 0⟩ }

/-- A state in a namespace, with the chain ahead and something written. -/
def atPiecewise : Compiler where
  code := ""
  lines := []
  tokens := (Token.newline :: (piecewise.tokens ++ [Token.newline])).toArray
  current := some (.word .keyword "if")
  position := 1
  line := 2
  names := Table.initial ++ [("N", .table [("b", .unset)])]
  scope := ["N"]
  document := some #[.expression 1 "y=" none]
  target := .document

theorem piecewise_writes_chain :
    piecewise.latex ["N"] = "\\left\\\x7bN_\x7bb\x7d<-2:N_\x7bb\x7d,1>N_\x7bY\x7d:3,-N_\x7bb\x7d" ++
        "\\right\\\x7d" ∧
      piecewise.newlines = 4 ∧
      conditional (descent 1) atPiecewise =
        .ok true { atPiecewise.withText ("y=" ++ piecewise.latex ["N"]) with
          position := 1 + piecewise.tokens.length
          current := some Token.newline
          line := 2 + piecewise.newlines } := by
  have hb : atPiecewise.Knows "b" := .inr rfl
  have hy : atPiecewise.Knows "Y" := .inl rfl
  have hnames : piecewise.variables = ["b", "b", "Y", "b"] := by decide
  have hknown : ∀ v ∈ piecewise.variables, atPiecewise.Knows v := by
    simp [hnames, hb, hy]
  have hread := @conditional_writes_chain atPiecewise piecewise 1 "y=" [] (descent 1) (by decide)
    rfl (by decide) rfl (by decide) hknown
  exact ⟨by decide, by decide, hread⟩

end PlotScript
