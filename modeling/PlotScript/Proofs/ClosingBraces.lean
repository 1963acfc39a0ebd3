import PlotScript.Proofs.EntryIds
import PlotScript.Proofs.Forgetting
import PlotScript.Proofs.FunctionDefinition
import PlotScript.Proofs.Halting
import PlotScript.Proofs.Statements
import PlotScript.Proofs.Unread

/-! Closing braces and the newlines in front of them. A function is read up to its closing brace,
which the statement then passes, so it does not matter how many newlines stand in front of the
brace. Behind an expression the statement passes the token that ended it. A brace that stands there
is passed like a newline, and the namespace that it should close stays open. -/

namespace PlotScript
open Compile Grammar PlotScript.Tree

/-- The mistake shown so many lines further down, in other lines. -/
def Diagnostic.lowered (k : Nat) (lines : List String) (d : Diagnostic) : Diagnostic :=
  { d with line := d.line + k, source := lines.getD (d.line + k - 1).toNat "" }

def Fault.lowered (k : Nat) (lines : List String) : Fault → Fault
  | .diagnostic d => .diagnostic (d.lowered k lines)
  | e => e

theorem Diagnostic.locate_lowered {lines others : List String} {k : Nat}
    (hlines : others.length + k = lines.length) {line : Int} (hline : 1 ≤ line) (message : String) :
    locate message lines (line + k) = (locate message others line).map (lowered k lines) := by
  obtain ⟨n, hn⟩ := Int.eq_ofNat_of_zero_le (Int.sub_nonneg_of_le hline)
  have hlower : line + k - 1 = (n + k : Nat) := by omega
  unfold locate
  rw [hn, hlower, Place.get?_natCast, Place.get?_natCast]
  by_cases hbound : n < others.length
  · have hlonger : n + k < lines.length := by omega
    have hplace : (line + k - 1).toNat = n + k := by omega
    simp [hbound, hlonger, Except.map, lowered, hplace]
  · have hshort : ¬ n + k < lines.length := by omega
    simp [hbound, hshort, Except.map]

/-- The place behind other tokens and so many lines further down, in a text with as many lines
more. -/
def Shift.below (front : Array Token) (k : Nat) (code : String) (lines others : List String)
    (hlines : others.length + k = lines.length) : Shift where
  front
  down := k
  code _ := code
  lines _ := lines
  diagnostic := Diagnostic.lowered k lines
  Fits ls line := ls = others ∧ 1 ≤ line
  fits_next h := ⟨h.1, Int.le_trans h.2 (Int.le_add_one (Int.le_refl _))⟩
  locate message h := by
    rw [h.1]
    exact Diagnostic.locate_lowered hlines h.2 message

namespace Compiler

/-- The state about to read some tokens, with others in front of them and behind them. -/
def facing (c : Compiler) (front ts rest : List Token) : Compiler :=
  { c with
    tokens := (front ++ (ts ++ rest)).toArray
    position := front.length
    current := (ts ++ rest).head? }

/-- Two states with the same tokens left, behind different texts. The first is so many lines further
down, in a text with as many lines more. -/
def DiffersInLayout (rest : List Token) (k : Nat) (c d : Compiler) : Prop :=
  ∃ front other : List Token, d.tokens = (other ++ rest).toArray ∧
    d.lines.length + k = c.lines.length ∧
    c = { d with
      code := c.code
      lines := c.lines
      tokens := (front ++ rest).toArray
      position := d.position - other.length + front.length
      line := d.line + k }

end Compiler

/-- The same value or the same fault, in states that differ in the layout. -/
inductive EndsAlike {α : Type} (rest : List Token) (k : Nat) :
    EStateM.Result Fault Compiler α → EStateM.Result Fault Compiler α → Prop
  | ok {a : α} {c d : Compiler} (h : c.DiffersInLayout rest k d) :
    EndsAlike rest k (.ok a c) (.ok a d)
  | error {f : Fault} {c d : Compiler} (h : c.DiffersInLayout rest k d) :
    EndsAlike rest k (.error (f.lowered k c.lines) c) (.error f d)

section layout
variable {e : Compiler} {front other rest : List Token} {n k : Nat} {code : String}
  {lines : List String}

theorem Compiler.facing_current (c : Compiler) (front ts rest : List Token) :
    (c.facing front ts rest).current = (c.facing front ts rest).tokens[front.length]? := by
  simp [facing, List.head?_eq_getElem?, List.getElem?_append_right (Nat.le_refl front.length)]

theorem Compiler.facing_settled (c : Compiler) (front rest : List Token) :
    (c.facing front [] rest).Settled (front ++ rest).toArray := by
  refine ⟨rfl, fun t ht => ⟨Int.natCast_nonneg _, ?_⟩⟩
  rw [facing_current] at ht
  exact (Place.get?_natCast _ _).trans ht

theorem Compiler.shifted_differsInLayout {s : Compiler} (htokens : s.tokens = rest.toArray)
    {others : List String} (hothers : s.lines = others)
    (hlines : others.length + k = lines.length) :
    (s.shifted (.below front.toArray k code lines others hlines)).DiffersInLayout rest k
      (s.shifted (.past other.toArray)) := by
  have hposition : (front.length : Int) + s.position =
      other.length + s.position - other.length + front.length := by omega
  refine ⟨front, other, ?_, hothers ▸ hlines, ?_⟩
  · simp [shifted, Shift.past, htokens]
  · simp [shifted, Shift.past, Shift.below, htokens, hposition]

theorem Compiler.facing_differsInLayout (hlines : lines.length + k = e.lines.length) :
    ((e.downBy (n + k)).facing front [] rest).DiffersInLayout rest k
      (((e.reworded code lines).downBy n).facing other [] rest) := by
  refine ⟨front, other, rfl, hlines, ?_⟩
  simp [facing, downBy, reworded, Int.add_assoc]

/-- Reading on behind one layout and behind another, with actions that do the same where only these
tokens are left. -/
theorem endsAlike_of_shifts {α : Type} {x y : Compile α} (hx : ∀ s, Shifts s rest.toArray x)
    (hy : ∀ s, Shifts s rest.toArray y) (hxy : ∀ s : Compiler, s.Settled rest.toArray → x s = y s)
    (hlines : lines.length + k = e.lines.length) (hline : 1 ≤ e.line + n) :
    EndsAlike rest k (x ((e.downBy (n + k)).facing front [] rest))
      (y (((e.reworded code lines).downBy n).facing other [] rest)) := by
  -- the state that both become without what is in front of them
  let s : Compiler := ((e.reworded code lines).downBy n).facing [] [] rest
  let low : Shift := .below front.toArray k e.code e.lines lines hlines
  have hseated : s.Seated rest.toArray := ⟨Compiler.facing_settled _ [] rest, by
    show -1 ≤ ((0 : Nat) : Int)
    decide⟩
  have hfirst : (e.downBy (n + k)).facing front [] rest = s.shifted low := by
    simp [s, low, Compiler.facing, Compiler.downBy, Compiler.reworded, Compiler.shifted,
      Shift.below, Int.add_assoc]
  have hsecond : ((e.reworded code lines).downBy n).facing other [] rest =
      s.shifted (.past other.toArray) := by
    simp [s, Compiler.facing, Compiler.shifted, Shift.past]
  obtain ⟨hlow, hkeeps⟩ := hx low s ⟨hseated, rfl, hline⟩
  obtain ⟨hpast, -⟩ := hy (.past other.toArray) s ⟨hseated, trivial⟩
  rw [hfirst, hsecond, hlow, hpast, ← hxy s hseated.toSettled]
  have hdiffers : ((stateAfter (x s)).shifted low).DiffersInLayout rest k
      ((stateAfter (x s)).shifted (.past other.toArray)) :=
    Compiler.shifted_differsInLayout hkeeps.suits.tokens hkeeps.suits.fits.1 hlines
  cases hrun : x s with
  | ok a d =>
    rw [hrun] at hdiffers
    exact .ok hdiffers
  | error f d =>
    rw [hrun] at hdiffers
    have hfault : low.fault f = ((Shift.past other.toArray).fault f).lowered k e.lines := by
      cases f <;> rfl
    rw [Shift.moved, Shift.moved, hfault]
    exact .error hdiffers

/-- The rounds of a program or a namespace. -/
theorem loop_endsAlike {round : Descent → Compile Bool} {levels levels' rounds rounds' : Nat}
    (hshifts : ∀ s levels, Shifts s rest.toArray (round (descent levels)))
    (halike : ∀ levels, rest.length < levels →
      Alike rest.toArray (rest.length + 1) (· = true) (round (reader (rest.length + 1)))
        (round (descent levels)))
    (hlevels : rest.length < levels) (hlevels' : rest.length < levels')
    (hrounds : rest.length < rounds) (hrounds' : rest.length < rounds')
    (hlines : lines.length + k = e.lines.length) (hline : 1 ≤ e.line + n) :
    EndsAlike rest k
      (loop (round (descent levels)) rounds ((e.downBy (n + k)).facing front [] rest))
      (loop (round (descent levels')) rounds'
        (((e.reworded code lines).downBy n).facing other [] rest)) := by
  have hread : ∀ {m r : Nat} {s : Compiler}, rest.length < m → rest.length < r →
      s.Settled rest.toArray → loop (round (descent m)) r s =
        loop (round (reader (rest.length + 1))) (rest.length + 1) s := by
    intro m r s hm hr hs
    have hremaining : s.remaining ≤ rest.length := remaining_le_size hs
    exact ((halike m hm).loop (Nat.le_refl _) hr s hs (Nat.lt_succ_of_le hremaining)).1
  exact endsAlike_of_shifts (fun s => (hshifts s _).loop _) (fun s => (hshifts s _).loop _)
    (fun s hs => (hread hlevels hrounds hs).trans (hread hlevels' hrounds' hs).symm) hlines hline

end layout

/-! One round that reads a statement. -/

section round
variable {c d : Compiler} {down : Descent} {t : Token}

theorem programStatement_eq (ht : c.current = some t) (h : down.statement true c = .ok () d) :
    programStatement down c = .ok false d := by
  have hquiet : endingQuietly (down.statement true) c = .ok () d := by
    rw [endingQuietly, tryCatch_apply, h]
  unfold programStatement
  rw [bind_apply, get_apply]
  simp only [ht]
  cases t.isNewline with
  | true => simp [hquiet]
  | false => simp [h]

theorem namespaceStatement_eq {d' : Compiler} (ht : c.current = some t)
    (hbrace : t.is "\x7d" = false) (h : down.statement true c = .ok () d)
    (hskip : skipNewlines d = .ok () d') : namespaceStatement down c = .ok false d' := by
  simp [namespaceStatement, currentIs, current, ht, hbrace, h, hskip]

/-- Newlines in front of other tokens are passed over. -/
theorem skipNewlines_facing {front ts rest : List Token} {n : Nat} (hts : ts.head? = some t)
    (ht : t.isNewline = false) :
    skipNewlines (c.facing front (List.replicate n Token.newline ++ ts) rest) =
      .ok () ((c.facing front (List.replicate n Token.newline ++ ts) rest).cursorAt
        (front.length + n) ts.head? (c.line + n)) := by
  obtain ⟨ts, rfl⟩ := List.head?_eq_some_iff.mp hts
  let s : Compiler := c.facing front (List.replicate n Token.newline ++ t :: ts) rest
  have hahead : s.Ahead front.length (List.replicate n Token.newline ++ t :: (ts ++ rest)) :=
    Compiler.ahead_of_tokens (by simp [s, Compiler.facing])
  have hskip : skipNewlines (s.cursorAt front.length s.tokens[front.length]? c.line) = _ :=
    skipWhile_cursorAt rfl hahead ht
  rwa [← Compiler.facing_current] at hskip

theorem skipNewlines_behind {front rest : List Token} {m n : Nat} (hrest : rest.head? = some t)
    (ht : t.isNewline = false) :
    skipNewlines ((c.downBy m).facing front [] (List.replicate n Token.newline ++ rest)) =
      .ok () ((c.downBy (m + n)).facing (front ++ List.replicate n Token.newline) [] rest) := by
  have hsame : (c.downBy m).facing front (List.replicate n Token.newline ++ rest) [] =
      (c.downBy m).facing front [] (List.replicate n Token.newline ++ rest) := by
    simp [Compiler.facing]
  rw [← hsame, skipNewlines_facing hrest ht]
  simp [Compiler.cursorAt, Compiler.facing, Compiler.downBy, Int.add_assoc]

/-- The step behind an entry that has been written. -/
theorem advance_behind {i : Nat} {u : Token} {rest : List Token}
    (hahead : c.Ahead i (t :: u :: rest)) (text : String) :
    advance (c.seenAt i text) =
      .ok () ((c.withText text).cursorAt (i + 1) (some u) (lineAfter c.line t)) := by
  have hcursor : advance ((c.withText text).cursorAt i (some t) c.line) = _ :=
    advance_cursorAt hahead
  rw [Compiler.seenAt, hahead.head]
  exact hcursor

end round

/-! The statements. -/

/-- The state with an entry for a statement behind the others, and a text in it. -/
def Compiler.withStatement (c : Compiler) (entries : Array Entry) (text : String) : Compiler :=
  { c with
    lastId := c.lastId + 1
    document := some (entries.push (.expression (c.lastId + 1) text c.folder))
    target := .document }

/-- A statement passes some tokens with so many newlines among them, whatever stands around them.
But for the cursor it ends in the second state. -/
def PassesOver (ts : List Token) (n : Nat) (c e : Compiler) : Prop :=
  ∀ (front rest : List Token) (levels : Nat), rest ≠ [] → ts.length < levels →
    statementWithin levels true (c.facing front ts rest) =
      .ok () ((e.downBy n).facing (front ++ ts) [] rest)

section statements
variable {c : Compiler} {entries : Array Entry} {lead : Nat}

/-- The state behind the tokens of a statement that has been written. -/
theorem Compiler.written_facing (c : Compiler) {front ts rest : List Token} {i j n : Nat}
    {t? : Option Token} {line line' : Int} {text : String} (hj : j = front.length + ts.length)
    (hline : line' = c.line + n) :
    ((((c.facing front ts rest).cursorAt i t? line).withEntry entries).withText text).cursorAt j
        rest.head? line' =
      ((c.withStatement entries text).downBy n).facing (front ++ ts) [] rest := by
  simp [hj, hline, facing, cursorAt, withEntry, withText, withStatement, downBy, Entry.setLatex]

/-- The state at the first of the tokens of a statement, with an entry of its own. -/
def Compiler.begun (c : Compiler) (entries : Array Entry) (front : List Token) (lead : Nat)
    (ts rest : List Token) : Compiler :=
  ((c.facing front (List.replicate lead Token.newline ++ ts) rest).cursorAt (front.length + lead)
    ts.head? (c.line + lead)).withEntry entries

section begun
variable {front ts rest : List Token} {t : Token}

theorem Compiler.begun_ahead (c : Compiler) (ts : List Token) :
    (c.begun entries front lead ts rest).Ahead (front.length + lead) (ts ++ rest) := by
  have htokens : (c.begun entries front lead ts rest).tokens.toList =
      front ++ (List.replicate lead Token.newline ++ (ts ++ rest)) := by
    simp [begun, withEntry, cursorAt, facing]
  exact (ahead_of_tokens htokens).skip_replicate

theorem Compiler.begun_seenAt (c : Compiler) (hts : ts.head? = some t) :
    (c.begun entries front lead ts rest).seenAt (front.length + lead) "" =
      c.begun entries front lead ts rest := by
  have hahead : (c.begun entries front lead ts rest).Ahead (front.length + lead) (ts ++ rest) :=
    c.begun_ahead ts
  obtain ⟨ts, rfl⟩ := List.head?_eq_some_iff.mp hts
  exact seenAt_self rfl hahead.head.symm

theorem Compiler.exists_current_facing (c : Compiler) (hts : ts.head? = some t) :
    ∃ t', (c.facing front (List.replicate lead Token.newline ++ ts) rest).current = some t' := by
  obtain ⟨ts, rfl⟩ := List.head?_eq_some_iff.mp hts
  cases lead with
  | zero => exact ⟨t, rfl⟩
  | succ lead => exact ⟨Token.newline, rfl⟩

end begun

/-- A definition in any scope, with newlines in front of it and in its braces. -/
theorem passesOver_definition {d : FunctionDef} {names names' : Table} (lead newlines : Nat)
    (hdocument : c.document = some entries)
    (hadd : c.names.add c.scope d.name.text (.table []) = .ok names)
    (hnames : names.addAll (c.scope ++ [d.name.text]) .unset d.parameters = .ok names')
    (hallows : (c.scoped names' (c.scope ++ [d.name.text])
      (c.functions ++ [d.name.text])).Allows d.value.variables d.value.callees)
    (hfunctions : ∀ f ∈ c.functions, Lexer.isName f.toList = true)
    (hend : newlines = 0 → d.value.isPointless = true) (hfirst : 1 ≤ c.line)
    (hlast : c.line + (lead + d.before : Nat) ≤ c.lines.length) :
    PassesOver (List.replicate lead Token.newline ++ (d.laidOut newlines ++ [mark "\x7d"]))
      (lead + (d.before + newlines)) c
      ((c.scoped names' c.scope (c.functions ++ [d.name.text])).withStatement entries
        (d.latexIn c.scope c.functions)) := by
  intro front rest levels hrest hlevels
  obtain ⟨levels, rfl⟩ := Nat.exists_eq_add_one_of_ne_zero (Nat.ne_zero_of_lt hlevels)
  obtain ⟨u, more, rfl⟩ := List.exists_cons_of_ne_nil hrest
  let begun : Compiler :=
    c.begun entries front lead (d.laidOut newlines ++ [mark "\x7d"]) (u :: more)
  have hhead : (d.laidOut newlines ++ [mark "\x7d"]).head? = some (.word .keyword "fn") := rfl
  have hahead : begun.Ahead (front.length + lead)
      (d.laidOut newlines ++ mark "\x7d" :: u :: more) := by
    simpa using c.begun_ahead (d.laidOut newlines ++ [mark "\x7d"])
  have hready : ((begun.scoped names' (c.scope ++ [d.name.text])
      (c.functions ++ [d.name.text])).downBy d.before).Ready := by
    refine ⟨isOpen_withEntry, Compiler.hasLine_of_le ?_ ?_, fun f hf => ?_⟩
    · show 1 ≤ c.line + lead + d.before
      omega
    · show c.line + lead + d.before ≤ c.lines.length
      omega
    · rcases List.mem_append.mp hf with hf | hf
      · exact hfunctions f hf
      · rw [List.mem_singleton.mp hf]
        exact d.name.isName
  have hlength : d.value.tokens.length < levels := by
    simp only [FunctionDef.laidOut, List.length_append, List.length_cons] at hlevels
    omega
  have hread := function_seenAt_in (c := begun) hadd hnames hready
    ⟨hallows.known, hallows.notFunction, hallows.callable⟩ hlength hend hahead ""
  rw [c.begun_seenAt hhead, String.empty_append] at hread
  have hadvance := advance_behind (c := (begun.scoped names' begun.scope
    (begun.functions ++ [d.name.text])).downBy (d.before + newlines)) hahead.skip
    (d.latexIn begun.scope begun.functions)
  obtain ⟨t, ht⟩ := c.exists_current_facing hhead
  have hstatement := statementFrom_of_function ht (skipNewlines_facing hhead rfl) hdocument rfl
    hread hadvance
  refine hstatement.trans (congrArg (EStateM.Result.ok ()) ?_)
  refine (c.scoped names' c.scope (c.functions ++ [d.name.text])).written_facing ?_ ?_
  · simp only [List.length_append, List.length_replicate, List.length_singleton]
    omega
  · show c.line + lead + (d.before + newlines : Nat) = c.line + (lead + (d.before + newlines) : Nat)
    omega

section introduces
variable {d : Compiler} {name? : Option String} (h : c.Introduces name? d)
include h

theorem Compiler.Introduces.begun {front ts rest : List Token} :
    (c.begun entries front lead ts rest).Introduces name? (d.begun entries front lead ts rest) := by
  cases h with
  | nothing => exact .nothing
  | name hadd => exact .name hadd

theorem Compiler.Introduces.reworded (code : String) (lines : List String) :
    (c.reworded code lines).Introduces name? (d.reworded code lines) := by
  cases h with
  | nothing => exact .nothing
  | name hadd => exact .name hadd

theorem Compiler.Introduces.line : d.line = c.line := by
  cases h <;> rfl

theorem Compiler.Introduces.lines : d.lines = c.lines := by
  cases h <;> rfl

end introduces

/-- An expression in any scope, with newlines in front of it, and the token that ends it. -/
theorem passesOver_expression {e : Expression} {d : Compiler} {stop : Token} (lead : Nat) {n : Nat}
    (hdocument : c.document = some entries) (hintroduces : c.Introduces e.assigned? d)
    (hallows : d.Allows e.variables e.callees)
    (hfunctions : ∀ f ∈ c.functions, Lexer.isName f.toList = true) (hstop : e.MayEnd stop)
    (hn : lineAfter (c.line + lead) stop = c.line + n) (hfirst : 1 ≤ c.line)
    (hlast : c.line + lead ≤ c.lines.length) :
    PassesOver (List.replicate lead Token.newline ++ (e.tokens ++ [stop])) n c
      (d.withStatement entries (e.latex c.scope c.functions)) := by
  intro front rest levels hrest hlevels
  obtain ⟨levels, rfl⟩ := Nat.exists_eq_add_one_of_ne_zero (Nat.ne_zero_of_lt hlevels)
  obtain ⟨u, more, rfl⟩ := List.exists_cons_of_ne_nil hrest
  obtain ⟨t, ts, hts, hopens⟩ := e.tokens_cons
  have hhead : (e.tokens ++ [stop]).head? = some t := by rw [hts]; rfl
  let begun : Compiler := c.begun entries front lead (e.tokens ++ [stop]) (u :: more)
  let bound : Compiler := d.begun entries front lead (e.tokens ++ [stop]) (u :: more)
  have hahead (c : Compiler) : (c.begun entries front lead (e.tokens ++ [stop]) (u :: more)).Ahead
      (front.length + lead) (e.tokens ++ stop :: u :: more) := by
    simpa using c.begun_ahead (e.tokens ++ [stop])
  have hready : begun.Ready := by
    refine ⟨isOpen_withEntry, Compiler.hasLine_of_le ?_ hlast, hfunctions⟩
    show 1 ≤ c.line + lead
    omega
  have hlength : e.tokens.length ≤ levels := by
    simp only [List.length_append, List.length_singleton] at hlevels
    omega
  have hread := expressionFrom_as_statement hready (d := bound) hintroduces.begun
    ⟨hallows.known, hallows.notFunction, hallows.callable⟩ hlength hstop (hahead c)
  rw [c.begun_seenAt hhead] at hread
  have hadvance := advance_behind (hahead d).skip (e.latex begun.scope begun.functions)
  obtain ⟨t', ht⟩ := c.exists_current_facing hhead
  have hstatement := statementFrom_of_expression ht (skipNewlines_facing hhead hopens.notNewline)
    hdocument hhead hopens hread hadvance
  refine hstatement.trans (congrArg (EStateM.Result.ok ()) (d.written_facing ?_ ?_))
  · simp only [List.length_append, List.length_replicate, List.length_singleton]
    omega
  · rw [hintroduces.line]
    show lineAfter (d.line + lead) stop = c.line + n
    rw [hintroduces.line]
    exact hn

end statements

/-- Two layouts of a statement, the first of which has so many newlines more. In front of the
closing brace of a function newlines may be missing, but not all of them if a point stands there.
Behind an expression, a brace may stand for the newline. -/
inductive Compiler.Relaid (c : Compiler) : List Token → List Token → Nat → Prop
  | definition {d : FunctionDef} {names names' : Table} {newlines k : Nat}
    (hadd : c.names.add c.scope d.name.text (.table []) = .ok names)
    (hnames : names.addAll (c.scope ++ [d.name.text]) .unset d.parameters = .ok names')
    (hallows : (c.scoped names' (c.scope ++ [d.name.text])
      (c.functions ++ [d.name.text])).Allows d.value.variables d.value.callees)
    (hend : newlines = 0 → d.value.isPointless = true) :
    Relaid c (d.laidOut (newlines + k) ++ [mark "\x7d"]) (d.laidOut newlines ++ [mark "\x7d"]) k
  | expression {e : Expression} {d : Compiler} (hintroduces : c.Introduces e.assigned? d)
    (hallows : d.Allows e.variables e.callees) (hend : e.isPointless = true) :
    Relaid c (e.tokens ++ [Token.newline]) (e.tokens ++ [mark "\x7d"]) 1

section relaid
variable {c : Compiler} {xs ys : List Token} {k : Nat} (h : c.Relaid xs ys k)
include h

/-- Neither layout begins with what would end a namespace. -/
theorem Compiler.Relaid.first (lead : Nat) :
    ∃ t, t.is "\x7d" = false ∧ (List.replicate lead Token.newline ++ xs).head? = some t ∧
      (List.replicate lead Token.newline ++ ys).head? = some t := by
  cases lead with
  | succ lead => exact ⟨Token.newline, by decide, rfl, rfl⟩
  | zero =>
    cases h with
    | definition hadd hnames hallows hend => exact ⟨_, by decide, rfl, rfl⟩
    | @expression e d hintroduces hallows hend =>
      obtain ⟨t, ts, hts, hopens⟩ := e.tokens_cons
      exact ⟨t, hopens.notBrace, by rw [hts]; rfl, by rw [hts]; rfl⟩

/-- Both layouts are passed, with the same outcome. -/
theorem Compiler.Relaid.passesOver {entries : Array Entry} (hdocument : c.document = some entries)
    (hfunctions : ∀ f ∈ c.functions, Lexer.isName f.toList = true) {lead : Nat} (code : String)
    {lines : List String} (hlines : lines.length ≤ c.lines.length) (hfirst : 1 ≤ c.line)
    (hlast : c.line + (lead + ys.count Token.newline : Nat) ≤ lines.length) :
    ∃ n e, Compiler.line e = c.line ∧ e.lines = c.lines ∧
      PassesOver (List.replicate lead Token.newline ++ xs) (n + k) c e ∧
      PassesOver (List.replicate lead Token.newline ++ ys) n (c.reworded code lines)
        (e.reworded code lines) := by
  cases h with
  | @definition d names names' newlines k hadd hnames hallows hend =>
    have hbefore : d.before ≤ (d.laidOut newlines ++ [mark "\x7d"]).count Token.newline := by
      simp only [FunctionDef.laidOut, List.count_append, List.count_cons, List.count_replicate_self]
      omega
    have hmore := passesOver_definition lead (newlines + k) hdocument hadd hnames
      hallows hfunctions (fun hzero => hend (by omega)) hfirst (by omega)
    have hfewer := passesOver_definition (c := c.reworded code lines) lead newlines hdocument hadd
      hnames ⟨hallows.known, hallows.notFunction, hallows.callable⟩ hfunctions hend hfirst
      (by show c.line + (lead + d.before : Nat) ≤ lines.length; omega)
    rw [← Nat.add_assoc d.before, ← Nat.add_assoc lead] at hmore
    exact ⟨_, (c.scoped names' c.scope (c.functions ++ [d.name.text])).withStatement entries
      (d.latexIn c.scope c.functions), rfl, rfl, hmore, hfewer⟩
  | @expression e d hintroduces hallows hend =>
    have hline : lineAfter (c.line + lead) Token.newline = c.line + (lead + 1 : Nat) := by
      show c.line + lead + 1 = c.line + (lead + 1 : Nat)
      omega
    have hnewline := passesOver_expression lead hdocument hintroduces hallows hfunctions
      (.inl (by decide)) hline hfirst (by omega)
    have hbrace := passesOver_expression (c := c.reworded code lines) lead hdocument
      (hintroduces.reworded code lines)
      ⟨hallows.known, hallows.notFunction, hallows.callable⟩ hfunctions (.inr ⟨rfl, hend⟩) rfl
      hfirst (by show c.line + lead ≤ lines.length; omega)
    exact ⟨lead, d.withStatement entries (e.latex c.scope c.functions), hintroduces.line,
      hintroduces.lines, hnewline, hbrace⟩

end relaid

/-! What follows a statement that passes its tokens. -/

section following
variable {c e : Compiler} {ts front rest : List Token} {n levels rounds : Nat}
  (h : PassesOver ts n c e) (hlevels : ts.length < levels)
include h hlevels

theorem PassesOver.program (hrest : rest ≠ []) :
    loop (programStatement (descent levels)) (rounds + 1) (c.facing front ts rest) =
      loop (programStatement (descent levels)) rounds
        ((e.downBy n).facing (front ++ ts) [] rest) := by
  obtain ⟨t, more, hmore⟩ :=
    List.exists_cons_of_ne_nil (List.append_ne_nil_of_right_ne_nil ts hrest)
  have ht : (c.facing front ts rest).current = some t := congrArg List.head? hmore
  rw [loop, bind_apply, programStatement_eq ht (h front rest levels hrest hlevels)]
  rfl

theorem PassesOver.namespace {t u : Token} (hts : ts.head? = some t) (ht : t.is "\x7d" = false)
    (hrest : rest.head? = some u) (hu : u.isNewline = false) (behind : Nat) :
    loop (namespaceStatement (descent levels)) (rounds + 1)
        (c.facing front ts (List.replicate behind Token.newline ++ rest)) =
      loop (namespaceStatement (descent levels)) rounds
        ((e.downBy (n + behind)).facing (front ++ ts ++ List.replicate behind Token.newline) []
          rest) := by
  have hcurrent : (c.facing front ts (List.replicate behind Token.newline ++ rest)).current =
      some t := by
    simp [Compiler.facing, List.head?_append, hts]
  obtain ⟨rest, rfl⟩ := List.head?_eq_some_iff.mp hrest
  have hstatement := h front (List.replicate behind Token.newline ++ u :: rest) levels (by simp)
    hlevels
  rw [loop, bind_apply, namespaceStatement_eq hcurrent ht hstatement (skipNewlines_behind hrest hu)]
  rfl

end following

section alike
variable {c d e : Compiler} {xs ys front rest : List Token} {n k levels levels' : Nat}
  {code : String} {lines : List String} (hx : PassesOver xs (n + k) c e)
  (hy : PassesOver ys n d (e.reworded code lines)) (hlevels : xs.length + rest.length < levels)
  (hlevels' : ys.length + rest.length < levels') (hcalm : Calm rest.toArray)
  (hline : 1 ≤ e.line + n)
include hx hy hlevels hlevels' hcalm hline

/-- A program with the one statement in it ends like the one with the other. -/
theorem programs_endAlike {t : Token} (hxs : xs.head? = some t) (hys : ys.head? = some t)
    (hrest : rest ≠ []) (hlines : lines.length + k = e.lines.length) :
    EndsAlike rest k (loop (programStatement (descent levels)) levels (c.facing front xs rest))
      (loop (programStatement (descent levels')) levels' (d.facing front ys rest)) := by
  obtain ⟨xs, rfl⟩ := List.head?_eq_some_iff.mp hxs
  obtain ⟨ys, rfl⟩ := List.head?_eq_some_iff.mp hys
  obtain ⟨rounds, rfl⟩ := Nat.exists_eq_add_one_of_ne_zero (Nat.ne_zero_of_lt hlevels)
  obtain ⟨rounds', rfl⟩ := Nat.exists_eq_add_one_of_ne_zero (Nat.ne_zero_of_lt hlevels')
  have hlength : (t :: xs).length = xs.length + 1 := rfl
  have hlength' : (t :: ys).length = ys.length + 1 := rfl
  rw [hx.program (by omega) hrest, hy.program (by omega) hrest]
  refine loop_endsAlike (fun s levels => shifts_programStatement (shiftsDown_descent hcalm levels))
    (fun levels hlevels => ?_) (by omega) (by omega) (by omega) (by omega) hlines hline
  exact alike_programStatement hcalm (agree_reader hcalm (Nat.le_refl _) hlevels)

/-- A namespace with the one statement in it ends like the one with the other, also if more newlines
follow the first. -/
theorem namespaces_endAlike {t u : Token} {behind more : Nat} (hxs : xs.head? = some t)
    (hys : ys.head? = some t) (ht : t.is "\x7d" = false) (hrest : rest.head? = some u)
    (hu : u.isNewline = false) (hlines : lines.length + (k + more) = e.lines.length) :
    EndsAlike rest (k + more)
      (loop (namespaceStatement (descent levels)) levels
        (c.facing front xs (List.replicate (behind + more) Token.newline ++ rest)))
      (loop (namespaceStatement (descent levels')) levels'
        (d.facing front ys (List.replicate behind Token.newline ++ rest))) := by
  obtain ⟨xs, rfl⟩ := List.head?_eq_some_iff.mp hxs
  obtain ⟨ys, rfl⟩ := List.head?_eq_some_iff.mp hys
  obtain ⟨rounds, rfl⟩ := Nat.exists_eq_add_one_of_ne_zero (Nat.ne_zero_of_lt hlevels)
  obtain ⟨rounds', rfl⟩ := Nat.exists_eq_add_one_of_ne_zero (Nat.ne_zero_of_lt hlevels')
  have hlength : (t :: xs).length = xs.length + 1 := rfl
  have hlength' : (t :: ys).length = ys.length + 1 := rfl
  have hplace : n + k + (behind + more) = n + behind + (k + more) := by omega
  rw [hx.namespace (by omega) hxs ht hrest hu, hy.namespace (by omega) hys ht hrest hu, hplace]
  refine loop_endsAlike
    (fun s levels => shifts_namespaceStatement (shiftsDown_descent hcalm levels))
    (fun levels hlevels => ?_) (by omega) (by omega) (by omega) (by omega) hlines (by omega)
  exact alike_namespaceStatement (agree_reader hcalm (Nat.le_refl _) hlevels)

end alike

/-- A statement is passed in either layout with the same outcome, and what follows is read in the
same way: the program or the namespace around it ends with the same entries, names and functions, or
with the same fault. So the newlines in front of the closing brace of a function do not matter, nor
do those behind it in a namespace, in front of whose own brace there may be none. A brace behind an
expression is read as the newline would be, so that nothing is closed. -/
theorem closing_brace_layout {c : Compiler} {entries : Array Entry} {xs ys front rest : List Token}
    {lead k levels levels' : Nat} {code : String} {lines : List String} (h : c.Relaid xs ys k)
    (hdocument : c.document = some entries)
    (hfunctions : ∀ f ∈ c.functions, Lexer.isName f.toList = true)
    (hcalm : ∀ t ∈ rest, t.is "import" = false ∧ t.is "!" = false) (hrest : rest ≠ [])
    (hfirst : 1 ≤ c.line) (hlast : c.line + (lead + ys.count Token.newline : Nat) ≤ lines.length)
    (hlevels : lead + xs.length + rest.length < levels)
    (hlevels' : lead + ys.length + rest.length < levels') :
    (lines.length + k = c.lines.length →
      (∃ c' d', statementWithin levels true
          (c.facing front (List.replicate lead Token.newline ++ xs) rest) = .ok () c' ∧
        statementWithin levels' true ((c.reworded code lines).facing front
          (List.replicate lead Token.newline ++ ys) rest) = .ok () d' ∧
        c'.DiffersInLayout rest k d') ∧
      EndsAlike rest k
        (loop (programStatement (descent levels)) levels
          (c.facing front (List.replicate lead Token.newline ++ xs) rest))
        (loop (programStatement (descent levels')) levels' ((c.reworded code lines).facing front
          (List.replicate lead Token.newline ++ ys) rest))) ∧
    (∀ behind more, lines.length + (k + more) = c.lines.length →
      (∀ t ∈ rest.head?, t.isNewline = false) →
      EndsAlike rest (k + more)
        (loop (namespaceStatement (descent levels)) levels
          (c.facing front (List.replicate lead Token.newline ++ xs)
            (List.replicate (behind + more) Token.newline ++ rest)))
        (loop (namespaceStatement (descent levels')) levels'
          ((c.reworded code lines).facing front (List.replicate lead Token.newline ++ ys)
            (List.replicate behind Token.newline ++ rest)))) := by
  obtain ⟨t, ht, hxs, hys⟩ := h.first lead
  have hcalm' : Calm rest.toArray := by simpa [Calm] using hcalm
  have hmore : (List.replicate lead Token.newline ++ xs).length + rest.length < levels := by
    simpa using hlevels
  have hfewer : (List.replicate lead Token.newline ++ ys).length + rest.length < levels' := by
    simpa using hlevels'
  refine ⟨fun hlines => ?_, fun behind more hlines hhead => ?_⟩
  · obtain ⟨n, e, hline, hsame, hx, hy⟩ :=
      h.passesOver hdocument hfunctions code (by omega) hfirst hlast
    rw [← hsame] at hlines
    refine ⟨⟨_, _, hx front rest _ hrest (by omega), hy front rest _ hrest (by omega),
      Compiler.facing_differsInLayout hlines⟩, ?_⟩
    exact programs_endAlike hx hy hmore hfewer hcalm' (by omega) hxs hys hrest hlines
  · obtain ⟨n, e, hline, hsame, hx, hy⟩ :=
      h.passesOver hdocument hfunctions code (by omega) hfirst hlast
    obtain ⟨u, hu⟩ := Option.isSome_iff_exists.mp (List.isSome_head?.mpr hrest)
    rw [← hsame] at hlines
    exact namespaces_endAlike hx hy hmore hfewer hcalm' (by omega) hxs hys ht hu (hhead u hu) hlines

/-- A square, on a line of its own in braces. -/
def quad : FunctionDef :=
  let t : Name := ⟨"t", by decide, by decide⟩
  { name := ⟨"quad", by decide, by decide⟩
    first := t
    others := []
    before := 1
    value := .operation (.value ⟨false, .name t⟩) .times (.term (.value ⟨false, .name t⟩))
    behind := 0 }

def gain : Expression :=
  .operation (.value ⟨false, .name ⟨"gain", by decide, by decide⟩⟩) .equals
    (.term (.value ⟨false, .numeral 3⟩))

/-- A state in a namespace that is empty so far. -/
def inBraces : Compiler where
  code := ""
  lines := List.replicate 8 ""
  tokens := #[]
  current := none
  line := 1
  names := Table.initial ++ [("N", .table [])]
  scope := ["N"]
  lastId := 1
  folder := some 1
  document := some #[.folder 1 (some "N") []]
  target := .document

/-- The closing brace of the namespace. -/
def outerEnd : List Token := [mark "\x7d", Token.newline]

theorem quad_relaid : inBraces.Relaid (quad.laidOut 2 ++ [mark "\x7d"])
    (quad.laidOut 0 ++ [mark "\x7d"]) 2 := by
  have hvariables : quad.value.variables = ["t", "t"] := by decide
  refine @Compiler.Relaid.definition _ quad _ _ 0 2 rfl rfl
    ⟨fun v hv => ?_, by decide, by decide⟩ fun _ => rfl
  obtain rfl : v = "t" := by simpa [hvariables] using hv
  exact .inr rfl

theorem gain_relaid : inBraces.Relaid (gain.tokens ++ [Token.newline])
    (gain.tokens ++ [mark "\x7d"]) 1 := by
  have hvariables : gain.variables = ["gain"] := by decide
  refine .expression (.name rfl) ⟨fun v hv => ?_, by decide, by decide⟩ rfl
  obtain rfl : v = "gain" := by simpa [hvariables] using hv
  exact .inr rfl

/-- The braces of the function and of the namespace right behind the square, instead of on lines of
their own; and a brace behind the assignment, where it takes a second one to close the namespace. -/
theorem braces_in_any_layout :
    EndsAlike outerEnd (2 + 1)
        (loop (namespaceStatement (descent 40)) 40 (inBraces.facing []
          (List.replicate 1 Token.newline ++ (quad.laidOut 2 ++ [mark "\x7d"]))
          (List.replicate (0 + 1) Token.newline ++ outerEnd)))
        (loop (namespaceStatement (descent 40)) 40
          ((inBraces.reworded "" (List.replicate 5 "")).facing []
            (List.replicate 1 Token.newline ++ (quad.laidOut 0 ++ [mark "\x7d"]))
            (List.replicate 0 Token.newline ++ outerEnd))) ∧
      EndsAlike outerEnd (1 + 0)
        (loop (namespaceStatement (descent 40)) 40 (inBraces.facing []
          (List.replicate 1 Token.newline ++ (gain.tokens ++ [Token.newline]))
          (List.replicate (0 + 0) Token.newline ++ outerEnd)))
        (loop (namespaceStatement (descent 40)) 40
          ((inBraces.reworded "" (List.replicate 7 "")).facing []
            (List.replicate 1 Token.newline ++ (gain.tokens ++ [mark "\x7d"]))
            (List.replicate 0 Token.newline ++ outerEnd))) ∧
      fault? (loop (namespaceStatement (descent 40)) 40 (inBraces.facing []
        (Token.newline :: (quad.laidOut 2 ++ [mark "\x7d"])) (Token.newline :: outerEnd))) = none ∧
      fault? (loop (namespaceStatement (descent 40)) 40 (inBraces.facing []
        (Token.newline :: (gain.tokens ++ [Token.newline])) outerEnd)) = none := by
  have hquad := @closing_brace_layout inBraces #[.folder 1 (some "N") []] _ _ [] outerEnd 1 2 40 40
    "" (List.replicate 5 "") quad_relaid rfl (by decide) (by decide) (by decide) (by decide)
    (by decide) (by decide) (by decide)
  have hgain := @closing_brace_layout inBraces #[.folder 1 (some "N") []] _ _ [] outerEnd 1 1 40 40
    "" (List.replicate 7 "") gain_relaid rfl (by decide) (by decide) (by decide) (by decide)
    (by decide) (by decide) (by decide)
  exact ⟨hquad.2 0 1 rfl (by decide), hgain.2 0 0 rfl (by decide), by decide +kernel,
    by decide +kernel⟩

/-- A namespace is not closed by a brace right behind an assignment. The statements that follow fall
into it, and without a newline in front of the namespace the run fails where the tokens end. Behind
a point, the brace of a function is not found. -/
theorem brace_behind_expression_closes_nothing :
    (compiled? [] "ns N \x7b\na = 1\n\x7d\nb = 2").map
        (fun c => (c.names.has "b", (c.names.resolve ["N", "b"]).isOk)) = some (true, false) ∧
      (compiled? [] "ns N \x7b\na = 1\x7d\nb = 2").isNone = true ∧
      (compiled? [] "\nns N \x7b\na = 1\x7d\nb = 2").map
        (fun c => (c.names.has "b", (c.names.resolve ["N", "b"]).isOk)) = some (false, true) ∧
      (compiled? [] "fn f(x) \x7b\n(x,1)\n\x7d").isSome = true ∧
      (compiled? [] "fn f(x) \x7b\n(x,1)\x7d").isNone = true := by
  decide +kernel

end PlotScript
