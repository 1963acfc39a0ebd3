import PlotScript.Proofs.FlatProgram
import PlotScript.Proofs.Juxtaposed
import PlotScript.Proofs.Stopping

/-! The line that a mistake is reported on. A newline counts whenever it is left behind, and after
the reading has gone back it is left behind again. So the number of the line is never too small,
and it is right as long as the reading goes back over no newline. -/

namespace PlotScript
open Compile Grammar

namespace Compiler

/-- The newlines in front of the cursor. -/
def newlinesBefore (c : Compiler) : Nat :=
  (c.tokens.toList.take (c.tokens.size - c.remaining)).countP Token.isNewline

/-- The number of the line without the newlines in front of the cursor. -/
def surplus (c : Compiler) : Int := c.line - c.newlinesBefore

section cursor
variable {ts : Array Token} {c d : Compiler} {t : Token}

theorem newlinesBefore_mono (htokens : d.tokens = c.tokens) (hle : d.remaining ≤ c.remaining) :
    c.newlinesBefore ≤ d.newlinesBefore := by
  unfold newlinesBefore
  rw [htokens]
  have htake := List.take_sublist_take_left (l := c.tokens.toList)
    (Nat.sub_le_sub_left hle c.tokens.size)
  exact htake.countP_le

theorem Settled.newlinesBefore_eq (hc : c.Settled ts) (ht : c.current = some t) :
    ∃ i : Nat, c.position = i ∧ ts[i]? = some t ∧ c.remaining = ts.size - i ∧
      c.newlinesBefore = (ts.toList.take i).countP Token.isNewline := by
  obtain ⟨hplace, hget⟩ := hc.current t ht
  obtain ⟨i, hi⟩ := Int.eq_ofNat_of_zero_le hplace
  rw [hi, Place.get?_natCast] at hget
  have hlt := (Array.getElem?_eq_some_iff.mp hget).1
  have hremaining : c.remaining = ts.size - i := by
    simp only [remaining, ht, Option.isSome_some, if_true, hc.tokens, hi]
    omega
  refine ⟨i, hi, hget, hremaining, ?_⟩
  rw [newlinesBefore, hremaining, hc.tokens, Nat.sub_sub_self (Nat.le_of_lt hlt)]

end cursor
end Compiler

/-- From a settled state the reading has come to one that is not before it, and the surplus has
not become less; where the reading is exact it has not become more either. -/
structure Tracked (exact : Bool) (ts : Array Token) (c d : Compiler) : Prop where
  later : Later ts c d
  lines : d.lines = c.lines
  surplus_le : c.surplus ≤ d.surplus
  surplus_ge : exact = true → d.surplus ≤ c.surplus

def Tracks (exact : Bool) (ts : Array Token) (c d : Compiler) : Prop :=
  c.Settled ts → Tracked exact ts c d

section tracks
variable {exact : Bool} {ts : Array Token} {c d : Compiler}

theorem Tracks.of_frame (htokens : d.tokens = c.tokens) (hcurrent : d.current = c.current)
    (hposition : d.position = c.position) (hline : d.line = c.line) (hlines : d.lines = c.lines)
    (hopen : c.IsOpen → d.IsOpen) : Tracks exact ts c d := by
  intro hc
  have hremaining : d.remaining = c.remaining := by
    simp only [Compiler.remaining, htokens, hcurrent, hposition]
  have hsurplus : d.surplus = c.surplus := by
    simp only [Compiler.surplus, Compiler.newlinesBefore, hline, htokens, hremaining]
  exact ⟨.of_frame hc htokens hcurrent hposition hopen, hlines, by omega, fun _ => by omega⟩

instance : Steady (Tracks exact ts) where
  trans h h' hc := by
    have hfirst := h hc
    have hsecond := h' hfirst.later.settled
    refine ⟨hfirst.later.trans hsecond.later, hsecond.lines.trans hfirst.lines,
      Int.le_trans hfirst.surplus_le hsecond.surplus_le, fun hexact => ?_⟩
    exact Int.le_trans (hsecond.surplus_ge hexact) (hfirst.surplus_ge hexact)
  quiet h := by
    refine .of_frame h.tokens h.current h.position h.line h.lines fun hopen => ?_
    unfold Compiler.IsOpen Compiler.lastOpen? Compiler.openEntries? at hopen ⊢
    rw [h.document, h.target]
    exact hopen

theorem advanced_eq (htokens : c.tokens = ts) {i : Nat} (hposition : c.position + 1 = i)
    (hi : i ≤ ts.size) (t : Token) :
    (c.advanced t).newlinesBefore = (ts.toList.take i).countP Token.isNewline ∧
      (c.advanced t).line = (if t.isNewline then c.line + 1 else c.line) ∧
      (c.advanced t).lines = c.lines := by
  subst htokens
  unfold Compiler.advanced
  rw [hposition, Place.get?_natCast]
  cases hnext : c.tokens[i]? with
  | none =>
    have hsize := Array.getElem?_eq_none_iff.mp hnext
    obtain rfl : i = c.tokens.size := by omega
    exact ⟨rfl, rfl, rfl⟩
  | some u =>
    refine ⟨?_, rfl, rfl⟩
    have hremaining : c.tokens.size - ((c.tokens.size : Int) - i).toNat = i := by omega
    simp only [Compiler.newlinesBefore, Compiler.remaining, Option.isSome_some, if_true,
      hremaining]

/-- A step forward passes one token, and counts it if it is a newline. -/
theorem tracked_advanced (hc : c.Settled ts) {t : Token} (ht : c.current = some t) :
    Tracked exact ts c (c.advanced t) := by
  obtain ⟨i, hi, hget, hremaining, hbefore⟩ := hc.newlinesBefore_eq ht
  have hlt := (Array.getElem?_eq_some_iff.mp hget).1
  obtain ⟨hnewlines, hline, hlines⟩ :=
    advanced_eq hc.tokens (i := i + 1) (by omega) (by omega) t
  have hsurplus : (c.advanced t).surplus = c.surplus := by
    have hget' : ts.toList[i]? = some t := by rw [Array.getElem?_toList, hget]
    have htake : (ts.toList.take (i + 1)).countP Token.isNewline =
        (ts.toList.take i).countP Token.isNewline + if t.isNewline then 1 else 0 := by
      rw [List.take_add_one, List.countP_append, hget', Option.toList_some, List.countP_singleton]
    unfold Compiler.surplus
    rw [hnewlines, hline, htake, hbefore]
    split <;> omega
  obtain ⟨hsettled, hle, hopen⟩ := advanced_later (t := t) hc.tokens (by omega)
  exact ⟨⟨hsettled, by omega, hopen⟩, hlines, by omega, fun _ => by omega⟩

instance : Moving (Tracks exact ts) where
  advance c hc := by
    cases hcurrent : c.current with
    | none =>
      rw [advance_of_none hcurrent]
      exact Steady.quiet (R := Tracks exact ts) (.refl c) hc
    | some t =>
      rw [advance_of_some hcurrent]
      exact tracked_advanced hc hcurrent

/-- Whether there is a newline among the tokens from one place to another, both included. -/
def newlineWithin (tokens : Array Token) (first last : Int) : Bool :=
  ((tokens.toList.take (last.toNat + 1)).drop first.toNat).any Token.isNewline

theorem countP_take_of_newlineWithin {i j : Nat} (hle : i ≤ j + 1)
    (h : newlineWithin ts i j = false) :
    (ts.toList.take (j + 1)).countP Token.isNewline =
      (ts.toList.take i).countP Token.isNewline := by
  rw [newlineWithin, Int.toNat_natCast, Int.toNat_natCast, List.any_eq_false] at h
  rw [← List.take_append_drop i (ts.toList.take (j + 1)), List.countP_append,
    List.countP_eq_zero.mpr h, List.take_take, Nat.min_eq_left hle]
  rfl

/-- Only the place and the text of the open entry are changed. -/
theorem rewind_frame (hopen : d.IsOpen) (position : Int) (text : String) :
    ∃ r, rewind position text d = .ok () r ∧ r.IsOpen ∧ r.tokens = d.tokens ∧
      r.current = d.current ∧ r.position + 1 = position ∧ r.line = d.line ∧ r.lines = d.lines := by
  have hmoved : Compiler.IsOpen { d with position := position - 1 } := hopen
  exact ⟨_, setLatex_eq hmoved text, hmoved.withText text, rfl, rfl, Int.sub_add_cancel _ _, rfl,
    rfl⟩

/-- Going back, the line number stays, and the token that was reached counts once more if it is a
newline. -/
theorem tracked_back (hc : c.Settled ts) (hcd : Tracked exact ts c d) (hopen : c.IsOpen)
    (text : String)
    (hexact : exact = true → newlineWithin ts c.position d.position = false) :
    Tracked exact ts c (stateAfter ((rewind c.position text >>= fun _ => advance) d)) := by
  have hd := hcd.later.settled
  obtain ⟨r, hrewind, hstill, htokens, hcurrent, hposition, hline, hlines⟩ :=
    rewind_frame (hcd.later.isOpen hopen) c.position text
  rw [bind_apply, hrewind]
  dsimp only
  cases hreached : d.current with
  -- at the end of the tokens there is nothing to leave behind, and the step fails
  | none =>
    rw [advance_of_none (hcurrent.trans hreached)]
    have hremaining : r.remaining = d.remaining := by
      rw [Compiler.remaining_eq_zero hreached,
        Compiler.remaining_eq_zero (hcurrent.trans hreached)]
    have hsurplus : r.surplus = d.surplus := by
      simp only [Compiler.surplus, Compiler.newlinesBefore, hline, htokens, hremaining]
    have hsettled : r.Settled ts :=
      ⟨htokens.trans hd.tokens, fun t ht => by rw [hcurrent, hreached] at ht; cases ht⟩
    refine ⟨⟨hsettled, hremaining ▸ hcd.later.remaining_le, fun _ => hstill⟩,
      hlines.trans hcd.lines, hsurplus ▸ hcd.surplus_le, fun hexact => ?_⟩
    exact hsurplus ▸ hcd.surplus_ge hexact
  | some u =>
    obtain ⟨j, hj, hu, hleft, hpassed⟩ := hd.newlinesBefore_eq hreached
    have hlt := (Array.getElem?_eq_some_iff.mp hu).1
    have hle := hcd.later.remaining_le
    obtain ⟨t, ht⟩ : ∃ t, c.current = some t := by
      refine Option.ne_none_iff_exists'.mp fun hnone => ?_
      rw [Compiler.remaining_eq_zero hnone] at hle
      omega
    obtain ⟨i, hi, hget, hall, hbefore⟩ := hc.newlinesBefore_eq ht
    have hstart := (Array.getElem?_eq_some_iff.mp hget).1
    obtain ⟨hnewlines, hline', hlines'⟩ :=
      advanced_eq (htokens.trans hd.tokens) (i := i) (by omega) (by omega) u
    obtain ⟨hsettled, hbound, hopen''⟩ :=
      advanced_later (t := u) (htokens.trans hd.tokens) (by omega)
    have hmono := Compiler.newlinesBefore_mono (hd.tokens.trans hc.tokens.symm) hle
    have hless := hcd.surplus_le
    rw [advance_of_some (hcurrent.trans hreached)]
    dsimp only [stateAfter]
    refine ⟨⟨hsettled, by omega, fun _ => hopen'' hstill⟩, (hlines'.trans hlines).trans hcd.lines,
      ?_, fun hstraight => ?_⟩
    · unfold Compiler.surplus at hless ⊢
      split at hline' <;> omega
    · -- between the two places there is no newline, so as many are before the one as the other
      have hsame : (ts.toList.take (j + 1)).countP Token.isNewline =
          (ts.toList.take i).countP Token.isNewline :=
        countP_take_of_newlineWithin (by omega) (hi ▸ hj ▸ hexact hstraight)
      rw [List.take_add_one, List.countP_append, Array.getElem?_toList, hu, Option.toList_some,
        List.countP_singleton] at hsame
      have hmore := hcd.surplus_ge hstraight
      unfold Compiler.surplus at hmore ⊢
      split at hline' <;> split at hsame <;> first | contradiction | omega

/-- Without imports and macro calls nothing else touches tokens and lines. -/
theorem tracks_permits (hcalm : Calm ts) : Permits (Tracks exact ts) := by
  refine .of_framed (fun c d h => ?_) (fun c hc => ?_) fun c hc => ?_
  · exact .of_frame h.tokens h.current h.position h.line h.lines h.isOpen
  · have hsame : stateAfter (macroCall c) = c := by
      unfold macroCall
      cases hnext : Place.get? c.tokens (c.position + 1) with
      | none => simp [nextIs, peek, hnext, stateAfter]
      | some t =>
        obtain ⟨i, -, hi⟩ := Option.bind_eq_some_iff.mp hnext
        have habsent := (hcalm t (hc.tokens ▸ Array.mem_of_getElem? hi)).2
        simp [nextIs, peek, hnext, habsent, stateAfter]
    rw [hsame]
    exact Steady.quiet (R := Tracks exact ts) (.refl c) hc
  · have hsame : stateAfter (importModule c) = c := by
      unfold importModule
      cases hcurrent : c.current with
      | none => simp [currentIs, current, hcurrent, stateAfter]
      | some t =>
        obtain ⟨i, -, hi⟩ := Option.bind_eq_some_iff.mp (hc.current t hcurrent).2
        have habsent := (hcalm t (Array.mem_of_getElem? hi)).1
        simp [currentIs, current, hcurrent, habsent, stateAfter]
    rw [hsame]
    exact Steady.quiet (R := Tracks exact ts) (.refl c) hc

/-- However the reading goes back, the surplus does not become less. -/
theorem tracks_retracing (hcalm : Calm ts) : Retracing (Tracks false ts) where
  toPermits := tracks_permits hcalm
  back hcd htext hc :=
    tracked_back hc (hcd hc) (Compiler.isOpen_of_text? htext) _ fun hexact => by cases hexact

end tracks

/-! The reading that stops where it would go back over a newline. -/

namespace Straight

/-- Goes back to where an attempt began, unless that is over a newline. -/
def back (start : Compiler) (text : String) : Compile Bool := do
  let c ← get
  if newlineWithin c.tokens start.position c.position then throw .endOfInput
  rewind start.position text
  return false

theorem back_apply (start : Compiler) (text : String) (d : Compiler) :
    back start text d = .error .endOfInput d ∨
      newlineWithin d.tokens start.position d.position = false ∧
        back start text d = (rewind start.position text >>= fun _ => pure false) d := by
  cases hwithin : newlineWithin d.tokens start.position d.position with
  | true => exact .inl (by simp [back, hwithin])
  | false => exact .inr ⟨rfl, by simp [back, hwithin]⟩

/-- Everything below a budget of levels, stopped where it would go back over a newline. -/
def descent : Nat → Descent
  | 0 => ⟨0, throw .exhausted, fun _ => throw .exhausted⟩
  | levels + 1 =>
    ⟨levels + 1, expressionWith back (descent levels),
      Watched.statementWith .never (descent levels) (expressionWith back (descent levels))⟩

/-- As long as it does not stop, it reads as it is read otherwise. -/
theorem descent_below (levels : Nat) : Below (descent levels) (Grammar.descent levels) := by
  induction levels with
  | zero => exact ⟨rfl, .refl _, fun _ => .refl _⟩
  | succ levels ih =>
    have hexpression : Imitates (expressionWith back (descent levels))
        (expressionFrom (Grammar.descent levels)) := by
      refine imitates_expressionWith ih fun start text c => ?_
      exact (back_apply start text c).symm.imp And.right fun hstop => ⟨c, hstop⟩
    refine ⟨rfl, hexpression, fun fresh => ?_⟩
    have hstatement := imitates_statementWith .never ih hexpression fresh
    rw [← statementFrom_eq] at hstatement
    exact hstatement

theorem goes_attempt {ts : Array Token} (hcalm : Calm ts) {down : Descent}
    (hexpression : Goes (Tracks true ts) down.expression) :
    Goes (Tracks true ts) (attempt (point down) (operation down)) := by
  have : Permits (Tracks true ts) := tracks_permits hcalm
  have hattempt : Goes (Tracks true ts) (attempt (Watched.watched .never .point (point down))
      (Watched.operation .never down)) :=
    (Goes.congruence .never (Tracks true ts)).attempt ⟨rfl, hexpression⟩
  rw [Watched.watched_never, Watched.operation_never] at hattempt
  exact hattempt

/-- Read straight on, the surplus stays the same. -/
theorem goes_descent {ts : Array Token} (hcalm : Calm ts) (levels : Nat) :
    Goes (Tracks true ts) (descent levels).expression ∧
      ∀ fresh, Goes (Tracks true ts) ((descent levels).statement fresh) := by
  have : Permits (Tracks true ts) := tracks_permits hcalm
  induction levels with
  | zero => exact ⟨.throw _, fun _ => .throw _⟩
  | succ levels ih =>
    obtain ⟨hbelow, hstatement⟩ := ih
    have hrest : Goes (Tracks true ts) (Watched.operandFirst .never (descent levels)) :=
      (Goes.forms .never (Tracks true ts)).operandFirst ⟨⟨rfl, hbelow⟩, hstatement⟩
        fun h => h.watched _
    rw [Watched.operandFirst_never] at hrest
    have hexpression : Goes (Tracks true ts) (expressionWith back (descent levels)) := by
      refine Goes.retrying (goes_attempt hcalm hbelow) (fun done => ?_) ?_
      · exact .ite (.pure _) (Goes.advance.bind fun _ => hrest)
      · intro c d text htext hcd hc
        rw [bind_apply]
        rcases back_apply c text d with hstop | ⟨hnone, hback⟩
        · rw [hstop]
          exact hcd hc
        · rw [(hcd hc).later.settled.tokens] at hnone
          have hopen : c.IsOpen := Compiler.isOpen_of_text? htext
          have hreturn := tracked_back hc (hcd hc) hopen text fun _ => hnone
          have hwhole := Goes.bind_from (R := Tracks true ts) (fun _ => hreturn) (fun _ => hrest) hc
          rw [bind_assoc] at hwhole
          rw [hback, ← bind_apply, bind_assoc]
          exact hwhole
    exact ⟨hexpression, .statementWith hbelow hstatement hexpression⟩

end Straight

/-! The lines of a script. -/

/-- In front of every token there is a part of the text with as many newlines as there are newlines
before the token. -/
theorem Lexer.exists_part_before {before : Option Char} {cs : List Char} {i : Nat}
    (hi : i < (readAfter before cs).tokens.length) :
    ∃ a b, cs = a ++ b ∧ b ≠ [] ∧
      a.count '\n' = ((readAfter before cs).tokens.take i).countP Token.isNewline := by
  induction before, cs using readAfter_induction generalizing i with
  | finished before => cases hi
  | unknown before c cs hm =>
    rw [readAfter_of_unknown hm] at hi
    cases hi
  | overlong before c cs m hm hlength =>
    rw [readAfter_of_overlong hm hlength] at hi
    cases hi
  | lexeme before cs m hm hlength ih =>
    have hlt := length_rest_lt hm
    have hne : cs ≠ [] := List.ne_nil_of_length_pos (by omega)
    rw [readAfter_of_next? hm hlength] at hi ⊢
    rw [List.length_append] at hi
    rcases Nat.eq_zero_or_pos i with rfl | hpos
    · exact ⟨[], cs, rfl, hne, rfl⟩
    · have hone : m.token?.toList.length ≤ 1 := by cases m.token? <;> simp
      have hlater : i - m.token?.toList.length <
          (readAfter m.lexeme.getLast? m.rest).tokens.length := by omega
      obtain ⟨a, b, hrest, hb, hcount⟩ := ih hlater
      refine ⟨m.lexeme ++ a, b, ?_, hb, ?_⟩
      · rw [List.append_assoc, ← hrest, (splits_of_next? hm).1]
      · rw [List.take_append, List.take_of_length_le (by omega), List.count_append,
          List.countP_append, count_lexeme hm, hcount]

namespace Compiler

/-- The number of the line is that of the current token. -/
def OnLine (c : Compiler) : Prop := c.line = 1 + c.newlinesBefore

instance (c : Compiler) : Decidable c.OnLine := inferInstanceAs (Decidable (_ = _))

theorem onLine_iff {c : Compiler} : c.OnLine ↔ c.surplus = 1 := by
  unfold OnLine surplus
  omega

/-- On a token of the script itself there is a line to report. -/
theorem OnLine.hasLine {files : Files} {code : String} {c s : Compiler}
    (hcode : Compiler.ofCode files code = .ok c) (hsettled : s.Settled c.tokens)
    (hlines : s.lines = c.lines) (hon : s.OnLine) (hremaining : 1 < s.remaining) :
    s.HasLine := by
  obtain rfl := eq_of_ofCode hcode
  obtain ⟨t, ht⟩ : ∃ t, s.current = some t := by
    refine Option.ne_none_iff_exists'.mp fun hnone => ?_
    rw [remaining_eq_zero hnone] at hremaining
    omega
  obtain ⟨i, -, -, hleft, hbefore⟩ := hsettled.newlinesBefore_eq ht
  have hi : i < (Lexer.readAfter none code.toList).tokens.length := by
    rw [← Lexer.read_eq_readAfter]
    rw [hleft] at hremaining
    simp at hremaining
    omega
  obtain ⟨a, b, hsplit, hb, hcount⟩ := Lexer.exists_part_before hi
  have hfew : a.count '\n' < (Text.linesFrom [] code.toList).length :=
    Flat.count_lt_length_linesFrom hsplit hb
  have hnewlines : s.newlinesBefore < (Text.splitLines code).length := by
    rw [hbefore, List.toList_toArray, Lexer.read_eq_readAfter,
      List.take_append_of_le_length (Nat.le_of_lt hi), ← hcount]
    exact hfew
  have hplace : s.line - 1 = (s.newlinesBefore : Int) := by
    unfold OnLine at hon
    omega
  rw [HasLine, hlines, hplace, Place.get?_natCast]
  simp [hnewlines]

end Compiler

theorem begins_of_error {down : Descent} {c s : Compiler} {e : Fault}
    (h : program down c = .error e s) (he : e ≠ .exhausted) : ∃ t, c.current = some t := by
  refine Option.ne_none_iff_exists'.mp fun hnone => ?_
  have hround : programStatement down c.withFreshDocument = .ok true c.withFreshDocument := by
    have hcurrent : c.withFreshDocument.current = none := hnone
    simp [programStatement, hcurrent]
  have hloop : loop (programStatement down) down.rounds c.withFreshDocument = .error e s := h
  cases hrounds : down.rounds with
  | zero =>
    rw [hrounds] at hloop
    cases hloop
    exact he rfl
  | succ rounds =>
    rw [hrounds, loop, bind_apply, hround] at hloop
    cases hloop

/-- A program begins on the first line. -/
theorem begins_onLine {files : Files} {code : String} {c : Compiler} {t : Token}
    (hcode : Compiler.ofCode files code = .ok c) (ht : c.current = some t) :
    Compiler.Settled c.tokens { c.withFreshDocument with line := c.line + 1 } ∧
      Compiler.OnLine { c.withFreshDocument with line := c.line + 1 } := by
  have hline : c.line = 0 := by
    obtain rfl := eq_of_ofCode hcode
    rfl
  have hsettled : Compiler.Settled c.tokens { c.withFreshDocument with line := c.line + 1 } := by
    refine ⟨rfl, fun u hu => ⟨Int.le_refl 0, ?_⟩⟩
    exact (Place.get?_natCast c.tokens 0).trans ((ofCode_begins hcode).2 u hu)
  refine ⟨hsettled, ?_⟩
  obtain ⟨i, hi, -, -, hbefore⟩ := hsettled.newlinesBefore_eq ht
  obtain rfl : i = 0 := (Int.ofNat_inj.mp hi).symm
  rw [Compiler.OnLine, hbefore, hline]
  rfl

theorem Tracked.onLine {ts : Array Token} {c d : Compiler} (h : Tracked true ts c d)
    (hc : c.OnLine) : d.OnLine := by
  rw [Compiler.onLine_iff] at hc ⊢
  have hle := h.surplus_le
  have hge := h.surplus_ge rfl
  omega

section script
variable {files : Files} {code : String} {c : Compiler}
  (hcode : Compiler.ofCode files code = .ok c) (hcalm : Calm c.tokens)
include hcode hcalm

theorem run_blames {e : Fault} {s : Compiler} (hrun : run c = .error e s) :
    s.Blames e ∧ ∃ t, c.current = some t := by
  obtain ⟨htokens, hfirst⟩ := ofCode_begins hcode
  have hbudget : c.tokens.size < c.budget := by
    unfold Compiler.budget
    omega
  obtain ⟨hsame, hblames⟩ := program_reads (c := { c with line := c.line + 1 }) hcalm rfl hfirst
    (Nat.lt_succ_self _) hbudget
  rw [run_eq_runWith, runWith_of_tokens htokens] at hrun
  split at hrun
  · cases hrun
  · next f d hprogram =>
    cases hrun
    have hblame := hblames e s (hsame ▸ hprogram)
    refine ⟨hblame, begins_of_error (c := { c with line := c.line + 1 }) hprogram ?_⟩
    rintro rfl
    exact hblame

theorem line_not_before {moment : Moment} {s : Compiler} (h : Reached files code moment s) :
    1 + (s.newlinesBefore : Int) ≤ s.line := by
  have : Retracing (Tracks false c.tokens) := tracks_retracing hcalm
  obtain ⟨c', hcode', htracks⟩ := Reached.path (R := Tracks false c.tokens) h
  obtain ⟨c'', levels, watch, hcode'', -, hrun⟩ := h
  obtain rfl : c = c' := Except.ok.inj (hcode.symm.trans hcode')
  obtain rfl : c = c'' := Except.ok.inj (hcode.symm.trans hcode'')
  obtain ⟨t, ht⟩ := begins_of_error hrun (by decide)
  obtain ⟨hsettled, hon⟩ := begins_onLine hcode ht
  have hle := (htracks hsettled).surplus_le
  rw [Compiler.onLine_iff.mp hon, Compiler.surplus] at hle
  omega

/-- A run that ends with a fault ends on the right line, unless it has gone back over a newline. -/
theorem onLine_of_error {e : Fault} {s : Compiler} (hrun : run c = .error e s)
    (hstraight : ∀ s', runWith (Straight.descent c.budget) c ≠ .error .endOfInput s') :
    s.OnLine := by
  obtain ⟨-, t, ht⟩ := run_blames hcode hcalm hrun
  obtain ⟨hsettled, hon⟩ := begins_onLine hcode ht
  have htracks := runWith_goes (Straight.goes_descent hcalm c.budget).2 (ofCode_begins hcode).1
  rcases imitates_runWith (Straight.descent_below c.budget) c with hsame | ⟨s', hstop⟩
  · rw [hsame, ← run_eq_runWith, hrun] at htracks
    exact (htracks hsettled).onLine hon
  · exact absurd hstop (hstraight s')

end script

/-- Without imports and macro calls, the line that a mistake is reported on is never one before its
own. It is its own as long as the reading goes back over no newline: then every attempt, every
expression and every statement ends on the line of the current token, and so does the run, with a
mistake on that line. There is such a line unless the reading is at the end of the script. -/
theorem mistake_on_line_of_token {files : Files} {code : String} {c : Compiler}
    (hcode : Compiler.ofCode files code = .ok c)
    (hcalm : ∀ t ∈ c.tokens, t.is "import" = false ∧ t.is "!" = false) :
    (∀ moment s, Reached files code moment s → 1 + (s.newlinesBefore : Int) ≤ s.line) ∧
    (∀ levels (s : Compiler), s.Settled c.tokens → s.OnLine →
      (stateAfter (attempt (point (Straight.descent levels))
        (operation (Straight.descent levels)) s)).OnLine ∧
      (stateAfter ((Straight.descent levels).expression s)).OnLine ∧
      ∀ fresh, (stateAfter ((Straight.descent levels).statement fresh s)).OnLine) ∧
    (∀ e s, run c = .error e s →
      (∃ s', runWith (Straight.descent c.budget) c = .error .endOfInput s') ∨
        s.OnLine ∧ ∀ d, e = .diagnostic d → d.line = 1 + (s.newlinesBefore : Int)) ∧
    ∀ (s : Compiler) message, s.Settled c.tokens → s.lines = c.lines → s.OnLine →
      1 < s.remaining →
      ∃ d, (fail message : Compile Unit) s = .error (.diagnostic d) s ∧
        d.line = 1 + (s.newlinesBefore : Int) := by
  refine ⟨fun moment s => line_not_before hcode hcalm, fun levels s hs hon => ?_,
    fun e s hrun => ?_, fun s message hs hlines hon hremaining => ?_⟩
  · obtain ⟨hexpression, hstatement⟩ := Straight.goes_descent hcalm levels
    have hattempt := Straight.goes_attempt hcalm hexpression
    exact ⟨(hattempt s hs).onLine hon, (hexpression s hs).onLine hon,
      fun fresh => (hstatement fresh s hs).onLine hon⟩
  · by_cases hstop : ∃ s', runWith (Straight.descent c.budget) c = .error .endOfInput s'
    · exact .inl hstop
    · have hon := onLine_of_error hcode hcalm hrun fun s' h => hstop ⟨s', h⟩
      refine .inr ⟨hon, ?_⟩
      rintro d rfl
      have hblame : d.line = s.line := (run_blames hcode hcalm hrun).1
      exact hblame.trans hon
  · have hline := hon.hasLine hcode hs hlines hremaining
    obtain ⟨source, hsource⟩ := Option.isSome_iff_exists.mp hline
    refine ⟨⟨message, s.line, source⟩, ?_, hon⟩
    rw [fail_apply, Diagnostic.locate, hsource]

/-- The second of three lines has brackets that are first taken for points. -/
def bracketedMistake : String := "a = 1\nb = ((2)) + q\nc = 3"

theorem bracketed_mistake_on_line_of_token :
    ∃ c s d, Compiler.ofCode [] bracketedMistake = .ok c ∧
      (∀ t ∈ c.tokens, t.is "import" = false ∧ t.is "!" = false) ∧
      run c = .error (.diagnostic d) s ∧ s.newlinesBefore = 1 ∧ d.line = 2 := by
  have hwild : (failure? Grammar.descent bracketedMistake).map (fun f =>
      (f.first.tokens.all fun t => !t.is "import" && !t.is "!", f.fault, f.last.newlinesBefore)) =
      some (true, .diagnostic ⟨"Variable q not defined", 2, "b = ((2)) + q"⟩, 1) := by
    decide +kernel
  have hstraight : (failure? Straight.descent bracketedMistake).map Failure.fault =
      some (.diagnostic ⟨"Variable q not defined", 2, "b = ((2)) + q"⟩) := by
    decide +kernel
  obtain ⟨f, hfailure, hend⟩ := Option.map_eq_some_iff.mp hwild
  obtain ⟨hall, hfault, hnewlines⟩ :
      (f.first.tokens.all fun t => !t.is "import" && !t.is "!") = true ∧
      f.fault = .diagnostic ⟨"Variable q not defined", 2, "b = ((2)) + q"⟩ ∧
      f.last.newlinesBefore = 1 := by
    simpa using hend
  obtain ⟨f', hfailure', hfault'⟩ := Option.map_eq_some_iff.mp hstraight
  obtain ⟨hcode, hrun⟩ := runWith_of_failure? hfailure
  obtain ⟨hcode', hrun'⟩ := runWith_of_failure? hfailure'
  rw [← Except.ok.inj (hcode.symm.trans hcode'), hfault'] at hrun'
  rw [← run_eq_runWith, hfault] at hrun
  have hcalm : ∀ t ∈ f.first.tokens, t.is "import" = false ∧ t.is "!" = false := by
    intro t ht
    simpa using Array.all_eq_true_iff_forall_mem.mp hall t ht
  have hmistake := (mistake_on_line_of_token hcode hcalm).2.2.1 _ _ hrun
  have hline := (hmistake.resolve_left (by simp [hrun'])).2 _ rfl
  rw [hnewlines] at hline
  exact ⟨f.first, f.last, _, hcode, hcalm, hrun, hnewlines, hline⟩

/-- Behind an operator at the end of a line that line counts twice, so a mistake on the second line
is reported on the third, and one on the last line has no line left. A mistake at the end of a
script has none either. -/
theorem mistake_behind_open_line :
    ((failure? Grammar.descent "a = 1 +\nb = q\nc = 1\nd = 2").map fun f =>
      (f.fault, f.last.newlinesBefore)) =
        some (.diagnostic ⟨"Variable q not defined", 3, "c = 1"⟩, 1) ∧
    ((failure? Grammar.descent "a = 1 +\nq").map fun f => (f.fault, f.last.newlinesBefore)) =
      some (.outOfRange, 1) ∧
    ((failure? Grammar.descent "(-\n").map fun f => (f.fault, f.last.newlinesBefore)) =
      some (.outOfRange, 1) := by
  decide +kernel

end PlotScript
