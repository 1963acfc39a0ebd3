import PlotScript.Grammar.Statement
import PlotScript.Proofs.Parts
import PlotScript.Proofs.Rereading

/-! Reading an expression from any tokens. An attempt that fails is undone, so whatever comes of
the reading, the text of the open entry has grown by a properly nested piece and nothing else was
written. -/

namespace PlotScript
open Compile Grammar Latex

section undone
variable {c : Compiler} {u : List Bracket} {down : Descent}

/-- The attempt has failed: the text is as it was, and one step leads back to the position. -/
def Undone (c : Compiler) (p : Progress) : EStateM.Result Fault Compiler Bool → Prop
  | .ok done c' => done = false ∧ ∃ q : Progress, c' = c.resume q ∧
      q.position = p.position - 1 ∧ q.text = p.text
  | .error _ _ => False

theorem undone_rewind (hc : c.IsPlain) (p q : Progress) :
    Undone c p ((do
      rewind p.position p.text
      return false : Compile Bool) (c.resume q)) := by
  rw [bind_apply, rewind_resume hc.isOpen]
  exact ⟨rfl, _, rfl, rfl, rfl⟩

/-- A mistake in an attempt is undone. -/
theorem undone_tryCatch (hc : c.IsPlain) {x : Compile Bool} {p : Progress}
    (h : Outcome c u u p (x (c.resume p)) ∨ Undone c p (x (c.resume p))) :
    let caught := tryCatch x (fun
      | .diagnostic _ => do
        rewind p.position p.text
        return false
      | e => throw e) (c.resume p)
    Outcome c u u p caught ∨ Undone c p caught := by
  dsimp only
  rw [tryCatch_apply]
  cases hrun : x (c.resume p) with
  | ok done d =>
    rw [hrun] at h
    exact h
  | error e d =>
    rw [hrun] at h
    have hstate := h.resolve_right id
    cases e with
    | diagnostic m =>
      -- where the mistake was made the rest of the state is as it was before the attempt
      obtain ⟨q, rfl⟩ := hstate m rfl
      exact .inr (undone_rewind hc p q)
    | _ => exact .inl fun _ hd => nomatch hd

/-- A point is read to the end of the expression, or something is amiss behind it, or the attempt
is undone. -/
theorem pointFirst_outcome (hc : c.IsPlain) (hdown : ∀ u, Writes c u u down.expression)
    {p : Progress} (hp : p.Synced c.tokens) :
    Outcome c u u p (pointFirst down (c.resume p)) ∨
      Undone c p (pointFirst down (c.resume p)) := by
  rw [pointFirst, bind_apply, latex_resume hc.isOpen]
  refine undone_tryCatch hc ?_
  have hpoint : Outcome c u u p (point down (c.resume p)) := writes_point hc hdown p hp
  rw [bind_apply]
  cases hrun : point down (c.resume p) with
  | error e d =>
    rw [hrun] at hpoint
    exact .inl hpoint
  | ok found d =>
    rw [hrun] at hpoint
    obtain ⟨q, rfl, hgoes⟩ := hpoint
    cases found with
    | false => exact .inr (undone_rewind hc p q)
    | true =>
      have hbehind : Writes c u u (do
          operation down
          atEnd [",", "]", ")"]) :=
        (writes_operation hc hdown).bind fun _ => writes_atEnd _
      exact .inl ((hbehind q hgoes.synced).of_goes hgoes)

/-- One step from an undone attempt leads back to where it began. -/
theorem advance_undone {p q : Progress} {t : Token} (hp : p.Synced c.tokens)
    (hcurrent : p.current = some t) (hback : q.position = p.position - 1)
    (htext : q.text = p.text) : Outcome c u u p (advance (c.resume q)) := by
  -- the token that the attempt reached is still current, but the position decides where to go
  cases hreached : q.current with
  | none => exact .of_error (q := q) (e := .noToken) (by simp [advance, current, hreached])
  | some s =>
    have hplace : q.position + 1 = p.position := by omega
    have hmoved : ((q.leaving s).movedTo c.tokens p.position).position = p.position ∧
        ((q.leaving s).movedTo c.tokens p.position).text = q.text := by
      simp [Progress.movedTo, Progress.leaving, hp t hcurrent]
    rw [advance_resume hreached, hplace]
    refine ⟨_, rfl, .of_text_eq (Progress.synced_movedTo _ _ _) ?_ ?_⟩
    · exact Int.le_of_eq hmoved.1.symm
    · rw [hmoved.2, htext]

theorem pointFirst_none (hc : c.IsPlain) {p : Progress} (hcurrent : p.current = none) :
    pointFirst down (c.resume p) = .error .noToken (c.resume p) := by
  simp [pointFirst, latex_resume hc.isOpen, point, currentIs, current, hcurrent]

theorem writes_expressionFrom (hc : c.IsPlain) (hdown : ∀ u, Writes c u u down.expression) :
    Writes c u u (expressionFrom down) := by
  intro p hp
  have hrest : Writes c u u (do
      unless ← operand down do return .refused
      operation down
      if ← atEnd [",", "]", ")", "\x7d"] then return .accepted
      return .dangling : Compile Verdict) := by
    refine (writes_operand hc hdown).bind fun _ => .ite ?_ (.pure _)
    refine (writes_operation hc hdown).bind fun _ => ?_
    exact (writes_atEnd _).bind fun _ => .ite (.pure _) (.pure _)
  rcases pointFirst_outcome (u := u) hc hdown hp with h | h
  · exact h.bind fun done => .ite (.pure _) (Writes.advance.bind fun _ => hrest)
  · rw [expressionFrom, bind_apply]
    cases hrun : pointFirst down (c.resume p) with
    | error e d =>
      rw [hrun] at h
      exact h.elim
    | ok done d =>
      rw [hrun] at h
      obtain ⟨rfl, q, rfl, hback, htext⟩ := h
      cases hcurrent : p.current with
      | none =>
        -- without a token even the attempt ends with a fault, and a fault is not undone
        rw [pointFirst_none hc hcurrent] at hrun
        contradiction
      | some t => exact (advance_undone hp hcurrent hback htext).bind fun _ => hrest

end undone

/-- Reading an expression only goes forward and writes nested text, at every depth. -/
theorem writes_expressionWithin {c : Compiler} (hc : c.IsPlain) (levels : Nat)
    (u : List Bracket) : Writes c u u (expressionWithin levels) := by
  induction levels generalizing u with
  | zero => exact .of_error fun _ => ⟨.exhausted, rfl⟩
  | succ levels ih =>
    rw [expressionWithin_succ]
    exact writes_expressionFrom hc ih

/-! What an accepted expression ends at. -/

section accepted
variable {c c' : Compiler} {down : Descent}

theorem ends_of_atEnd {closers : List String} (h : atEnd closers c = .ok true c') :
    ∀ t, c'.current = some t → t.isNewline = true ∨ t.isOneOf closers = true := by
  intro t ht
  cases hcurrent : c.current with
  | none =>
    simp [atEnd, hcurrent] at h
    simp [← h, hcurrent] at ht
  | some s =>
    simp [atEnd, hcurrent] at h
    rw [← h.2, hcurrent] at ht
    cases ht
    exact h.1

theorem atEnd_of_pointFirst (h : pointFirst down c = .ok true c') :
    ∃ d, atEnd [",", "]", ")"] d = .ok true c' := by
  obtain ⟨text, c₁, -, h⟩ := bind_eq_ok h
  rw [bind_apply, get_apply] at h
  dsimp only at h
  rw [tryCatch_apply] at h
  split at h
  · next done d hattempt =>
    cases h
    obtain ⟨found, c₂, -, hattempt⟩ := bind_eq_ok hattempt
    cases found with
    | false =>
      obtain ⟨_, _, -, hundone⟩ := bind_eq_ok hattempt
      cases hundone
    | true =>
      obtain ⟨_, c₃, -, hend⟩ := bind_eq_ok hattempt
      exact ⟨c₃, hend⟩
  · next e d _ =>
    split at h
    · obtain ⟨_, _, -, hundone⟩ := bind_eq_ok h
      cases hundone
    · contradiction

theorem ends_of_accepted (h : expressionFrom down c = .ok .accepted c') :
    ∀ t, c'.current = some t →
      t.isNewline = true ∨ t.isOneOf [",", "]", ")", "\x7d"] = true := by
  obtain ⟨done, c₁, hpoint, h⟩ := bind_eq_ok h
  cases done with
  | true =>
    cases h
    obtain ⟨d, hend⟩ := atEnd_of_pointFirst hpoint
    intro t ht
    refine (ends_of_atEnd hend t ht).imp_right fun hone => ?_
    obtain ⟨text, htext, his⟩ := List.any_eq_true.mp hone
    exact List.any_eq_true.mpr ⟨text, List.mem_append_left ["\x7d"] htext, his⟩
  | false =>
    obtain ⟨_, c₂, -, h⟩ := bind_eq_ok h
    obtain ⟨found, c₃, -, h⟩ := bind_eq_ok h
    cases found with
    | false => cases h
    | true =>
      obtain ⟨_, c₄, -, h⟩ := bind_eq_ok h
      obtain ⟨ended, c₅, hend, h⟩ := bind_eq_ok h
      cases ended with
      | false => cases h
      | true =>
        cases h
        exact ends_of_atEnd hend

end accepted

/-! The tokens of a text are plain, but for braces, exclamation marks, dots and notes. -/

namespace Lexer

theorem noBackslash_of_isName {word : List Char} (h : isName word = true) : '\\' ∉ word := by
  intro hmem
  exact absurd (all_isNameChar_of_isName h _ hmem) (by decide)

theorem Spells.noBackslash {t : Token} {word : List Char} (h : Spells t word)
    (hnote : t.isKind .note = false) : '\\' ∉ word := by
  have hone : ∀ {p : Char → Bool} {c : Char}, p c = true → p '\\' = false → '\\' ∉ [c] := by
    intro p c hc hp hmem
    rw [List.mem_singleton.mp hmem, hc] at hp
    contradiction
  cases h with
  | keyword hkey =>
    have hname := isName_of_mem_keywords _ hkey
    rw [String.toList_ofList] at hname
    exact noBackslash_of_isName hname
  | name hname => exact noBackslash_of_isName hname
  | numeral _ hall =>
    intro hmem
    exact absurd (List.all_eq_true.mp hall _ hmem) (by decide)
  | mark hmark => exact hone hmark (by decide)
  | arrow => decide
  | operator hop => exact hone hop (by decide)
  | note => contradiction

theorem Spells.ne_nil {t : Token} {word : List Char} (h : Spells t word) : word ≠ [] := by
  rintro rfl
  have hgap : atGap ([] ++ []) = false := atGap_append_of_spells h
  contradiction

theorem isKind_note_reserved (t : Token) : t.reserved.isKind .note = t.isKind .note := by
  unfold Token.reserved
  split
  · split <;> rfl
  · rfl

theorem plain_of_mem_read {text : String} {t : Token} (ht : t ∈ (read text).tokens)
    (hbrace : t.is "\x7b" = false) (hbang : t.is "!" = false) (hdot : t.is "." = false)
    (hnote : t.isKind .note = false) : Plain t := by
  rcases rereadable_of_mem_read ht with rfl | hspells
  · exact ⟨hbrace, hbang, hdot, by decide, by decide⟩
  · refine ⟨hbrace, hbang, hdot, hspells.noBackslash (isKind_note_reserved t ▸ hnote), ?_⟩
    rintro name hname rfl
    refine hspells.ne_nil ?_
    cases t with
    | numeral n => contradiction
    | word kind own =>
      cases kind <;> cases hname
      rfl

end Lexer

section document
variable {c c' : Compiler} {down : Descent}

theorem text?_of_expressionWithin {levels : Nat} {verdict : Verdict}
    (h : expressionWithin levels c = .ok verdict c') : ∃ text, c.text? = some text := by
  cases levels with
  | zero => cases h
  | succ levels =>
    rw [expressionWithin_succ] at h
    obtain ⟨_, _, hpoint, -⟩ := bind_eq_ok h
    obtain ⟨text, _, hlatex, -⟩ := bind_eq_ok hpoint
    exact ⟨text, text?_of_latex hlatex⟩

/-- Where the text goes to a document that was replaced, this one stays as it is. -/
theorem document_resume {entries : Array Entry} {entry : Entry} {old text added : String}
    {p : Progress} (hdocument : c.document = some (entries.push entry))
    (hold : entry.latex? = some old) (htext : c.text? = some text)
    (hgrown : p.text = text ++ added) (hnested : Nested added) :
    ∃ added', (c.resume p).document = some (entries.push (entry.setLatex (old ++ added'))) ∧
      Nested added' := by
  cases htarget : c.target with
  | nowhere => simp [Compiler.text?, Compiler.lastOpen?, Compiler.openEntries?, htarget] at htext
  | document =>
    have hsame : old = text := by
      simpa [Compiler.text?, Compiler.lastOpen?, Compiler.openEntries?, htarget, hdocument, hold]
        using htext
    refine ⟨added, ?_, hnested⟩
    simp [Compiler.resume, Compiler.withText, htarget, hdocument, hgrown, hsame]
  | discarded replaced =>
    refine ⟨"", ?_, by decide⟩
    rw [String.append_empty, Entry.setLatex_of_latex? hold, ← hdocument]
    simp [Compiler.resume, Compiler.withText, htarget]

end document

/-- Whatever the tokens are, reading an expression to any verdict adds nested text to the last
entry, goes forward and leaves the rest as it was. -/
theorem expression_leaves_no_trace {levels : Nat} {c c' : Compiler} {verdict : Verdict}
    {entries : Array Entry} {entry : Entry} {old : String}
    (hlexed : ∀ t ∈ c.tokens, ∃ text, t ∈ (Lexer.read text).tokens)
    (htokens : ∀ t ∈ c.tokens, t.is "\x7b" = false ∧ t.is "!" = false ∧ t.is "." = false ∧
      t.isKind .note = false)
    (hscope : ∀ name ∈ c.scope, Lexer.isName name.toList = true)
    (hfunctions : ∀ name ∈ c.functions, Lexer.isName name.toList = true)
    (hcurrent : c.current = Place.get? c.tokens c.position)
    (hdocument : c.document = some (entries.push entry)) (hold : entry.latex? = some old)
    (hread : expressionWithin levels c = .ok verdict c') :
    (∃ added, c'.document = some (entries.push (entry.setLatex (old ++ added))) ∧ Nested added) ∧
    (c'.tokens = c.tokens ∧ c'.scope = c.scope ∧ c'.functions = c.functions ∧
      c'.macros = c.macros ∧ c'.folder = c.folder ∧ c'.lastId = c.lastId) ∧
    c.position ≤ c'.position ∧
    (verdict = .accepted → ∀ t, c'.current = some t →
      t.isNewline = true ∨ t.isOneOf [",", "]", ")", "\x7d"] = true) := by
  obtain ⟨text, htext⟩ := text?_of_expressionWithin hread
  have hplain : c.IsPlain := by
    obtain ⟨own, hown, -⟩ := Option.bind_eq_some_iff.mp htext
    refine ⟨Option.isSome_iff_exists.mpr ⟨own, hown⟩, fun t ht => ?_, fun name hname => ?_,
      fun name hname => ⟨?_, ?_⟩⟩
    · obtain ⟨source, hsource⟩ := hlexed t ht
      obtain ⟨hbrace, hbang, hdot, hnote⟩ := htokens t ht
      exact Lexer.plain_of_mem_read hsource hbrace hbang hdot hnote
    · exact Lexer.noBackslash_of_isName (hscope name hname)
    · rintro rfl
      exact absurd (hfunctions "" hname) (by decide)
    · exact Lexer.noBackslash_of_isName (hfunctions name hname)
  have hsynced : (c.progress text).Synced c.tokens := fun t ht => hcurrent ▸ ht
  have houtcome := writes_expressionWithin hplain levels [] (c.progress text) hsynced
  rw [Compiler.resume_progress htext, hread] at houtcome
  obtain ⟨p, rfl, hgoes⟩ := houtcome
  obtain ⟨added, hgrown, hpiece⟩ := hgoes.grown
  refine ⟨document_resume hdocument hold htext hgrown hpiece.nested,
    ⟨rfl, rfl, rfl, rfl, rfl, rfl⟩, hgoes.forward, ?_⟩
  rintro rfl
  cases levels with
  | zero => cases hread
  | succ levels => exact ends_of_accepted hread

/-- At the beginning of an expression that has a numeral too many. -/
def overfull : Compiler :=
  { code := "((1)) 5"
    lines := ["((1)) 5"]
    tokens := #[.word .mark "(", .word .mark "(", .numeral 1, .word .mark ")", .word .mark ")",
      .numeral 5]
    current := some (.word .mark "(")
    position := 0
    line := 1
    names := Table.initial
    document := some (#[].push (.expression 1 "" none))
    target := .document }

theorem overfull_leaves_no_trace :
    ∃ reached, expressionWithin 8 overfull = .ok .dangling reached ∧ reached.position = 5 ∧
      (∃ added, reached.document = some (#[].push (.expression 1 ("" ++ added) none)) ∧
        Nested added) ∧
      reached.tokens = overfull.tokens := by
  have hrun : (match expressionWithin 8 overfull with
      | .ok verdict reached => some (verdict, reached.position)
      | .error _ _ => none) = some (.dangling, 5) := by
    decide +kernel
  have htokens : overfull.tokens.toList = (Lexer.read "((1)) 5").tokens := by decide
  cases hread : expressionWithin 8 overfull with
  | error e reached => simp [hread] at hrun
  | ok verdict reached =>
    obtain ⟨rfl, hposition⟩ : verdict = .dangling ∧ reached.position = 5 := by
      simpa [hread] using hrun
    obtain ⟨hwritten, ⟨hsame, -⟩, -, -⟩ := expression_leaves_no_trace
      (fun t ht => ⟨"((1)) 5", htokens ▸ Array.mem_toList_iff.mpr ht⟩) (by decide) (by decide)
      (by decide) (by decide) rfl rfl hread
    exact ⟨reached, rfl, hposition, hwritten, hsame⟩

end PlotScript
