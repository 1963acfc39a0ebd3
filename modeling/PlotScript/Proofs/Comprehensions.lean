import PlotScript.Proofs.Accepting
import PlotScript.Proofs.EntryIds
import PlotScript.Proofs.Pauses

/-! Comprehensions. One can be read only where a name stands, but whatever begins with a name is read
as a value before a comprehension is looked for. So in no script is there ever one: what is left of
the form is that a comma behind a token that begins nothing is a mistake. -/

namespace PlotScript
open Compile Grammar

section elsewhere
variable {c : Compiler} {t : Token} (ht : c.current = some t) (hname : t.isKind .name = false)
include ht hname

/-- In front of a comma a comprehension fails, since the comma is no `for`. -/
theorem comprehension_fails (down : Descent) {u : Token}
    (hu : Place.get? c.tokens (c.position + 1) = some u) (hcomma : u.is "," = true) :
    ∃ e d, comprehension down c = .error e d := by
  have hcurrent : current c = .ok t c := by simp [current, ht]
  have hnext : nextIs "," c = .ok true c := by simp [nextIs, peek, hu, hcomma]
  unfold comprehension
  simp only [bind_apply, hcurrent, hname, Bool.false_eq_true, if_false, hnext, if_true]
  cases hemit : emitFrom (wordText t) c with
  | error e d => exact ⟨e, d, rfl⟩
  | ok _ d =>
    -- writing leaves the cursor where it is, so one step further on stands the comma
    have hheld : Held c d := (held_emitFrom (.wordText t)).along hemit
    have hadvance := advance_of_some (hheld.current.trans ht)
    have hreached : (d.advanced t).current = some u := by
      unfold Compiler.advanced
      rw [hheld.tokens, hheld.position, hu]
    have hfor : u.is "for" = false := Token.is_of_is hcomma (by decide)
    have hlook : currentIs "for" (d.advanced t) = .ok false (d.advanced t) := by
      simp [currentIs, current, hreached, hfor]
    simp only [hadvance, hlook, Bool.false_eq_true, if_false, fail_bind, fail_apply]
    cases Diagnostic.locate "Expected 'for'" (d.advanced t).lines (d.advanced t).line with
    | ok m => exact ⟨_, _, rfl⟩
    | error e => exact ⟨_, _, rfl⟩

/-- Where no name stands a comprehension is refused in front of any token but a comma, and fails
everywhere else. -/
theorem comprehension_cases (down : Descent) :
    (∃ u, Place.get? c.tokens (c.position + 1) = some u ∧ u.is "," = false) ∧
        comprehension down c = .ok false c ∨
      (∀ u, Place.get? c.tokens (c.position + 1) = some u → u.is "," = true) ∧
        ∃ e d, comprehension down c = .error e d := by
  have hcurrent : current c = .ok t c := by simp [current, ht]
  cases hu : Place.get? c.tokens (c.position + 1) with
  | none =>
    refine .inr ⟨fun v hv => ?_, .outOfRange, c, ?_⟩
    · cases hv
    · simp [comprehension, hcurrent, hname, nextIs, peek, hu]
  | some u =>
    cases hcomma : u.is "," with
    | false =>
      refine .inl ⟨⟨u, rfl, hcomma⟩, ?_⟩
      simp [comprehension, hcurrent, hname, nextIs, peek, hu, hcomma]
    | true =>
      refine .inr ⟨?_, comprehension_fails ht hname down hu hcomma⟩
      rintro v ⟨⟩
      exact hcomma

end elsewhere

/-- Attempts that differ only behind the first. -/
theorem firstOf_cons_ok {x : Compile Bool} {xs ys : List (Compile Bool)} {c d : Compiler}
    {found : Bool} (h : firstOf (x :: xs) c = .ok found d)
    (hrest : ∀ m, x c = .ok false m → firstOf xs m = .ok found d → firstOf ys m = .ok found d) :
    firstOf (x :: ys) c = .ok found d := by
  rcases firstOf_cons_cases x xs c with ⟨e, m, -, hall⟩ | ⟨m, hrun, hall⟩ | ⟨m, hrun, hall⟩
  · rw [hall] at h
    cases h
  · rw [firstOf, bind_apply, hrun]
    rw [hall] at h
    exact h
  · rw [firstOf, bind_apply, hrun]
    rw [hall] at h
    exact hrest m hrun h

/-- Whatever is found to be a term, or to be none, is found so without comprehensions. -/
theorem firstOf_of_term {down : Descent} {c d : Compiler} {found : Bool}
    (h : term down c = .ok found d) :
    firstOf [call down, macroCall, value down, list down, point down, block down] c =
      .ok found d := by
  refine firstOf_cons_ok h fun m _ h => firstOf_cons_ok h fun c' _ h => ?_
  refine firstOf_cons_ok h fun v hvalue h => firstOf_cons_ok h fun l hlist h => ?_
  refine firstOf_cons_ok h fun p hpoint h => ?_
  obtain ⟨t, ht, hname⟩ := current_of_refused hvalue hlist hpoint
  rw [firstOf, bind_apply] at h
  rcases comprehension_cases ht hname down with ⟨-, hrefused⟩ | ⟨-, e, s, hfails⟩
  · rw [hrefused] at h
    exact h
  · rw [hfails] at h
    cases h

/-- Wherever a script looks for a comprehension, there is none: it is refused without a trace in front
of any token but a comma, and else it fails. So no term of any script is read as a comprehension. -/
theorem comprehension_never_accepted {files : Files} {code : String} {s : Compiler}
    (h : Reached files code (.entering .comprehension) s) (down : Descent) :
    (comprehension down s = .ok false s ∨ ∃ e d, comprehension down s = .error e d) ∧
      (comprehension down s = .ok false s ↔
        ∃ u, Place.get? s.tokens (s.position + 1) = some u ∧ u.is "," = false) ∧
      ∀ c found d, term down c = .ok found d →
        firstOf [call down, macroCall, value down, list down, point down, block down] c =
          .ok found d := by
  obtain ⟨t, ht, hname⟩ := h.fits
  refine ⟨?_, ?_, fun c found d => firstOf_of_term⟩
  · exact (comprehension_cases ht hname down).imp And.right And.right
  · rcases comprehension_cases ht hname down with ⟨hnext, hrefused⟩ | ⟨hcomma, e, d, hfails⟩
    · exact ⟨fun _ => hnext, fun _ => hrefused⟩
    · rw [hfails]
      refine ⟨fun hrefused => ?_, ?_⟩
      · cases hrefused
      · rintro ⟨u, hu, hother⟩
        rw [hcomma u hu] at hother
        cases hother

/-- The form itself has its uses: from a name on there can be a comprehension. -/
example : ((Compiler.ofCode [] "i for i = [1]").toOption.bind fun c =>
    (beginEntry >>= fun _ => comprehension (descent 9)).run' c) = some true := by
  decide +kernel

/-- A conditional, and a word that begins nothing in front of a comma. -/
def stray : String := "if 1 < 2 \x7b3\x7d\nfor, 4"

/-- Whether a comma follows where a comprehension is looked for on a line. -/
def commaOn (line : Int) : Option Bool :=
  (Compiler.ofCode [] stray).toOption.bind fun c =>
    let watch : Watch := fun moment s => moment = .entering .comprehension && s.line = line
    (stopped? (program (Watched.descent watch 9) { c with line := c.line + 1 })).bind fun s =>
      (Place.get? s.tokens (s.position + 1)).map (Token.is · ",")

theorem exists_of_commaOn {line : Int} {comma : Bool} (h : commaOn line = some comma) :
    ∃ s u, Reached [] stray (.entering .comprehension) s ∧
      Place.get? s.tokens (s.position + 1) = some u ∧ u.is "," = comma := by
  obtain ⟨c, hcode, hprogram⟩ := Option.bind_eq_some_iff.mp h
  obtain ⟨s, hstopped, hnext⟩ := Option.bind_eq_some_iff.mp hprogram
  obtain ⟨u, hu, hcomma⟩ := Option.map_eq_some_iff.mp hnext
  refine ⟨s, u, reached_of_stopped? hcode (fun m s' hm => ?_) hstopped, hu, hcomma⟩
  exact of_decide_eq_true (Bool.and_eq_true_iff.mp hm).1

/-- On the first line a comprehension is refused, and on the second it fails. -/
theorem stray_never_accepted :
    (∃ s, Reached [] stray (.entering .comprehension) s ∧
      comprehension (descent 9) s = .ok false s) ∧
    ∃ s e d, Reached [] stray (.entering .comprehension) s ∧
      comprehension (descent 9) s = .error e d := by
  constructor
  · have hfirst : commaOn 1 = some false := by decide +kernel
    obtain ⟨s, u, hreached, hu, hother⟩ := exists_of_commaOn hfirst
    have hexact := (comprehension_never_accepted hreached (descent 9)).2.1
    exact ⟨s, hreached, hexact.mpr ⟨u, hu, hother⟩⟩
  · have hsecond : commaOn 2 = some true := by decide +kernel
    obtain ⟨s, u, hreached, hu, hcomma⟩ := exists_of_commaOn hsecond
    obtain ⟨heither, hexact, -⟩ := comprehension_never_accepted hreached (descent 9)
    rcases heither with hrefused | ⟨e, d, hfails⟩
    · obtain ⟨v, hv, hother⟩ := hexact.mp hrefused
      obtain rfl : u = v := Option.some.inj (hu.symm.trans hv)
      rw [hcomma] at hother
      cases hother
    · exact ⟨s, e, d, hreached, hfails⟩

end PlotScript
