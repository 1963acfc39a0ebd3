import PlotScript.Grammar.Expression
import PlotScript.Proofs.Naming
import PlotScript.Proofs.Nesting

/-! Actions that only go forward and write. Such an action may end with a mistake anywhere; where
it ends well the text has grown by a piece that takes the open brackets from `u` to `v`. -/

namespace PlotScript
open Compile Grammar Latex

/-- Tokens of expressions without blocks, macros and dots. -/
structure Plain (t : Token) : Prop where
  notBrace : t.is "\x7b" = false
  notBang : t.is "!" = false
  notDot : t.is "." = false
  noBackslash : '\\' ∉ t.shown.toList
  named : ∀ name, t.name? = some name → name ≠ ""

/-- A state with plain tokens, and with names that have no backslash. -/
structure Compiler.IsPlain (c : Compiler) : Prop where
  isOpen : c.IsOpen
  tokens : ∀ t ∈ c.tokens, Plain t
  scope : ∀ name ∈ c.scope, '\\' ∉ name.toList
  functions : ∀ name ∈ c.functions, name ≠ "" ∧ '\\' ∉ name.toList

theorem Compiler.IsPlain.of_get? {c : Compiler} (hc : c.IsPlain) {place : Int} {t : Token}
    (h : Place.get? c.tokens place = some t) : Plain t := by
  obtain ⟨i, -, hi⟩ := Option.bind_eq_some_iff.mp h
  exact hc.tokens t (Array.mem_of_getElem? hi)

theorem Plain.of_name? {t : Token} (ht : Plain t) {name : String} (h : t.name? = some name) :
    name ≠ "" ∧ '\\' ∉ name.toList := by
  have hshown : t.shown = name := by
    unfold Token.name? at h
    split at h
    · exact Option.some.inj h
    · contradiction
  exact ⟨ht.named name h, hshown ▸ ht.noBackslash⟩

namespace Progress

/-- The current token, if there is one, is the token at the position. -/
def Synced (p : Progress) (tokens : Array Token) : Prop :=
  ∀ t, p.current = some t → Place.get? tokens p.position = some t

/-- From one progress to a later one, with a piece of text written. -/
structure Goes (tokens : Array Token) (u v : List Bracket) (p p' : Progress) : Prop where
  synced : p'.Synced tokens
  forward : p.position ≤ p'.position
  grown : ∃ added, p'.text = p.text ++ added ∧ Piece u v added

theorem Goes.trans {tokens : Array Token} {u v w : List Bracket} {p q r : Progress}
    (hpq : p.Goes tokens u v q) (hqr : q.Goes tokens v w r) : p.Goes tokens u w r := by
  obtain ⟨a, ha, hpiece⟩ := hpq.grown
  obtain ⟨b, hb, hpiece'⟩ := hqr.grown
  refine ⟨hqr.synced, Int.le_trans hpq.forward hqr.forward, a ++ b, ?_, hpiece.append hpiece'⟩
  rw [hb, ha, String.append_assoc]

/-- Nothing is written, and the position does not go back. -/
theorem Goes.of_text_eq {tokens : Array Token} {u : List Bracket} {p p' : Progress}
    (hsynced : p'.Synced tokens) (hforward : p.position ≤ p'.position) (htext : p'.text = p.text) :
    p.Goes tokens u u p' :=
  ⟨hsynced, hforward, "", by rw [htext, String.append_empty], .plain (by decide)⟩

theorem synced_movedTo (p : Progress) (tokens : Array Token) (place : Int) :
    (p.movedTo tokens place).Synced tokens := by
  intro t ht
  unfold movedTo at ht ⊢
  split at ht
  · next u hu =>
    cases ht
    simp [hu]
  · contradiction

end Progress

/-- What may come of an action: after a mistake the state may be anywhere on the way. -/
def Outcome {α : Type} (c : Compiler) (u v : List Bracket) (p : Progress) :
    EStateM.Result Fault Compiler α → Prop
  | .ok _ c' => ∃ p', c' = c.resume p' ∧ p.Goes c.tokens u v p'
  | .error e c' => ∀ d, e = .diagnostic d → ∃ p', c' = c.resume p'

theorem Outcome.of_error {α : Type} {c : Compiler} {u v : List Bracket} {p q : Progress}
    {result : EStateM.Result Fault Compiler α} {e : Fault} (h : result = .error e (c.resume q)) :
    Outcome c u v p result := by
  rw [h]
  exact fun _ _ => ⟨q, rfl⟩

theorem Outcome.of_goes {α : Type} {c : Compiler} {u v w : List Bracket} {p q : Progress}
    {result : EStateM.Result Fault Compiler α} (h : Outcome c v w q result)
    (hpq : p.Goes c.tokens u v q) : Outcome c u w p result := by
  cases result with
  | error e d => exact h
  | ok a d =>
    -- both parts only go forward and write, and so does the whole
    obtain ⟨r, rfl, hqr⟩ := h
    exact ⟨r, rfl, hpq.trans hqr⟩

/-- The action only goes forward and writes pieces that lead from `u` to `v`. -/
def Writes {α : Type} (c : Compiler) (u v : List Bracket) (x : Compile α) : Prop :=
  ∀ p : Progress, p.Synced c.tokens → Outcome c u v p (x (c.resume p))

theorem Outcome.bind {α β : Type} {c d : Compiler} {u v w : List Bracket} {p : Progress}
    {x : Compile α} {f : α → Compile β} (hx : Outcome c u v p (x d))
    (hf : ∀ a, Writes c v w (f a)) : Outcome c u w p ((x >>= f) d) := by
  rw [bind_apply]
  cases hrun : x d with
  | error e d' =>
    rw [hrun] at hx
    exact hx
  | ok a d' =>
    rw [hrun] at hx
    obtain ⟨q, rfl, hpq⟩ := hx
    exact (hf a q hpq.synced).of_goes hpq

namespace Writes
variable {α β : Type} {c : Compiler} {u v w : List Bracket}

theorem bind {x : Compile α} {f : α → Compile β} (hx : Writes c u v x)
    (hf : ∀ a, Writes c v w (f a)) : Writes c u w (x >>= f) :=
  fun p hp => (hx p hp).bind hf

/-- An action that leaves the state as it is, whatever it gives. -/
theorem of_unchanged {x : Compile α} (h : ∀ p : Progress, p.Synced c.tokens →
    (∃ a, x (c.resume p) = .ok a (c.resume p)) ∨ ∃ e, x (c.resume p) = .error e (c.resume p)) :
    Writes c u u x := by
  intro p hp
  rcases h p hp with ⟨a, ha⟩ | ⟨e, he⟩
  · rw [ha]
    exact ⟨p, rfl, .of_text_eq hp (Int.le_refl _) rfl⟩
  · exact .of_error he

theorem pure (a : α) : Writes c u u (Pure.pure a : Compile α) :=
  of_unchanged fun _ _ => .inl ⟨a, rfl⟩

theorem ite {b : Bool} {x y : Compile α} (hx : Writes c u v x) (hy : Writes c u v y) :
    Writes c u v (if b then x else y) := by
  cases b
  · exact hy
  · exact hx

/-- An action that always ends with a mistake or a fault where it stands. -/
theorem of_error {x : Compile α}
    (h : ∀ p, ∃ e, x (c.resume p) = .error e (c.resume p)) : Writes c u v x := by
  intro p _
  obtain ⟨e, he⟩ := h p
  exact .of_error he

theorem throw (e : Fault) : Writes c u v (throw e : Compile α) :=
  of_error fun _ => ⟨e, rfl⟩

theorem fail (message : String) : Writes c u v (Compile.fail message : Compile α) := by
  refine of_error fun p => ?_
  rw [fail_apply]
  split
  · exact ⟨_, rfl⟩
  · exact ⟨_, rfl⟩

theorem discard {x : Compile α} (hx : Writes c u v x) : Writes c u v (Functor.discard x) := by
  intro p hp
  have hrun := hx p hp
  rw [discard_apply]
  cases hresult : x (c.resume p) <;> rw [hresult] at hrun <;> exact hrun

/-- A test, with a mistake where it fails. -/
theorem orFail {x : Compile Bool} (hx : Writes c u u x) (message : String) {rest : Compile β}
    (h : Writes c u v rest) : Writes c u v (do
      unless ← x do Compile.fail message
      rest) :=
  hx.bind fun _ => ite h ((fail message).bind fun _ => h)

/-- The rest, where one of two tests succeeds. -/
theorem unlessEither {b : Bool} {x rest : Compile Bool} (hx : Writes c u u x)
    (h : Writes c u u rest) : Writes c u u (do
      unless b do
        unless ← x do return false
      rest) :=
  ite h (hx.bind fun _ => ite h (pure false))

theorem loop {round : Compile Bool} (h : Writes c u u round) (rounds : Nat) :
    Writes c u u (Compile.loop round rounds) := by
  induction rounds with
  | zero => exact throw .exhausted
  | succ rounds ih => exact h.bind fun done => ite (pure ()) ih

theorem firstOf {attempts : List (Compile Bool)} (h : ∀ x ∈ attempts, Writes c u u x) :
    Writes c u u (Compile.firstOf attempts) := by
  induction attempts with
  | nil => exact pure false
  | cons x attempts ih =>
    exact (h x (by simp)).bind fun done => ite (pure true) (ih fun y hy => h y (by simp [hy]))

/-! The cursor. -/

theorem advance : Writes c u u Compile.advance := by
  intro p hp
  cases hcurrent : p.current with
  | none =>
    exact .of_error (q := p) (e := .noToken) (by simp [Compile.advance, current, hcurrent])
  | some t =>
    rw [advance_resume hcurrent]
    refine ⟨_, rfl, .of_text_eq (Progress.synced_movedTo _ _ _) ?_ ?_⟩
    · unfold Progress.movedTo Progress.leaving
      split
      · exact Int.le_add_one (Int.le_refl _)
      · exact Int.le_refl _
    · unfold Progress.movedTo Progress.leaving
      split <;> rfl

/-- The current token is one of the tokens. -/
theorem current_bind (hc : c.IsPlain) {f : Token → Compile β}
    (hf : ∀ t, Plain t → Writes c u v (f t)) : Writes c u v (current >>= f) := by
  intro p hp
  cases hcurrent : p.current with
  | none => exact .of_error (q := p) (e := .noToken) (by simp [current, hcurrent])
  | some t =>
    rw [bind_apply, current_resume hcurrent]
    exact hf t (hc.of_get? (hp t hcurrent)) p hp

theorem currentIs (text : String) : Writes c u u (Compile.currentIs text) := by
  refine of_unchanged fun p _ => ?_
  cases hcurrent : p.current with
  | none => exact .inr ⟨.noToken, by simp [Compile.currentIs, current, hcurrent]⟩
  | some t => exact .inl ⟨_, currentIs_resume hcurrent text⟩

theorem nextIs (text : String) : Writes c u u (Compile.nextIs text) := by
  refine of_unchanged fun p _ => ?_
  cases hnext : Place.get? c.tokens (p.position + 1) with
  | none => exact .inr ⟨.outOfRange, by simp [Compile.nextIs, peek, hnext]⟩
  | some t => exact .inl ⟨_, nextIs_resume hnext text⟩

/-- A word that is not among the tokens does not come next, -/
theorem nextIs_bind (hc : c.IsPlain) {word : String} (hword : ∀ t, Plain t → t.is word = false)
    {f : Bool → Compile β} (hf : Writes c u v (f false)) :
    Writes c u v (Compile.nextIs word >>= f) := by
  intro p hp
  cases hnext : Place.get? c.tokens (p.position + 1) with
  | none =>
    exact .of_error (q := p) (e := .outOfRange) (by simp [Compile.nextIs, peek, hnext])
  | some t =>
    rw [bind_apply, nextIs_resume hnext, hword t (hc.of_get? hnext)]
    exact hf p hp

/-- and is not the current one. -/
theorem currentIs_bind (hc : c.IsPlain) {word : String} (hword : ∀ t, Plain t → t.is word = false)
    {f : Bool → Compile β} (hf : Writes c u v (f false)) :
    Writes c u v (Compile.currentIs word >>= f) := by
  intro p hp
  cases hcurrent : p.current with
  | none =>
    exact .of_error (q := p) (e := .noToken) (by simp [Compile.currentIs, current, hcurrent])
  | some t =>
    rw [bind_apply, currentIs_resume hcurrent, hword t (hc.of_get? (hp t hcurrent))]
    exact hf p hp

/-! Writing. -/

theorem latex (hc : c.IsPlain) : Writes c u u Compile.latex :=
  of_unchanged fun p _ => .inl ⟨p.text, latex_resume hc.isOpen⟩

theorem emitFrom (hc : c.IsPlain) {piece : Compile String} {text : String}
    (hpiece : ∀ p, piece (c.resume p) = .ok text (c.resume p)) (h : Piece u v text) :
    Writes c u v (Compile.emitFrom piece) := by
  intro p hp
  rw [emitFrom_resume hc.isOpen (hpiece p)]
  exact ⟨_, rfl, hp, Int.le_refl _, text, rfl, h⟩

theorem emit (hc : c.IsPlain) {text : String} (h : Piece u v text) :
    Writes c u v (Compile.emit text) :=
  emitFrom hc (fun _ => rfl) h

end Writes
end PlotScript
