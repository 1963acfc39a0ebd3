import PlotScript.Program
import PlotScript.Proofs.Progress

/-! Actions that never go back. What counts is how many tokens are left: an action may end where it
began or further on, and two actions that are alike do the same wherever few enough are left. -/

namespace PlotScript
open Compile Grammar

namespace Compiler

/-- How many tokens are left, the current one included; none without a current token. -/
def remaining (c : Compiler) : Nat :=
  if c.current.isSome then (c.tokens.size - c.position).toNat else 0

/-- The current token, if there is one, is that at the position. -/
structure Settled (ts : Array Token) (c : Compiler) : Prop where
  tokens : c.tokens = ts
  current : ∀ t, c.current = some t → 0 ≤ c.position ∧ Place.get? ts c.position = some t

theorem lt_size_of_get? {ts : Array Token} {place : Int} {t : Token} (hplace : 0 ≤ place)
    (h : Place.get? ts place = some t) : place < ts.size := by
  obtain ⟨i, rfl⟩ := Int.eq_ofNat_of_zero_le hplace
  rw [Place.get?_natCast] at h
  exact Int.ofNat_lt.mpr (Array.getElem?_eq_some_iff.mp h).1

theorem remaining_eq_zero {c : Compiler} (h : c.current = none) : c.remaining = 0 := by
  simp [remaining, h]

theorem isOpen_of_push {c : Compiler} {entries : Array Entry} (h : c.openEntries? = some entries)
    (more : Array Entry) (entry : Entry) : (c.setOpenEntries (more.push entry)).IsOpen := by
  unfold IsOpen lastOpen?
  cases htarget : c.target with
  | nowhere => simp [openEntries?, htarget] at h
  | document => simp [openEntries?, setOpenEntries, htarget]
  | discarded old => simp [openEntries?, setOpenEntries, htarget]

theorem setOpenEntries_frame (c : Compiler) (entries : Array Entry) :
    (c.setOpenEntries entries).tokens = c.tokens ∧
      (c.setOpenEntries entries).current = c.current ∧
      (c.setOpenEntries entries).position = c.position := by
  unfold setOpenEntries
  split <;> exact ⟨rfl, rfl, rfl⟩

end Compiler

/-- A state that is not before another one. -/
structure Later (ts : Array Token) (c c' : Compiler) : Prop where
  settled : c'.Settled ts
  remaining_le : c'.remaining ≤ c.remaining
  isOpen : c.IsOpen → c'.IsOpen

theorem Later.refl {ts : Array Token} {c : Compiler} (h : c.Settled ts) : Later ts c c :=
  ⟨h, Nat.le_refl _, id⟩

theorem Later.trans {ts : Array Token} {a b c : Compiler} (hab : Later ts a b)
    (hbc : Later ts b c) : Later ts a c :=
  ⟨hbc.settled, Nat.le_trans hbc.remaining_le hab.remaining_le, hbc.isOpen ∘ hab.isOpen⟩

/-- Only the cursor, the tokens and the entries matter here. -/
theorem Later.of_frame {ts : Array Token} {c c' : Compiler} (h : c.Settled ts)
    (htokens : c'.tokens = c.tokens) (hcurrent : c'.current = c.current)
    (hposition : c'.position = c.position) (hopen : c.IsOpen → c'.IsOpen) : Later ts c c' := by
  refine ⟨⟨htokens.trans h.tokens, ?_⟩, ?_, hopen⟩
  · rw [hcurrent, hposition]
    exact h.current
  · simp [Compiler.remaining, htokens, hcurrent, hposition]

/-- A fault that can come up in a state: a mistake is one on the current line, and there is always
a budget left. -/
def Compiler.Blames (c : Compiler) : Fault → Prop
  | .diagnostic d => d.line = c.line
  | .exhausted => False
  | _ => True

/-- Any result of an action may leave the cursor where it was. -/
abbrev Anywhere {α : Type} (_ : α) : Prop := True

/-- What comes of an action: its end is never earlier than its beginning, and strictly later if
the result is not one that `stays`. -/
def Onward {α : Type} (ts : Array Token) (stays : α → Prop) (c : Compiler) :
    EStateM.Result Fault Compiler α → Prop
  | .ok a c' => Later ts c c' ∧ (stays a ∨ c'.remaining < c.remaining)
  | .error e c' => Later ts c c' ∧ c'.Blames e

/-- Two actions do the same wherever less than `k` tokens are left, and go on from there. -/
def Alike {α : Type} (ts : Array Token) (k : Nat) (stays : α → Prop) (x y : Compile α) : Prop :=
  ∀ c : Compiler, c.Settled ts → c.remaining < k → y c = x c ∧ Onward ts stays c (x c)

theorem Onward.of_later {α : Type} {ts : Array Token} {stays : α → Prop} {c d : Compiler}
    {result : EStateM.Result Fault Compiler α} (hcd : Later ts c d)
    (h : Onward ts stays d result) : Onward ts stays c result := by
  have hle := hcd.remaining_le
  cases result with
  | ok a c' => exact ⟨hcd.trans h.1, h.2.imp_right fun hlt => Nat.lt_of_lt_of_le hlt hle⟩
  | error e c' => exact ⟨hcd.trans h.1, h.2⟩

/-- Once something was passed it does not matter what stays. -/
theorem Onward.of_lt {α : Type} {ts : Array Token} {stays others : α → Prop} {c d : Compiler}
    {result : EStateM.Result Fault Compiler α} (hcd : Later ts c d)
    (hlt : d.remaining < c.remaining) (h : Onward ts others d result) :
    Onward ts stays c result := by
  cases result with
  | ok a c' => exact ⟨hcd.trans h.1, .inr (Nat.lt_of_le_of_lt h.1.remaining_le hlt)⟩
  | error e c' => exact ⟨hcd.trans h.1, h.2⟩

theorem Onward.endingQuietly {ts : Array Token} {stays : Unit → Prop} {x : Compile Unit}
    {c d : Compiler} (h : Onward ts stays c (x d)) :
    Onward ts Anywhere c (Compile.endingQuietly x d) := by
  unfold Compile.endingQuietly
  rw [tryCatch_apply]
  cases hrun : x d with
  | ok _ d' =>
    rw [hrun] at h
    exact ⟨h.1, .inl trivial⟩
  | error e d' =>
    rw [hrun] at h
    cases hmismatch : e.isMismatch with
    | true =>
      simp only [hmismatch, if_true]
      exact ⟨h.1, .inl trivial⟩
    | false =>
      simp only [hmismatch, Bool.false_eq_true, if_false]
      exact h

namespace Alike
variable {α β : Type} {ts : Array Token} {k l : Nat} {stays : α → Prop} {others : β → Prop}

theorem mono {x y : Compile α} (h : Alike ts l stays x y) (hkl : k ≤ l) :
    Alike ts k stays x y :=
  fun c hc hk => h c hc (Nat.lt_of_lt_of_le hk hkl)

theorem weaken {stays' : α → Prop} {x y : Compile α} (h : Alike ts k stays x y)
    (hstays : ∀ a, stays a → stays' a) : Alike ts k stays' x y := by
  intro c hc hk
  obtain ⟨heq, honward⟩ := h c hc hk
  refine ⟨heq, ?_⟩
  cases hx : x c with
  | ok a c' =>
    rw [hx] at honward
    exact ⟨honward.1, honward.2.imp_left (hstays a)⟩
  | error e c' =>
    rw [hx] at honward
    exact honward

theorem anywhere {x y : Compile α} (h : Alike ts k stays x y) : Alike ts k Anywhere x y :=
  h.weaken fun _ _ => trivial

/-- An action on its own. -/
theorem of_onward {x : Compile α} (h : ∀ c, c.Settled ts → Onward ts stays c (x c)) :
    Alike ts k stays x x :=
  fun c hc _ => ⟨rfl, h c hc⟩

theorem pure {a : α} (h : stays a) : Alike ts k stays (Pure.pure a : Compile α) (Pure.pure a) :=
  of_onward fun _ hc => ⟨.refl hc, .inl h⟩

theorem throw {e : Fault} (h : ∀ c : Compiler, c.Blames e) :
    Alike ts k stays (throw e : Compile α) (throw e) :=
  of_onward fun c hc => ⟨.refl hc, h c⟩

theorem fail (message : String) :
    Alike ts k stays (Compile.fail message : Compile α) (Compile.fail message) := by
  refine of_onward fun c hc => ?_
  rw [fail_apply]
  unfold Diagnostic.locate
  cases Place.get? c.lines.toArray (c.line - 1) with
  | none => exact ⟨.refl hc, trivial⟩
  | some source => exact ⟨.refl hc, rfl⟩

/-- What would follow a mistake does not matter. -/
theorem fail_bind {γ : Type} (message : String) {f f' : γ → Compile α} :
    Alike ts k stays (Compile.fail message >>= f) (Compile.fail message >>= f') := by
  rw [Compile.fail_bind, Compile.fail_bind]
  exact fail message

theorem ite {b : Bool} {x y x' y' : Compile α} (hx : Alike ts k stays x x')
    (hy : Alike ts k stays y y') :
    Alike ts k stays (if b then x else y) (if b then x' else y') := by
  cases b
  · exact hy
  · exact hx

/-- From a state that was reached from `c`, an action and then two that are alike. -/
theorem bind_onward {x : Compile α} {f f' : α → Compile β} {c d : Compiler}
    (hx : Onward ts stays c (x d)) (hk : c.remaining < k)
    (hf : ∀ a, Alike ts k others (f a) (f' a)) :
    (x >>= f') d = (x >>= f) d ∧ Onward ts others c ((x >>= f) d) := by
  rw [bind_apply, bind_apply]
  cases hrun : x d with
  | error e d' =>
    rw [hrun] at hx
    exact ⟨rfl, hx⟩
  | ok a d' =>
    rw [hrun] at hx
    have hlater := hx.1
    have hbound := Nat.lt_of_le_of_lt hlater.remaining_le hk
    obtain ⟨hsame, hnext⟩ := hf a d' hlater.settled hbound
    exact ⟨hsame, hnext.of_later hlater⟩

theorem bind {x x' : Compile α} {f f' : α → Compile β} (hx : Alike ts k stays x x')
    (hf : ∀ a, Alike ts k others (f a) (f' a)) : Alike ts k others (x >>= f) (x' >>= f') := by
  intro c hc hk
  obtain ⟨heq, honward⟩ := hx c hc hk
  have hswitch : (x' >>= f') c = (x >>= f') c := by rw [bind_apply, bind_apply, heq]
  rw [hswitch]
  exact bind_onward honward hk hf

/-- Behind a result that does not stay there is one token less to go. -/
theorem bind_passing {x x' : Compile α} {f f' : α → Compile β}
    (hx : Alike ts (k + 1) stays x x')
    (hstays : ∀ a, stays a → Alike ts (k + 1) others (f a) (f' a))
    (hpasses : ∀ a, ¬ stays a → Alike ts k Anywhere (f a) (f' a)) :
    Alike ts (k + 1) others (x >>= f) (x' >>= f') := by
  intro c hc hk
  obtain ⟨heq, honward⟩ := hx c hc hk
  rw [bind_apply, bind_apply, heq]
  cases hrun : x c with
  | error e d =>
    rw [hrun] at honward
    exact ⟨rfl, honward⟩
  | ok a d =>
    rw [hrun] at honward
    obtain ⟨hlater, hmoved⟩ := honward
    by_cases ha : stays a
    · have hbound := Nat.lt_of_le_of_lt hlater.remaining_le hk
      obtain ⟨hsame, hnext⟩ := hstays a ha d hlater.settled hbound
      exact ⟨hsame, hnext.of_later hlater⟩
    · have hlt := hmoved.resolve_left ha
      have hbound : d.remaining < k := by omega
      obtain ⟨hsame, hnext⟩ := hpasses a ha d hlater.settled hbound
      exact ⟨hsame, hnext.of_lt hlater hlt⟩

theorem discard {x x' : Compile α} (hx : Alike ts k stays x x') :
    Alike ts k Anywhere (Functor.discard x) (Functor.discard x') := by
  intro c hc hk
  obtain ⟨heq, honward⟩ := hx c hc hk
  rw [discard_apply, discard_apply, heq]
  cases hrun : x c with
  | error e d =>
    rw [hrun] at honward
    exact ⟨rfl, honward⟩
  | ok a d =>
    rw [hrun] at honward
    exact ⟨rfl, honward.1, .inl trivial⟩

theorem tryCatch {x x' : Compile α} {h h' : Fault → Compile α} (hx : Alike ts k Anywhere x x')
    (hh : ∀ e (c : Compiler), c.Settled ts → c.remaining < k → c.Blames e →
      h' e c = h e c ∧ Onward ts Anywhere c (h e c)) :
    Alike ts k Anywhere (MonadExcept.tryCatch x h) (MonadExcept.tryCatch x' h') := by
  intro c hc hk
  obtain ⟨heq, honward⟩ := hx c hc hk
  rw [tryCatch_apply, tryCatch_apply, heq]
  cases hrun : x c with
  | ok a d =>
    rw [hrun] at honward
    exact ⟨rfl, honward⟩
  | error e d =>
    rw [hrun] at honward
    obtain ⟨hlater, he⟩ := honward
    have hbound := Nat.lt_of_le_of_lt hlater.remaining_le hk
    obtain ⟨hsame, hnext⟩ := hh e d hlater.settled hbound he
    exact ⟨hsame, hnext.of_later hlater⟩

theorem endingQuietly {x x' : Compile Unit} (hx : Alike ts k Anywhere x x') :
    Alike ts k Anywhere (Compile.endingQuietly x) (Compile.endingQuietly x') := by
  intro c hc hk
  obtain ⟨heq, honward⟩ := hx c hc hk
  refine ⟨?_, honward.endingQuietly⟩
  unfold Compile.endingQuietly
  rw [tryCatch_apply, tryCatch_apply, heq]

/-- A test, with a mistake where it fails. -/
theorem orFail {x x' : Compile Bool} (hx : Alike ts k Anywhere x x') (message : String)
    {rest rest' : Compile β} (h : Alike ts k others rest rest') :
    Alike ts k others
      (do
        unless ← x do Compile.fail message
        rest)
      (do
        unless ← x' do Compile.fail message
        rest') := by
  have hfail : Alike ts k Anywhere (Compile.fail message : Compile PUnit) (Compile.fail message) :=
    fail message
  exact hx.bind fun _ => ite h (hfail.bind fun _ => h)

/-- The rest, where one of two tests succeeds. -/
theorem unlessEither {b : Bool} {x x' rest rest' : Compile Bool} (hx : Alike ts k Anywhere x x')
    (h : Alike ts k Anywhere rest rest') :
    Alike ts k Anywhere
      (do
        unless b do
          unless ← x do return false
        rest)
      (do
        unless b do
          unless ← x' do return false
        rest') :=
  ite h (hx.bind fun _ => ite h (pure trivial))

theorem firstOf_nil : Alike ts k Anywhere (Compile.firstOf []) (Compile.firstOf []) :=
  pure trivial

theorem firstOf_cons {x x' : Compile Bool} {xs xs' : List (Compile Bool)}
    (hx : Alike ts k Anywhere x x')
    (hxs : Alike ts k Anywhere (Compile.firstOf xs) (Compile.firstOf xs')) :
    Alike ts k Anywhere (Compile.firstOf (x :: xs)) (Compile.firstOf (x' :: xs')) :=
  hx.bind fun _ => ite (pure trivial) hxs

/-- A repetition whose rounds go on to later tokens comes to its end. -/
theorem loop {x x' : Compile Bool} (h : Alike ts k (· = true) x x') {n n' : Nat} (hn : k ≤ n)
    (hn' : k ≤ n') : Alike ts k Anywhere (Compile.loop x n) (Compile.loop x' n') := by
  have hrounds : ∀ (n n' : Nat) (c : Compiler), c.Settled ts → c.remaining < k →
      c.remaining < n → c.remaining < n' →
      Compile.loop x' n' c = Compile.loop x n c ∧ Onward ts Anywhere c (Compile.loop x n c) := by
    intro n
    induction n with
    | zero => exact fun _ _ _ _ hn _ => absurd hn (Nat.not_lt_zero _)
    | succ n ih =>
      intro n' c hc hk hn hn'
      obtain ⟨m, rfl⟩ : ∃ m, n' = m + 1 := ⟨n' - 1, by omega⟩
      obtain ⟨heq, honward⟩ := h c hc hk
      simp only [Compile.loop, bind_apply, heq]
      cases hrun : x c with
      | error e d =>
        rw [hrun] at honward
        exact ⟨rfl, honward⟩
      | ok done d =>
        rw [hrun] at honward
        obtain ⟨hlater, hmoved⟩ := honward
        cases done with
        | true => exact ⟨rfl, hlater, .inl trivial⟩
        | false =>
          have hlt : d.remaining < c.remaining := hmoved.resolve_left (by decide)
          obtain ⟨hsame, hnext⟩ := ih m d hlater.settled (by omega) (by omega) (by omega)
          exact ⟨hsame, hnext.of_later hlater⟩
  intro c hc hk
  exact hrounds n n' c hc hk (by omega) (by omega)

/-! The cursor. -/

theorem unchanged {x : Compile α} (h : ∀ c : Compiler, (∃ a, stays a ∧ x c = .ok a c) ∨
    ∃ e, c.Blames e ∧ x c = .error e c) : Alike ts k stays x x := by
  refine of_onward fun c hc => ?_
  rcases h c with ⟨a, ha, hrun⟩ | ⟨e, he, hrun⟩
  · rw [hrun]
    exact ⟨.refl hc, .inl ha⟩
  · rw [hrun]
    exact ⟨.refl hc, he⟩

theorem get : Alike ts k Anywhere (MonadState.get : Compile Compiler) MonadState.get :=
  unchanged fun c => .inl ⟨c, trivial, rfl⟩

theorem current : Alike ts k Anywhere Compile.current Compile.current := by
  refine unchanged fun c => ?_
  cases hcurrent : c.current with
  | none => exact .inr ⟨.noToken, trivial, by simp [Compile.current, hcurrent]⟩
  | some t => exact .inl ⟨t, trivial, by simp [Compile.current, hcurrent]⟩

theorem currentIs (text : String) :
    Alike ts k Anywhere (Compile.currentIs text) (Compile.currentIs text) :=
  current.bind fun _ => pure trivial

/-- Where a test of the current token succeeds there is one. -/
theorem currentIs_bind {text : String} {f f' : Bool → Compile α}
    (h : ∀ b (c : Compiler), c.Settled ts → c.remaining < k → c.current.isSome = true →
      f' b c = f b c ∧ Onward ts stays c (f b c)) :
    Alike ts k stays (Compile.currentIs text >>= f) (Compile.currentIs text >>= f') := by
  intro c hc hk
  cases hcurrent : c.current with
  | none =>
    have hrun : Compile.currentIs text c = .error .noToken c := by
      simp [Compile.currentIs, Compile.current, hcurrent]
    rw [bind_apply, bind_apply, hrun]
    exact ⟨rfl, .refl hc, trivial⟩
  | some t =>
    have hrun : Compile.currentIs text c = .ok (t.is text) c := by
      simp [Compile.currentIs, Compile.current, hcurrent]
    rw [bind_apply, bind_apply, hrun]
    exact h _ c hc hk (by rw [hcurrent]; rfl)

/-- A word that is not among the tokens is not the current one, -/
theorem currentIs_absent {word : String} (hword : ∀ t ∈ ts, t.is word = false)
    {f f' : Bool → Compile α} (h : Alike ts k stays (f false) (f' false)) :
    Alike ts k stays (Compile.currentIs word >>= f) (Compile.currentIs word >>= f') := by
  intro c hc hk
  cases hcurrent : c.current with
  | none =>
    have hrun : Compile.currentIs word c = .error .noToken c := by
      simp [Compile.currentIs, Compile.current, hcurrent]
    rw [bind_apply, bind_apply, hrun]
    exact ⟨rfl, .refl hc, trivial⟩
  | some t =>
    obtain ⟨i, -, hi⟩ := Option.bind_eq_some_iff.mp (hc.current t hcurrent).2
    have hrun : Compile.currentIs word c = .ok false c := by
      simp [Compile.currentIs, Compile.current, hcurrent, hword t (Array.mem_of_getElem? hi)]
    rw [bind_apply, bind_apply, hrun]
    exact h c hc hk

/-- and does not come next. -/
theorem nextIs_absent {word : String} (hword : ∀ t ∈ ts, t.is word = false)
    {f f' : Bool → Compile α} (h : Alike ts k stays (f false) (f' false)) :
    Alike ts k stays (Compile.nextIs word >>= f) (Compile.nextIs word >>= f') := by
  intro c hc hk
  cases hnext : Place.get? c.tokens (c.position + 1) with
  | none =>
    have hrun : Compile.nextIs word c = .error .outOfRange c := by
      simp [Compile.nextIs, peek, hnext]
    rw [bind_apply, bind_apply, hrun]
    exact ⟨rfl, .refl hc, trivial⟩
  | some t =>
    obtain ⟨i, -, hi⟩ := Option.bind_eq_some_iff.mp hnext
    rw [hc.tokens] at hi
    have hrun : Compile.nextIs word c = .ok false c := by
      simp [Compile.nextIs, peek, hnext, hword t (Array.mem_of_getElem? hi)]
    rw [bind_apply, bind_apply, hrun]
    exact h c hc hk

theorem nextIs (text : String) :
    Alike ts k Anywhere (Compile.nextIs text) (Compile.nextIs text) := by
  refine unchanged fun c => ?_
  cases hnext : Place.get? c.tokens (c.position + 1) with
  | none => exact .inr ⟨.outOfRange, trivial, by simp [Compile.nextIs, peek, hnext]⟩
  | some t => exact .inl ⟨_, trivial, by simp [Compile.nextIs, peek, hnext]; rfl⟩

end Alike

/-- The state with the cursor moved on by one token. -/
def Compiler.advanced (c : Compiler) (t : Token) : Compiler :=
  let line := if t.isNewline then c.line + 1 else c.line
  match Place.get? c.tokens (c.position + 1) with
  | some u => { c with line, current := some u, position := c.position + 1 }
  | none => { c with line, current := none }

theorem advance_of_none {c : Compiler} (h : c.current = none) :
    advance c = .error .noToken c := by
  simp [advance, current, h]

theorem advance_of_some {c : Compiler} {t : Token} (h : c.current = some t) :
    advance c = .ok () (c.advanced t) := by
  cases hline : t.isNewline <;> cases hnext : Place.get? c.tokens (c.position + 1) <;>
    simp [advance, current, h, hline, moveTo, hnext, Compiler.advanced]

/-- The cursor goes on from a position that need not be that of the current token. -/
theorem advanced_later {ts : Array Token} {c : Compiler} {t : Token} (htokens : c.tokens = ts)
    (hposition : -1 ≤ c.position) :
    (c.advanced t).Settled ts ∧
      (c.advanced t).remaining ≤ (ts.size - (c.position + 1)).toNat ∧
      (c.IsOpen → (c.advanced t).IsOpen) := by
  unfold Compiler.advanced
  subst htokens
  cases hnext : Place.get? c.tokens (c.position + 1) with
  | none => exact ⟨⟨rfl, by simp⟩, by simp [Compiler.remaining], id⟩
  | some u =>
    refine ⟨⟨rfl, ?_⟩, by simp [Compiler.remaining], id⟩
    intro v hv
    cases hv
    exact ⟨by dsimp only; omega, hnext⟩

namespace Alike
variable {α β : Type} {ts : Array Token} {k : Nat} {stays : α → Prop}

theorem advance : Alike ts k (fun _ => False) Compile.advance Compile.advance := by
  refine of_onward fun c hc => ?_
  cases hcurrent : c.current with
  | none =>
    rw [advance_of_none hcurrent]
    exact ⟨.refl hc, trivial⟩
  | some t =>
    obtain ⟨hplace, hget⟩ := hc.current t hcurrent
    have hsize := Compiler.lt_size_of_get? hplace hget
    obtain ⟨hsettled, hle, hopen⟩ := advanced_later (t := t) hc.tokens (by omega)
    have hhere : c.remaining = (ts.size - c.position).toNat := by
      simp [Compiler.remaining, hcurrent, hc.tokens]
    have hlt : (c.advanced t).remaining < c.remaining := by omega
    rw [advance_of_some hcurrent]
    exact ⟨⟨hsettled, Nat.le_of_lt hlt, hopen⟩, .inr hlt⟩

/-- Behind one step there is one token less to go. -/
theorem advance_bind {f f' : Unit → Compile α} (h : Alike ts k Anywhere (f ()) (f' ())) :
    Alike ts (k + 1) stays (Compile.advance >>= f) (Compile.advance >>= f') :=
  advance.bind_passing (fun _ => False.elim) fun _ _ => h

theorem advance_then {f f' : Unit → Compile α} (h : Alike ts k Anywhere (f ()) (f' ())) :
    Alike ts k stays (Compile.advance >>= f) (Compile.advance >>= f') := by
  cases k with
  | zero => exact fun _ _ hk => absurd hk (Nat.not_lt_zero _)
  | succ k => exact advance_bind (h.mono (Nat.le_succ k))

/-- As many rounds as there can be steps are enough. -/
theorem onward_loop {x : Compile Bool} (h : ∀ l, Alike ts l (· = true) x x) {c : Compiler}
    (hc : c.Settled ts) : Onward ts Anywhere c (Compile.loop x c.stepsLeft c) := by
  have hsteps : c.remaining + 1 ≤ c.stepsLeft := by
    unfold Compiler.remaining Compiler.stepsLeft
    split <;> omega
  have hloop := (h (c.remaining + 1)).loop hsteps hsteps
  exact (hloop c hc (Nat.lt_succ_self _)).2

theorem loop_bind {x : Compile Bool} (h : ∀ l, Alike ts l (· = true) x x)
    {rest rest' : Compile α} (hrest : Alike ts k stays rest rest') :
    Alike ts k stays
      (do
        Compile.loop x (← MonadState.get).stepsLeft
        rest)
      (do
        Compile.loop x (← MonadState.get).stepsLeft
        rest') := by
  intro c hc hk
  rw [bind_apply, bind_apply, get_apply]
  exact bind_onward (onward_loop h hc) hk fun _ => hrest

theorem skipOne (test : Token → Bool) :
    Alike ts k (· = true) (skipWhile.skipOne test) (skipWhile.skipOne test) :=
  current.bind fun _ => ite (advance_then (pure trivial)) (pure rfl)

theorem skipWhile (test : Token → Bool) :
    Alike ts k Anywhere (Compile.skipWhile test) (Compile.skipWhile test) :=
  of_onward fun _ hc => onward_loop (fun _ => skipOne test) hc

/-! Writing, and everything else that leaves the cursor alone. -/

theorem modify {f : Compiler → Compiler}
    (h : ∀ c : Compiler, (f c).tokens = c.tokens ∧ (f c).current = c.current ∧
      (f c).position = c.position ∧ (c.IsOpen → (f c).IsOpen)) :
    Alike ts k Anywhere (modify f : Compile PUnit) (modify f) := by
  refine of_onward fun c hc => ?_
  obtain ⟨htokens, hcurrent, hposition, hopen⟩ := h c
  exact ⟨.of_frame hc htokens hcurrent hposition hopen, .inl trivial⟩

theorem lastEntry : Alike ts k Anywhere Compile.lastEntry Compile.lastEntry := by
  refine get.bind fun c => ?_
  cases c.openEntries? with
  | none => exact throw fun _ => trivial
  | some entries =>
    dsimp only
    cases entries.back? with
    | none => exact throw fun _ => trivial
    | some entry => exact pure trivial

theorem setLastEntry (entry : Entry) :
    Alike ts k Anywhere (Compile.setLastEntry entry) (Compile.setLastEntry entry) := by
  refine modify fun c => ?_
  cases hentries : c.openEntries? with
  | none => exact ⟨rfl, rfl, rfl, id⟩
  | some entries =>
    obtain ⟨htokens, hcurrent, hposition⟩ :=
      Compiler.setOpenEntries_frame c (entries.pop.push entry)
    exact ⟨htokens, hcurrent, hposition, fun _ => Compiler.isOpen_of_push hentries _ _⟩

theorem updateLastEntry (update : Entry → Entry) :
    Alike ts k Anywhere (Compile.updateLastEntry update) (Compile.updateLastEntry update) :=
  lastEntry.bind fun _ => setLastEntry _

theorem appendEntry (entry : Entry) :
    Alike ts k Anywhere (Compile.appendEntry entry) (Compile.appendEntry entry) := by
  refine of_onward fun c hc => ?_
  cases hentries : c.openEntries? with
  | none =>
    have hrun : Compile.appendEntry entry c = .error .unsupported c := by
      simp [Compile.appendEntry, hentries]
    rw [hrun]
    exact ⟨.refl hc, trivial⟩
  | some entries =>
    have hrun : Compile.appendEntry entry c =
        .ok () (c.setOpenEntries (entries.push entry)) := by
      simp [Compile.appendEntry, hentries]
    obtain ⟨htokens, hcurrent, hposition⟩ :=
      Compiler.setOpenEntries_frame c (entries.push entry)
    rw [hrun]
    exact ⟨.of_frame hc htokens hcurrent hposition fun _ => Compiler.isOpen_of_push hentries _ _,
      .inl trivial⟩

theorem openBlank : Alike ts k Anywhere Compile.openBlank Compile.openBlank := by
  refine of_onward fun c hc => ?_
  cases hdocument : c.document with
  | none =>
    have hrun : Compile.openBlank c = .error .unknownKey c := by simp [Compile.openBlank, hdocument]
    rw [hrun]
    exact ⟨.refl hc, trivial⟩
  | some entries =>
    have hrun : Compile.openBlank c =
        .ok () { c with document := some (entries.push Entry.blank), target := .document } := by
      simp [Compile.openBlank, hdocument]
    rw [hrun]
    refine ⟨.of_frame hc rfl rfl rfl fun _ => ?_, .inl trivial⟩
    simp [Compiler.IsOpen, Compiler.lastOpen?, Compiler.openEntries?]

theorem latex : Alike ts k Anywhere Compile.latex Compile.latex := by
  refine lastEntry.bind fun entry => ?_
  cases entry.latex? with
  | none => exact throw fun _ => trivial
  | some text => exact pure trivial

theorem emitFrom {piece : Compile String} (h : Alike ts k Anywhere piece piece) :
    Alike ts k Anywhere (Compile.emitFrom piece) (Compile.emitFrom piece) :=
  latex.bind fun _ => h.bind fun _ => updateLastEntry _

theorem emit (text : String) : Alike ts k Anywhere (Compile.emit text) (Compile.emit text) :=
  emitFrom (pure trivial)

theorem subscript (name : String) :
    Alike ts k Anywhere (Compile.subscript name) (Compile.subscript name) := by
  unfold Compile.subscript
  split
  · exact throw fun _ => trivial
  · exact pure trivial
  · exact pure trivial

theorem print (text : String) : Alike ts k Anywhere (Compile.print text) (Compile.print text) :=
  modify fun _ => ⟨rfl, rfl, rfl, id⟩

end Alike

/-! A look-up may fail, but it makes no mistake of the script and has no rounds to run out of. -/

/-- A fault that can come up in any state of a script. -/
def Fault.isBare : Fault → Bool
  | .diagnostic _ | .exhausted | .endOfInput => false
  | _ => true

theorem Compiler.blames_of_isBare (c : Compiler) {e : Fault} (h : e.isBare = true) :
    c.Blames e := by
  cases e with
  | diagnostic d => cases h
  | exhausted => cases h
  | _ => exact trivial

/-- All faults of a look-up are bare. -/
def FailsBare {α : Type} (x : Except Fault α) : Prop := ∀ e, x = .error e → e.isBare = true

theorem FailsBare.ok {α : Type} (a : α) : FailsBare (.ok a) := fun _ h => nomatch h

theorem FailsBare.error {α : Type} {e : Fault} (h : e.isBare = true) :
    FailsBare (.error e : Except Fault α) := by
  rintro _ ⟨⟩
  exact h

theorem FailsBare.map {α β : Type} {x : Except Fault α} (f : α → β) (hx : FailsBare x) :
    FailsBare (x.map f) := by
  cases x with
  | ok a => exact .ok _
  | error e => exact .error (hx e rfl)

theorem FailsBare.bind {α β : Type} {x : Except Fault α} {f : α → Except Fault β}
    (hx : FailsBare x) (hf : ∀ a, FailsBare (f a)) : FailsBare (x >>= f) := by
  cases x with
  | ok a => exact hf a
  | error e => exact .error (hx e rfl)

theorem Binding.mentions_failsBare (name : String) (b : Binding) : FailsBare (b.mentions name) := by
  cases b with
  | table t => exact .ok _
  | list items => exact .ok _
  | text s => exact .ok _
  | _ => exact .error rfl

theorem Binding.member_failsBare (name : String) (b : Binding) : FailsBare (b.member name) := by
  cases b with
  | table t =>
    rw [member]
    split
    · exact .ok _
    · exact .error rfl
  | _ => exact .error rfl

theorem Binding.resolve_failsBare (path : List String) (b : Binding) :
    FailsBare (b.resolve path) := by
  induction path generalizing b with
  | nil => exact .ok _
  | cons name path ih =>
    rw [Binding.resolve]
    split
    · exact ih _
    · next e he => exact .error (b.member_failsBare name e he)

namespace Table

theorem add_failsBare (path : List String) (name : String) (value : Binding) (t : Table) :
    FailsBare (t.add path name value) := by
  induction path generalizing t with
  | nil => exact .ok _
  | cons step path ih =>
    rw [add]
    split
    · exact (ih []).map _
    · exact (ih _).map _
    · exact .error rfl

theorem assign_failsBare (path : List String) (name : String) (value : Binding) (t : Table) :
    FailsBare (t.assign path name value) := by
  induction path generalizing t with
  | nil => exact .ok _
  | cons step path ih =>
    rw [assign]
    split
    · exact .error rfl
    · exact (ih _).map _
    · exact .error rfl

theorem boundAlong_failsBare (path : List String) (name : String) (t : Table) :
    FailsBare (t.boundAlong path name) := by
  have hgo : ∀ (found : Bool) (b : Binding), FailsBare (boundAlong.go name path found b) := by
    induction path with
    | nil => exact fun _ _ => .ok _
    | cons step path ih =>
      intro found b
      rw [boundAlong.go]
      refine (b.mentions_failsBare step).bind fun known => ?_
      cases known with
      | false => exact .ok _
      | true =>
        refine (b.member_failsBare step).bind fun next => ?_
        exact (next.mentions_failsBare name).bind fun _ => ih _ _
  exact hgo false (.table t)

end Table

namespace Alike
variable {α β : Type} {ts : Array Token} {k : Nat} {stays : α → Prop}

theorem pushScope (name : String) :
    Alike ts k Anywhere (Compile.pushScope name) (Compile.pushScope name) :=
  modify fun _ => ⟨rfl, rfl, rfl, id⟩

theorem popScope : Alike ts k Anywhere Compile.popScope Compile.popScope := by
  refine of_onward fun c hc => ?_
  by_cases hscope : c.scope = []
  · have hrun : Compile.popScope c = .error .outOfRange c := by simp [Compile.popScope, hscope]
    rw [hrun]
    exact ⟨.refl hc, trivial⟩
  · have hrun : Compile.popScope c = .ok () { c with scope := c.scope.dropLast } := by
      simp [Compile.popScope, hscope]
    rw [hrun]
    exact ⟨.of_frame hc rfl rfl rfl id, .inl trivial⟩

theorem innermost : Alike ts k Anywhere Compile.innermost Compile.innermost := by
  refine get.bind fun c => ?_
  cases c.scope.getLast? with
  | none => exact throw fun _ => trivial
  | some name => exact pure trivial

/-- The fault of a look-up. -/
theorem throw_of {x : Except Fault β} (hx : FailsBare x) {e : Fault} (he : x = .error e) :
    Alike ts k stays (MonadExcept.throw e : Compile α) (MonadExcept.throw e) :=
  throw fun c => c.blames_of_isBare (hx e he)

theorem resolve (path : List String) :
    Alike ts k Anywhere (Compile.resolve path) (Compile.resolve path) := by
  refine get.bind fun c => ?_
  split
  · exact pure trivial
  · next he => exact throw_of (Binding.resolve_failsBare path _) he

theorem setNames {names : Except Fault Table} (h : FailsBare names) :
    Alike ts k Anywhere (Compile.setNames names) (Compile.setNames names) := by
  unfold Compile.setNames
  split
  · exact modify fun _ => ⟨rfl, rfl, rfl, id⟩
  · exact throw_of h rfl

theorem addName (path : List String) (name : String) (value : Binding) :
    Alike ts k Anywhere (Compile.addName path name value) (Compile.addName path name value) :=
  get.bind fun _ => setNames (Table.add_failsBare path name value _)

theorem isBound (path : List String) (name : String) :
    Alike ts k Anywhere (Compile.isBound path name) (Compile.isBound path name) := by
  refine get.bind fun c => ite ?_ ?_
  · exact (nextIs ".").bind fun _ =>
      ite ((pushScope name).bind fun _ => pure trivial) (pure trivial)
  · refine get.bind fun c => ?_
    split
    · exact pure trivial
    · next he => exact throw_of (Table.boundAlong_failsBare path name _) he

theorem define (name : String) :
    Alike ts k Anywhere (Compile.define name) (Compile.define name) := by
  refine get.bind fun c => (addName _ name _).bind fun _ => ?_
  refine Alike.bind (modify ?_) fun _ => print _
  exact fun _ => ⟨rfl, rfl, rfl, id⟩

theorem emitName (name : String) :
    Alike ts k Anywhere (Compile.emitName name) (Compile.emitName name) := by
  refine (emitFrom (innermost.bind fun _ => subscript _)).tryCatch fun e c hc hk he => ?_
  split
  · exact emitFrom (subscript name) c hc hk
  · exact ⟨rfl, .refl hc, he⟩

theorem reopenScope (name : String) :
    Alike ts k Anywhere (Compile.reopenScope name) (Compile.reopenScope name) := by
  refine get.bind fun c => ?_
  split
  · exact ite (get.bind fun _ => setNames (Table.assign_failsBare _ _ _ _)) (pure trivial)
  · exact throw fun _ => trivial
  · refine (resolve _).bind fun b => ?_
    split
    · exact pure trivial
    · exact throw fun _ => trivial
  · next he => exact throw_of (Binding.resolve_failsBare c.scope _) he

end Alike

end PlotScript
