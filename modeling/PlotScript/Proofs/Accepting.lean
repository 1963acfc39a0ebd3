import PlotScript.Proofs.Effects
import PlotScript.Proofs.Phrases

/-! What the reading of an expression accepts. Each form leads from one place of the tokens to
another, and what lies between the two is a part of a phrase, perhaps with slips. -/

namespace PlotScript
open Compile Grammar

/-- Neither the tokens, the functions nor the cursor change. -/
structure Held (c d : Compiler) : Prop where
  tokens : d.tokens = c.tokens
  functions : d.functions = c.functions
  current : d.current = c.current
  position : d.position = c.position

instance : Steady Held where
  trans h h' := ⟨h'.tokens.trans h.tokens, h'.functions.trans h.functions,
    h'.current.trans h.current, h'.position.trans h.position⟩
  quiet h := ⟨h.tokens, h.functions, h.current, h.position⟩

theorem held_setLatex (text : String) : Goes Held (setLatex text) := by
  intro c
  unfold setLatex
  rcases updateLastEntry_cases (Entry.setLatex text) c with hsame | ⟨entries, entry, hopen, hwrite⟩
  · rw [hsame]
    exact Steady.quiet (.refl c)
  · rw [hwrite]
    dsimp only [stateAfter]
    unfold Compiler.setOpenEntries
    cases c.target <;> exact ⟨rfl, rfl, rfl, rfl⟩

theorem held_emitFrom {piece : Compile String} (hpiece : Goes Held piece) :
    Goes Held (emitFrom piece) :=
  Goes.latex.bind fun _ => hpiece.bind fun _ => held_setLatex _

theorem held_emit (text : String) : Goes Held (emit text) := held_emitFrom (.pure text)

theorem held_emitName (name : String) : Goes Held (emitName name) := by
  refine .tryCatch (held_emitFrom (Goes.innermost.bind fun _ => .subscript _)) fun e => ?_
  split
  · exact held_emitFrom (.subscript _)
  · exact .throw _

namespace Ground

/-- The cursor is at a place of the tokens, or behind the last one. -/
structure At (g : Ground) (c : Compiler) (p : Int) : Prop where
  tokens : c.tokens = g.tokens
  functions : c.functions = g.functions
  current : c.current = g.at? p
  position : c.position = if c.current.isSome then p else p - 1

/-- What comes of an action: it leads to a place that it is related to, or it fails and leaves
tokens and functions alone. -/
def Ends {α : Type} (g : Ground) (rel : α → Int → Prop) :
    EStateM.Result Fault Compiler α → Prop
  | .ok a d => ∃ q, g.At d q ∧ rel a q
  | .error _ d => d.tokens = g.tokens ∧ d.functions = g.functions

/-- From a place the action leads to one that it is related to. -/
def Spans {α : Type} (g : Ground) (p : Int) (rel : α → Int → Prop) (x : Compile α) : Prop :=
  ∀ c, g.At c p → g.Ends rel (x c)

variable {g : Ground} {p : Int} {α β : Type} {rel : α → Int → Prop} {rel' : β → Int → Prop}

theorem At.of_held {c d : Compiler} (h : g.At c p) (hcd : Held c d) : g.At d p :=
  ⟨hcd.tokens.trans h.tokens, hcd.functions.trans h.functions, hcd.current.trans h.current, by
    rw [hcd.position, hcd.current]
    exact h.position⟩

/-- One token forward from a position that need not be that of the current token. -/
theorem at_advanced {c : Compiler} {t : Token} (htokens : c.tokens = g.tokens)
    (hfunctions : c.functions = g.functions) (hposition : c.position = p) :
    g.At (c.advanced t) (p + 1) := by
  have hnext : Place.get? c.tokens (c.position + 1) = g.at? (p + 1) := by
    rw [htokens, hposition]
    rfl
  unfold Compiler.advanced
  rw [hnext]
  cases hat : g.at? (p + 1) with
  | none => exact ⟨htokens, hfunctions, hat.symm, hposition.trans (Int.add_sub_cancel p 1).symm⟩
  | some u => exact ⟨htokens, hfunctions, hat.symm, congrArg (· + 1) hposition⟩

namespace Spans

theorem pure {a : α} (h : rel a p) : g.Spans p rel (Pure.pure a) := fun _ hc => ⟨p, hc, h⟩

theorem fail (message : String) : g.Spans p rel (Compile.fail message) := by
  intro c hc
  rw [fail_apply]
  split <;> exact ⟨hc.tokens, hc.functions⟩

theorem bind {x : Compile β} {f : β → Compile α} (hx : g.Spans p rel' x)
    (hf : ∀ b m, rel' b m → g.Spans m rel (f b)) : g.Spans p rel (x >>= f) := by
  intro c hc
  have hfirst := hx c hc
  rw [bind_apply]
  cases hrun : x c with
  | error e d =>
    rw [hrun] at hfirst
    exact hfirst
  | ok b d =>
    rw [hrun] at hfirst
    obtain ⟨m, hd, hb⟩ := hfirst
    exact hf b m hb d hd

theorem fail_bind {γ : Type} (message : String) {f : γ → Compile α} :
    g.Spans p rel (Compile.fail message >>= f) := by
  have hfail : g.Spans p (fun (_ : γ) _ => False) (Compile.fail message) := .fail message
  exact hfail.bind fun _ _ => False.elim

theorem weaken {rel₂ : α → Int → Prop} {x : Compile α} (hx : g.Spans p rel x)
    (h : ∀ a q, rel a q → rel₂ a q) : g.Spans p rel₂ x := by
  intro c hc
  have hend := hx c hc
  cases hrun : x c with
  | error e d =>
    rw [hrun] at hend
    exact hend
  | ok a d =>
    rw [hrun] at hend
    obtain ⟨q, hd, ha⟩ := hend
    exact ⟨q, hd, h a q ha⟩

theorem stay {x : Compile α} (hx : Goes Held x) : g.Spans p (fun _ q => q = p) x := by
  intro c hc
  have hheld := hx c
  cases hrun : x c with
  | error e d =>
    rw [hrun] at hheld
    exact ⟨hheld.tokens.trans hc.tokens, hheld.functions.trans hc.functions⟩
  | ok a d =>
    rw [hrun] at hheld
    exact ⟨p, hc.of_held hheld, rfl⟩

/-- An action that leaves the cursor alone, and another one behind it. -/
theorem still {x : Compile β} {f : β → Compile α} (hx : Goes Held x)
    (hf : ∀ b, g.Spans p rel (f b)) : g.Spans p rel (x >>= f) :=
  (stay hx).bind fun b _ hm => hm ▸ hf b

theorem discard {x : Compile β} (hx : g.Spans p rel' x) :
    g.Spans p (fun _ q => ∃ b, rel' b q) (Functor.discard x) := by
  intro c hc
  have hend := hx c hc
  rw [discard_apply]
  cases hrun : x c with
  | error e d =>
    rw [hrun] at hend
    exact hend
  | ok b d =>
    rw [hrun] at hend
    obtain ⟨q, hd, hb⟩ := hend
    exact ⟨q, hd, b, hb⟩

theorem current {f : Token → Compile α}
    (hf : ∀ t, g.at? p = some t → g.Spans p rel (f t)) : g.Spans p rel (Compile.current >>= f) := by
  intro c hc
  cases hcurrent : c.current with
  | none => simpa [Compile.current, hcurrent, Ends] using ⟨hc.tokens, hc.functions⟩
  | some t =>
    simpa [Compile.current, hcurrent] using hf t (hc.current ▸ hcurrent) c hc

theorem currentIs {text : String} {f : Bool → Compile α}
    (hf : ∀ t, g.at? p = some t → g.Spans p rel (f (t.is text))) :
    g.Spans p rel (Compile.currentIs text >>= f) := by
  unfold Compile.currentIs
  rw [bind_assoc]
  exact .current fun t ht => (pure_bind (t.is text) f).symm ▸ hf t ht

/-- A test that is needed for going on. -/
theorem orFail {text message : String} {rest : Compile α}
    (hrest : g.Has p text → g.Spans p rel rest) :
    g.Spans p rel (do
      unless ← Compile.currentIs text do Compile.fail message
      rest) := by
  refine .currentIs fun t ht => ?_
  cases his : t.is text with
  | true => exact hrest ⟨t, ht, his⟩
  | false => exact .fail_bind message

theorem nextIs {text : String} {f : Bool → Compile α} {t : Token} (ht : g.at? p = some t)
    (hf : ∀ u, g.at? (p + 1) = some u → g.Spans p rel (f (u.is text))) :
    g.Spans p rel (Compile.nextIs text >>= f) := by
  intro c hc
  have hposition : c.position = p := by simp [hc.position, hc.current, ht]
  have hpeek : Place.get? c.tokens (c.position + 1) = g.at? (p + 1) := by
    rw [hposition, hc.tokens]
    rfl
  cases hnext : g.at? (p + 1) with
  | none => simpa [Compile.nextIs, peek, hpeek, hnext, Ends] using ⟨hc.tokens, hc.functions⟩
  | some u => simpa [Compile.nextIs, peek, hpeek, hnext] using hf u hnext c hc

theorem advance {f : Unit → Compile α} (hf : g.Spans (p + 1) rel (f ())) :
    g.Spans p rel (Compile.advance >>= f) := by
  intro c hc
  rw [bind_apply]
  cases hcurrent : c.current with
  | none =>
    rw [advance_of_none hcurrent]
    exact ⟨hc.tokens, hc.functions⟩
  | some t =>
    rw [advance_of_some hcurrent]
    refine hf _ (at_advanced hc.tokens hc.functions ?_)
    simp [hc.position, hcurrent]

/-- Each round leads from a place inside to the end or to another place inside. -/
theorem loop {round : Compile Bool} {rel : Int → Prop} (inside : Int → Prop)
    (hround : ∀ m, inside m →
      g.Spans m (fun done q => if done = true then rel q else inside q) round)
    (hp : inside p) (rounds : Nat) :
    g.Spans p (fun _ q => rel q) (Compile.loop round rounds) := by
  induction rounds generalizing p with
  | zero => exact fun c hc => ⟨hc.tokens, hc.functions⟩
  | succ rounds ih =>
    refine (hround p hp).bind fun done m hm => ?_
    cases done with
    | true => exact .pure hm
    | false => exact ih hm

/-- The first attempt succeeds, or it changes nothing and the others are made. -/
theorem firstOf_cons {x : Compile Bool} {xs : List (Compile Bool)} {rel : Int → Prop}
    {P Q : Prop} (hx : g.Spans p (fun found q => if found = true then rel q else q = p ∧ P) x)
    (hxs : P → g.Spans p (fun found q => if found = true then rel q else q = p ∧ Q) (firstOf xs)) :
    g.Spans p (fun found q => if found = true then rel q else q = p ∧ Q) (firstOf (x :: xs)) := by
  refine hx.bind fun found q hq => ?_
  cases found with
  | true => exact .pure hq
  | false => exact hq.1 ▸ hxs hq.2

theorem found {x : Compile Bool} {rel rel' : Int → Prop} {P : Prop}
    (hx : g.Spans p (fun found q => if found = true then rel q else q = p ∧ P) x)
    (h : ∀ q, rel q → rel' q) :
    g.Spans p (fun found q => if found = true then rel' q else q = p ∧ P) x := by
  refine hx.weaken fun found q hq => ?_
  cases found with
  | true => exact h q hq
  | false => exact hq

end Spans

/-- The tokens have no braces, no macro calls and no scopes of other names. -/
def Plain (g : Ground) : Prop :=
  ∀ t ∈ g.tokens, t.is "\x7b" = false ∧ t.is "!" = false ∧ t.is "." = false

theorem Plain.at? (h : g.Plain) {t : Token} (ht : g.at? p = some t) :
    t.is "\x7b" = false ∧ t.is "!" = false ∧ t.is "." = false := by
  obtain ⟨i, -, hi⟩ := Option.bind_eq_some_iff.mp ht
  exact h t (Array.mem_of_getElem? hi)

end Ground

/-- What was read where an expression may stand. -/
def Grammar.Verdict.part : Verdict → Part
  | .refused => .nothing
  | .accepted | .dangling => .expression

section forms
open Ground
variable {g : Ground} {down : Descent}
  (hdown : ∀ p, g.Spans p (fun v q => Phrase g true v.part p q) down.expression)
include hdown

theorem spans_tryExpression (p : Int) : g.Spans p
    (fun _ q => Phrase g true .expression p q ∨ Phrase g true .nothing p q) down.tryExpression := by
  refine (hdown p).bind fun v q hq => .pure ?_
  cases v with
  | refused => exact .inr hq
  | accepted => exact .inl hq
  | dangling => exact .inl hq

/-- An expression that is needed for going on. -/
theorem spans_acceptsExpression {α : Type} {rel : α → Int → Prop} {p : Int} {message : String}
    {rest : Compile α} (hrest : ∀ m, Phrase g true .expression p m → g.Spans m rel rest) :
    g.Spans p rel (do
      unless ← down.acceptsExpression do fail message
      rest) := by
  have haccepts : g.Spans p (fun found q => found = true → Phrase g true .expression p q)
      down.acceptsExpression := by
    refine (hdown p).bind fun v q hq => .pure ?_
    cases v with
    | accepted => exact fun _ => hq
    | _ => exact fun h => absurd h (by decide)
  refine haccepts.bind fun found m hm => ?_
  cases found with
  | true => exact hrest m (hm rfl)
  | false => exact .fail_bind message

omit hdown in
theorem spans_operator (p : Int) : g.Spans p (fun found q =>
    if found = true then q = p + 1 ∧ ∃ t, g.at? p = some t ∧ t.isOperation = true
    else q = p ∧ ∀ t, g.at? p = some t → t.isOperation = false) operator := by
  intro c hc
  unfold operator
  rw [bind_apply, get_apply]
  dsimp only
  cases hcurrent : c.current with
  | none =>
    rw [hc.current] at hcurrent
    exact ⟨p, hc, rfl, fun t ht => by rw [hcurrent] at ht; cases ht⟩
  | some t =>
    have ht : g.at? p = some t := hc.current ▸ hcurrent
    dsimp only
    cases his : t.isOneOf operators with
    | false =>
      refine ⟨p, hc, rfl, fun u hu => ?_⟩
      cases ht.symm.trans hu
      exact his
    | true =>
      have hwrite : ∀ text, g.Spans p (fun found q => found = true ∧ q = p + 1) (do
          emit text
          advance
          return true) := fun text => .still (held_emit text) fun _ => .advance (.pure ⟨rfl, rfl⟩)
      refine (hwrite _).weaken ?_ c hc
      rintro _ _ ⟨rfl, rfl⟩
      exact ⟨rfl, t, ht, his⟩

theorem spans_operation (p : Int) :
    g.Spans p (fun _ q => Phrase g true .tail p q) (operation down) := by
  refine (spans_operator p).bind fun found m hm => ?_
  cases found with
  | false =>
    obtain ⟨rfl, hnone⟩ := hm
    exact .pure (.noTail hnone)
  | true =>
    obtain ⟨rfl, t, ht, his⟩ := hm
    refine (spans_tryExpression hdown (p + 1)).weaken fun _ q hq => ?_
    exact hq.elim (.operation ht his) (.bareOperator ht his)

/-- A list behind its opening bracket. What is still to come makes the list complete. -/
theorem spans_items {p : Int} (hopening : g.Has p "[") (rounds : Nat) :
    g.Spans (p + 1) (fun _ q => g.Has q "]" ∧ Phrase g true .list p (q + 1))
      (loop (listItem down) rounds) := by
  refine .loop (fun m => (∀ q, Phrase g true .items m q → Phrase g true .list p q) ∧
    (g.Has m "]" → Phrase g true .list p (m + 1))) (fun m hm => ?_)
    ⟨fun q => .list hopening, ?_⟩ rounds
  · obtain ⟨hitems, hclosed⟩ := hm
    refine .currentIs fun t ht => ?_
    cases hclose : t.is "]" with
    | true => exact .pure ⟨⟨t, ht, hclose⟩, hclosed ⟨t, ht, hclose⟩⟩
    | false =>
      refine (spans_tryExpression hdown m).bind fun _ k hk => ?_
      have hitem : ∀ q, Phrase g true .more k q → Phrase g true .list p q := by
        intro q hmore
        refine hitems q (hk.elim (fun h => .item h hmore) fun h => ?_)
        refine .emptyItem (fun u hu => ?_) h hmore
        cases ht.symm.trans hu
        exact hclose
      refine .currentIs fun u hu => ?_
      cases hend : u.is "]" with
      | true => exact .pure ⟨⟨u, hu, hend⟩, hitem _ (.noMore ⟨u, hu, hend⟩)⟩
      | false =>
        refine .orFail fun hcomma => .still (held_emit _) fun _ => .advance (.pure ?_)
        refine ⟨fun q hq => hitem q (.more hcomma hq), fun hlast => ?_⟩
        rw [Int.add_assoc]
        exact hitem _ (.lastComma rfl hcomma hlast)
  · intro hclosing
    rw [Int.add_assoc]
    exact .emptyList hopening hclosing

theorem spans_list (p : Int) : g.Spans p
    (fun found q => if found = true then Phrase g true .list p q
      else q = p ∧ ∃ t, g.at? p = some t ∧ t.is "[" = false) (list down) := by
  refine .currentIs fun t ht => ?_
  cases his : t.is "[" with
  | false => exact .pure ⟨rfl, t, ht, his⟩
  | true =>
    refine .still (held_emit _) fun _ => .advance ?_
    refine (spans_items hdown ⟨t, ht, his⟩ _).bind fun _ q hq => ?_
    exact .still (held_emit _) fun _ => .advance (.pure hq.2)

omit hdown in
/-- A name is read without leaving its place, since no dot follows. -/
theorem spans_nameValue (hplain : g.Plain) {p : Int} {t : Token} (ht : g.at? p = some t)
    (name : String) : g.Spans p (fun _ q => q = p) (nameValue down name) := by
  have hreference : g.Spans p (fun _ q => q = p) (reference down name) := by
    refine .still .get fun c => .still (.isBound c.scope name) fun found => ?_
    have hname : g.Spans p (fun _ q => q = p) (do
        if ← nextIs "." then
          advance
          advance
          down.tryExpression
          popScope
        else emitName name) := by
      refine .nextIs ht fun u hu => ?_
      rw [(hplain.at? hu).2.2]
      exact .stay (held_emitName name)
    cases found with
    | true => exact hname
    | false => exact .fail_bind _
  rw [nameValue_eq]
  refine .still .latex fun text => ?_
  split
  · refine .nextIs ht fun u _ => ?_
    split
    · exact .still (.define name) fun _ => hreference
    · exact hreference
  · exact hreference

theorem spans_listAccess (p : Int) :
    g.Spans p (fun _ q => Phrase g true .access p q) (listAccess down) := by
  have hnone : ∀ {t : Token}, g.at? p = some t → t.is "[" = false → Phrase g true .access p p := by
    intro t ht his
    refine .noAccess fun u hu => ?_
    cases ht.symm.trans hu
    exact his
  refine .currentIs fun t ht => ?_
  cases his : t.is "[" with
  | false => exact .pure (hnone ht his)
  | true =>
    refine (spans_list hdown p).weaken fun found q hq => ?_
    cases found with
    | true => exact .access hq
    | false =>
      obtain ⟨rfl, u, hu, hother⟩ := hq
      exact hnone hu hother

/-- A value behind its sign, with the list access that may follow. -/
theorem spans_unsignedValue (hplain : g.Plain) (p : Int) :
    g.Spans p (fun found q => found = true ∧ Phrase g true .access (p + 1) q ∧
      ∃ t, g.at? p = some t) (unsignedValue down) := by
  refine .current fun t ht => ?_
  have hbehind : g.Spans p (fun found q => found = true ∧ Phrase g true .access (p + 1) q ∧
      ∃ t, g.at? p = some t) (do
      advance
      discard (listAccess down)
      return true) := by
    refine .advance ((spans_listAccess hdown (p + 1)).discard.bind ?_)
    rintro _ q ⟨-, hq⟩
    exact .pure ⟨rfl, hq, t, ht⟩
  cases t.name? with
  | none => exact .still (held_emit _) fun _ => hbehind
  | some name =>
    refine (spans_nameValue hplain ht name).bind fun _ q hq => ?_
    rw [hq]
    exact hbehind

theorem spans_value (hplain : g.Plain) {p : Int} {t : Token} (ht : g.at? p = some t)
    (hcall : g.isCall t = false) : g.Spans p
    (fun found q => if found = true then Phrase g true .operand p q
      else q = p ∧ t.isAtom = false ∧ t.isOneOf ["-", "+"] = false)
    (value down) := by
  rw [value_eq]
  intro c hc
  have hcurrent : c.current = some t := hc.current.trans ht
  rw [bind_apply, get_apply]
  simp only [hcurrent]
  cases hkind : t.isKind .name || t.isNumeral || t.isOneOf ["-", "+"] with
  | false =>
    rw [Bool.or_eq_false_iff] at hkind
    exact ⟨p, hc, rfl, hkind⟩
  | true =>
    simp only [if_true]
    cases hminus : t.is "-" with
    | true =>
      simp only [if_true]
      have hsigned : g.Spans p (fun found q => found = true ∧ Phrase g true .access (p + 2) q ∧
          ∃ u, g.at? (p + 1) = some u) (do
          emit "-"
          advance
          unsignedValue down) := by
        refine .still (held_emit _) fun _ => .advance ?_
        have hvalue := spans_unsignedValue hdown hplain (p + 1)
        rwa [Int.add_assoc] at hvalue
      refine hsigned.weaken ?_ c hc
      rintro _ q ⟨rfl, haccess, u, hu⟩
      cases hatom : u.isAtom with
      | true => exact .value (.negated ⟨t, ht, hminus⟩ hu hatom) haccess
      | false => exact .value (.negatedOther rfl ⟨t, ht, hminus⟩ hu hatom) haccess
    | false =>
      simp only [Bool.false_eq_true, if_false]
      refine (spans_unsignedValue hdown hplain p).weaken ?_ c hc
      rintro _ q ⟨rfl, haccess, -⟩
      cases hatom : t.isAtom with
      | true => exact .value (.atom ht hatom hcall) haccess
      | false =>
        have hplus : t.is "+" = true := by
          have hsign : (t.isAtom || t.isOneOf ["-", "+"]) = true := hkind
          simpa [hatom, Token.isOneOf, hminus] using hsign
        refine .value (.lonePlus rfl ht hplus ?_) haccess
        simp [Ground.begins, hcall, hatom, hminus, Token.is_of_is hplus]

theorem spans_call (p : Int) : g.Spans p
    (fun found q => if found = true then Phrase g true .operand p q
      else q = p ∧ ∃ t, g.at? p = some t ∧ g.isCall t = false) (call down) := by
  intro c hc
  unfold call
  rw [bind_apply, get_apply]
  dsimp only
  rw [hc.functions]
  refine Spans.current (fun t ht => ?_) c hc
  cases htext : t.text? with
  | none => exact .pure ⟨rfl, t, ht, by simp [Ground.isCall, htext]⟩
  | some function =>
    have hown : g.isCall t =
        (g.functions.contains function || builtinFunctions.contains function) := by
      simp [Ground.isCall, htext]
    dsimp only
    rw [← hown]
    cases hcall : g.isCall t with
    | false => exact .pure ⟨rfl, t, ht, hcall⟩
    | true =>
      have hhead : Goes Held (emitFrom (callHead g.functions function)) := by
        refine held_emitFrom ?_
        unfold callHead
        exact .ite (.pure _) (.ite ((Goes.subscript _).bind fun _ => .pure _) (.pure _))
      refine .still hhead fun _ => .advance (.orFail fun hopening => .advance ?_)
      refine spans_acceptsExpression hdown fun m hm => ?_
      rw [Int.add_assoc] at hm
      -- the arguments that were read make a call of those that are still to come
      have harguments : g.Spans m
          (fun _ q => g.Has q ")" ∧ Phrase g true .operand p (q + 1))
          (loop (callArgument down function) down.rounds) := by
        refine .loop (fun k => ∀ q, Phrase g true .arguments k q → Phrase g true .operand p q)
          (fun k hk => ?_) (fun q => .call ht hcall hopening hm) _
        refine .currentIs fun u hu => ?_
        cases hclose : u.is ")" with
        | true => exact .pure ⟨⟨u, hu, hclose⟩, hk _ (.noArguments ⟨u, hu, hclose⟩)⟩
        | false =>
          refine .orFail fun hcomma => .still (held_emit _) fun _ => .advance ?_
          refine spans_acceptsExpression hdown fun l hl => .pure fun q hq => ?_
          exact hk q (.argument hcomma hl hq)
      refine harguments.bind fun _ q hq => ?_
      exact .still (held_emit _) fun _ => .advance (.pure hq.2)

theorem spans_point (p : Int) : g.Spans p
    (fun found q => if found = true then Phrase g true .point p q
      else q = p ∧ ∃ t, g.at? p = some t ∧ t.is "(" = false) (point down) := by
  refine .currentIs fun t ht => ?_
  cases his : t.is "(" with
  | false => exact .pure ⟨rfl, t, ht, his⟩
  | true =>
    refine .advance (.still (held_emit _) fun _ => spans_acceptsExpression hdown fun m hm => ?_)
    refine .orFail fun hcomma => .still (held_emit _) fun _ => .advance ?_
    refine spans_acceptsExpression hdown fun q hq => .still (held_emit _) fun _ => ?_
    exact .orFail fun hclosing => .advance (.pure (.point ⟨t, ht, his⟩ hm hcomma hq hclosing))

theorem spans_bracketed {p : Int} (hopening : g.Has p "(") :
    g.Spans p (fun _ q => Phrase g true .operand p q) (bracketed down) := by
  refine .still (held_emit _) fun _ => .advance ?_
  refine (spans_tryExpression hdown (p + 1)).bind fun _ m hm => .orFail fun hclosing => ?_
  refine .still (held_emit _) fun _ => ?_
  have hstep : g.Spans m (fun _ q => Phrase g true .operand p q) (advance >>= Pure.pure) := by
    refine .advance (.pure ?_)
    exact hm.elim (.bracketed hopening · hclosing) (.emptyBrackets hopening · hclosing)
  rwa [bind_pure] at hstep

omit hdown in
/-- There is no comprehension, since no `for` stands where a comma does. -/
theorem spans_comprehension {p : Int} {t : Token} (ht : g.at? p = some t)
    (hname : t.isKind .name = false) :
    g.Spans p (fun found q => found = false ∧ q = p) (comprehension down) := by
  refine .current fun u hu => ?_
  cases ht.symm.trans hu
  rw [hname]
  refine .nextIs ht fun v hv => ?_
  cases hcomma : v.is "," with
  | false => exact .pure ⟨rfl, rfl⟩
  | true =>
    refine .still (held_emitFrom (.wordText _)) fun _ => .advance (.orFail fun hfor => ?_)
    have hmark : g.Has (p + 1) "," := ⟨v, hv, hcomma⟩
    exact (hmark.unique hfor (by decide)).elim

theorem spans_operand (hplain : g.Plain) (p : Int) : g.Spans p
    (fun found q => if found = true then Phrase g true .operand p q
      else q = p ∧ ∃ t, g.at? p = some t ∧ (g.begins t || t.is "+") = false) (operand down) := by
  refine .currentIs fun t ht => ?_
  have hunique : ∀ {u}, g.at? p = some u → u = t := fun hu => Option.some.inj (hu.symm.trans ht)
  cases hround : t.is "(" with
  | true => exact (spans_bracketed hdown ⟨t, ht, hround⟩).bind fun _ q hq => .pure hq
  | false =>
    refine .firstOf_cons (spans_call hdown p) ?_
    rintro ⟨u, hu, hcall⟩
    obtain rfl := hunique hu
    refine .firstOf_cons (P := True) ?_ fun _ => ?_
    · refine .nextIs ht fun v hv => ?_
      rw [(hplain.at? hv).2.1]
      exact .pure ⟨rfl, trivial⟩
    refine .firstOf_cons (spans_value hdown hplain ht hcall) ?_
    rintro ⟨hatom, hsign⟩
    refine .firstOf_cons ((spans_list hdown p).found fun _ => .listed) ?_
    rintro ⟨v, hv, hsquare⟩
    obtain rfl := hunique hv
    refine .firstOf_cons ((spans_point hdown p).found fun _ => .pointed) fun _ => ?_
    have hname : v.isKind .name = false := (Bool.or_eq_false_iff.mp hatom).1
    refine (spans_comprehension ht hname).bind ?_
    rintro _ _ ⟨rfl, rfl⟩
    refine Spans.firstOf_cons (P := True) ?_ fun _ => .pure ⟨rfl, v, ht, ?_⟩
    · refine .currentIs fun w hw => ?_
      rw [(hplain.at? hw).1]
      exact .pure ⟨rfl, trivial⟩
    · simp only [Token.isOneOf, List.any_cons, List.any_nil, Bool.or_false,
        Bool.or_eq_false_iff] at hsign
      simp [Ground.begins, hround, hsquare, hcall, hatom, hsign]

/-- A point and the operation behind it, if there is one. -/
theorem spans_attempt (p : Int) : g.Spans p (fun found q => if found = none then q = p else
    ∃ m, Phrase g true .point p m ∧ Phrase g true .tail m q ∧
      (found = some false → ∃ t, g.at? q = some t ∧ t.isEnd = false))
    (attempt (point down) (operation down)) := by
  refine (spans_point hdown p).bind fun found m hm => ?_
  cases found with
  | false => exact .pure hm.1
  | true =>
    refine (spans_operation hdown m).bind fun _ q hq => ?_
    have hend : g.Spans q (fun done k => k = q ∧
        (done = false → ∃ t, g.at? q = some t ∧ t.isEnd = false)) (atEnd [",", "]", ")"]) := by
      intro c hc
      unfold atEnd
      rw [bind_apply, get_apply]
      dsimp only
      cases hcurrent : c.current with
      | none => exact ⟨q, hc, rfl, fun h => by cases h⟩
      | some t => exact ⟨q, hc, rfl, fun h => ⟨t, hc.current ▸ hcurrent, h⟩⟩
    refine hend.bind ?_
    rintro done _ ⟨rfl, hstray⟩
    exact .pure ⟨m, hm, hq, fun h => hstray (Option.some.inj h)⟩

omit hdown in
/-- Wherever an attempt has come to, the reading goes on from where it began. -/
theorem ends_rewind {α : Type} {rel : α → Int → Prop} {p : Int} {rest : Compile α}
    (hrest : g.Spans p rel rest) {d : Compiler} (htokens : d.tokens = g.tokens)
    (hfunctions : d.functions = g.functions) (text : String) :
    g.Ends rel ((do
      rewind p text
      advance
      rest) d) := by
  have hheld := held_setLatex text { d with position := p - 1 }
  simp only [rewind, bind_apply, modify_apply]
  cases hwrite : setLatex text { d with position := p - 1 } with
  | error e r =>
    rw [hwrite] at hheld
    exact ⟨hheld.tokens.trans htokens, hheld.functions.trans hfunctions⟩
  | ok _ r =>
    rw [hwrite] at hheld
    have hkept : r.tokens = g.tokens ∧ r.functions = g.functions :=
      ⟨hheld.tokens.trans htokens, hheld.functions.trans hfunctions⟩
    dsimp only
    cases hcurrent : r.current with
    | none =>
      rw [advance_of_none hcurrent]
      exact hkept
    | some t =>
      rw [advance_of_some hcurrent]
      have hback : g.At (r.advanced t) (p - 1 + 1) := at_advanced hkept.1 hkept.2 hheld.position
      rw [Int.sub_add_cancel] at hback
      exact hrest _ hback

/-- An expression behind an attempt to read a point. -/
def operands (down : Descent) : Compile Verdict := do
  unless ← operand down do return .refused
  operation down
  if ← atEnd [",", "]", ")", "\x7d"] then return .accepted
  return .dangling

theorem spans_operands (hplain : g.Plain) (p : Int) : g.Spans p (fun v q =>
    if v = .refused then q = p ∧ ∃ t, g.at? p = some t ∧ (g.begins t || t.is "+") = false
    else ∃ m, Phrase g true .operand p m ∧ Phrase g true .tail m q) (operands down) := by
  refine (spans_operand hdown hplain p).bind fun found m hm => ?_
  cases found with
  | false => exact .pure hm
  | true =>
    refine (spans_operation hdown m).bind fun _ q hq => .still (.atEnd _) fun done => ?_
    cases done with
    | true => exact .pure ⟨m, hm, hq⟩
    | false => exact .pure ⟨m, hm, hq⟩

/-- From where the attempt began. -/
theorem spans_operands_again (hplain : g.Plain) (p : Int) :
    g.Spans p (fun v q => Phrase g true v.part p q) (operands down) := by
  refine (spans_operands hdown hplain p).weaken fun v q hq => ?_
  cases v with
  | refused =>
    obtain ⟨rfl, t, ht, hother⟩ := hq
    exact .missing rfl ht hother
  | accepted =>
    obtain ⟨m, hm, hq⟩ := hq
    exact .expression hm hq
  | dangling =>
    obtain ⟨m, hm, hq⟩ := hq
    exact .expression hm hq

/-- Behind a point that no end follows, where a token is passed over. -/
theorem spans_operands_behind (hplain : g.Plain) {p m k : Int} {t : Token}
    (hpoint : Phrase g true .point p m) (htail : Phrase g true .tail m k) (ht : g.at? k = some t)
    (hstray : t.isEnd = false) :
    g.Spans k (fun v q => Phrase g true v.part p q) (do
      advance
      operands down) := by
  refine .advance ((spans_operands hdown hplain (k + 1)).weaken fun v q hq => ?_)
  cases v with
  | refused =>
    obtain ⟨rfl, -⟩ := hq
    exact .missingBehind rfl hpoint htail ht hstray
  | accepted =>
    obtain ⟨l, hl, hq⟩ := hq
    exact .passingOver rfl hpoint htail ht hstray hl hq
  | dangling =>
    obtain ⟨l, hl, hq⟩ := hq
    exact .passingOver rfl hpoint htail ht hstray hl hq

theorem spans_expressionFrom (hplain : g.Plain) (p : Int) :
    g.Spans p (fun v q => Phrase g true v.part p q) (expressionFrom down) := by
  have hagain := spans_operands_again hdown hplain p
  unfold expressionFrom
  rw [pointFirst_eq, bind_assoc]
  refine .still .latex fun text c hc => ?_
  have hattempt := spans_attempt hdown p c hc
  -- at the end of the tokens the position is one too small, but there the attempt fails at once
  have hposition : attempt (point down) (operation down) c ≠ .error .noToken c →
      c.position = p := by
    intro hrun
    cases hcurrent : c.current with
    | none => exact absurd (attempt_of_none hcurrent) hrun
    | some t => simp [hc.position, hcurrent]
  rw [bind_assoc, bind_apply, get_apply]
  dsimp only
  rw [bind_apply, retrying_apply]
  cases hrun : attempt (point down) (operation down) c with
  | error e d =>
    rw [hrun] at hattempt
    cases e with
    | diagnostic m =>
      dsimp only
      rw [← bind_apply, bind_assoc, hposition (by simp [hrun])]
      exact ends_rewind hagain hattempt.1 hattempt.2 text
    | _ => exact hattempt
  | ok found d =>
    rw [hrun] at hattempt
    obtain ⟨q, hd, hq⟩ := hattempt
    cases found with
    | none =>
      dsimp only
      rw [← bind_apply, bind_assoc, hposition (by simp [hrun])]
      exact ends_rewind hagain hd.tokens hd.functions text
    | some done =>
      obtain ⟨m, hpoint, htail, hstray⟩ := hq
      cases done with
      | true => exact ⟨q, hd, .expression (.pointed hpoint) htail⟩
      | false =>
        obtain ⟨t, ht, hend⟩ := hstray rfl
        exact spans_operands_behind hdown hplain hpoint htail ht hend d hd

end forms

theorem spans_expression {g : Ground} (hplain : g.Plain) (levels : Nat) (p : Int) :
    g.Spans p (fun v q => Phrase g true v.part p q) (expressionWithin levels) := by
  induction levels generalizing p with
  | zero => exact fun c hc => ⟨hc.tokens, hc.functions⟩
  | succ levels ih =>
    have hdown : ∀ p, g.Spans p (fun v q => Phrase g true v.part p q) (descent levels).expression :=
      ih
    exact spans_expressionFrom hdown hplain p

/-- Where there is no token there is no expression. -/
theorem expressionWithin_of_none {levels : Nat} {c d : Compiler} {v : Verdict}
    (h : c.current = none) : expressionWithin levels c ≠ .ok v d := by
  intro hrun
  cases levels with
  | zero => cases hrun
  | succ levels =>
    rw [expressionWithin_succ, expressionFrom, pointFirst_eq, bind_assoc, bind_apply] at hrun
    cases hlatex : latex c with
    | error e c' =>
      rw [hlatex] at hrun
      cases hrun
    | ok text c' =>
      obtain ⟨rfl, -⟩ := eq_of_latex hlatex
      rw [hlatex] at hrun
      dsimp only at hrun
      rw [bind_assoc, bind_apply, get_apply] at hrun
      dsimp only at hrun
      rw [bind_apply, retrying_apply, attempt_of_none h] at hrun
      cases hrun

/-- The place that the cursor is at; behind the last token there is one more. -/
def Compiler.place (c : Compiler) : Int := if c.current.isSome then c.position else c.position + 1

/-- What is accepted as an expression is a phrase, perhaps with slips: an operand may be missing, a
sign may stand alone or before anything, and a token may be passed over behind a point. There is no
slip in it where every token fits the one in front of it. -/
theorem accepted_expression_is_phrase {levels : Nat} {c d : Compiler}
    (hplain : ∀ t ∈ c.tokens, t.is "\x7b" = false ∧ t.is "!" = false ∧ t.is "." = false)
    (hcurrent : c.current = Place.get? c.tokens c.position)
    (haccepted : expressionWithin levels c = .ok .accepted d) :
    d.tokens = c.tokens ∧
      Phrase ⟨c.tokens, c.functions⟩ true .expression c.position d.place ∧
      (Ground.Neat ⟨c.tokens, c.functions⟩ c.position d.place →
        Phrase ⟨c.tokens, c.functions⟩ false .expression c.position d.place) := by
  cases htoken : c.current with
  | none => exact absurd haccepted (expressionWithin_of_none htoken)
  | some t =>
    have hstart : Ground.At ⟨c.tokens, c.functions⟩ c c.position :=
      ⟨rfl, rfl, hcurrent, by simp [htoken]⟩
    have hground : Ground.Plain ⟨c.tokens, c.functions⟩ := hplain
    have hread := spans_expression hground levels c.position c hstart
    rw [haccepted] at hread
    obtain ⟨q, hd, hphrase⟩ := hread
    have hplace : d.place = q := by
      rw [Compiler.place, hd.position]
      split <;> omega
    rw [hplace]
    refine ⟨hd.tokens, hphrase, fun hneat => ?_⟩
    exact (hphrase.proper hneat (Int.le_refl _) (Int.le_refl _) (.inl rfl)).1

/-- The state behind an expression, if it is accepted. -/
def accepted? (levels : Nat) (c : Compiler) : Option Compiler :=
  match expressionWithin levels c with
  | .ok .accepted d => some d
  | _ => none

theorem eq_of_accepted? {levels : Nat} {c d : Compiler} (h : accepted? levels c = some d) :
    expressionWithin levels c = .ok .accepted d := by
  unfold accepted? at h
  split at h
  · next hrun =>
    cases h
    exact hrun
  · cases h

/-- A script with a blank entry to write to. -/
def begun? (code : String) : Option Compiler :=
  match Compiler.ofCode [] code with
  | .error _ => none
  | .ok c =>
    match beginEntry c with
    | .error _ _ => none
    | .ok _ d => some d

/-- What the reading of an expression supposes. -/
def Compiler.isPlain (c : Compiler) : Bool :=
  (c.tokens.all fun t => !t.is "\x7b" && !t.is "!" && !t.is ".") &&
    c.current = Place.get? c.tokens c.position

theorem Compiler.plain_of_isPlain {c : Compiler} (h : c.isPlain = true) :
    (∀ t ∈ c.tokens, t.is "\x7b" = false ∧ t.is "!" = false ∧ t.is "." = false) ∧
      c.current = Place.get? c.tokens c.position := by
  rw [isPlain, Bool.and_eq_true, decide_eq_true_eq] at h
  refine ⟨fun t ht => ?_, h.2⟩
  have hall := Array.all_eq_true_iff_forall_mem.mp h.1 t ht
  simpa [and_assoc] using hall

/-- Brackets, a point, a call, a list and a list access, with signs and operators between them. -/
def mixedExpression : String := "-x[1,2] * (y - -3) + sin((4, x)) ^ [x, (5)]\n"

theorem mixed_expression_is_phrase :
    ∃ c d, (∀ t ∈ c.tokens, t.is "\x7b" = false ∧ t.is "!" = false ∧ t.is "." = false) ∧
      c.current = Place.get? c.tokens c.position ∧
      expressionWithin 20 c = .ok .accepted d ∧
      d.place = 31 ∧ Phrase ⟨c.tokens, c.functions⟩ false .expression c.position d.place := by
  have hview : ((begun? mixedExpression).bind fun c => (accepted? 20 c).map fun d =>
      (c.isPlain, d.place,
        decide (Ground.Neat ⟨c.tokens, c.functions⟩ c.position d.place))) =
      some (true, 31, true) := by
    decide +kernel
  obtain ⟨c, -, hview⟩ := Option.bind_eq_some_iff.mp hview
  obtain ⟨d, haccepted, hends⟩ := Option.map_eq_some_iff.mp hview
  rw [Prod.mk.injEq, Prod.mk.injEq, decide_eq_true_eq] at hends
  obtain ⟨hisPlain, hplace, hneat⟩ := hends
  obtain ⟨hplain, hcurrent⟩ := Compiler.plain_of_isPlain hisPlain
  have hrun := eq_of_accepted? haccepted
  obtain ⟨-, -, hphrase⟩ := accepted_expression_is_phrase hplain hcurrent hrun
  exact ⟨c, d, hplain, hcurrent, hrun, hplace, hphrase hneat⟩

/-- A numeral with an operator at the end of its line is accepted, though it is no phrase without
slips. -/
theorem bare_operator_accepted :
    ∃ c d, (∀ t ∈ c.tokens, t.is "\x7b" = false ∧ t.is "!" = false ∧ t.is "." = false) ∧
      c.current = Place.get? c.tokens c.position ∧
      expressionWithin 20 c = .ok .accepted d ∧
      ¬ Phrase ⟨c.tokens, c.functions⟩ false .expression c.position d.place := by
  have hview : ((begun? "1 +\n2").bind fun c => (accepted? 20 c).map fun d =>
      (c.isPlain, d.place, Place.get? c.tokens 1)) =
      some (true, 2, some (.word .operator "+")) := by
    decide +kernel
  obtain ⟨c, -, hview⟩ := Option.bind_eq_some_iff.mp hview
  obtain ⟨d, haccepted, hends⟩ := Option.map_eq_some_iff.mp hview
  rw [Prod.mk.injEq, Prod.mk.injEq] at hends
  obtain ⟨hisPlain, hplace, hlast⟩ := hends
  obtain ⟨hplain, hcurrent⟩ := Compiler.plain_of_isPlain hisPlain
  refine ⟨c, d, hplain, hcurrent, eq_of_accepted? haccepted, fun hphrase => ?_⟩
  rcases hphrase.ends_operand with ⟨hpart, -⟩ | ⟨t, ht, hkind⟩
  · simp at hpart
  · rw [hplace] at ht
    have hoperator : t = .word .operator "+" := Option.some.inj (ht.symm.trans hlast)
    rw [hoperator] at hkind
    exact absurd hkind (by decide)

end PlotScript
