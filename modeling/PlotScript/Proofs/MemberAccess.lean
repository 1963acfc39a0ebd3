import PlotScript.Proofs.FunctionDefinition
import PlotScript.Proofs.Lookups
import PlotScript.Proofs.Stopping

/-! Members of namespaces. Behind a name of the outermost table and a dot a whole expression is read
in the scope of that name, and the token behind the expression is passed over with it. -/

namespace PlotScript
open Compile Grammar PlotScript.Tree

/-- A member, perhaps with an operator and an expression behind it. -/
def Tree.memberWith (m : Name) : Option (Operator × Expression) → Expression
  | none => .term (.value ⟨false, .name m⟩)
  | some (op, e) => .operation (.value ⟨false, .name m⟩) op e

/-- The state in the scope of a name further down. -/
def Compiler.inside (c : Compiler) (name : String) : Compiler :=
  c.scoped c.names (c.scope ++ [name]) c.functions

namespace Table

/-- A member of a namespace is found along the path of its name. -/
theorem boundAlong_member {t members : Table} {own name : String}
    (hown : t.find? own = some (.table members)) (hmember : members.has name = true) :
    t.boundAlong [own] name = .ok true := by
  obtain ⟨b, hb⟩ := Option.isSome_iff_exists.mp hmember
  exact boundAlong_of_resolve (b := b) (by simp)
    ((resolve_cons_of_some hown).trans (resolve_cons_of_some (t := members) hb))

/-- Along a path that breaks off at its last step nothing is found. -/
theorem boundAlong_of_missing {t own : Table} {path : List String} {step name : String}
    (hpath : t.resolve path = .ok (.table own)) (hstep : own.has step = false) :
    t.boundAlong (path ++ [step]) name = .ok false := by
  have hgo : ∀ (path : List String) (t : Table) (found : Bool), t.resolve path = .ok (.table own) →
      boundAlong.go name (path ++ [step]) found (.table t) = .ok false := by
    intro path
    induction path with
    | nil =>
      intro t found ht
      obtain rfl : t = own := Binding.table.inj (Except.ok.inj ht)
      simp only [List.nil_append, boundAlong.go, Binding.mentions, hstep]
      rfl
    | cons first path ih =>
      intro t found ht
      obtain ⟨next, hfirst, hnext⟩ := exists_of_resolve_cons ht
      obtain ⟨inner, rfl⟩ := Binding.eq_table_of_resolve hnext
      simp only [List.cons_append, boundAlong.go, Binding.mentions, Binding.member, has, hfirst]
      exact ih inner _ hnext
  exact hgo path t false hpath

end Table

section value
variable {c : Compiler} {down : Descent} {i : Nat} {text : String} {rest : List Token}

/-- A name of the outermost table with a dot behind it: what comes then is read in its scope. -/
theorem nameValue_dotted (hc : c.IsOpen) {n : Name} {u : Token}
    (hnamespace : c.names.has n.text = true)
    (hahead : c.Ahead i (n.token :: mark "." :: u :: rest)) :
    nameValue down n.text (c.seenAt i text) = (do
      down.tryExpression
      popScope : Compile Unit) ((c.inside n.text).seenAt (i + 2) text) := by
  have hbound : isBound c.scope n.text (c.seenAt i text) =
      .ok true ((c.inside n.text).seenAt i text) := by
    simp [isBound, hnamespace, nextIs_seenAt hahead.tail.head, pushScope]
    rfl
  have hinside : (c.inside n.text).Ahead i (n.token :: mark "." :: u :: rest) := hahead
  have hreference : reference down n.text (c.seenAt i text) = (do
      down.tryExpression
      popScope : Compile Unit) ((c.inside n.text).seenAt (i + 2) text) := by
    simp [reference, hbound, nextIs_seenAt hinside.tail.head,
      advance_seenAt hinside.head rfl hinside.tail.head,
      advance_seenAt hinside.tail.head rfl hinside.tail.tail.head]
  rw [nameValue_eq, ← hreference]
  by_cases htext : text = ""
  · simp [htext, latex_seenAt hc, nextIs_seenAt hahead.tail.head]
  · simp [htext, latex_seenAt hc]

/-- A name without a minus in front, up to the brackets behind it. -/
theorem value_name {n : Name} (hhead : c.tokens[i]? = some n.token) :
    value down (c.seenAt i text) = (do
      nameValue down n.text
      advance
      discard (listAccess down)
      return true : Compile Bool) (c.seenAt i text) := by
  have hkind : n.token.isKind .name = true := rfl
  have hminus : n.token.is "-" = false := n.token_is (by decide)
  have hown : n.token.name? = some n.text := rfl
  simp [value_eq, hhead, hkind, hminus, unsignedValue, current_seenAt hhead, hown]

/-- Behind the expression one more token is passed. -/
theorem value_dotted (hc : c.IsOpen) {n : Name} {u : Token} (hnamespace : c.names.has n.text = true)
    (hahead : c.Ahead i (n.token :: mark "." :: u :: rest)) {v : Verdict} {j : Nat}
    {text' : String} (hread : down.expression ((c.inside n.text).seenAt (i + 2) text) =
      .ok v ((c.inside n.text).seenAt j text')) :
    value down (c.seenAt i text) = (do
      advance
      discard (listAccess down)
      return true : Compile Bool) (c.seenAt j text') := by
  have hpop : popScope ((c.inside n.text).seenAt j text') = .ok () (c.seenAt j text') := by
    rw [popScope_seenAt (by simp [Compiler.inside, Compiler.scoped])]
    simp [Compiler.inside, Compiler.scoped]
  simp [value_name hahead.head, nameValue_dotted hc hnamespace hahead, Descent.tryExpression, hread,
    hpop]

/-- A fault in the expression is left as it is, in the scope of the name. -/
theorem value_dotted_error (hc : c.IsOpen) {n : Name} {u : Token}
    (hnamespace : c.names.has n.text = true)
    (hahead : c.Ahead i (n.token :: mark "." :: u :: rest)) {e : Fault} {d : Compiler}
    (hread : down.expression ((c.inside n.text).seenAt (i + 2) text) = .error e d) :
    value down (c.seenAt i text) = .error e d := by
  simp [value_name hahead.head, nameValue_dotted hc hnamespace hahead, Descent.tryExpression, hread]

/-- The token behind an expression is passed, and no list may be opened there. -/
theorem behind_dotted {stop u : Token} (hahead : c.Ahead i (stop :: u :: rest))
    (hu : u.is "[" = false) :
    (do
      advance
      discard (listAccess down)
      return true : Compile Bool) (c.seenAt i text) =
      .ok true ((c.withText text).cursorAt (i + 1) (some u) (lineAfter c.line stop)) := by
  have hself : c.seenAt i text = (c.withText text).cursorAt i (some stop) c.line := by
    rw [Compiler.seenAt, hahead.head]
    rfl
  have hadvance : advance ((c.withText text).cursorAt i (some stop) c.line) = _ :=
    advance_cursorAt hahead
  have hlist : currentIs "[" ((c.withText text).cursorAt (i + 1) (some u) (lineAfter c.line stop)) =
      .ok false ((c.withText text).cursorAt (i + 1) (some u) (lineAfter c.line stop)) := by
    simp [currentIs, current, Compiler.cursorAt, hu]
  rw [hself]
  simp [hadvance, listAccess, hlist]

/-- Nor may the tokens end there. -/
theorem behind_dotted_last {stop : Token} (hahead : c.Ahead i [stop]) :
    (do
      advance
      discard (listAccess down)
      return true : Compile Bool) (c.seenAt i text) =
      .error .noToken ((c.withText text).cursorAt i none (lineAfter c.line stop)) := by
  have hself : c.seenAt i text = (c.withText text).cursorAt i (some stop) c.line := by
    rw [Compiler.seenAt, hahead.head]
    rfl
  have hadvance : advance ((c.withText text).cursorAt i (some stop) c.line) = _ :=
    advance_cursorAt_last hahead
  have hlist : currentIs "[" ((c.withText text).cursorAt i none (lineAfter c.line stop)) =
      .error .noToken ((c.withText text).cursorAt i none (lineAfter c.line stop)) := by
    simp [currentIs, current, Compiler.cursorAt]
  rw [hself]
  simp [hadvance, listAccess, hlist]

/-- An expression that begins with a name that is not known. -/
theorem expressionFrom_unknown (down : Descent) (hc : c.Ready) {m : Name} {u : Token}
    (hahead : c.Ahead i (m.token :: u :: rest)) (hmark : u.is "!" = false)
    (hplain : m.text ∉ c.functions ∧ m.text ∉ builtinFunctions)
    (htop : c.names.has m.text = false) (halong : c.names.boundAlong c.scope m.text = .ok false)
    (hassign : text ≠ "" ∨ u.is "=" = false) :
    ∃ source, expressionFrom down (c.seenAt i text) =
      .error (.diagnostic ⟨"Variable " ++ m.text ++ " not defined", c.line, source⟩)
        (c.seenAt i text) := by
  obtain ⟨source, hsource⟩ := Option.isSome_iff_exists.mp hc.hasLine
  refine ⟨source, ?_⟩
  have hfail : ∀ message, (fail message : Compile PUnit) (c.seenAt i text) =
      .error (.diagnostic ⟨message, c.line, source⟩) (c.seenAt i text) := by
    intro message
    have hlocate : Diagnostic.locate message c.lines c.line = .ok ⟨message, c.line, source⟩ := by
      simp [Diagnostic.locate, hsource]
    rw [fail_apply]
    simp [Compiler.seenAt, hlocate]
  have hbound : isBound c.scope m.text (c.seenAt i text) = .ok false (c.seenAt i text) := by
    simp [isBound, htop, halong]
  have hname : nameValue down m.text (c.seenAt i text) =
      .error (.diagnostic ⟨"Variable " ++ m.text ++ " not defined", c.line, source⟩)
        (c.seenAt i text) := by
    by_cases htext : text = ""
    · have hequals : u.is "=" = false := hassign.resolve_left fun h => h htext
      subst htext
      simp [nameValue_eq, latex_seenAt hc.isOpen, nextIs_seenAt hahead.tail.head, hequals,
        reference, hbound, hfail]
    · simp [nameValue_eq, latex_seenAt hc.isOpen, htext, reference, hbound, hfail]
  have hround : m.token.is "(" = false := m.token_is (by decide)
  have hcall : call down (c.seenAt i text) = .ok false (c.seenAt i text) :=
    call_seenAt_other hahead.head fun name hown => by
      obtain rfl : m.text = name := Option.some.inj hown
      exact hplain
  simp [expressionFrom, pointFirst_seenAt_other hc.isOpen hahead.head hround,
    advance_wentBack (by rfl : m.token.isNewline = false) hahead.head, operand,
    currentIs_seenAt hahead.head, hround, term, firstOf, hcall,
    macroCall_seenAt_other hahead.tail.head hmark, value_name hahead.head, hname]

end value

theorem Tree.tokens_memberWith (m : Name) (tail : Option (Operator × Expression)) {stop : Token}
    (hstop : stop ∈ stops) (behind : List Token) :
    ∃ u later, (memberWith m tail).tokens ++ stop :: behind = m.token :: u :: later ∧ Follows u ∧
      ((memberWith m tail).assigned? = none → u.is "=" = false) := by
  cases tail with
  | none => exact ⟨stop, behind, rfl, .inl hstop, fun _ => stops_not_equals stop hstop⟩
  | some tail =>
    obtain ⟨op, e⟩ := tail
    refine ⟨op.token, e.tokens ++ stop :: behind, rfl, .inr ⟨op, rfl⟩, fun hassign => ?_⟩
    cases hop : op.token.is "=" with
    | false => rfl
    | true =>
      cases Operator.token_is_equals hop
      simp [memberWith, Expression.assigned?] at hassign

/-- A member of a namespace is read together with the operator and the expression behind it, all in
the scope of the namespace, and the token behind them is passed over; only the scope is as it was
before. Where nothing follows that token the tokens have ended too soon. In a scope that does not
hold the namespace itself its members are not found, and the scope of the namespace is not left. -/
theorem member_access_passes_stop {c : Compiler} {n m : Name}
    {tail : Option (Operator × Expression)} {levels i : Nat} {text : String} {stop : Token}
    {behind : List Token} (hlevels : (memberWith m tail).tokens.length < levels)
    (hposition : c.position = i) (htokens : c.tokens.toList.drop i =
      n.token :: mark "." :: ((memberWith m tail).tokens ++ stop :: behind))
    (hcurrent : c.current = some n.token)
    (hstop : stop ∈ [Token.newline, mark ",", mark "]", mark ")"])
    (hnamespace : c.names.has n.text = true)
    (hvariables : ∀ v ∈ (memberWith m tail).variables, v ∉ c.functions ∧ v ∉ builtinFunctions)
    (hcallees : ∀ f ∈ (memberWith m tail).callees, f ∈ c.functions ∨ f ∈ builtinFunctions)
    (hfunctions : ∀ f ∈ c.functions, Lexer.isName f.toList = true)
    (htext : c.text? = some text) (hassign : text ≠ "" ∨ (memberWith m tail).assigned? = none)
    (hfirst : 1 ≤ c.line) (hlast : c.line ≤ c.lines.length) :
    ((∀ v ∈ (memberWith m tail).variables, c.names.has v = true ∨
        c.names.boundAlong (c.scope ++ [n.text]) v = .ok true) →
      (∀ u later, behind = u :: later → u.is "[" = false → value (descent levels) c =
        .ok true { c.withText
            (text ++ (memberWith m tail).latex (c.scope ++ [n.text]) c.functions) with
          position := (i + 2 + (memberWith m tail).tokens.length + 1 : Nat)
          current := some u
          line := lineAfter c.line stop }) ∧
      (behind = [] → value (descent levels) c =
        .error .noToken { c.withText
            (text ++ (memberWith m tail).latex (c.scope ++ [n.text]) c.functions) with
          position := (i + 2 + (memberWith m tail).tokens.length : Nat)
          current := none
          line := lineAfter c.line stop })) ∧
    ∀ own : Table, c.names.resolve c.scope = .ok (.table own) → own.has n.text = false →
      c.names.has m.text = false → ∃ source, value (descent levels) c =
        .error (.diagnostic ⟨"Variable " ++ m.text ++ " not defined", c.line, source⟩)
          { c with
            scope := c.scope ++ [n.text]
            position := (i + 2 : Nat)
            current := some m.token } := by
  have hopen : c.IsOpen := Compiler.isOpen_of_text? htext
  have hready : (c.inside n.text).Ready :=
    ⟨hopen, Compiler.hasLine_of_le hfirst hlast, hfunctions⟩
  obtain ⟨u, later, hmember, hu, hequals⟩ := tokens_memberWith m tail hstop behind
  have hahead : c.Ahead i (n.token :: mark "." :: m.token :: u :: later) := by
    rw [Compiler.Ahead, htokens, hmember]
  have hself : c.seenAt i text = c :=
    Compiler.seenAt_eq_self htext hposition (hcurrent.trans hahead.head.symm)
  refine ⟨fun hknown => ?_, fun own hown hmissing htop => ?_⟩
  · have hinside : (c.inside n.text).Ahead (i + 2) ((memberWith m tail).tokens ++ stop :: behind) :=
      hmember ▸ hahead.tail.tail
    have hread : (descent levels).expression ((c.inside n.text).seenAt (i + 2) text) = _ :=
      expressionWithin_seenAt hready hlevels ⟨hknown, hvariables, hcallees⟩ hstop hinside hassign
    have hvalue := value_dotted hopen hnamespace hahead hread
    have hbehind : c.Ahead (i + 2 + (memberWith m tail).tokens.length) (stop :: behind) :=
      hinside.skip
    rw [hself] at hvalue
    refine ⟨fun u later hu hbracket => ?_, fun hnone => ?_⟩
    · subst hu
      rw [hvalue, behind_dotted hbehind hbracket]
      rfl
    · subst hnone
      rw [hvalue, behind_dotted_last hbehind]
      rfl
  · cases levels with
    | zero => contradiction
    | succ levels =>
      have hinside : (c.inside n.text).Ahead (i + 2) (m.token :: u :: later) := hahead.tail.tail
      have hplain := hvariables m.text (by cases tail <;> simp [memberWith, Expression.variables,
        Term.variables, Atom.variables])
      obtain ⟨source, hread⟩ := expressionFrom_unknown (descent levels) hready hinside
        hu.is_eq_false.2.2.1 hplain htop (Table.boundAlong_of_missing hown hmissing)
        (hassign.imp_right hequals)
      have hvalue : value (descent (levels + 1)) (c.seenAt i text) = _ :=
        value_dotted_error hopen hnamespace hahead hread
      refine ⟨source, ?_⟩
      rw [hself] at hvalue
      have hwritten : (c.inside n.text).withText text = c.inside n.text :=
        Compiler.withText_self (c := c.inside n.text) htext
      rw [hvalue, Compiler.seenAt, hinside.head, Compiler.resume, hwritten]
      rfl

/-- A namespace with one member. -/
def disk : Name := ⟨"disk", by decide, by decide⟩

def radius : Name := ⟨"radius", by decide, by decide⟩

/-- A name behind the member that is bound outside of the namespace. -/
def spanBehind : Option (Operator × Expression) :=
  some (.plus, .term (.value ⟨false, .name ⟨"span", by decide, by decide⟩⟩))

/-- A state behind an equals sign, in a scope. -/
def atMember (scope : List String) : Compiler where
  code := ""
  lines := ["", "disk . radius + span", "span"]
  tokens := (disk.token :: mark "." :: ((memberWith radius spanBehind).tokens ++
    [Token.newline, .word .name "span"])).toArray
  current := some disk.token
  line := 2
  names := Table.initial ++ [("disk", .table [("radius", .unset)]), ("span", .unset),
    ("tray", .table [])]
  scope
  document := some #[.expression 1 "w=" none]
  target := .document

/-- The name behind the member is written with the namespace and the newline is passed; in another
namespace the member is not found. -/
theorem disk_passes_stop :
    value (descent 9) (atMember []) =
      .ok true { (atMember []).withText ("w=" ++ "d_\x7biskradius\x7d+d_\x7biskspan\x7d") with
        position := 6
        current := some (.word .name "span")
        line := 3 } ∧
    ∃ source, value (descent 9) (atMember ["tray"]) =
      .error (.diagnostic ⟨"Variable radius not defined", 2, source⟩) { atMember ["tray"] with
        scope := ["tray", "disk"]
        position := 2
        current := some radius.token } := by
  have hplain : ∀ v ∈ (memberWith radius spanBehind).variables,
      v ∉ ([] : List String) ∧ v ∉ builtinFunctions := by decide
  have hknown : ∀ v ∈ (memberWith radius spanBehind).variables, (atMember []).names.has v = true ∨
      (atMember []).names.boundAlong ["disk"] v = .ok true := by
    have hvariables : (memberWith radius spanBehind).variables = ["radius", "span"] := by decide
    have hradius : (atMember []).names.boundAlong ["disk"] "radius" = .ok true :=
      @Table.boundAlong_member _ [("radius", .unset)] _ _ rfl rfl
    have hspan : (atMember []).names.has "span" = true := by decide
    simp [hvariables, hradius, hspan]
  have hread := @member_access_passes_stop (atMember []) disk radius spanBehind 9 0 "w="
    Token.newline [.word .name "span"] (by decide) rfl rfl rfl (by decide) rfl hplain (by decide)
    (by decide) rfl (.inl (by decide)) (by decide) (by decide)
  have hmissed := @member_access_passes_stop (atMember ["tray"]) disk radius spanBehind 9 0 "w="
    Token.newline [.word .name "span"] (by decide) rfl rfl rfl (by decide) rfl hplain (by decide)
    (by decide) rfl (.inl (by decide)) (by decide) (by decide)
  exact ⟨(hread.1 hknown).1 _ _ rfl (by decide), hmissed.2 [] rfl rfl (by decide)⟩

/-- A member at the end of an assignment takes the newline with it, and the next statement is not
read; with a further newline it is. A sum with a member is written in the namespace. -/
theorem member_access_loses_newline :
    (failure? descent "ns N \x7b\nm = 1\n\x7d\na = N.m\nb = 2").map (fun f =>
      (f.fault, f.last.names.has "b")) =
        some (.diagnostic ⟨"Expected statement", 5, "b = 2"⟩, false) ∧
    (compiled? [] "ns N \x7b\nm = 1\n\x7d\nk = 5\na = N.m + k\n\nb = 2").map (fun c =>
      c.document.map fun entries => entries.toList.filterMap Entry.latex?) =
      some (some ["N_\x7bm\x7d=1", "k=5", "a=N_\x7bm\x7d+N_\x7bk\x7d", "b=2"]) :=
  ⟨by decide +kernel, by decide +kernel⟩

end PlotScript
