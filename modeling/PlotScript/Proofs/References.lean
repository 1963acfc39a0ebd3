import PlotScript.Program
import PlotScript.Proofs.Naming

/-! The LaTeX name of a variable. A name is always written with the innermost scope of the place
where it stands, while a reference may be to a name of any scope around it. So a reference agrees
with the definition exactly if the two innermost scopes have one name. -/

namespace PlotScript
open Compile Grammar

namespace Table

/-- Whether what a path leads to holds a name. -/
def bindsAt (names : Table) (path : List String) (name : String) : Bool :=
  (names.resolve path >>= Binding.mentions name).toOption.getD false

/-- The longest prefix of a path at which a name is bound. -/
def home? (names : Table) (path : List String) (name : String) : Option (List String) :=
  ((List.range (path.length + 1)).reverse.map path.take).find? fun scope =>
    names.bindsAt scope name

theorem exists_of_bind_eq_ok {α β : Type} {x : Except Fault α} {f : α → Except Fault β} {b : β}
    (h : (x >>= f) = .ok b) : ∃ a, x = .ok a ∧ f a = .ok b := by
  cases x with
  | error e => cases h
  | ok a => exact ⟨a, rfl, h⟩

theorem exists_home_of_bindsAt {names : Table} {path : List String} {name : String} {k : Nat}
    (hk : k ≤ path.length) (h : names.bindsAt (path.take k) name = true) :
    ∃ home, names.home? path name = some home := by
  refine Option.isSome_iff_exists.mp (List.find?_isSome.mpr ⟨path.take k, ?_, h⟩)
  exact List.mem_map_of_mem (List.mem_reverse.mpr (List.mem_range.mpr (Nat.lt_succ_of_le hk)))

/-- A name that is found along a path is held by one of the scopes on the way. -/
theorem exists_of_boundAlong_go {path : List String} {name : String} {found : Bool} {b : Binding}
    (h : boundAlong.go name path found b = .ok true) :
    found = true ∨ ∃ k ≤ path.length, ∃ scope, b.resolve (path.take k) = .ok scope ∧
      scope.mentions name = .ok true := by
  induction path generalizing found b with
  | nil => exact .inl (Except.ok.inj h)
  | cons step path ih =>
    rw [boundAlong.go] at h
    obtain ⟨known, hknown, h⟩ := exists_of_bind_eq_ok h
    cases known with
    | false => cases h
    | true =>
      obtain ⟨next, hnext, h⟩ := exists_of_bind_eq_ok h
      obtain ⟨here, hhere, h⟩ := exists_of_bind_eq_ok h
      -- found in this scope, or further along in what this step leads to
      rcases ih h with hfound | ⟨k, hk, scope, hscope, hholds⟩
      · rcases (Bool.or_eq_true _ _).mp hfound with hfound | rfl
        · exact .inl hfound
        · exact .inr ⟨1, by simp, next, by simp [Binding.resolve, hnext], hhere⟩
      · refine .inr ⟨k + 1, Nat.succ_le_succ hk, scope, ?_, hholds⟩
        simp [Binding.resolve, hnext, hscope]

end Table

namespace Compiler

/-- The token behind the current one. -/
def next? (c : Compiler) : Option Token := Place.get? c.tokens (c.position + 1)

end Compiler

/-! Different names stay different. -/

theorem subscripted_toList {name : String} (h : name ≠ "") :
    ∃ c rest, name.toList = c :: rest ∧ (subscripted name).toList =
      c :: if rest = [] then [] else "_\x7b".toList ++ rest ++ "\x7d".toList := by
  obtain ⟨c, rest, hname⟩ := List.exists_cons_of_ne_nil (mt String.toList_eq_nil_iff.mp h)
  refine ⟨c, rest, hname, ?_⟩
  cases rest with
  | nil => simp [subscripted, hname]
  | cons d rest => simp [subscripted, hname]

theorem subscripted_inj {a b : String} (ha : a ≠ "") (hb : b ≠ "") :
    subscripted a = subscripted b ↔ a = b := by
  refine ⟨fun h => ?_, fun h => h ▸ rfl⟩
  obtain ⟨c, rest, hac, hsub⟩ := subscripted_toList ha
  obtain ⟨d, rest', hbd, hsub'⟩ := subscripted_toList hb
  rw [h, hsub'] at hsub
  rw [← String.toList_inj, hac, hbd]
  by_cases h₁ : rest = [] <;> by_cases h₂ : rest' = [] <;> simp_all

theorem scopedName_inj {name : String} (h : name ≠ "") (p q : List String) :
    scopedName p name = scopedName q name ↔ q.getLastD "" = p.getLastD "" := by
  rw [scopedName, scopedName, subscripted_inj (append_ne_empty h) (append_ne_empty h)]
  constructor
  · intro he
    rw [← String.toList_inj, String.toList_append, String.toList_append] at he
    exact String.toList_inj.mp (List.append_cancel_right he).symm
  · intro he
    rw [he]

/-! What reading a name writes. -/

section run
variable {c c' : Compiler} {down : Descent} {name : String}

theorem emitName_eq {text : String} (h : c.text? = some text) (hname : name ≠ "") :
    emitName name c = .ok () (c.withText (text ++ scopedName c.scope name)) := by
  obtain ⟨entry, hentry, -⟩ := Option.bind_eq_some_iff.mp h
  have hopen : c.IsOpen := Option.isSome_iff_exists.mpr ⟨entry, hentry⟩
  have hemit := emitName_resume (p := c.progress text) hopen hname
  rw [Compiler.resume_progress h] at hemit
  exact hemit

/-- Without a dot behind the name, looking it up leaves the state as it is. -/
theorem isBound_unchanged {found : Bool} (hdot : ∀ u ∈ c.next?, u.is "." = false)
    (h : isBound c.scope name c = .ok found c') : c' = c := by
  cases htop : c.names.has name with
  | true =>
    cases hnext : Place.get? c.tokens (c.position + 1) with
    | none => simp [isBound, htop, nextIs, peek, hnext] at h
    | some u =>
      have hu := hdot u hnext
      simp [isBound, htop, nextIs, peek, hnext, hu] at h
      exact h.2.symm
  | false =>
    cases halong : c.names.boundAlong c.scope name with
    | error e => simp [isBound, htop, halong] at h
    | ok found =>
      simp [isBound, htop, halong] at h
      exact h.2.symm

/-- A name that is bound is held by the outermost table or by a scope along the path. -/
theorem exists_home_of_isBound (h : isBound c.scope name c = .ok true c') :
    ∃ home, c.names.home? c.scope name = some home := by
  cases htop : c.names.has name with
  | true =>
    refine Table.exists_home_of_bindsAt (Nat.zero_le _) ?_
    simp [Table.bindsAt, Table.resolve, Binding.resolve, Binding.mentions, htop, Except.toOption,
      bind, Except.bind]
  | false =>
    have halong : c.names.boundAlong c.scope name = .ok true := by
      cases hrun : c.names.boundAlong c.scope name with
      | error e => simp [isBound, htop, hrun] at h
      | ok found =>
        simp [isBound, htop, hrun] at h
        rw [h.1]
    rcases Table.exists_of_boundAlong_go halong with hfound | ⟨k, hk, scope, hscope, hholds⟩
    · contradiction
    · refine Table.exists_home_of_bindsAt hk ?_
      simp [Table.bindsAt, Table.resolve, hscope, hholds, Except.toOption, bind, Except.bind]

/-- A name that is looked up and written. -/
theorem reference_eq {text : String} (h : c.text? = some text) (hname : name ≠ "")
    (hdot : ∀ u ∈ c.next?, u.is "." = false) (hrun : reference down name c = .ok () c') :
    c' = c.withText (text ++ scopedName c.scope name) ∧
      ∃ home, c.names.home? c.scope name = some home := by
  rw [reference, bind_apply, get_apply] at hrun
  simp only [bind_apply] at hrun
  cases hbound : isBound c.scope name c with
  | error e d => simp [hbound] at hrun
  | ok found d =>
    obtain rfl := isBound_unchanged hdot hbound
    rw [hbound] at hrun
    cases found with
    | false =>
      cases hlocate : Diagnostic.locate ("Variable " ++ name ++ " not defined") d.lines d.line <;>
        simp [fail_apply, hlocate] at hrun
    | true =>
      refine ⟨?_, exists_home_of_isBound hbound⟩
      cases hnext : Place.get? d.tokens (d.position + 1) with
      | none => simp [nextIs, peek, hnext] at hrun
      | some u =>
        have hu := hdot u hnext
        simp [nextIs, peek, hnext, hu, emitName_eq h hname] at hrun
        exact hrun.symm

/-- Binding a name leaves the text, the scope and the tokens as they are. -/
theorem define_frame (h : define name c = .ok () c') :
    c'.text? = c.text? ∧ c'.scope = c.scope ∧ c'.next? = c.next? := by
  cases hnames : c.names.add c.scope name .unset with
  | error e => simp [define, addName, setNames, hnames] at h
  | ok names =>
    simp [define, addName, setNames, hnames, print] at h
    rw [← h]
    exact ⟨rfl, rfl, rfl⟩

/-- A name is written with the innermost scope, whether it is being defined or referred to. -/
theorem nameValue_text (hname : name ≠ "") (hdot : ∀ u ∈ c.next?, u.is "." = false)
    (hrun : nameValue down name c = .ok () c') :
    ∃ text, c.text? = some text ∧ c'.text? = some (text ++ scopedName c.scope name) ∧
      (text = "" ∧ (∃ u ∈ c.next?, u.is "=" = true) ∨
        ∃ home, c.names.home? c.scope name = some home) := by
  have hwritten : ∀ {d : Compiler} {text : String}, d.text? = some text → d.scope = c.scope →
      d.next? = c.next? → reference down name d = .ok () c' →
      c'.text? = some (text ++ scopedName c.scope name) := by
    intro d text htext hscope hnext href
    rw [(reference_eq htext hname (hnext ▸ hdot) href).1, ← hscope]
    exact Compiler.text?_withText htext _
  rw [nameValue_eq, bind_apply] at hrun
  cases hlatex : latex c with
  | error e d => simp [hlatex] at hrun
  | ok text d =>
    have htext := text?_of_latex hlatex
    refine ⟨text, htext, ?_⟩
    rw [latex_eq_ok htext] at hrun
    by_cases hempty : text = ""
    · cases hnext : Place.get? c.tokens (c.position + 1) with
      | none => simp [hempty, nextIs, peek, hnext] at hrun
      | some u =>
        cases hequals : u.is "=" with
        | false =>
          simp [hempty, nextIs, peek, hnext, hequals] at hrun
          exact ⟨hwritten htext rfl rfl hrun, .inr (reference_eq htext hname hdot hrun).2⟩
        | true =>
          cases hdefine : define name c with
          | error e d => simp [hempty, nextIs, peek, hnext, hequals, hdefine] at hrun
          | ok _ d =>
            simp [hempty, nextIs, peek, hnext, hequals, hdefine] at hrun
            obtain ⟨htext', hscope, hnext'⟩ := define_frame hdefine
            exact ⟨hwritten (htext'.trans htext) hscope hnext' hrun,
              .inl ⟨hempty, u, hnext, hequals⟩⟩
    · simp [hempty] at hrun
      exact ⟨hwritten htext rfl rfl hrun, .inr (reference_eq htext hname hdot hrun).2⟩

/-- A name that is not being defined was found in some scope, and it is written like a definition
in that scope exactly if the innermost scope of the place has the same name. -/
theorem written_as_defined_iff (hname : Lexer.isName name.toList = true)
    (hdot : ∀ u ∈ c.next?, u.is "." = false) (hrun : nameValue down name c = .ok () c') :
    ∃ text, c.text? = some text ∧ c'.text? = some (text ++ scopedName c.scope name) ∧
      (text = "" ∧ (∃ u ∈ c.next?, u.is "=" = true) ∨
        ∃ home, c.names.home? c.scope name = some home) ∧
      ∀ home, c.names.home? c.scope name = some home →
        (c'.text? = some (text ++ scopedName home name) ↔
          home.getLastD "" = c.scope.getLastD "") := by
  have hne : name ≠ "" := by
    rintro rfl
    contradiction
  obtain ⟨text, htext, hwritten, hfound⟩ := nameValue_text hne hdot hrun
  refine ⟨text, htext, hwritten, hfound, fun home _ => ?_⟩
  rw [hwritten, Option.some.injEq, String.append_right_inj]
  exact scopedName_inj hne c.scope home

end run

/-- In a namespace, before a name of the outermost scope. -/
def inNamespace : Compiler :=
  { code := "b = a"
    lines := ["b = a"]
    tokens := #[.word .name "b", .word .operator "=", .word .name "a", Token.newline]
    current := some (.word .name "a")
    position := 2
    line := 1
    names := (Table.initial.bind "a" .unset).bind "N" (.table [("b", .unset)])
    scope := ["N"]
    document := some #[.expression 1 "N_\x7bb\x7d=" none]
    target := .document }

theorem inNamespace_written :
    nameValue (descent 0) "a" inNamespace =
      .ok () (inNamespace.withText "N_\x7bb\x7d=N_\x7ba\x7d") ∧
    inNamespace.names.home? ["N"] "a" = some [] ∧
    (inNamespace.withText "N_\x7bb\x7d=N_\x7ba\x7d").text? ≠
      some ("N_\x7bb\x7d=" ++ scopedName [] "a") := by
  have hrun : nameValue (descent 0) "a" inNamespace =
      .ok () (inNamespace.withText "N_\x7bb\x7d=N_\x7ba\x7d") := by rfl
  have hhome : inNamespace.names.home? ["N"] "a" = some [] := by decide
  obtain ⟨text, htext, -, -, hagrees⟩ := written_as_defined_iff (by decide) (by decide) hrun
  obtain rfl : text = "N_\x7bb\x7d=" := Option.some.inj (htext.symm.trans (by decide))
  exact ⟨hrun, hhome, mt (hagrees [] hhome).mp (by decide)⟩

/-- The state after a script that compiles. -/
def compiled? (files : Files) (code : String) : Option Compiler :=
  match Compiler.ofCode files code with
  | .error _ => none
  | .ok c =>
    match run c with
    | .ok _ c' => some c'
    | .error _ _ => none

theorem reference_in_namespace_differs :
    (compiled? [] "a = 1\nns N \x7b\nb = a\n\x7d").map (fun c =>
      (c.names.home? ["N"] "a", c.document)) =
      some (some [], some #[.expression 1 "a=1" none, .folder 2 (some "N") [],
        .expression 3 (scopedName ["N"] "b" ++ "=" ++ scopedName ["N"] "a") (some 2)]) ∧
    scopedName ["N"] "a" ≠ scopedName [] "a" :=
  ⟨by decide +kernel, by decide⟩

end PlotScript
