import PlotScript.Grammar.Term
import PlotScript.Proofs.Progress
import PlotScript.Proofs.Tree

/-! How a name is looked up and how it is written. -/

namespace PlotScript
open Compile Grammar

theorem subscript_eq {name : String} (h : name ≠ "") (c : Compiler) :
    subscript name c = .ok (subscripted name) c := by
  unfold subscript subscripted
  cases hchars : name.toList with
  | nil => exact absurd (String.toList_eq_nil_iff.mp hchars) h
  | cons first rest => cases rest <;> rfl

theorem append_ne_empty {a b : String} (h : b ≠ "") : a ++ b ≠ "" := by
  intro he
  rw [← String.toList_inj, String.toList_append] at he
  exact h (String.toList_eq_nil_iff.mp (List.append_eq_nil_iff.mp he).2)

theorem scopedName_nil (name : String) : scopedName [] name = subscripted name := by
  simp [scopedName]

theorem emitName_resume {c : Compiler} {p : Progress} (hopen : c.IsOpen) {name : String}
    (hname : name ≠ "") :
    emitName name (c.resume p) =
      .ok () (c.resume { p with text := p.text ++ scopedName c.scope name }) := by
  cases hscope : c.scope.getLast? with
  | none =>
    have hnil : c.scope = [] := List.getLast?_eq_none_iff.mp hscope
    have hpiece := emitFrom_resume (c := c) (p := p) hopen (subscript_eq hname (c.resume p))
    rw [hnil, scopedName_nil]
    simpa [emitName, emitFrom, latex_resume hopen, innermost, hscope] using hpiece
  | some own =>
    have hpiece : (do subscript ((← innermost) ++ name) : Compile String) (c.resume p) =
        .ok (subscripted (own ++ name)) (c.resume p) := by
      simp [innermost, hscope, subscript_eq (append_ne_empty hname)]
    simp [emitName, emitFrom_resume hopen hpiece, scopedName, List.getLastD_eq_getLast?, hscope]

theorem callHead_eq {function : String} (h : function ≠ "") (functions : List String)
    (c : Compiler) :
    callHead functions function c = .ok (Tree.calledName functions function ++ "\\left(") c := by
  unfold callHead Tree.calledName
  simp only [List.contains_iff_mem]
  split
  · simp [String.append_assoc]
  · split
    · simp [subscript_eq h]
    · simp

/-- The name is bound at the top, or along the path of scopes. -/
def Compiler.Knows (c : Compiler) (name : String) : Prop :=
  c.names.has name = true ∨ c.names.boundAlong c.scope name = .ok true

/-- Without a dot behind it, looking a name up changes nothing. -/
theorem isBound_resume {c : Compiler} {p : Progress} {name : String} {u : Token}
    (hu : Place.get? c.tokens (p.position + 1) = some u) (hdot : u.is "." = false)
    (hname : p.names.has name = true ∨ p.names.boundAlong c.scope name = .ok true) :
    isBound c.scope name (c.resume p) = .ok true (c.resume p) := by
  cases htop : p.names.has name with
  | true => simp [isBound, htop, nextIs_resume hu, hdot]
  | false =>
    have halong : p.names.boundAlong c.scope name = .ok true := by simpa [htop] using hname
    simp [isBound, htop, halong]

/-- What is done with a name that is not assigned to. -/
def reference (down : Descent) (name : String) : Compile Unit := do
  unless ← isBound (← get).scope name do fail ("Variable " ++ name ++ " not defined")
  if ← nextIs "." then
    advance
    advance
    down.tryExpression
    popScope
  else emitName name

theorem nameValue_eq (down : Descent) (name : String) :
    nameValue down name = (do
      if (← latex) = "" then
        if ← nextIs "=" then define name
      reference down name) := rfl

/-- A value without the minus in front. -/
def unsignedValue (down : Descent) : Compile Bool := do
  let t ← current
  match t.name? with
  | some name => nameValue down name
  | none => emit t.shown
  advance
  discard (listAccess down)
  return true

theorem value_eq (down : Descent) :
    value down = (do
      match (← get).current with
      | none => return true
      | some t =>
        unless t.isKind .name || t.isNumeral || t.isOneOf ["-", "+"] do return false
        if t.is "-" then
          emit "-"
          advance
        unsignedValue down) := rfl

end PlotScript
