import PlotScript.Proofs.Careful
import PlotScript.Proofs.Keeping

/-! Entries while they are written. Read with care, every form closes the brackets that it opens and
leaves the scopes that it enters, or it ends with a fault. -/

namespace PlotScript
open Compile Grammar Latex

/-- The last entry is an expression that is written to, with the brackets `u` open in its text. -/
def Opened (before : Array Entry) (u : List Bracket) (document : Option (Array Entry))
    (target : Target) : Prop :=
  target = .document ∧ ∃ id text inside,
    document = some (before.push (.expression id text inside)) ∧ Piece [] u text

abbrev Draft (before : Array Entry) (n : Nat) (u : List Bracket) : Compiler → Prop :=
  Keeps n (Opened before u)

/-- What a fault leaves of a draft: its brackets and scopes may be anything. -/
def Lost (before : Array Entry) (_ : Fault) (c : Compiler) : Prop :=
  c.IsBare ∧ c.target = .document ∧ ∃ id text inside,
    c.document = some (before.push (.expression id text inside))

instance {before : Array Entry} {n : Nat} {u : List Bracket} :
    Bears (Lost before) (Draft before n u) where
  lose _ hc := by
    obtain ⟨htarget, id, text, inside, hdocument, -⟩ := hc.entries
    exact ⟨hc.bare, htarget, id, text, inside, hdocument⟩

/-- The action closes what it opens, whatever is open around it. -/
def Sound (before : Array Entry) {α : Type} (x : Compile α) : Prop :=
  ∀ n u, Holds (Lost before) (Draft before n u) x fun _ => Draft before n u

theorem Keeps.mono {n m : Nat} {S : Option (Array Entry) → Target → Prop} {c : Compiler}
    (h : Keeps n S c) (hle : n ≤ m) : Keeps m S c :=
  ⟨h.bare, Nat.le_trans h.depth hle, h.entries⟩

theorem subscript_cases (name : String) (c : Compiler) :
    subscript name c = .ok (subscripted name) c ∨ subscript name c = .error .outOfRange c := by
  by_cases hname : name = ""
  · subst hname
    exact .inr rfl
  · exact .inl (subscript_eq hname c)

section drafts
variable {before : Array Entry} {n : Nat} {u v : List Bracket}

/-! Writing. -/

theorem Opened.text? {c : Compiler} {id : Nat} {text : String} {inside : Option Nat}
    (htarget : c.target = .document)
    (hdocument : c.document = some (before.push (.expression id text inside))) :
    c.text? = some text := by
  simp [Compiler.text?, Compiler.lastOpen?, Compiler.openEntries?, htarget, hdocument, Entry.latex?]

theorem holds_latex : Holds (Lost before) (Draft before n u) latex fun text c =>
    Piece [] u text ∧ Draft before n u c := by
  intro c hc
  obtain ⟨htarget, id, text, inside, hdocument, hpiece⟩ := hc.entries
  rw [latex_eq_ok (Opened.text? htarget hdocument)]
  exact ⟨hpiece, hc⟩

/-- The text of what is left of a draft may be set anew. -/
theorem setLatex_of_lost {c : Compiler} {e : Fault} (hc : Lost before e c) {text : String}
    (htext : Piece [] u text) (hdepth : c.scope.length ≤ n) :
    ∃ d, setLatex text c = .ok () d ∧ Draft before n u d := by
  obtain ⟨hbare, htarget, id, old, inside, hdocument⟩ := hc
  exact ⟨_, updateLastEntry_eq hdocument htarget (Entry.setLatex text), hbare.withEntries _ _,
    hdepth, htarget, id, text, inside, rfl, htext⟩

theorem emitFrom_of_error {c : Compiler} {e : Fault} {piece : Compile String}
    (hc : Draft before n u c) (h : piece c = .error e c) : emitFrom piece c = .error e c := by
  obtain ⟨htarget, id, text, inside, hdocument, -⟩ := hc.entries
  simp [emitFrom, latex_eq_ok (Opened.text? htarget hdocument), h]

theorem emitFrom_of_ok {c : Compiler} {added : String} {piece : Compile String}
    (hc : Draft before n u c) (h : piece c = .ok added c) (hpiece : Piece u v added) :
    ∃ d, emitFrom piece c = .ok () d ∧ Draft before n v d := by
  obtain ⟨htarget, id, text, inside, hdocument, htext⟩ := hc.entries
  have hlost : Lost before .exhausted c := Bears.lose _ hc
  obtain ⟨d, hset, hd⟩ := setLatex_of_lost hlost (htext.append hpiece) hc.depth
  refine ⟨d, ?_, hd⟩
  simp only [emitFrom, bind_apply, latex_eq_ok (Opened.text? htarget hdocument), h, hset]

theorem holds_emitFrom {piece : Compile String}
    (h : ∀ c, Draft before n u c → (∃ e, piece c = .error e c) ∨
      ∃ text, piece c = .ok text c ∧ Piece u v text) :
    Holds (Lost before) (Draft before n u) (emitFrom piece) fun _ => Draft before n v := by
  intro c hc
  rcases h c hc with ⟨e, herror⟩ | ⟨added, hadded, hpiece⟩
  · rw [emitFrom_of_error hc herror]
    have hlost : Lost before e c := Bears.lose e hc
    exact hlost
  · obtain ⟨d, hemit, hd⟩ := emitFrom_of_ok hc hadded hpiece
    rw [hemit]
    exact hd

theorem holds_emit {text : String} (h : Piece u v text) :
    Holds (Lost before) (Draft before n u) (emit text) fun _ => Draft before n v :=
  holds_emitFrom fun _ _ => .inr ⟨text, rfl, h⟩

theorem sound_emit {text : String} (h : Bare text) : Sound before (emit text) :=
  fun _ _ => holds_emit (.plain h)

theorem subscript_piece {name : String} (hname : Bare name) (c : Compiler) :
    subscript name c = .error .outOfRange c ∨
      ∃ text, subscript name c = .ok text c ∧ Piece u u text :=
  (subscript_cases name c).symm.imp_right fun hok => ⟨_, hok, .plain (plain_subscripted hname)⟩

/-- A name as it is called in the innermost scope. -/
def scopedPiece (name : String) : Compile String := do subscript ((← innermost) ++ name)

theorem scopedPiece_piece {name : String} (hname : Bare name) {c : Compiler} (hc : c.IsBare) :
    scopedPiece name c = .error .outOfRange c ∨
      ∃ text, scopedPiece name c = .ok text c ∧ Piece u u text := by
  cases hlast : c.scope.getLast? with
  | none => exact .inl (by simp [scopedPiece, innermost, hlast])
  | some own =>
    have hscoped : Bare (own ++ name) := .append (hc.scope own (List.mem_of_getLast? hlast)) hname
    have hinner : scopedPiece name c = subscript (own ++ name) c := by
      simp [scopedPiece, innermost, hlast]
    rw [hinner]
    exact subscript_piece hscoped c

theorem sound_emitName {name : String} (hname : Bare name) : Sound before (emitName name) := by
  intro n u c hc
  show Ends _ _ (tryCatch (emitFrom (scopedPiece name)) _ c)
  rw [tryCatch_apply]
  rcases scopedPiece_piece hname hc.bare with herror | ⟨text, hok, hpiece⟩
  · rw [emitFrom_of_error hc herror]
    exact holds_emitFrom (fun c _ => (subscript_piece hname c).imp_left fun h => ⟨_, h⟩) c hc
  · obtain ⟨d, hemit, hd⟩ := emitFrom_of_ok hc hok hpiece
    rw [hemit]
    exact hd

theorem sound_operator : Sound before operator := by
  intro n u
  refine .get_bind fun c hc => ?_
  split
  · exact .done _
  · next t ht =>
    have hpiece : Piece u u (if t.is "->" then "\\to " else t.shown) := by
      split
      · exact .command (by decide)
      · exact .plain (hc.bare.current t ht)
    exact .ite ((holds_emit hpiece).bind fun _ => Holds.advance.bind fun _ => .done _) (.done _)

theorem callHead_piece {functions : List String} {function : String}
    (hfunctions : ∀ name ∈ functions, Bare name)
    (h : function ∈ functions ∨ function ∈ builtinFunctions) (c : Compiler) :
    (∃ e, callHead functions function c = .error e c) ∨
      ∃ text, callHead functions function c = .ok text c ∧ Piece u (.round :: u) text := by
  by_cases hfunction : function = ""
  · subst hfunction
    have hown : "" ∈ functions := h.resolve_right (by decide)
    exact .inl ⟨.outOfRange, by simp [callHead, hown, subscript]⟩
  · exact .inr ⟨_, callHead_eq hfunction functions c, piece_callHead hfunctions h⟩

theorem holds_heeding {α : Type} {pre : Compiler → Prop} {x : Compile α}
    {post : α → Compiler → Prop} (h : Holds (Lost before) pre x post) :
    Holds (Lost before) pre (Careful.heeding x) post := by
  intro c hc
  have hend := h c hc
  rw [Careful.heeding_apply]
  cases hrun : x c <;> rw [hrun] at hend <;> exact hend

/-- Going back, the text becomes what it was. -/
theorem ends_back {start d : Compiler} {text : String} {e : Fault} (hstart : Draft before n u start)
    (htext : Piece [] u text) (hd : Lost before e d) :
    Ends (Lost before) (fun _ => Draft before n u) (Careful.back start text d) := by
  rcases Careful.back_apply start text d with hstop | ⟨hscope, hback⟩
  · rw [hstop]
    exact hd
  · have hmoved : Lost before e { d with position := start.position - 1 } := by
      obtain ⟨hbare, hrest⟩ := hd
      exact ⟨⟨hbare.tokens, hbare.current, hbare.scope, hbare.functions, hbare.macros,
        hbare.objectName, hbare.modules⟩, hrest⟩
    -- no scope was entered, so it is enough to put the text back
    obtain ⟨d', hset, hd'⟩ := setLatex_of_lost hmoved htext (Nat.le_trans hscope hstart.depth)
    have hrewind : (rewind start.position text >>= fun _ => pure false) d = .ok false d' := by
      simp [rewind, hset]
    rw [hback, hrewind]
    exact hd'

/-- Behind the look-up of a name: a scope was entered only if a dot follows. -/
def Entered (before : Array Entry) (n : Nat) (u : List Bracket) (c : Compiler) : Prop :=
  Draft before n u c ∨ Draft before (n + 1) u c ∧
    ∃ t, Place.get? c.tokens (c.position + 1) = some t ∧ t.is "." = true

instance : Bears (Lost before) (Entered before n u) where
  lose e hc := by
    rcases hc with hc | ⟨hc, -⟩
    · exact Bears.lose e hc
    · exact Bears.lose e hc

theorem holds_isBound {name : String} (hname : Bare name) (path : List String) :
    Holds (Lost before) (Draft before n u) (isBound path name) fun _ => Entered before n u := by
  have hpush : Holds (Lost before) (Draft before n u) (pushScope name) fun _ =>
      Draft before (n + 1) u := .pushScope hname
  refine .get_bind fun c _ => .ite ((Holds.nextIs_eq ".").bind fun dot => ?_) ?_
  · cases dot with
    | true => exact fun d hd => .inr ⟨hpush d hd.1, hd.2⟩
    | false => exact fun d hd => .inl hd.1
  · refine .get_bind fun c _ => ?_
    split
    · exact .pure _ fun _ => .inl
    · exact .throw _

/-- The dot tells whether the scope was entered. -/
theorem holds_nextIs_dot : Holds (Lost before) (Entered before n u) (nextIs ".") fun dot =>
    Draft before (if dot = true then n + 1 else n) u := by
  refine (Holds.nextIs_eq ".").imp fun dot c hc => ?_
  obtain ⟨hentered, t, ht, hdot⟩ := hc
  cases dot with
  | true => exact hentered.elim (fun h => h.mono (Nat.le_succ n)) And.left
  | false =>
    refine hentered.resolve_right fun h => ?_
    obtain ⟨-, t', ht', hdot'⟩ := h
    rw [ht] at ht'
    cases ht'
    rw [hdot] at hdot'
    cases hdot'

/-- Behind the parameters of a function their bracket is closed, unless it is the current token. -/
def Listed (before : Array Entry) (n : Nat) (u : List Bracket) (c : Compiler) : Prop :=
  Draft before n u c ∨ Draft before n (.round :: u) c ∧
    ∃ t, c.current = some t ∧ t.is ")" = true

theorem holds_functionParameter : Holds (Lost before) (Draft before n (.round :: u))
    functionParameter fun done c =>
      if done = true then Listed before n u c else Draft before n (.round :: u) c := by
  refine (Holds.currentIs_eq _).bind fun empty => ?_
  cases empty with
  -- without parameters the closing bracket is neither written nor passed
  | true => exact fun c hc => .inr hc
  | false =>
    refine .weaken (.current_bind fun t ht => ?_) (fun _ hc => hc.1) (fun _ _ => id) fun _ _ => id
    split
    · exact .fail _
    · next name hname =>
      have hwritten : Holds (Lost before) (Draft before n (.round :: u))
          (emitFrom (scopedPiece name)) fun _ => Draft before n (.round :: u) := by
        refine holds_emitFrom fun c hc => ?_
        exact (scopedPiece_piece (bare_of_name? ht hname) hc.bare).imp_left fun h => ⟨_, h⟩
      refine hwritten.bind fun _ => .get_bind fun c _ => (Holds.addName _ _ _).bind fun _ => ?_
      refine Holds.advance.bind fun _ => (Holds.currentIs _).bind fun _ => .ite ?_ ?_
      · refine (holds_emit .rightRound).bind fun _ => Holds.advance.bind fun _ => ?_
        exact .pure _ fun _ => .inl
      · refine (Holds.currentIs _).orFail _ ((sound_emit (by decide) _ _).bind fun _ => ?_)
        exact Holds.advance.bind fun _ => .pure _ fun _ => id

instance : Bears (Lost before) (Listed before n u) where
  lose e hc := by
    rcases hc with hc | ⟨hc, -⟩
    · exact Bears.lose e hc
    · exact Bears.lose e hc

/-- A brace is no bracket. -/
theorem Listed.closed {c : Compiler} {t : Token} (h : Listed before n u c) (ht : c.current = some t)
    (hbrace : t.is "\x7b" = true) : Draft before n u c := by
  refine h.resolve_right fun hopen => ?_
  obtain ⟨-, t', ht', hround⟩ := hopen
  rw [ht] at ht'
  cases ht'
  cases t with
  | numeral value => cases hround
  | word kind text =>
    have hsame : "\x7b" = ")" := (of_decide_eq_true hbrace).symm.trans (of_decide_eq_true hround)
    exact absurd hsame (by decide)

/-- A function goes on only behind the bracket of its parameters. -/
theorem holds_behindParameters {α : Type} {rest : Compile α} {post : α → Compiler → Prop}
    (message : String) (h : Holds (Lost before) (Draft before n u) rest post) :
    Holds (Lost before) (Listed before n u) (currentIs "\x7b" >>= fun found =>
      if found = true then rest else (fail message : Compile PUnit) >>= fun _ => rest) post := by
  refine (Holds.currentIs_eq _).bind fun brace => ?_
  cases brace with
  | true =>
    rintro c ⟨hlisted, t, ht, hbrace⟩
    exact h c (hlisted.closed ht hbrace)
  | false =>
    have hfail : Holds (Lost before) (Listed before n u) (fail message : Compile PUnit)
        fun _ _ => False := .fail _
    exact fun c hc => (hfail.bind fun _ _ hnever => hnever.elim) c hc.1

/-! The forms of an expression. -/

section expression
variable {down : Descent} (hdown : Sound before down.expression)
include hdown

theorem sound_tryExpression : Sound before down.tryExpression :=
  fun n u => (hdown n u).bind fun _ => .done _

theorem sound_acceptsExpression : Sound before down.acceptsExpression :=
  fun n u => (hdown n u).bind fun _ => .done _

theorem sound_operation : Sound before (operation down) :=
  fun n u => (sound_operator n u).bind fun _ => .ite (sound_tryExpression hdown n u) (.done _)

theorem sound_list : Sound before (list down) := by
  intro n u
  have hitem : Holds (Lost before) (Draft before n (.square :: u)) (listItem down) fun _ =>
      Draft before n (.square :: u) := by
    refine (Holds.currentIs _).bind fun _ => .ite (.done _) ?_
    refine (sound_tryExpression hdown _ _).bind fun _ => ?_
    refine (Holds.currentIs _).bind fun _ => .ite (.done _) ((Holds.currentIs _).orFail _ ?_)
    exact (sound_emit (by decide) _ _).bind fun _ => Holds.advance.bind fun _ => .done _
  refine (Holds.currentIs _).bind fun _ => .ite ?_ (.done _)
  refine (holds_emit .leftSquare).bind fun _ => Holds.advance.bind fun _ => ?_
  refine (Holds.repeated hitem _).bind fun _ => ?_
  exact (holds_emit .rightSquare).bind fun _ => Holds.advance.bind fun _ => .done _

theorem sound_nameValue {name : String} (hname : Bare name) :
    Sound before (nameValue down name) := by
  intro n u
  have hreference : Holds (Lost before) (Draft before n u) (reference down name) fun _ =>
      Draft before n u := by
    refine .get_bind fun c _ => (holds_isBound hname _).orFail _ ?_
    refine holds_nextIs_dot.bind fun dot => ?_
    cases dot with
    | true =>
      refine Holds.advance.bind fun _ => Holds.advance.bind fun _ => ?_
      exact (sound_tryExpression hdown _ _).bind fun _ => .popScope rfl
    | false => exact sound_emitName hname n u
  rw [nameValue_eq]
  refine holds_latex.bind fun text => .knowing fun _ => .ite ?_ hreference
  refine (Holds.nextIs _).bind fun _ => .ite ?_ hreference
  exact (Holds.define hname).bind fun _ => hreference

theorem sound_value : Sound before (value down) := by
  intro n u
  have hbehind : Holds (Lost before) (Draft before n u) (do
      advance
      discard (listAccess down)
      return true) fun _ => Draft before n u := by
    have haccess : Holds (Lost before) (Draft before n u) (listAccess down) fun _ =>
        Draft before n u :=
      (Holds.currentIs _).bind fun _ => .ite (sound_list hdown n u) (.done _)
    exact Holds.advance.bind fun _ => haccess.discard.bind fun _ => .done _
  have hunsigned : Holds (Lost before) (Draft before n u) (unsignedValue down) fun _ =>
      Draft before n u := by
    refine .current_bind fun t ht => ?_
    split
    · next name hname =>
      exact (sound_nameValue hdown (bare_of_name? ht hname) n u).bind fun _ => hbehind
    · exact (sound_emit ht n u).bind fun _ => hbehind
  rw [value_eq]
  refine .get_bind fun c _ => ?_
  split
  · exact .done _
  · refine .ite (.ite ?_ hunsigned) (.done _)
    exact (sound_emit (by decide) n u).bind fun _ => Holds.advance.bind fun _ => hunsigned

theorem sound_call : Sound before (call down) := by
  intro n u
  have hargument : ∀ function, Holds (Lost before) (Draft before n (.round :: u))
      (callArgument down function) fun _ => Draft before n (.round :: u) := by
    intro function
    refine (Holds.currentIs _).bind fun _ => .ite (.done _) ((Holds.currentIs _).orFail _ ?_)
    refine (sound_emit (by decide) _ _).bind fun _ => Holds.advance.bind fun _ => ?_
    exact (sound_acceptsExpression hdown _ _).orFail _ (.done _)
  refine .get_bind fun c hc => .current_bind fun t ht => ?_
  split
  · exact .done _
  · next function _ =>
    split
    · next hknown =>
      have hcallable : function ∈ c.functions ∨ function ∈ builtinFunctions := by simpa using hknown
      have hhead : Holds (Lost before) (Draft before n u)
          (emitFrom (callHead c.functions function)) fun _ => Draft before n (.round :: u) :=
        holds_emitFrom fun d _ => callHead_piece hc.bare.functions hcallable d
      refine hhead.bind fun _ => Holds.advance.bind fun _ => (Holds.currentIs _).orFail _ ?_
      refine Holds.advance.bind fun _ => (sound_acceptsExpression hdown _ _).orFail _ ?_
      refine (Holds.repeated (hargument _) _).bind fun _ => ?_
      exact (holds_emit .rightRound).bind fun _ => Holds.advance.bind fun _ => .done _
    · exact .done _

theorem sound_point : Sound before (point down) := by
  intro n u
  refine (Holds.currentIs _).bind fun _ => .ite (Holds.advance.bind fun _ => ?_) (.done _)
  refine (holds_emit .leftRound).bind fun _ => (sound_acceptsExpression hdown _ _).orFail _ ?_
  refine (Holds.currentIs _).orFail _ ((sound_emit (by decide) _ _).bind fun _ => ?_)
  refine Holds.advance.bind fun _ => (sound_acceptsExpression hdown _ _).orFail _ ?_
  refine (holds_emit .rightRound).bind fun _ => (Holds.currentIs _).orFail _ ?_
  exact Holds.advance.bind fun _ => .done _

theorem sound_bracketed : Sound before (bracketed down) := by
  intro n u
  refine (holds_emit .leftRound).bind fun _ => Holds.advance.bind fun _ => ?_
  refine (sound_tryExpression hdown _ _).bind fun _ => (Holds.currentIs _).orFail _ ?_
  exact (holds_emit .rightRound).bind fun _ => .advance

theorem sound_comprehension : Sound before (comprehension down) := by
  intro n u
  refine .current_bind fun t ht => .ite ?rest ((Holds.nextIs _).bind fun _ => .ite ?rest (.done _))
  have hword : Holds (Lost before) (Draft before n u) (emitFrom (wordText t)) fun _ =>
      Draft before n u := by
    refine holds_emitFrom fun c _ => ?_
    cases htext : t.text? with
    | none => exact .inl ⟨.notText, by simp [wordText, htext]⟩
    | some text =>
      exact .inr ⟨text, by simp [wordText, htext], .plain (bare_of_text? ht htext)⟩
  refine hword.bind fun _ => Holds.advance.bind fun _ => ?_
  refine (Holds.currentIs _).orFail _ ((holds_emit (.command (by decide))).bind fun _ => ?_)
  refine Holds.advance.bind fun _ => .current_bind fun t ht => ?_
  split
  · exact .fail _
  · next name hname =>
    refine (sound_emit (bare_of_name? ht hname) _ _).bind fun _ => Holds.advance.bind fun _ => ?_
    refine (Holds.currentIs _).orFail _ (Holds.advance.bind fun _ => ?_)
    refine (sound_emit (by decide) _ _).bind fun _ => (sound_list hdown _ _).orFail _ ?_
    exact Holds.advance.bind fun _ => .done _

section blocks
variable (hstatement : Sound before (down.statement false))
include hstatement

omit hdown in
theorem sound_block : Sound before (block down) := by
  intro n u
  have hround : Holds (Lost before) (Draft before n u) (blockStatement down) fun _ =>
      Draft before n u :=
    (Holds.currentIs _).bind fun _ => .ite (.done _) ((hstatement n u).bind fun _ => .done _)
  refine (Holds.currentIs _).bind fun _ => .ite (Holds.advance.bind fun _ => ?_) (.done _)
  exact (Holds.repeated hround _).bind fun _ => Holds.advance.bind fun _ => .done _

theorem sound_operand : Sound before (operand down) := by
  intro n u
  refine (Holds.currentIs _).bind fun _ => .ite ?_ (Holds.firstOf ?_)
  · exact (sound_bracketed hdown n u).bind fun _ => .done _
  · simp only [List.forall_mem_cons, List.not_mem_nil, false_implies, implies_true, and_true]
    exact ⟨sound_call hdown n u, .macroCall, sound_value hdown n u, sound_list hdown n u,
      sound_point hdown n u, sound_comprehension hdown n u, sound_block hstatement n u⟩

theorem sound_expressionWith : Sound before (expressionWith Careful.back down) := by
  intro n u
  have hattempt : Holds (Lost before) (Draft before n u) (attempt (point down) (operation down))
      fun _ => Draft before n u := by
    refine (sound_point hdown n u).bind fun _ => .ite ?_ (.done _)
    refine (sound_operation hdown n u).bind fun _ => ?_
    exact (Holds.atEnd _).bind fun _ => .done _
  have hfirst : Holds (Lost before) (Draft before n u) (pointFirstWith Careful.back down)
      fun _ => Draft before n u := by
    refine holds_latex.bind fun text => .knowing fun htext => .get_bind fun start hstart => ?_
    intro c hc
    have hend := hattempt c hc
    rw [retrying_apply]
    -- the attempt is given up where it is no point, and where it fails with a mistake
    cases hrun : attempt (point down) (operation down) c with
    | ok found d =>
      rw [hrun] at hend
      cases found with
      | some done => exact hend
      | none => exact ends_back (e := .exhausted) hstart htext (Bears.lose _ hend)
    | error e d =>
      rw [hrun] at hend
      cases e with
      | diagnostic m => exact ends_back (e := .diagnostic m) hstart htext hend
      | _ => exact hend
  refine hfirst.bind fun _ => .ite (.done _) (Holds.advance.bind fun _ => ?_)
  refine (sound_operand hdown hstatement n u).bind fun _ => .ite ?_ (.done _)
  refine (sound_operation hdown n u).bind fun _ => (Holds.atEnd _).bind fun _ => ?_
  exact .ite (.done _) (.done _)

end blocks

/-! Conditionals and functions. -/

theorem sound_condition : Sound before (condition down) := by
  intro n u
  have hvalue := sound_value hdown n u
  refine hvalue.orFail _ (.current_bind fun t ht => ?_)
  have hlast : Holds (Lost before) (Draft before n u) (do
      emit t.shown
      advance
      unless ← value down do fail ("Expected value after " ++ t.shown)) fun _ =>
      Draft before n u := by
    refine (sound_emit ht n u).bind fun _ => Holds.advance.bind fun _ => ?_
    exact hvalue.bind fun _ => .ite (.done _) (.fail _)
  exact .ite hlast ((Holds.fail _).bind fun _ => hlast)

theorem sound_branch {opening : Compile Unit} (hopening : Sound before opening) :
    Sound before (branch down opening) := by
  intro n u
  refine (Holds.currentIs _).orFail _ (Holds.advance.bind fun _ => ?_)
  refine (hopening n u).bind fun _ => (Holds.skipWhile _).bind fun _ => ?_
  refine (sound_value hdown n u).orFail _ ((Holds.skipWhile _).bind fun _ => ?_)
  exact (Holds.currentIs _).orFail _ .advance

theorem sound_otherwise : Sound before (otherwise down) := by
  intro n u
  refine (Holds.currentIs _).bind fun _ => .ite (Holds.advance.bind fun _ => ?_) (.done _)
  exact (sound_branch hdown (fun _ _ => .done _) n u).bind fun _ => .done _

theorem sound_chainTail {further : Compile Bool} (hfurther : Sound before further) :
    Sound before (Careful.chainTail further (otherwise down)) := by
  refine fun n u => holds_heeding ((Holds.currentIs _).bind fun _ => .ite ?_ ?_)
  · exact (sound_emit (by decide) n u).bind fun _ => (hfurther n u).discard
  · refine (Holds.currentIs _).bind fun _ => .ite ?_ (.done _)
    exact (sound_emit (by decide) n u).bind fun _ => (sound_otherwise hdown n u).discard

theorem sound_furtherCondition (rounds : Nat) :
    Sound before (Careful.furtherCondition down rounds) := by
  induction rounds with
  | zero => exact fun _ _ => .throw _
  | succ rounds ih =>
    intro n u
    refine (Holds.currentIs _).bind fun _ => .ite (Holds.advance.bind fun _ => ?_) (.done _)
    refine (sound_condition hdown n u).bind fun _ => ?_
    refine (sound_branch hdown (sound_emit (by decide)) n u).bind fun _ => ?_
    exact (sound_chainTail hdown ih n u).bind fun _ => .done _

/-- The curly bracket of a conditional stays open up to its end. -/
theorem sound_conditional : Sound before (Careful.conditional down) := by
  intro n u
  refine (Holds.currentIs _).bind fun _ => .ite (Holds.advance.bind fun _ => ?_) (.done _)
  refine (holds_emit .leftCurly).bind fun _ => (sound_condition hdown _ _).bind fun _ => ?_
  refine (sound_branch hdown (sound_emit (by decide)) _ _).bind fun _ => ?_
  refine (sound_chainTail hdown (sound_furtherCondition hdown _) _ _).bind fun _ => ?_
  exact (holds_emit .rightCurly).bind fun _ => .done _

theorem sound_function : Sound before (function down) := by
  intro n u
  refine (Holds.currentIs _).bind fun _ => .ite (Holds.advance.bind fun _ => ?_) (.done _)
  refine .current_bind fun t ht => ?_
  split
  · exact .fail _
  · next name hname =>
    have hbare := bare_of_name? ht hname
    have hwritten : Holds (Lost before) (Draft before n u) (emitFrom (subscript name)) fun _ =>
        Draft before n u :=
      holds_emitFrom fun c _ => (subscript_piece hbare c).imp_left fun h => ⟨_, h⟩
    refine hwritten.bind fun _ => (holds_emit .leftRound).bind fun _ => .get_bind fun c _ => ?_
    refine (Holds.addName _ _ _).bind fun _ => (Holds.pushScope hbare).bind fun _ => ?_
    refine .bind (.modify (fun c h => ⟨h.tokens, h.current, h.scope, fun own hown => ?_, h.macros,
      h.objectName, h.modules⟩) (fun _ => id) (fun _ => rfl) fun _ => rfl) fun _ => ?_
    · rcases List.mem_append.mp hown with hold | hnew
      · exact h.functions own hold
      · rw [List.mem_singleton.mp hnew]
        exact hbare
    refine Holds.advance.bind fun _ => (Holds.currentIs _).orFail _ (Holds.advance.bind fun _ => ?_)
    refine .get_bind fun c _ => (Holds.loop holds_functionParameter _).bind fun _ => ?_
    refine holds_behindParameters _ ((sound_emit (by decide) _ _).bind fun _ => ?_)
    refine Holds.advance.bind fun _ => (Holds.skipWhile _).bind fun _ => ?_
    refine (sound_acceptsExpression hdown _ _).orFail _ ((Holds.skipWhile _).bind fun _ => ?_)
    exact (Holds.currentIs _).orFail _ ((Holds.popScope rfl).bind fun _ => .done _)

end expression
end drafts
end PlotScript
