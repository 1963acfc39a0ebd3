import PlotScript.Grammar.Expression

/-! Reading an expression moves the cursor, writes to the open entry and may bind names; all
else stays. So every state on the way is the first one with a few parts replaced, and each
step is an equation between such states. -/

namespace PlotScript

namespace Extra

theorem setLatex_setLatex (a b : String) (extras : List Extra) :
    setLatex b (setLatex a extras) = setLatex b extras := by
  induction extras with
  | nil => rfl
  | cons extra rest ih =>
    cases extra with
    | latex _ => rfl
    | folder inside => exact congrArg (Extra.folder inside :: ·) ih

theorem setLatex_of_latex? {text : String} {extras : List Extra} (h : latex? extras = some text) :
    setLatex text extras = extras := by
  induction extras with
  | nil => simp [latex?] at h
  | cons extra rest ih =>
    cases extra with
    | latex old =>
      cases h
      rfl
    | folder inside => exact congrArg (Extra.folder inside :: ·) (ih h)

end Extra

namespace Entry

@[simp] theorem setLatex_setLatex (a b : String) (entry : Entry) :
    (entry.setLatex a).setLatex b = entry.setLatex b := by
  cases entry <;> simp [setLatex, Extra.setLatex_setLatex]

theorem setLatex_of_latex? {text : String} {entry : Entry} (h : entry.latex? = some text) :
    entry.setLatex text = entry := by
  cases entry with
  | expression id latex inside =>
    cases h
    rfl
  | folder id title extras => exact congrArg (Entry.folder id title) (Extra.setLatex_of_latex? h)
  | note id text extras => exact congrArg (Entry.note id text) (Extra.setLatex_of_latex? h)

/-- The entries with a new text in the last one. -/
def rewriteLast (text : String) (entries : Array Entry) : Array Entry :=
  match entries.back? with
  | some entry => entries.pop.push (entry.setLatex text)
  | none => entries

@[simp] theorem rewriteLast_push (text : String) (entries : Array Entry) (entry : Entry) :
    rewriteLast text (entries.push entry) = entries.push (entry.setLatex text) := by
  simp [rewriteLast]

@[simp] theorem rewriteLast_rewriteLast (a b : String) (entries : Array Entry) :
    rewriteLast b (rewriteLast a entries) = rewriteLast b entries := by
  cases h : entries.back? <;> simp [rewriteLast, h]

end Entry

namespace Compiler

/-- The entry that text is written to. -/
def lastOpen? (c : Compiler) : Option Entry := c.openEntries?.bind Array.back?

/-- The text of the open entry. -/
def text? (c : Compiler) : Option String := c.lastOpen?.bind Entry.latex?

/-- The state with another text in the open entry. -/
def withText (c : Compiler) (text : String) : Compiler :=
  { c with
    document := match c.target with
      | .document => c.document.map (Entry.rewriteLast text)
      | _ => c.document
    target := match c.target with
      | .discarded entries => .discarded (Entry.rewriteLast text entries)
      | target => target }

end Compiler

/-- The parts of a state that reading an expression changes. -/
structure Progress where
  position : Int
  current : Option Token
  line : Int
  names : Table
  objectName : String
  printed : Array String
  text : String

namespace Compiler

/-- The state with these parts replaced. -/
def resume (c : Compiler) (p : Progress) : Compiler :=
  { c.withText p.text with
    position := p.position
    current := p.current
    line := p.line
    names := p.names
    objectName := p.objectName
    printed := p.printed }

/-- The parts of a state with a text. -/
def progress (c : Compiler) (text : String) : Progress :=
  ⟨c.position, c.current, c.line, c.names, c.objectName, c.printed, text⟩

/-- The state with the cursor on the token at an index, and with a text written. -/
def seenAt (c : Compiler) (i : Nat) (text : String) : Compiler :=
  c.resume ⟨i, c.tokens[i]?, c.line, c.names, c.objectName, c.printed, text⟩

theorem openEntries?_withText (c : Compiler) (text : String) :
    (c.withText text).openEntries? = c.openEntries?.map (Entry.rewriteLast text) := by
  cases h : c.target <;> simp [openEntries?, withText, h]

theorem lastOpen?_withText {c : Compiler} {entry : Entry} (h : c.lastOpen? = some entry)
    (text : String) : (c.withText text).lastOpen? = some (entry.setLatex text) := by
  obtain ⟨entries, hentries, hback⟩ := Option.bind_eq_some_iff.mp h
  simp [lastOpen?, openEntries?_withText, hentries, Entry.rewriteLast, hback]

theorem withText_withText (c : Compiler) (a b : String) :
    (c.withText a).withText b = c.withText b := by
  unfold withText
  cases c.target <;> simp [Function.comp_def]

theorem text?_withText {c : Compiler} {old : String} (h : c.text? = some old) (text : String) :
    (c.withText text).text? = some text := by
  obtain ⟨entry, hentry, -⟩ := Option.bind_eq_some_iff.mp h
  simp [text?, lastOpen?_withText hentry]

theorem withText_self {c : Compiler} {text : String} (h : c.text? = some text) :
    c.withText text = c := by
  obtain ⟨entry, hentry, hlatex⟩ := Option.bind_eq_some_iff.mp h
  obtain ⟨entries, hentries, hback⟩ := Option.bind_eq_some_iff.mp hentry
  obtain ⟨before, rfl⟩ := Array.back?_eq_some_iff.mp hback
  have hrewrite : Entry.rewriteLast text (before.push entry) = before.push entry := by
    simp [Entry.setLatex_of_latex? hlatex]
  cases htarget : c.target with
  | nowhere => simp [openEntries?, htarget] at hentries
  | document =>
    have hdocument : c.document = some (before.push entry) := by
      simpa [openEntries?, htarget] using hentries
    simp only [withText, htarget, hdocument, Option.map_some, hrewrite]
    rw [← hdocument, ← htarget]
  | discarded old =>
    have hold : old = before.push entry := by simpa [openEntries?, htarget] using hentries
    simp only [withText, htarget, hold, hrewrite]
    rw [← hold, ← htarget]

theorem setOpenEntries_eq_withText {c : Compiler} {entries : Array Entry} {entry : Entry}
    (hentries : c.openEntries? = some entries) (hback : entries.back? = some entry)
    (text : String) :
    c.setOpenEntries (entries.pop.push (entry.setLatex text)) = c.withText text := by
  have hrewrite : Entry.rewriteLast text entries = entries.pop.push (entry.setLatex text) := by
    simp [Entry.rewriteLast, hback]
  cases htarget : c.target with
  | nowhere => simp [openEntries?, htarget] at hentries
  | document =>
    have hdoc : c.document = some entries := by simpa [openEntries?, htarget] using hentries
    simp [setOpenEntries, withText, htarget, hdoc, hrewrite]
  | discarded old =>
    have hold : old = entries := by simpa [openEntries?, htarget] using hentries
    simp [setOpenEntries, withText, htarget, hold, hrewrite]

theorem resume_progress {c : Compiler} {text : String} (h : c.text? = some text) :
    c.resume (c.progress text) = c :=
  withText_self h

section fields
variable (c : Compiler) (p : Progress)

@[simp] theorem resume_tokens : (c.resume p).tokens = c.tokens := rfl
@[simp] theorem resume_lines : (c.resume p).lines = c.lines := rfl
@[simp] theorem resume_scope : (c.resume p).scope = c.scope := rfl
@[simp] theorem resume_functions : (c.resume p).functions = c.functions := rfl
@[simp] theorem resume_macros : (c.resume p).macros = c.macros := rfl
@[simp] theorem resume_position : (c.resume p).position = p.position := rfl
@[simp] theorem resume_current : (c.resume p).current = p.current := rfl
@[simp] theorem resume_line : (c.resume p).line = p.line := rfl
@[simp] theorem resume_names : (c.resume p).names = p.names := rfl

theorem withText_resume (text : String) :
    (c.resume p).withText text = c.resume { p with text := text } := by
  have h := withText_withText c p.text text
  simp only [withText, Compiler.mk.injEq] at h
  simp [resume, withText, h]

end fields

section seenAt
variable (c : Compiler) (i : Nat) (text : String)

@[simp] theorem seenAt_tokens : (c.seenAt i text).tokens = c.tokens := rfl
@[simp] theorem seenAt_scope : (c.seenAt i text).scope = c.scope := rfl
@[simp] theorem seenAt_names : (c.seenAt i text).names = c.names := rfl
@[simp] theorem seenAt_functions : (c.seenAt i text).functions = c.functions := rfl
@[simp] theorem seenAt_position : (c.seenAt i text).position = i := rfl
@[simp] theorem seenAt_current : (c.seenAt i text).current = c.tokens[i]? := rfl

end seenAt

/-- There is an entry to write to. -/
def IsOpen (c : Compiler) : Prop := c.lastOpen?.isSome = true

theorem isOpen_of_text? {c : Compiler} {text : String} (h : c.text? = some text) : c.IsOpen := by
  obtain ⟨entry, hentry, -⟩ := Option.bind_eq_some_iff.mp h
  exact Option.isSome_iff_exists.mpr ⟨entry, hentry⟩

theorem IsOpen.withText {c : Compiler} (h : c.IsOpen) (text : String) :
    (c.withText text).IsOpen := by
  obtain ⟨entry, hentry⟩ := Option.isSome_iff_exists.mp h
  exact Option.isSome_iff_exists.mpr ⟨_, lastOpen?_withText hentry text⟩

/-- The line that the cursor is on can be shown. -/
def HasLine (c : Compiler) : Prop := (Place.get? c.lines.toArray (c.line - 1)).isSome = true

end Compiler

namespace Progress

/-- The cursor on the token at a place, or on no token if there is none. -/
def movedTo (p : Progress) (tokens : Array Token) (place : Int) : Progress :=
  match Place.get? tokens place with
  | some t => { p with current := some t, position := place }
  | none => { p with current := none }

/-- A newline that is left behind counts. -/
def leaving (p : Progress) (t : Token) : Progress :=
  { p with line := if t.isNewline then p.line + 1 else p.line }

end Progress

namespace Compile

section run
variable {α β : Type} (c : Compiler)

@[simp] theorem bind_apply (x : Compile α) (f : α → Compile β) :
    (x >>= f) c = match x c with
      | .ok a c' => f a c'
      | .error e c' => .error e c' := by
  show EStateM.bind x f c = _
  rw [EStateM.bind]
  cases x c <;> rfl

theorem bind_eq_ok {x : Compile α} {f : α → Compile β} {c c' : Compiler} {b : β}
    (h : (x >>= f) c = .ok b c') : ∃ a d, x c = .ok a d ∧ f a d = .ok b c' := by
  rw [bind_apply] at h
  cases hx : x c with
  | ok a d => exact ⟨a, d, rfl, by rwa [hx] at h⟩
  | error e d => simp [hx] at h

@[simp] theorem pure_apply (a : α) : (pure a : Compile α) c = .ok a c := rfl

@[simp] theorem get_apply : (get : Compile Compiler) c = .ok c c := rfl

@[simp] theorem set_apply (d : Compiler) : (set d : Compile PUnit) c = .ok ⟨⟩ d := rfl

@[simp] theorem modify_apply (f : Compiler → Compiler) :
    (modify f : Compile PUnit) c = .ok ⟨⟩ (f c) := rfl

@[simp] theorem throw_apply (e : Fault) : (throw e : Compile α) c = .error e c := rfl

@[simp] theorem tryCatch_apply (x : Compile α) (h : Fault → Compile α) :
    (tryCatch x h : Compile α) c = match x c with
      | .ok a c' => .ok a c'
      | .error e c' => h e c' := by
  show EStateM.tryCatch x h c = _
  delta EStateM.tryCatch
  cases x c <;> rfl

@[simp] theorem map_apply (f : α → β) (x : Compile α) :
    (f <$> x) c = match x c with
      | .ok a c' => .ok (f a) c'
      | .error e c' => .error e c' := by
  show EStateM.map f x c = _
  rw [EStateM.map]
  cases x c <;> rfl

@[simp] theorem discard_apply (x : Compile α) :
    (discard x : Compile PUnit) c = match x c with
      | .ok _ c' => .ok ⟨⟩ c'
      | .error e c' => .error e c' :=
  map_apply c (Function.const α PUnit.unit) x

end run

section resume
variable {c : Compiler} {p : Progress}

theorem lastEntry_eq {entry : Entry} (h : c.lastOpen? = some entry) :
    lastEntry c = .ok entry c := by
  obtain ⟨entries, hentries, hback⟩ := Option.bind_eq_some_iff.mp h
  simp [lastEntry, hentries, hback]

theorem latex_eq_ok {text : String} (h : c.text? = some text) : latex c = .ok text c := by
  obtain ⟨entry, hentry, hlatex⟩ := Option.bind_eq_some_iff.mp h
  simp [latex, lastEntry_eq hentry, hlatex]

theorem text?_of_latex {c' : Compiler} {text : String} (h : latex c = .ok text c') :
    c.text? = some text := by
  cases hentries : c.openEntries? with
  | none => simp [latex, lastEntry, hentries] at h
  | some entries =>
    cases hback : entries.back? with
    | none => simp [latex, lastEntry, hentries, hback] at h
    | some entry =>
      cases hlatex : entry.latex? with
      | none => simp [latex, lastEntry, hentries, hback, hlatex] at h
      | some own =>
        obtain ⟨rfl, -⟩ : own = text ∧ c = c' := by
          simpa [latex, lastEntry, hentries, hback, hlatex] using h
        simp [Compiler.text?, Compiler.lastOpen?, hentries, hback, hlatex]

/-- Where a text is found there is an entry to write to, and looking for it changes nothing. -/
theorem eq_of_latex {c' : Compiler} {text : String} (h : latex c = .ok text c') :
    c' = c ∧ c.IsOpen := by
  have htext := text?_of_latex h
  rw [latex_eq_ok htext] at h
  cases h
  exact ⟨rfl, Compiler.isOpen_of_text? htext⟩

theorem setLatex_eq (h : c.IsOpen) (text : String) :
    setLatex text c = .ok () (c.withText text) := by
  obtain ⟨entry, hentry⟩ := Option.isSome_iff_exists.mp h
  obtain ⟨entries, hentries, hback⟩ := Option.bind_eq_some_iff.mp hentry
  simp [setLatex, updateLastEntry, setLastEntry, lastEntry_eq hentry, hentries,
    Compiler.setOpenEntries_eq_withText hentries hback]

theorem isOpen_resume (h : c.IsOpen) : (c.resume p).IsOpen :=
  h.withText p.text

theorem latex_resume (h : c.IsOpen) : latex (c.resume p) = .ok p.text (c.resume p) := by
  obtain ⟨entry, hentry⟩ := Option.isSome_iff_exists.mp h
  have htext : (c.resume p).lastOpen? = some (entry.setLatex p.text) :=
    Compiler.lastOpen?_withText hentry p.text
  simp [latex, lastEntry_eq htext]

theorem setLatex_resume (h : c.IsOpen) (text : String) :
    setLatex text (c.resume p) = .ok () (c.resume { p with text := text }) := by
  rw [setLatex_eq (isOpen_resume h), Compiler.withText_resume]

theorem rewind_resume (h : c.IsOpen) (position : Int) (text : String) :
    Grammar.rewind position text (c.resume p) =
      .ok () (c.resume { p with position := position - 1, text := text }) :=
  setLatex_resume (p := { p with position := position - 1 }) h text

theorem emitFrom_resume (h : c.IsOpen) {piece : Compile String} {text : String}
    (hpiece : piece (c.resume p) = .ok text (c.resume p)) :
    emitFrom piece (c.resume p) = .ok () (c.resume { p with text := p.text ++ text }) := by
  simp [emitFrom, latex_resume h, hpiece, setLatex_resume h]

theorem emit_resume (h : c.IsOpen) (text : String) :
    emit text (c.resume p) = .ok () (c.resume { p with text := p.text ++ text }) :=
  emitFrom_resume h rfl

theorem current_resume {t : Token} (ht : p.current = some t) :
    current (c.resume p) = .ok t (c.resume p) := by
  simp [current, ht]

theorem currentIs_resume {t : Token} (ht : p.current = some t) (text : String) :
    currentIs text (c.resume p) = .ok (t.is text) (c.resume p) := by
  simp [currentIs, current_resume ht]

theorem moveTo_resume (place : Int) :
    moveTo place (c.resume p) = .ok () (c.resume (p.movedTo c.tokens place)) := by
  cases h : Place.get? c.tokens place <;> simp [moveTo, Progress.movedTo, h] <;> rfl

theorem advance_resume {t : Token} (ht : p.current = some t) :
    advance (c.resume p) =
      .ok () (c.resume ((p.leaving t).movedTo c.tokens (p.position + 1))) := by
  have hmove : moveTo (p.position + 1) (c.resume (p.leaving t)) =
      .ok () (c.resume ((p.leaving t).movedTo c.tokens (p.position + 1))) := moveTo_resume _
  rw [← hmove, advance, bind_apply, current_resume ht]
  cases hline : t.isNewline with
  | false => simp [Progress.leaving, hline]
  | true =>
    have hleave : c.resume (p.leaving t) = { c.resume p with line := p.line + 1 } := by
      simp [Compiler.resume, Progress.leaving, hline]
    simp [hline, hleave]

theorem nextIs_resume {t : Token} (ht : Place.get? c.tokens (p.position + 1) = some t)
    (text : String) : nextIs text (c.resume p) = .ok (t.is text) (c.resume p) := by
  simp [nextIs, peek, ht]

theorem fail_apply {α : Type} (c : Compiler) (message : String) :
    (fail message : Compile α) c = match Diagnostic.locate message c.lines c.line with
      | .ok d => .error (.diagnostic d) c
      | .error e => .error e c := by
  cases h : Diagnostic.locate message c.lines c.line <;> simp [fail, h]

theorem fail_ne_ok {α : Type} (message : String) (c : Compiler) (a : α) (d : Compiler) :
    (fail message : Compile α) c ≠ .ok a d := by
  rw [fail_apply]
  cases Diagnostic.locate message c.lines c.line <;> exact nofun

/-- What would follow a mistake is not done. -/
theorem fail_bind {α β : Type} (message : String) (f : α → Compile β) :
    (fail message >>= f) = fail message := by
  funext c
  rw [bind_apply, fail_apply, fail_apply]
  cases Diagnostic.locate message c.lines c.line <;> rfl

/-- A test that must succeed, and what follows it. -/
theorem exists_of_orFail {α : Type} {x : Compile Bool} {message : String} {rest : Compile α}
    {c d : Compiler} {a : α}
    (h : (do
      unless ← x do fail message
      rest) c = .ok a d) : ∃ mid, x c = .ok true mid ∧ rest mid = .ok a d := by
  obtain ⟨found, mid, hx, hrest⟩ := bind_eq_ok h
  cases found with
  | true => exact ⟨mid, hx, hrest⟩
  | false =>
    simp only [Bool.false_eq_true, if_false, fail_bind] at hrest
    exact absurd hrest (fail_ne_ok _ _ _ _)

/-- Reading a further text gives its tokens, or leaves everything but the position alone. -/
theorem readTokens_cases (text : String) (c : Compiler) :
    (Lexer.read text).ending = .finished ∧ readTokens text c = .ok (Lexer.read text).tokens c ∨
      ∃ e position, readTokens text c = .error e { c with position } := by
  unfold readTokens
  cases hending : (Lexer.read text).ending with
  | finished => exact .inl ⟨rfl, rfl⟩
  | overlong => exact .inr ⟨_, _, rfl⟩
  | unknown char =>
    simp only [bind_apply, modify_apply, get_apply, fail_apply]
    split
    · exact .inr ⟨_, _, rfl⟩
    · exact .inr ⟨_, _, rfl⟩

end resume

theorem get?_succ {α : Type} (xs : Array α) (i : Nat) :
    Place.get? xs ((i : Int) + 1) = xs[i + 1]? :=
  Place.get?_natCast xs (i + 1)

section seenAt
variable {c : Compiler} {i : Nat} {text : String} {t u : Token}

theorem latex_seenAt (h : c.IsOpen) : latex (c.seenAt i text) = .ok text (c.seenAt i text) :=
  latex_resume h

theorem emit_seenAt (h : c.IsOpen) (added : String) :
    emit added (c.seenAt i text) = .ok () (c.seenAt i (text ++ added)) :=
  emit_resume h added

theorem emitFrom_seenAt (h : c.IsOpen) {piece : Compile String} {added : String}
    (hpiece : piece (c.seenAt i text) = .ok added (c.seenAt i text)) :
    emitFrom piece (c.seenAt i text) = .ok () (c.seenAt i (text ++ added)) :=
  emitFrom_resume h hpiece

theorem current_seenAt (ht : c.tokens[i]? = some t) :
    current (c.seenAt i text) = .ok t (c.seenAt i text) :=
  current_resume ht

theorem currentIs_seenAt (ht : c.tokens[i]? = some t) (word : String) :
    currentIs word (c.seenAt i text) = .ok (t.is word) (c.seenAt i text) :=
  currentIs_resume ht word

theorem nextIs_seenAt (hu : c.tokens[i + 1]? = some u) (word : String) :
    nextIs word (c.seenAt i text) = .ok (u.is word) (c.seenAt i text) :=
  nextIs_resume ((get?_succ c.tokens i).trans hu) word

theorem advance_seenAt (ht : c.tokens[i]? = some t) (hline : t.isNewline = false)
    (hu : c.tokens[i + 1]? = some u) (text : String) :
    advance (c.seenAt i text) = .ok () (c.seenAt (i + 1) text) := by
  rw [Compiler.seenAt, advance_resume ht]
  simp [Progress.movedTo, Progress.leaving, hline, get?_succ, Compiler.seenAt, hu]

theorem fail_seenAt {α : Type} (h : c.HasLine) (i : Nat) (text message : String) :
    ∃ d, (fail message : Compile α) (c.seenAt i text) =
      .error (.diagnostic d) (c.seenAt i text) := by
  obtain ⟨source, hsource⟩ := Option.isSome_iff_exists.mp h
  refine ⟨⟨message, c.line, source⟩, ?_⟩
  have hlocate : Diagnostic.locate message c.lines c.line = .ok ⟨message, c.line, source⟩ := by
    simp [Diagnostic.locate, hsource]
  rw [fail_apply]
  simp [Compiler.seenAt, hlocate]

end seenAt

end Compile
end PlotScript
