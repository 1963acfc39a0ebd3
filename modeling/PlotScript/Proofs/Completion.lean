import PlotScript.Proofs.Drafts
import PlotScript.Proofs.Folders

/-! Complete documents. A run that ends well has closed all brackets and left all scopes, as long as
no statement broke off quietly and no scope was left behind by an attempt. -/

namespace PlotScript
open Compile Grammar Latex

/-- The brackets in the text of an expression are nested. -/
def Entry.IsNested : Entry → Prop
  | .expression _ latex _ => Nested latex
  | _ => True

/-- Every expression of the document is nested. -/
def Complete (document : Option (Array Entry)) (_ : Target) : Prop :=
  ∃ entries, document = some entries ∧ ∀ entry ∈ entries, entry.IsNested

/-- Nothing is asked of what a fault leaves. -/
def Anyhow (_ : Fault) (_ : Compiler) : Prop := True

instance {pre : Compiler → Prop} : Bears Anyhow pre := ⟨fun _ _ => trivial⟩

/-- A mismatch, which may be passed over, leaves the document complete. -/
def Excused (n : Nat) (e : Fault) (c : Compiler) : Prop :=
  e.isMismatch = true → Keeps n Complete c

instance {n : Nat} : Bears (Excused n) (Keeps n Complete) := ⟨fun _ hc _ => hc⟩

theorem Holds.anyhow {α : Type} {lost : Fault → Compiler → Prop} {pre : Compiler → Prop}
    {x : Compile α} {post : α → Compiler → Prop} (h : Holds lost pre x post) :
    Holds Anyhow pre x post :=
  h.weaken (fun _ => id) (fun _ _ => id) fun _ _ _ => trivial

theorem holds_endingQuietly {n : Nat} {x : Compile Unit}
    (h : Holds (Excused n) (Keeps n Complete) x fun _ => Keeps n Complete) :
    Holds Anyhow (Keeps n Complete) (endingQuietly x) fun _ => Keeps n Complete := by
  intro c hc
  have hend := h c hc
  unfold endingQuietly
  rw [tryCatch_apply]
  cases hrun : x c with
  | ok _ d =>
    rw [hrun] at hend
    exact hend
  | error e d =>
    rw [hrun] at hend
    dsimp only
    split
    · next hmismatch => exact hend hmismatch
    · trivial

/-- What is heeded is not passed over. -/
theorem holds_excused {n : Nat} {α : Type} {pre : Compiler → Prop} {x : Compile α}
    {post : α → Compiler → Prop} (h : Holds Anyhow pre x post) :
    Holds (Excused n) pre (Careful.heeding x) post := by
  intro c hc
  have hend := h c hc
  rw [Careful.heeding_apply]
  cases hrun : x c with
  | ok a d =>
    rw [hrun] at hend
    exact hend
  | error e d =>
    intro hmismatch
    rw [Careful.isMismatch_heeded] at hmismatch
    cases hmismatch

section statements
variable {before : Array Entry} {n : Nat} {u : List Bracket} {down : Descent}

theorem Complete.push {before : Array Entry} {entry : Entry}
    (hbefore : ∀ entry ∈ before, entry.IsNested) (hentry : entry.IsNested) (target : Target) :
    Complete (some (before.push entry)) target := by
  refine ⟨_, rfl, fun own hown => ?_⟩
  rcases Array.mem_push.mp hown with hold | rfl
  · exact hbefore own hold
  · exact hentry

/-- A draft without open brackets is complete. -/
theorem Keeps.complete {c : Compiler} (hc : Draft before n [] c)
    (hbefore : ∀ entry ∈ before, entry.IsNested) : Keeps n Complete c := by
  obtain ⟨-, id, text, inside, hdocument, hpiece⟩ := hc.entries
  have hnested : Entry.IsNested (.expression id text inside) := hpiece.nested
  exact ⟨hc.bare, hc.depth, hdocument ▸ .push hbefore hnested _⟩

/-! Statements that go on with the entry that is open. -/

theorem holds_stampEntry : Holds (Lost before) (Draft before n u) stampEntry fun _ =>
    Draft before n u := by
  intro c hc
  obtain ⟨htarget, id, text, inside, hdocument, hpiece⟩ := hc.entries
  rw [stampEntry_of_open hdocument htarget]
  exact ⟨hc.bare.withEntries _ _, hc.depth, htarget, _, _, _, rfl, hpiece⟩

/-- A form that makes entries is not begun inside an entry. -/
theorem sound_apart {test : Token → Bool} {form : Compile Bool}
    (h : ∀ c t, c.current = some t → test t = false → form c = .ok false c)
    (hnone : ∀ c, c.current = none → form c = .error .noToken c) :
    Sound before (Careful.apart false test form) := by
  intro n u c hc
  have hlost : ∀ e, Lost before e c := fun e => Bears.lose e hc
  rcases Careful.apart_apply false test form c with hstop | ⟨htest, hform⟩
  · rw [hstop]
    exact hlost .endOfInput
  · rw [hform]
    cases hcurrent : c.current with
    | none =>
      rw [hnone c hcurrent]
      exact hlost .noToken
    | some t =>
      have hother : test t = false := by simpa [hcurrent] using htest rfl
      rw [h c t hcurrent hother]
      exact hc

theorem sound_statementFrom (hexpression : Sound before down.expression)
    (hstatement : Sound before (down.statement false)) :
    Sound before (Careful.statementFrom down false) := by
  intro n u
  have hnamespace : Sound before
      (Careful.apart false (Token.is · "ns") (namespaceBlock down)) := by
    refine sound_apart (fun c t ht hns => ?_) fun c hnone => ?_
    · simp [namespaceBlock, currentIs, current, ht, hns]
    · simp [namespaceBlock, currentIs, current, hnone]
  have hnote : Sound before (Careful.apart false (Token.isKind · .note) note) := by
    refine sound_apart (fun c t ht hkind => ?_) fun c hnone => ?_
    · simp [note, current, ht, hkind]
    · simp [note, current, hnone]
  refine .get_bind fun c _ => .ite (.done _) ((Holds.skipWhile _).bind fun _ => holds_heeding ?_)
  refine holds_stampEntry.bind fun _ => .orFail (.firstOf ?_) _ .advance
  simp only [List.forall_mem_cons, List.not_mem_nil, false_implies, implies_true, and_true]
  exact ⟨hnamespace n u, sound_function hexpression n u,
    (sound_expressionWith hexpression hstatement n u).bind fun _ => .done _, hnote n u,
    .macroDefinition, .importModule, sound_conditional hexpression n u⟩

/-! Statements with entries of their own. -/

/-- The last entry is the folder of a namespace. -/
def Foldered (before : Array Entry) (document : Option (Array Entry)) (target : Target) : Prop :=
  target = .document ∧ ∃ id title extras,
    document = some (before.push (.folder id title extras))

theorem holds_enterScope {S : Option (Array Entry) → Target → Prop} :
    Holds Anyhow (Keeps n S) enterScope fun _ => Keeps (n + 1) S := by
  refine Holds.advance.bind fun _ => .current_bind fun t ht => ?_
  split
  · exact .fail _
  · next name hname =>
    refine (Holds.reopenScope _).bind fun _ => ?_
    exact (Holds.pushScope (bare_of_name? ht hname)).bind fun _ => .done _

theorem holds_openNamespace :
    Holds Anyhow (Draft before n u) openNamespace fun _ => Keeps (n + 1) (Foldered before) := by
  have hfolder : ∀ id, Holds Anyhow (Draft before n u)
      (updateLastEntry fun _ => .folder id none []) fun _ => Keeps n (Foldered before) := by
    intro id c hc
    obtain ⟨htarget, _, _, _, hdocument, -⟩ := hc.entries
    rw [updateLastEntry_eq hdocument htarget]
    exact ⟨hc.bare.withEntries _ _, hc.depth, htarget, _, _, _, rfl⟩
  have htitle : ∀ name, Holds Anyhow (Keeps (n + 1) (Foldered before))
      (updateLastEntry (Entry.setTitle name)) fun _ => Keeps (n + 1) (Foldered before) := by
    intro name c hc
    obtain ⟨htarget, _, _, _, hdocument⟩ := hc.entries
    rw [updateLastEntry_eq hdocument htarget]
    exact ⟨hc.bare.withEntries _ _, hc.depth, htarget, _, _, _, rfl⟩
  refine .get_bind fun c _ => (hfolder _).bind fun _ => holds_enterScope.bind fun name => ?_
  exact (htitle name).bind fun _ => .beside fun _ => ⟨rfl, rfl, rfl, rfl, rfl, rfl, rfl, rfl, rfl⟩

/-- A statement found, with its entry complete, or none. -/
def Found (before : Array Entry) (n : Nat) (found : Bool) (c : Compiler) : Prop :=
  if found = true then Keeps n Complete c else Draft before n [] c

theorem found_firstOf {attempts : List (Compile Bool)}
    (h : ∀ x ∈ attempts, Holds Anyhow (Draft before n []) x (Found before n)) :
    Holds Anyhow (Draft before n []) (firstOf attempts) (Found before n) := by
  induction attempts with
  | nil => exact .pure _ fun _ => id
  | cons x attempts ih =>
    refine (h x List.mem_cons_self).bind fun found => ?_
    cases found with
    | true => exact fun _ hc => hc
    | false => exact ih fun y hy => h y (List.mem_cons_of_mem x hy)

theorem found_apart {form : Compile Bool} (test : Token → Bool)
    (h : Holds Anyhow (Draft before n []) form (Found before n)) :
    Holds Anyhow (Draft before n []) (Careful.apart true test form) (Found before n) := by
  intro c hc
  rcases Careful.apart_apply true test form c with hstop | ⟨-, hform⟩
  · rw [hstop]
    trivial
  · rw [hform]
    exact h c hc

section fresh
variable (hbefore : ∀ entry ∈ before, entry.IsNested)
  (hfresh : ∀ n, Holds (Excused n) (Keeps n Complete) (down.statement true) fun _ =>
    Keeps n Complete)
include hbefore

theorem Sound.found {x : Compile Bool} (h : Sound before x) :
    Holds Anyhow (Draft before n []) x (Found before n) := by
  refine (h n []).anyhow.imp fun found c hc => ?_
  cases found with
  | true => exact hc.complete hbefore
  | false => exact hc

theorem found_note : Holds Anyhow (Draft before n []) note (Found before n) := by
  refine .current_bind fun t _ => ?_
  have happend : Holds Anyhow (Draft before n []) (appendEntry (.note 1 t.shown [])) fun _ =>
      Keeps n Complete := by
    intro c hc
    obtain ⟨entries, hentries, hnested⟩ := (hc.complete hbefore).entries
    have hopen : c.openEntries? = some entries := by
      simp [Compiler.openEntries?, hc.entries.1, hentries]
    have hset : c.setOpenEntries (entries.push (.note 1 t.shown [])) =
        { c with document := some (entries.push (.note 1 t.shown [])) } := by
      simp [Compiler.setOpenEntries, hc.entries.1]
    have hadd : appendEntry (.note 1 t.shown []) c =
        .ok () (c.setOpenEntries (entries.push (.note 1 t.shown []))) := by
      simp [appendEntry, hopen]
    rw [hadd, hset]
    have hnote : Entry.IsNested (.note 1 t.shown []) := trivial
    exact ⟨hc.bare.withEntries _ _, hc.depth, .push hnested hnote _⟩
  refine .ite (happend.bind fun _ => Holds.advance.bind fun _ => ?_) ?_
  · exact .pure _ fun _ => id
  · exact .pure _ fun _ => id

include hfresh

theorem found_namespaceBlock :
    Holds Anyhow (Draft before n []) (namespaceBlock down) (Found before n) := by
  have hround : Holds (Excused (n + 1)) (Keeps (n + 1) Complete) (namespaceStatement down)
      fun _ => Keeps (n + 1) Complete := by
    refine (Holds.currentIs _).bind fun _ => .ite (.done _) ((hfresh _).bind fun _ => ?_)
    exact (Holds.skipWhile _).bind fun _ => .done _
  have hbody : Holds Anyhow (Keeps (n + 1) Complete) (namespaceBody down) (Found before n) := by
    refine Holds.advance.bind fun _ => (Holds.currentIs _).orFail _ (Holds.advance.bind fun _ => ?_)
    refine (holds_endingQuietly (.repeated hround _)).bind fun _ => ?_
    refine (Holds.popScope rfl).bind fun _ => Holds.advance.bind fun _ => ?_
    exact .pure _ fun _ => id
  rw [namespaceBlock_eq]
  refine (Holds.currentIs _).bind fun _ => .ite (holds_openNamespace.bind fun _ => ?_) ?_
  -- the folder has taken the place of the draft, so nothing is open when the block begins
  · refine .weaken hbody (fun c hc => ?_) (fun _ _ => id) fun _ _ => id
    obtain ⟨-, id, title, extras, hdocument⟩ := hc.entries
    have hfolder : Entry.IsNested (.folder id title extras) := trivial
    exact ⟨hc.bare, hc.depth, hdocument ▸ .push hbefore hfolder _⟩
  · exact .pure _ fun _ => id

end fresh

/-- Everything that is read with a descent closes what it opens. -/
structure IsSound (down : Descent) : Prop where
  expression : ∀ before, Sound before down.expression
  statement : ∀ before, Sound before (down.statement false)
  fresh : ∀ n, Holds (Excused n) (Keeps n Complete) (down.statement true) fun _ => Keeps n Complete

theorem holds_freshStatement (hdown : IsSound down) (n : Nat) :
    Holds (Excused n) (Keeps n Complete) (Careful.statementFrom down true) fun _ =>
      Keeps n Complete := by
  have hopen : Holds Anyhow (Keeps n Complete) (Watched.openStamped true) fun _ c =>
      ∃ before, (∀ entry ∈ before, Entry.IsNested entry) ∧ Draft before n [] c := by
    intro c hc
    obtain ⟨entries, hdocument, hnested⟩ := hc.entries
    have hbare := hc.bare
    rw [openStamped_fresh hdocument]
    exact ⟨entries, hnested, ⟨hbare.tokens, hbare.current, hbare.scope, hbare.functions,
      hbare.macros, hbare.objectName, hbare.modules⟩, hc.depth, rfl, _, _, _, rfl,
      .plain List.not_mem_nil⟩
  refine .get_bind fun c _ => .ite (.done _) ((Holds.skipWhile _).bind fun _ => holds_excused ?_)
  refine hopen.bind fun _ => ?_
  -- the draft is complete as soon as a form is found, and empty until then
  rintro c ⟨before, hbefore, hc⟩
  have hexpression := hdown.expression before
  have hstatement := hdown.statement before
  refine (found_firstOf ?_).bind (fun found => ?_) c hc
  · simp only [List.forall_mem_cons, List.not_mem_nil, false_implies, implies_true, and_true]
    exact ⟨found_apart _ (found_namespaceBlock hbefore hdown.fresh),
      (sound_function hexpression).found hbefore,
      Sound.found hbefore fun n u =>
        (sound_expressionWith hexpression hstatement n u).bind fun _ => .done _,
      found_apart _ (found_note hbefore), Sound.found hbefore fun _ _ => .macroDefinition,
      Sound.found hbefore fun _ _ => .importModule, (sound_conditional hexpression).found hbefore⟩
  · cases found with
    | true => exact Holds.advance
    | false => exact (Holds.fail _).bind fun _ => Holds.advance

end statements

/-- Read with care, everything closes what it opens, on every level. -/
theorem Careful.descent_isSound (levels : Nat) : IsSound (Careful.descent levels) := by
  induction levels with
  | zero => exact ⟨fun _ _ _ => .throw _, fun _ _ _ => .throw _, fun _ => .throw _⟩
  | succ levels ih =>
    exact ⟨fun before => sound_expressionWith (ih.expression before) (ih.statement before),
      fun before => sound_statementFrom (ih.expression before) (ih.statement before),
      holds_freshStatement ih⟩

theorem ends_program {down : Descent} (hdown : IsSound down) {c : Compiler} (hc : c.IsBare)
    (hscope : c.scope = []) : Ends Anyhow (fun _ => Keeps 0 Complete) (program down c) := by
  have hround : Holds Anyhow (Keeps 0 Complete) (programStatement down) fun _ =>
      Keeps 0 Complete := by
    refine .get_bind fun c _ => ?_
    split
    · exact .done _
    · refine .ite ((holds_endingQuietly (hdown.fresh 0)).bind fun _ => .done _) ?_
      exact (hdown.fresh 0).anyhow.bind fun _ => .done _
  refine Holds.repeated hround down.rounds c.withFreshDocument ⟨?_, ?_, #[], rfl, by simp⟩
  · exact ⟨hc.tokens, hc.current, hc.scope, hc.functions, hc.macros, hc.objectName, hc.modules⟩
  · exact Nat.le_of_eq (List.length_eq_zero_iff.mpr hscope)

/-! Where a script can get commands from. -/

namespace Library

theorem bare_colours : ∀ colour ∈ colours, Bare colour.1 := by
  simp only [colours, List.forall_mem_cons, List.not_mem_nil, false_implies, implies_true, and_true]
  and_intros
  all_goals
    rw [Bare, String.toList_ofList]
    decide +kernel

theorem bare_colorsModule : Bare colorsModule := by
  have hnumber : ∀ {a b : String} (n : Nat), Bare a → Bare b → Bare (a ++ n.repr ++ b) :=
    fun n ha hb => (ha.append (bare_repr n)).append hb
  refine .intercalate (by decide) fun text htext => ?_
  obtain ⟨colour, hcolour, rfl⟩ := List.mem_map.mp htext
  have hname : Bare (colour.1 ++ " = rgb(") := (bare_colours colour hcolour).append (by decide)
  exact hnumber _ (hnumber _ (hnumber _ hname (by decide)) (by decide)) (by decide)

theorem bare_shapesModule : Bare shapesModule := by
  refine .intercalate (by decide) ?_
  simp only [List.forall_mem_cons, List.not_mem_nil, false_implies, implies_true, and_true]
  and_intros
  all_goals
    rw [Bare, String.toList_ofList]
    decide +kernel

theorem bare_graphicsModule : Bare graphicsModule := by
  refine .intercalate (by decide) ?_
  simp only [List.forall_mem_cons, List.not_mem_nil, false_implies, implies_true, and_true]
  and_intros
  all_goals
    rw [Bare, String.toList_ofList]
    decide +kernel

/-- The modules that come with the language have no commands. -/
theorem bare_of_standard? {name text : String} (h : standard? name = some text) : Bare text := by
  unfold standard? at h
  split at h
  · exact Option.some.inj h ▸ bare_colorsModule
  · split at h
    · exact Option.some.inj h ▸ bare_shapesModule
    · split at h
      · exact Option.some.inj h ▸ bare_graphicsModule
      · cases h

theorem mem_of_read {files : Files} {path text : String} (h : files.read path = .ok text) :
    ∃ file ∈ files, text = Text.unifyNewlines file.2 := by
  unfold Files.read at h
  split at h
  · next own hlookup =>
    cases h
    obtain ⟨front, rest, rfl, -⟩ := List.lookup_eq_some_iff.mp hlookup
    exact ⟨(path, own), by simp, rfl⟩
  · cases h

/-- A module is one of the files, or one that comes with the language. -/
theorem find_cases {files : Files} {name text : String} (h : find files name = .ok text) :
    (∃ file ∈ files, text = Text.unifyNewlines file.2) ∨ standard? name = some text := by
  unfold find at h
  split at h
  · split at h
    · exact .inl (mem_of_read h)
    · split at h
      · next hstandard =>
        cases h
        exact .inr hstandard
      · cases h
  · exact .inl (mem_of_read h)

end Library

/-- A script without commands starts without any. -/
theorem isBare_of_ofCode {files : Files} {code : String} {c : Compiler}
    (hcode : Compiler.ofCode files code = .ok c) (hscript : ∀ t ∈ c.tokens, Bare t.shown)
    (hfiles : ∀ file ∈ files, ∀ t ∈ (Lexer.read (Text.unifyNewlines file.2)).tokens,
      Bare t.shown) : c.IsBare := by
  have hmodules : ∀ name text, Library.find files name = .ok text →
      ∀ t ∈ (Lexer.read text).tokens, Bare t.shown := by
    intro name text hfind
    rcases Library.find_cases hfind with ⟨file, hfile, rfl⟩ | hstandard
    · exact hfiles file hfile
    · exact fun t => Lexer.bare_of_mem_read (Library.bare_of_standard? hstandard)
  obtain rfl := eq_of_ofCode hcode
  refine ⟨hscript, fun t ht => hscript t ?_, ?_, ?_, ?_, List.not_mem_nil, hmodules⟩
  · simp [List.mem_of_mem_head? ht]
  all_goals exact fun _ h => absurd h List.not_mem_nil

/-- A run that ends well has left all scopes, and in every expression of its document the brackets
are nested and closed. Neither the script nor a file may have a backslash in a note, and the run
must be one with care: no statement breaks off quietly once it has begun, no attempt is given up
inside a scope, and no entry is made while another one is written. -/
theorem finished_run_leaves_nothing_open {files : Files} {code : String} {c d : Compiler}
    {document : Option String} (hcode : Compiler.ofCode files code = .ok c)
    (hscript : ∀ t ∈ c.tokens, Bare t.shown)
    (hfiles : ∀ file ∈ files, ∀ t ∈ (Lexer.read (Text.unifyNewlines file.2)).tokens, Bare t.shown)
    (hcareful : ∀ s, runWith (Careful.descent c.budget) c ≠ .error .endOfInput s)
    (hrun : run c = .ok document d) :
    d.scope = [] ∧ ∃ entries, d.document = some entries ∧
      document = some (renderDocument entries) ∧ ∀ entry ∈ entries, entry.IsNested := by
  have hbelow := Careful.descent_below c.budget
  rw [run_eq_runWith] at hrun
  have hsame : runWith (Careful.descent c.budget) c = .ok document d := by
    rcases imitates_runWith hbelow c with hsame | ⟨s, hstop⟩
    · rw [hsame, hrun]
    · exact absurd hstop (hcareful s)
  have hbare := isBare_of_ofCode hcode hscript hfiles
  have hscope : c.scope = [] := by rw [eq_of_ofCode hcode]
  have hstart : Compiler.IsBare { c with line := c.line + 1 } :=
    ⟨hbare.tokens, hbare.current, hbare.scope, hbare.functions, hbare.macros, hbare.objectName,
      hbare.modules⟩
  have hprogram := ends_program (Careful.descent_isSound c.budget) hstart hscope
  rw [runWith_of_tokens (ofCode_begins hcode).1] at hsame
  cases hresult : program (Careful.descent c.budget) { c with line := c.line + 1 } with
  | error e s =>
    rw [hresult] at hsame
    cases hsame
  | ok _ s =>
    rw [hresult] at hsame hprogram
    obtain ⟨entries, hentries, hnested⟩ := hprogram.entries
    have hdepth := hprogram.depth
    cases hsame
    refine ⟨List.length_eq_zero_iff.mp (Nat.le_zero.mp hdepth), entries, hentries, ?_, hnested⟩
    rw [hentries]
    rfl

/-- Statements of all kinds; the brackets are first taken for those of a point. -/
def allKinds : String :=
  "ns N \x7b\nq = [(1)]\n\x7d\nfn f(z) \x7bz\x7d\nif x < 1 \x7b2\x7d else \x7by\x7d\nc = N.q\n\n'k'"

theorem all_kinds_leave_nothing_open :
    ∃ c d entries, Compiler.ofCode [] allKinds = .ok c ∧
      (∀ s, runWith (Careful.descent c.budget) c ≠ .error .endOfInput s) ∧
      run c = .ok (some (renderDocument entries)) d ∧ entries.size = 7 ∧
      d.scope = [] ∧ d.document = some entries ∧ ∀ entry ∈ entries, entry.IsNested := by
  have hsize : ((compiled? [] allKinds).bind Compiler.document).map Array.size = some 7 := by
    decide +kernel
  have hfailure : (failure? Careful.descent allKinds).isNone = true := by decide +kernel
  obtain ⟨written, hwritten, hsize⟩ := Option.map_eq_some_iff.mp hsize
  obtain ⟨d, hcompiled, hdocument⟩ := Option.bind_eq_some_iff.mp hwritten
  obtain ⟨c, document, hcode, hrun⟩ := exists_run_of_compiled? hcompiled
  have hcareful : ∀ s, runWith (Careful.descent c.budget) c ≠ .error .endOfInput s :=
    runWith_ne_error_of_failure? (Option.isNone_iff_eq_none.mp hfailure) hcode .endOfInput
  have hscript : ∀ t ∈ c.tokens, Bare t.shown := by
    have hbare : Bare allKinds := by
      rw [allKinds, Bare, String.toList_ofList]
      decide +kernel
    rw [eq_of_ofCode hcode]
    intro t ht
    simp only [List.mem_toArray, List.mem_append, List.mem_singleton] at ht
    rcases ht with hread | rfl
    · exact Lexer.bare_of_mem_read hbare hread
    · decide
  obtain ⟨hscope, entries, hentries, hrendered, hnested⟩ :=
    finished_run_leaves_nothing_open hcode hscript (fun _ h => absurd h List.not_mem_nil) hcareful
      hrun
  rw [hdocument] at hentries
  cases hentries
  rw [hrendered] at hrun
  exact ⟨c, d, written, hcode, hcareful, hrun, hsize, hscope, hdocument, hnested⟩

/-- A conditional or a function that breaks off at the end of the script is passed over in silence,
and its bracket or its scope stays open. So does the scope of a name with a dot where an attempt is
given up, and a note behind a minus brings its own commands. -/
theorem broken_off_leaves_open :
    ((compiled? [] "\nif x < 1 \x7b").bind Compiler.document =
        some #[.expression 1 "\\left\\\x7bx<1:" none] ∧ ¬ Nested "\\left\\\x7bx<1:") ∧
      (compiled? [] "\nfn f(x) \x7b").map Compiler.scope = some ["f"] ∧
      (compiled? [] "ns N \x7b\nns N \x7b\nq = 1\n\x7d\n\x7d\na = (N.q))\n").map
        Compiler.scope = some ["N"] ∧
      (compiled? [] "x = -\"\\left(\"").bind Compiler.document =
        some #[.expression 1 "x=-\"\\left(\"" none] ∧ ¬ Nested "x=-\"\\left(\"" := by
  decide +kernel

end PlotScript
