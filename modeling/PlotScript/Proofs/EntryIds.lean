import PlotScript.Proofs.Effects
import PlotScript.Proofs.Statements

/-! The ids of the entries. Every statement takes the next id, and the entry that it is written
to is the last one, so the ids go up along the document. A note is made with the id one and only
gets an id of its own when a statement of a block is written to it. -/

namespace PlotScript
open Compile Grammar Watched

/-! Putting tokens in leaves the entries alone. -/

structure SameEntries (c d : Compiler) : Prop where
  document : d.document = c.document
  target : d.target = c.target
  lastId : d.lastId = c.lastId
  folder : d.folder = c.folder

instance : Lenient SameEntries where
  trans h h' := ⟨h'.document.trans h.document, h'.target.trans h.target, h'.lastId.trans h.lastId,
    h'.folder.trans h.folder⟩
  aside h := ⟨h.document, h.target, h.lastId, h.folder⟩

instance : Splicing SameEntries where
  refl _ := ⟨rfl, rfl, rfl, rfl⟩
  trans := Chained.trans
  readsOnly h := ⟨h.document, h.target, h.lastId, h.folder⟩

def Entry.isNote : Entry → Bool
  | .note _ _ _ => true
  | _ => false

/-- The id of the entry counts: it is not a note that still has the id it was made with. -/
def Entry.isNumbered (entry : Entry) : Bool := !(entry.isNote && entry.id == 1)

theorem Entry.isNumbered_or (entry : Entry) :
    entry.isNumbered = true ∨ entry.isNote = true ∧ entry.id = 1 := by
  unfold isNumbered
  cases entry.isNote <;> simp [Decidable.em, or_comm]

/-- The ids that count go up, and all ids are among those given out. -/
structure Numbered (entries : Array Entry) (last : Nat) : Prop where
  increasing : entries.toList.Pairwise fun x y =>
    x.isNumbered = true → y.isNumbered = true → x.id < y.id
  bounds : ∀ entry ∈ entries, 1 ≤ entry.id ∧ entry.id ≤ last

theorem numbered_push_iff {entries : Array Entry} {entry : Entry} {last : Nat} :
    Numbered (entries.push entry) last ↔ Numbered entries last ∧
      (1 ≤ entry.id ∧ entry.id ≤ last) ∧
      (entry.isNumbered = true → ∀ x ∈ entries, x.isNumbered = true → x.id < entry.id) := by
  constructor
  · rintro ⟨hincreasing, hbounds⟩
    rw [Array.toList_push, List.pairwise_append] at hincreasing
    obtain ⟨hbefore, -, hlast⟩ := hincreasing
    refine ⟨⟨hbefore, fun x hx => hbounds x (Array.mem_push_of_mem _ hx)⟩,
      hbounds entry (Array.mem_push_self), fun hentry x hx hnumbered => ?_⟩
    exact hlast x (Array.mem_toList_iff.mpr hx) entry (by simp) hnumbered hentry
  · rintro ⟨⟨hbefore, hbounds⟩, hentry, hlast⟩
    refine ⟨?_, fun x hx => ?_⟩
    · rw [Array.toList_push, List.pairwise_append]
      refine ⟨hbefore, List.pairwise_singleton _ _, fun x hx y hy hnumbered hown => ?_⟩
      obtain rfl := List.mem_singleton.mp hy
      exact hlast hown x (Array.mem_toList_iff.mp hx) hnumbered
    · rcases Array.mem_push.mp hx with hx | rfl
      · exact hbounds x hx
      · exact hentry

theorem Numbered.lt_of_lt {entries : Array Entry} {last i j : Nat} (h : Numbered entries last)
    (hij : i < j) {x y : Entry} (hi : entries[i]? = some x) (hj : entries[j]? = some y)
    (hx : x.isNumbered = true) (hy : y.isNumbered = true) : x.id < y.id := by
  obtain ⟨hilt, rfl⟩ := Array.getElem?_eq_some_iff.mp hi
  obtain ⟨hjlt, rfl⟩ := Array.getElem?_eq_some_iff.mp hj
  exact List.pairwise_iff_getElem.mp h.increasing i j hilt hjlt hij hx hy

theorem Numbered.mono {entries : Array Entry} {last more : Nat} (h : Numbered entries last)
    (hle : last ≤ more) : Numbered entries more :=
  ⟨h.increasing, fun x hx => ⟨(h.bounds x hx).1, Nat.le_trans (h.bounds x hx).2 hle⟩⟩

/-- An entry with the next id may follow. -/
theorem Numbered.push_next {entries : Array Entry} {last : Nat} (h : Numbered entries last)
    {entry : Entry} (hid : entry.id = last + 1) : Numbered (entries.push entry) (last + 1) := by
  refine numbered_push_iff.mpr ⟨h.mono (Nat.le_succ last), by omega, fun _ x hx _ => ?_⟩
  have hle := (h.bounds x hx).2
  omega

/-- The entries of the document are numbered, and once entries are written ids are given out. -/
def Compiler.InOrder (c : Compiler) : Prop :=
  ∃ entries, c.document = some entries ∧ Numbered entries c.lastId ∧
    (c.target = .nowhere ∨ c.target = .document ∧ 1 ≤ c.lastId)

theorem Compiler.InOrder.of_sameEntries {c d : Compiler} (h : SameEntries c d) (hc : c.InOrder) :
    d.InOrder := by
  unfold InOrder
  rw [h.document, h.target, h.lastId]
  exact hc

theorem Compiler.InOrder.open {c : Compiler} (hc : c.InOrder) {entries : Array Entry}
    (hopen : c.openEntries? = some entries) :
    c.target = .document ∧ c.document = some entries ∧ Numbered entries c.lastId ∧
      1 ≤ c.lastId := by
  obtain ⟨own, hdocument, hnumbered, htarget | ⟨htarget, hlast⟩⟩ := hc
  · simp [openEntries?, htarget] at hopen
  · have hown : c.document = some entries := by simpa [openEntries?, htarget] using hopen
    obtain rfl : own = entries := by simpa [hdocument] using hown
    exact ⟨htarget, hdocument, hnumbered, hlast⟩

theorem Compiler.InOrder.setOpenEntries {c : Compiler} (hc : c.InOrder)
    {entries others : Array Entry} (hopen : c.openEntries? = some entries)
    (hothers : Numbered others c.lastId) : (c.setOpenEntries others).InOrder := by
  obtain ⟨htarget, -, -, hlast⟩ := hc.open hopen
  have hset : c.setOpenEntries others = { c with document := some others } := by
    simp [Compiler.setOpenEntries, htarget]
  rw [hset]
  exact ⟨others, rfl, hothers, .inr ⟨htarget, hlast⟩⟩

theorem stampEntry_of_open {c : Compiler} {entries : Array Entry} {entry : Entry}
    (hdocument : c.document = some (entries.push entry)) (htarget : c.target = .document) :
    stampEntry c = .ok () { c with
      lastId := c.lastId + 1
      document := some (entries.push ((entry.setId (c.lastId + 1)).setFolder c.folder)) } := by
  have hid := updateLastEntry_eq (c := { c with lastId := c.lastId + 1 }) hdocument htarget
    (Entry.setId (c.lastId + 1))
  have hfolder := updateLastEntry_eq (c := { c with
    lastId := c.lastId + 1
    document := some (entries.push (entry.setId (c.lastId + 1))) }) rfl htarget
    (Entry.setFolder c.folder)
  simp only [stampEntry, bind_apply, modify_apply, get_apply, hid]
  exact hfolder

theorem stampEntry_of_closed {c : Compiler} (h : c.lastOpen? = none) :
    ∃ e, stampEntry c = .error e { c with lastId := c.lastId + 1 } := by
  have hlast : Compiler.lastOpen? { c with lastId := c.lastId + 1 } = none := h
  obtain ⟨e, he⟩ : ∃ e, lastEntry { c with lastId := c.lastId + 1 } =
      .error e { c with lastId := c.lastId + 1 } := by
    unfold lastEntry
    rw [bind_apply, get_apply]
    unfold Compiler.lastOpen? at hlast
    cases hopen : Compiler.openEntries? { c with lastId := c.lastId + 1 } with
    | none => exact ⟨.noTarget, by simp only [hopen]; rfl⟩
    | some entries =>
      rw [hopen] at hlast
      have hback : entries.back? = none := hlast
      exact ⟨.outOfRange, by simp only [hopen, hback]; rfl⟩
  exact ⟨e, by simp [stampEntry, updateLastEntry, he]⟩

theorem openStamped_fresh {c : Compiler} {entries : Array Entry}
    (hdocument : c.document = some entries) :
    openStamped true c = .ok () { c with
      lastId := c.lastId + 1
      document := some (entries.push ((Entry.blank.setId (c.lastId + 1)).setFolder c.folder))
      target := .document } := by
  have hopen : openStamped true c = stampEntry (c.withBlank entries) := by
    simp only [openStamped, if_true, bind_apply, openBlank_eq hdocument]
  exact hopen.trans (stampEntry_of_open rfl rfl)

/-- Opening an entry for a statement stamps a blank one behind the others, or else the last one.
Where there is no entry to go on with only the id is used up. -/
theorem openStamped_shape {c : Compiler} {entries : Array Entry}
    (hdocument : c.document = some entries) (htarget : c.target = .nowhere ∨ c.target = .document)
    (fresh : Bool) :
    (∃ e, openStamped fresh c = .error e { c with lastId := c.lastId + 1 }) ∨
      ∃ (before : Array Entry) (entry : Entry),
        (entries = before ∧ entry = .blank ∨ entries = before.push entry) ∧
        openStamped fresh c = .ok () { c with
          lastId := c.lastId + 1
          document := some (before.push ((entry.setId (c.lastId + 1)).setFolder c.folder))
          target := .document } := by
  cases fresh with
  | true => exact .inr ⟨entries, .blank, .inl ⟨rfl, rfl⟩, openStamped_fresh hdocument⟩
  | false =>
    have hstart : openStamped false c = stampEntry c := rfl
    rw [hstart]
    cases hopen : c.lastOpen? with
    | none => exact .inl (stampEntry_of_closed hopen)
    | some entry =>
      obtain ⟨all, hall, hback⟩ := Option.bind_eq_some_iff.mp hopen
      obtain ⟨before, rfl⟩ := Array.back?_eq_some_iff.mp hback
      rcases htarget with htarget | htarget
      · simp [Compiler.openEntries?, htarget] at hall
      · have hown : c.document = some (before.push entry) := by
          simpa [Compiler.openEntries?, htarget] using hall
        obtain rfl : entries = before.push entry := by simpa [hdocument] using hown
        have hstamp := stampEntry_of_open hown htarget
        rw [← htarget]
        exact .inr ⟨before, entry, .inr rfl, hstamp⟩

/-- The entry that is opened for a statement has the next id, and those before it are numbered. -/
theorem openStamped_cases {c : Compiler} (hc : c.InOrder) (fresh : Bool) :
    (∃ e d, openStamped fresh c = .error e d ∧ d.InOrder) ∨
      ∃ (d : Compiler) (entries : Array Entry) (entry : Entry),
        openStamped fresh c = .ok () d ∧ d.document = some (entries.push entry) ∧
        d.target = .document ∧ d.lastId = c.lastId + 1 ∧ Numbered entries c.lastId ∧
        entry.id = d.lastId := by
  obtain ⟨entries, hdocument, hnumbered, htarget⟩ := hc
  rcases openStamped_shape hdocument (htarget.imp_right And.left) fresh with
    ⟨e, hopen⟩ | ⟨before, entry, hshape, hopen⟩
  · refine .inl ⟨e, _, hopen, entries, hdocument, hnumbered.mono (Nat.le_succ _), ?_⟩
    exact htarget.imp_right fun h => ⟨h.1, Nat.le_succ_of_le h.2⟩
  · refine .inr ⟨_, before, _, hopen, rfl, rfl, rfl, ?_, by cases entry <;> rfl⟩
    rcases hshape with ⟨rfl, -⟩ | rfl
    · exact hnumbered
    · exact (numbered_push_iff.mp hnumbered).1

theorem inOrder_of_next {c d : Compiler} {entries : Array Entry} {entry : Entry}
    (hdocument : d.document = some (entries.push entry)) (htarget : d.target = .document)
    (hlast : d.lastId = c.lastId + 1) (hnumbered : Numbered entries c.lastId)
    (hid : entry.id = d.lastId) : d.InOrder := by
  refine ⟨_, hdocument, ?_, .inr ⟨htarget, by omega⟩⟩
  rw [hlast] at hid ⊢
  exact hnumbered.push_next hid

theorem openStamped_inOrder {c : Compiler} (hc : c.InOrder) (fresh : Bool) :
    (stateAfter (openStamped fresh c)).InOrder := by
  rcases openStamped_cases hc fresh with ⟨e, d, hopen, hd⟩ |
    ⟨d, entries, entry, hopen, hdocument, htarget, hlast, hnumbered, hid⟩
  · rw [hopen]
    exact hd
  · rw [hopen]
    exact inOrder_of_next hdocument htarget hlast hnumbered hid

instance : Lenient fun c d => c.InOrder → d.InOrder where
  trans h h' hc := h' (h hc)
  aside h := .of_sameEntries ⟨h.document, h.target, h.lastId, h.folder⟩

/-- The last entry may be changed as long as its id and its kind stay. -/
theorem Compiler.InOrder.edit {c : Compiler} (hc : c.InOrder) {entries : Array Entry}
    {old new : Entry} (hopen : c.openEntries? = some (entries.push old)) (hid : new.id = old.id)
    (hnote : new.isNote = old.isNote) : (c.setOpenEntries (entries.push new)).InOrder := by
  obtain ⟨-, -, hnumbered, -⟩ := hc.open hopen
  refine hc.setOpenEntries hopen ?_
  rw [numbered_push_iff] at hnumbered ⊢
  unfold Entry.isNumbered at hnumbered ⊢
  rw [hid, hnote]
  exact hnumbered

theorem setTitle_inOrder (title : String) :
    Goes (fun c d => c.InOrder → d.InOrder) (updateLastEntry (Entry.setTitle title)) :=
  .updateLastEntry fun {_ _ entry} hopen hc =>
    hc.edit hopen (by cases entry <;> rfl) (by cases entry <;> rfl)

theorem setLatex_inOrder (text : String) :
    Goes (fun c d => c.InOrder → d.InOrder) (setLatex text) :=
  .updateLastEntry fun {_ _ entry} hopen hc =>
    hc.edit hopen (by cases entry <;> rfl) (by cases entry <;> rfl)

theorem openNamespace_inOrder {c : Compiler} (hc : c.InOrder) (fresh : Bool) :
    (stateAfter ((do
      openStamped fresh
      openNamespace) c)).InOrder := by
  have hrest : Goes (fun c d => c.InOrder → d.InOrder) (do
      let name ← enterScope
      updateLastEntry (Entry.setTitle name)
      modify fun c => { c with folder := some c.lastId }) :=
    Goes.enterScope.bind fun _ => (setTitle_inOrder _).bind fun _ _ hc => hc
  rcases openStamped_cases hc fresh with ⟨e, d, hopen, hd⟩ |
    ⟨d, entries, entry, hopen, hdocument, htarget, hlast, hnumbered, hid⟩
  · rw [bind_apply, hopen]
    exact hd
  · have hown : Entry.id (.folder d.lastId none []) = d.lastId := rfl
    have hmade : Compiler.InOrder { d with
        document := some (entries.push (.folder d.lastId none [])) } :=
      inOrder_of_next rfl htarget hlast hnumbered hown
    rw [bind_apply, hopen]
    dsimp only
    rw [openNamespace, bind_apply, get_apply]
    dsimp only
    rw [bind_apply, updateLastEntry_eq hdocument htarget]
    exact hrest _ hmade

/-- Everything that the grammar does leaves the entries in order. -/
instance : Permits fun c d => c.InOrder → d.InOrder where
  advance := .advance
  emit := .emit_of_setLatex setLatex_inOrder
  addNote text hopen hc := by
    obtain ⟨-, -, hnumbered, hlast⟩ := hc.open hopen
    refine hc.setOpenEntries hopen (numbered_push_iff.mpr ⟨hnumbered, ⟨Nat.le_refl 1, hlast⟩, ?_⟩)
    intro hnote
    cases hnote
  addFunction _ := .of_sameEntries ⟨rfl, rfl, rfl, rfl⟩
  openStamped fresh c hc := openStamped_inOrder hc fresh
  openNamespace fresh c hc := openNamespace_inOrder hc fresh
  macroCall c := .of_sameEntries (Splicing.macroCall c)
  importModule c := .of_sameEntries (Splicing.importModule c)

instance : Retracing fun c d => c.InOrder → d.InOrder := .of_lenient setLatex_inOrder

theorem inOrder_of_ofCode {files : Files} {code : String} {c : Compiler}
    (h : Compiler.ofCode files code = .ok c) :
    Compiler.InOrder { c.withFreshDocument with line := c.line + 1 } := by
  have htarget : c.target = .nowhere := by rw [eq_of_ofCode h]
  refine ⟨#[], rfl, ⟨List.Pairwise.nil, fun _ hx => absurd hx (Array.not_mem_empty _)⟩, .inl ?_⟩
  simp [Compiler.withFreshDocument, htarget]

/-- Wherever a form is entered or left, the ids of expressions and folders go up along the
document, every id has been given out, and only a note that was never written to can share its
id, which is one. -/
theorem entry_ids_increase {files : Files} {code : String} {moment : Moment} {s : Compiler}
    (h : Reached files code moment s) :
    ∃ entries, s.document = some entries ∧
      ((entries.toList.filter fun entry => !entry.isNote).map Entry.id).Pairwise (· < ·) ∧
      (∀ entry ∈ entries, 1 ≤ entry.id ∧ entry.id ≤ s.lastId) ∧
      ∀ (i j : Nat) (x y : Entry), i ≠ j → entries[i]? = some x → entries[j]? = some y →
        x.id = y.id → (x.isNote = true ∧ x.id = 1) ∨ (y.isNote = true ∧ y.id = 1) := by
  obtain ⟨c, hcode, hkept⟩ := h.path (R := fun c d => c.InOrder → d.InOrder)
  obtain ⟨entries, hdocument, hnumbered, -⟩ := hkept (inOrder_of_ofCode hcode)
  refine ⟨entries, hdocument, ?_, hnumbered.bounds, fun i j x y hij hi hj hsame => ?_⟩
  · rw [List.pairwise_map, List.pairwise_filter]
    refine hnumbered.increasing.imp fun hlt hx hy => hlt ?_ ?_ <;> simp_all [Entry.isNumbered]
  · rcases Entry.isNumbered_or x with hx | hx
    · rcases Entry.isNumbered_or y with hy | hy
      · rcases Nat.lt_or_gt_of_ne hij with hlt | hlt
        · exact absurd (hnumbered.lt_of_lt hlt hi hj hx hy) (by omega)
        · exact absurd (hnumbered.lt_of_lt hlt hj hi hy hx) (by omega)
      · exact .inr hy
    · exact .inl hx

/-- A note of its own, and a note in a block that a statement is written to. -/
def annotated : String := "\"m\"\nns N \x7b\n\x7b \"n\"\nx = 1 \x7d\n\x7d"

/-- The fault that an action ends with. -/
def fault? {α : Type} : EStateM.Result Fault Compiler α → Option Fault
  | .ok _ _ => none
  | .error e _ => some e

/-- The state that a program was stopped in. -/
def stopped? : EStateM.Result Fault Compiler Unit → Option Compiler
  | .error .endOfInput s => some s
  | _ => none

theorem eq_of_stopped? {result : EStateM.Result Fault Compiler Unit} {s : Compiler}
    (h : stopped? result = some s) : result = .error .endOfInput s := by
  unfold stopped? at h
  split at h
  · cases h
    rfl
  · contradiction

theorem reached_of_stopped? {files : Files} {code : String} {moment : Moment} {watch : Watch}
    {levels : Nat} {c s : Compiler} (hcode : (Compiler.ofCode files code).toOption = some c)
    (hwatch : ∀ m s', watch m s' = true → m = moment)
    (h : stopped? (program (Watched.descent watch levels) { c with line := c.line + 1 }) =
      some s) : Reached files code moment s := by
  refine ⟨c, levels, watch, ?_, hwatch, eq_of_stopped? h⟩
  cases hresult : Compiler.ofCode files code with
  | error e => simp [hresult, Except.toOption] at hcode
  | ok d => simpa [hresult, Except.toOption] using hcode

/-- The block is left with a fault, with an id on the note that was written to. -/
theorem annotated_ids_increase :
    ∃ s entries, Reached [] annotated (.leaving (.statement false)) s ∧
      s.document = some entries ∧ entries.toList.map Entry.id = [1, 1, 2, 4, 5] ∧
      ((entries.toList.filter fun entry => !entry.isNote).map Entry.id).Pairwise (· < ·) ∧
      ∀ (i j : Nat) (x y : Entry), i ≠ j → entries[i]? = some x → entries[j]? = some y →
        x.id = y.id → (x.isNote = true ∧ x.id = 1) ∨ (y.isNote = true ∧ y.id = 1) := by
  let watch : Watch := fun moment s => moment = .leaving (.statement false) && s.lastId = 5
  have hrun : ((Compiler.ofCode [] annotated).toOption.bind fun c =>
      (stopped? (program (Watched.descent watch 12) { c with line := c.line + 1 })).bind fun s =>
        s.document.map fun entries => entries.toList.map Entry.id) = some [1, 1, 2, 4, 5] := by
    decide +kernel
  obtain ⟨c, hcode, hprogram⟩ := Option.bind_eq_some_iff.mp hrun
  obtain ⟨s, hstopped, hids⟩ := Option.bind_eq_some_iff.mp hprogram
  have hreached : Reached [] annotated (.leaving (.statement false)) s :=
    reached_of_stopped? hcode (fun _ _ hm => of_decide_eq_true (Bool.and_eq_true_iff.mp hm).1)
      hstopped
  obtain ⟨entries, hdocument, hincreasing, -, hshared⟩ := entry_ids_increase hreached
  rw [hdocument] at hids
  exact ⟨s, entries, hreached, hdocument, Option.some.inj hids, hincreasing, hshared⟩

end PlotScript
