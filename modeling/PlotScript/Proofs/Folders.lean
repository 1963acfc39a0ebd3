import PlotScript.Proofs.Growing
import PlotScript.Proofs.References

/-! The folders that entries lie in. A namespace makes a folder, and what follows lies in there,
behind the namespace as well: nothing but a further namespace leads out of it again. -/

namespace PlotScript
open Compile Grammar Watched

namespace Entry

def folderId? : Entry → Option Nat
  | .folder id _ _ => some id
  | _ => none

/-- A folder is as its namespace made it, with a title and nothing else. -/
def isIntact : Entry → Bool
  | .folder _ title extras => title.isSome && extras.isEmpty
  | _ => true

end Entry

/-- The id of the last folder of some entries. -/
def nearestFolder (entries : List Entry) : Option Nat :=
  (entries.filterMap Entry.folderId?).getLast?

/-- Every expression lies in the folder nearest before it, and without one in that around all. -/
def Filed (around : Option Nat) (entries : List Entry) : Prop :=
  ∀ (i : Nat) id latex inside, entries[i]? = some (.expression id latex inside) →
    inside = (nearestFolder (entries.take i)).or around

/-- The expressions are filed unless a folder before the last entry was written to, and new entries
come into the last folder unless that was written to. -/
structure Housed (entries : List Entry) (folder : Option Nat) : Prop where
  filed : (∀ entry ∈ entries.dropLast, entry.isIntact = true) → Filed none entries
  folder : (∀ entry ∈ entries, entry.isIntact = true) → folder = nearestFolder entries

section entries
variable {entries front : List Entry} {entry old new : Entry} {folder folder' : Option Nat}

theorem nearestFolder_append :
    nearestFolder (front ++ entries) = (nearestFolder entries).or (nearestFolder front) := by
  unfold nearestFolder
  rw [List.filterMap_append, List.getLast?_append]

theorem nearestFolder_concat :
    nearestFolder (entries ++ [entry]) = entry.folderId?.or (nearestFolder entries) := by
  rw [nearestFolder_append]
  cases hid : entry.folderId? <;> simp [nearestFolder, hid]

theorem nearestFolder_eq_none :
    nearestFolder entries = none ↔ ∀ entry ∈ entries, entry.folderId? = none := by
  simp [nearestFolder]

/-- Behind other entries the folder around is the last one of these. -/
theorem Filed.behind (h : Filed none (front ++ entries)) : Filed (nearestFolder front) entries := by
  intro i id latex inside hi
  have hown := h (front.length + i) id latex inside (by
    rwa [List.getElem?_append_right (Nat.le_add_right _ _), Nat.add_sub_cancel_left])
  rwa [List.take_length_add_append, nearestFolder_append, Option.or_none] at hown

theorem filed_concat : Filed none (entries ++ [entry]) ↔ Filed none entries ∧
    ∀ id latex inside, entry = .expression id latex inside →
      inside = nearestFolder entries := by
  constructor
  · intro h
    constructor
    · intro i id latex inside hi
      have hlt := (List.getElem?_eq_some_iff.mp hi).1
      have hown := h i id latex inside (by rw [List.getElem?_append_left hlt, hi])
      rwa [List.take_append_of_le_length (Nat.le_of_lt hlt)] at hown
    · rintro id latex inside rfl
      have hown := h entries.length id latex inside (by simp)
      rwa [List.take_left, Option.or_none] at hown
  · rintro ⟨hbefore, hlast⟩ i id latex inside hi
    rcases Nat.lt_or_ge i entries.length with hlt | hge
    · rw [List.getElem?_append_left hlt] at hi
      rw [List.take_append_of_le_length (Nat.le_of_lt hlt)]
      exact hbefore i id latex inside hi
    · obtain ⟨hlt, hentry⟩ := List.getElem?_eq_some_iff.mp hi
      rw [List.length_append, List.length_singleton] at hlt
      obtain rfl : i = entries.length := by omega
      rw [List.take_left, Option.or_none]
      exact hlast id latex inside (by simpa using hentry)

theorem forall_mem_concat {p : Entry → Prop} :
    (∀ x ∈ entries ++ [entry], p x) ↔ (∀ x ∈ entries, p x) ∧ p entry := by
  simp [or_imp, forall_and]

theorem housed_concat : Housed (entries ++ [entry]) folder ↔
    (∀ x ∈ entries, x.isIntact = true) →
      Filed none (entries ++ [entry]) ∧
        (entry.isIntact = true → folder = entry.folderId?.or (nearestFolder entries)) := by
  constructor
  · rintro ⟨hfiled, hfolder⟩ hbefore
    refine ⟨hfiled (by simpa using hbefore), fun hentry => ?_⟩
    rw [← nearestFolder_concat]
    exact hfolder (forall_mem_concat.mpr ⟨hbefore, hentry⟩)
  · intro h
    refine ⟨fun hbefore => (h (by simpa using hbefore)).1, fun hall => ?_⟩
    obtain ⟨hbefore, hentry⟩ := forall_mem_concat.mp hall
    rw [nearestFolder_concat]
    exact (h hbefore).2 hentry

theorem Housed.of_intact (h : Housed entries folder)
    (hall : ∀ entry ∈ entries, entry.isIntact = true) :
    Filed none entries ∧ folder = nearestFolder entries :=
  ⟨h.filed fun entry hentry => hall entry (List.dropLast_subset _ hentry), h.folder hall⟩

/-- An expression that lies in the current folder, or a note, may follow. -/
theorem Housed.concat (h : Housed entries folder) (hfolder : entry.folderId? = none)
    (hinside : ∀ id latex inside, entry = .expression id latex inside → inside = folder) :
    Housed (entries ++ [entry]) folder := by
  rw [housed_concat]
  intro hbefore
  have hnearest := h.folder hbefore
  refine ⟨filed_concat.mpr ⟨?_, ?_⟩, fun _ => ?_⟩
  · exact h.filed fun x hx => hbefore x (List.dropLast_subset _ hx)
  · exact fun id latex inside hentry => (hinside id latex inside hentry).trans hnearest
  · rw [hfolder]
    exact hnearest

/-- The last entry may be replaced: an expression by one that lies in the same folder or in the
current one, and a folder by one that becomes the current folder if it is intact. -/
theorem Housed.replace (h : Housed (entries ++ [old]) folder)
    (hinside : ∀ id latex inside, new = .expression id latex inside →
      ∃ id' latex' inside', old = .expression id' latex' inside' ∧
        (inside = inside' ∨ inside = folder))
    (hfolder : new.isIntact = true →
      old.isIntact = true ∧ new.folderId? = old.folderId? ∧ folder' = folder ∨
        ∃ id, new.folderId? = some id ∧ folder' = some id) :
    Housed (entries ++ [new]) folder' := by
  rw [housed_concat] at h ⊢
  intro hbefore
  obtain ⟨hfiled, hlast⟩ := h hbefore
  obtain ⟨hearlier, hown⟩ := filed_concat.mp hfiled
  refine ⟨filed_concat.mpr ⟨hearlier, ?_⟩, fun hnew => ?_⟩
  · intro id latex inside hnew
    obtain ⟨id', latex', inside', rfl, rfl | rfl⟩ := hinside id latex inside hnew
    · exact hown _ _ _ rfl
    · exact hlast rfl
  · rcases hfolder hnew with ⟨hold, hid, rfl⟩ | ⟨id, hid, rfl⟩
    · rw [hid]
      exact hlast hold
    · rw [hid]
      rfl

theorem Housed.write (h : Housed (entries ++ [entry]) folder) (text : String) :
    Housed (entries ++ [entry.setLatex text]) folder := by
  refine h.replace (fun id latex inside hnew => ?_) fun hintact => ?_
  · cases entry with
    | expression id' latex' inside' =>
      cases hnew
      exact ⟨_, _, _, rfl, .inl rfl⟩
    | folder id' title extras => cases hnew
    | note id' text' extras => cases hnew
  · cases entry with
    | expression id' latex' inside' => exact .inl ⟨rfl, rfl, rfl⟩
    | folder id' title extras =>
      cases extras with
      | nil => simp [Entry.setLatex, Extra.setLatex, Entry.isIntact] at hintact
      | cons extra rest =>
        cases extra <;> simp [Entry.setLatex, Extra.setLatex, Entry.isIntact] at hintact
    | note id' text' extras => exact .inl ⟨rfl, rfl, rfl⟩

theorem Housed.stamp (h : Housed (entries ++ [entry]) folder) (id : Nat) :
    Housed (entries ++ [(entry.setId id).setFolder folder]) folder := by
  refine h.replace (fun id latex inside hnew => ?_) fun hintact => ?_
  · cases entry with
    | expression id' latex' inside' =>
      cases hnew
      exact ⟨_, _, _, rfl, .inr rfl⟩
    | folder id' title extras => cases hnew
    | note id' text' extras => cases hnew
  · cases entry with
    | expression id' latex' inside' => exact .inl ⟨rfl, rfl, rfl⟩
    | folder id' title extras =>
      cases extras with
      | nil => simp [Entry.setId, Entry.setFolder, Extra.setFolder, Entry.isIntact] at hintact
      | cons extra rest =>
        cases extra <;>
          simp [Entry.setId, Entry.setFolder, Extra.setFolder, Entry.isIntact] at hintact
    | note id' text' extras => exact .inl ⟨rfl, rfl, rfl⟩

end entries

/-- The entries of the document are in order, and they and the current folder are as they should
be. -/
def Compiler.InFolders (c : Compiler) : Prop :=
  c.InOrder ∧ ∀ entries, c.document = some entries → Housed entries.toList c.folder

theorem Compiler.InFolders.of_sameEntries {c d : Compiler} (h : SameEntries c d)
    (hc : c.InFolders) : d.InFolders := by
  refine ⟨hc.1.of_sameEntries h, ?_⟩
  rw [h.document, h.folder]
  exact hc.2

instance : Lenient fun c d => c.InFolders → d.InFolders where
  trans h h' hc := h' (h hc)
  aside h := .of_sameEntries ⟨h.document, h.target, h.lastId, h.folder⟩

theorem Compiler.InFolders.setOpenEntries {c : Compiler} (hc : c.InFolders)
    {entries others : Array Entry} (hopen : c.openEntries? = some entries)
    (horder : (c.setOpenEntries others).InOrder) (hothers : Housed others.toList c.folder) :
    (c.setOpenEntries others).InFolders := by
  refine ⟨horder, ?_⟩
  have hset : c.setOpenEntries others = { c with document := some others } := by
    simp [Compiler.setOpenEntries, (hc.1.open hopen).1]
  rw [hset]
  rintro _ ⟨⟩
  exact hothers

/-- An entry is opened in the current folder. -/
theorem openStamped_inFolders {c : Compiler} (hc : c.InFolders) (fresh : Bool) :
    (stateAfter (openStamped fresh c)).InFolders := by
  obtain ⟨horder, hhoused⟩ := hc
  refine ⟨openStamped_inOrder horder fresh, ?_⟩
  obtain ⟨entries, hdocument, -, htarget⟩ := horder
  have hall := hhoused entries hdocument
  rcases openStamped_shape hdocument (htarget.imp_right And.left) fresh with
    ⟨e, hopen⟩ | ⟨before, entry, hshape, hopen⟩
  · rw [hopen]
    exact hhoused
  · rw [hopen]
    rintro _ ⟨⟩
    rw [Array.toList_push]
    rcases hshape with ⟨rfl, rfl⟩ | rfl
    · refine hall.concat rfl fun id latex inside hentry => ?_
      cases hentry
      rfl
    · rw [Array.toList_push] at hall
      exact hall.stamp _

/-- The last entry may become a folder without a title, or the current folder with one. -/
theorem Housed.makeFolder {entries : List Entry} {entry : Entry} {folder : Option Nat}
    (h : Housed (entries ++ [entry]) folder) (id : Nat) (title : String) :
    Housed (entries ++ [.folder id none []]) folder ∧
      Housed (entries ++ [.folder id (some title) []]) (some id) := by
  constructor
  · exact h.replace (fun _ _ _ hnew => nomatch hnew) fun hintact => nomatch hintact
  · exact h.replace (fun _ _ _ hnew => nomatch hnew) fun _ => .inr ⟨id, rfl, rfl⟩

theorem openNamespace_inFolders {c : Compiler} (hc : c.InFolders) (fresh : Bool) :
    (stateAfter ((do
      openStamped fresh
      openNamespace) c)).InFolders := by
  refine ⟨openNamespace_inOrder hc.1 fresh, ?_⟩
  have hopened := (openStamped_inFolders hc fresh).2
  obtain ⟨⟨entries, hdocument, -, htarget⟩, -⟩ := hc
  rw [bind_apply]
  rcases openStamped_shape hdocument (htarget.imp_right And.left) fresh with
    ⟨e, hopen⟩ | ⟨before, entry, -, hopen⟩
  · rw [hopen] at hopened ⊢
    exact hopened
  · rw [hopen] at hopened ⊢
    have hlast := hopened _ rfl
    rw [Array.toList_push] at hlast
    dsimp only
    rcases openNamespace_shape (c := { c with
        lastId := c.lastId + 1
        document := some (before.push ((entry.setId (c.lastId + 1)).setFolder c.folder))
        target := .document }) rfl rfl with
      ⟨e, d, hrun, -, hd, hfolder⟩ | ⟨title, d, hrun, -, hd, hfolder⟩
    · rw [hrun]
      intro all hall
      obtain rfl := Option.some.inj (hd.symm.trans hall)
      rw [Array.toList_push, stateAfter, hfolder]
      exact (hlast.makeFolder _ "").1
    · rw [hrun]
      intro all hall
      obtain rfl := Option.some.inj (hd.symm.trans hall)
      rw [Array.toList_push, stateAfter, hfolder]
      exact (hlast.makeFolder _ title).2

theorem setLatex_inFolders (text : String) :
    Goes (fun c d => c.InFolders → d.InFolders) (setLatex text) := by
  refine .updateLastEntry fun {c entries entry} hopen hc => ?_
  have horder : (c.setOpenEntries (entries.push (entry.setLatex text))).InOrder :=
    hc.1.edit hopen (by cases entry <;> rfl) (by cases entry <;> rfl)
  refine hc.setOpenEntries hopen horder ?_
  have hlast := hc.2 _ (hc.1.open hopen).2.1
  rw [Array.toList_push] at hlast ⊢
  exact hlast.write text

/-- Everything that the grammar does leaves the entries in their folders. -/
instance : Permits fun c d => c.InFolders → d.InFolders where
  advance := .advance
  emit := .emit_of_setLatex setLatex_inFolders
  addNote text hopen hc := by
    have horder := Permits.addNote (R := fun c d => c.InOrder → d.InOrder) text hopen hc.1
    refine hc.setOpenEntries hopen horder ?_
    rw [Array.toList_push]
    exact (hc.2 _ (hc.1.open hopen).2.1).concat rfl fun _ _ _ hentry => nomatch hentry
  addFunction _ := .of_sameEntries ⟨rfl, rfl, rfl, rfl⟩
  openStamped fresh c hc := openStamped_inFolders hc fresh
  openNamespace fresh c hc := openNamespace_inFolders hc fresh
  macroCall c := .of_sameEntries (Splicing.macroCall c)
  importModule c := .of_sameEntries (Splicing.importModule c)

instance : Retracing fun c d => c.InFolders → d.InFolders := .of_lenient setLatex_inFolders

/-! What a namespace adds to the document. -/

theorem namespaceBody_found {down : Descent} {c d : Compiler} {found : Bool}
    (h : namespaceBody down c = .ok found d) : found = true := by
  obtain ⟨_, c, -, h⟩ := bind_eq_ok h
  obtain ⟨opened, c, -, h⟩ := bind_eq_ok h
  cases opened with
  | false =>
    obtain ⟨_, c', hfail, -⟩ := bind_eq_ok h
    rw [fail_apply] at hfail
    split at hfail <;> cases hfail
  | true =>
    obtain ⟨_, c, -, h⟩ := bind_eq_ok h
    obtain ⟨_, c, -, h⟩ := bind_eq_ok h
    obtain ⟨_, c, -, h⟩ := bind_eq_ok h
    obtain ⟨_, c, -, h⟩ := bind_eq_ok h
    cases h
    rfl

/-- The entry that was opened for a namespace becomes its folder, and what is in the namespace
comes behind it. -/
theorem namespaceBlock_beginsWith {levels : Nat} {c d : Compiler} {t : Token}
    {before : Array Entry} {entry : Entry} {found : Bool}
    (hrun : namespaceBlock (Grammar.descent levels) c = .ok found d) (hcurrent : c.current = some t)
    (ht : t.is "ns" = true) (hdocument : c.document = some (before.push entry))
    (htarget : c.target = .document) :
    found = true ∧ ∃ title, d.BeginsWith (before.push (.folder c.lastId (some title) [])) := by
  have hns : currentIs "ns" c = .ok true c := by simp [currentIs, current, hcurrent, ht]
  rw [namespaceBlock_eq, bind_apply, hns] at hrun
  obtain ⟨_, c', hopen, hbody⟩ := bind_eq_ok hrun
  rcases openNamespace_shape hdocument htarget with
    ⟨e, s, hfault, -⟩ | ⟨title, s, hopened, hs, hfolder, -⟩
  · cases hopen.symm.trans hfault
  · cases hopen.symm.trans hopened
    have hkept := Goes.namespaceBody (freshStatement_beginsWith levels) c'
      ⟨hs, #[], hfolder.trans (congrArg some (Array.append_empty).symm)⟩
    rw [hbody] at hkept
    exact ⟨namespaceBody_found hbody, title, hkept⟩

theorem namespaceStatement_beginsWith {levels : Nat} {c c' d : Compiler} {t : Token}
    {before : Array Entry} (hskip : skipNewlines c = .ok () c') (hcurrent : c'.current = some t)
    (ht : t.is "ns" = true) (hdocument : c.document = some before)
    (hrun : (Grammar.descent levels).statement true c = .ok () d) :
    ∃ title, d.BeginsWith (before.push (.folder (c.lastId + 1) (some title) [])) := by
  have hsame : SameEntries c c' := Goes.skipNewlines.along hskip
  cases levels with
  | zero => cases hrun
  | succ levels =>
    have hforms := (statementFrom_fresh hskip hdocument).symm.trans hrun
    obtain ⟨d', hforms, hlast⟩ := exists_of_orFail hforms
    obtain ⟨found, d'', hblock, hforms⟩ := bind_eq_ok hforms
    obtain ⟨rfl, title, hkept⟩ := namespaceBlock_beginsWith hblock hcurrent ht rfl rfl
    cases hforms
    have hpassed := Goes.advance (R := SameEntries) d'
    rw [hlast] at hpassed
    rw [← hsame.lastId]
    exact ⟨title, hkept.of_sameEntries hpassed⟩

theorem exists_run_of_compiled? {files : Files} {code : String} {d : Compiler}
    (h : compiled? files code = some d) :
    ∃ c document, Compiler.ofCode files code = .ok c ∧ run c = .ok document d := by
  unfold compiled? at h
  split at h
  · cases h
  · next c hcode =>
    split at h
    · next document c' hrun =>
      cases h
      exact ⟨c, document, hcode, hrun⟩
    · cases h

theorem inFolders_of_ofCode {files : Files} {code : String} {c : Compiler}
    (h : Compiler.ofCode files code = .ok c) :
    Compiler.InFolders { c.withFreshDocument with line := c.line + 1 } := by
  refine ⟨inOrder_of_ofCode h, ?_⟩
  rintro _ ⟨⟩
  have hfolder : c.folder = none := by rw [eq_of_ofCode h]
  exact ⟨fun _ i => by simp, fun _ => hfolder⟩

theorem Entry.isNumbered_of_folderId? {entry : Entry} {id : Nat} (h : entry.folderId? = some id) :
    entry.isNumbered = true ∧ entry.id = id := by
  cases entry with
  | folder own title extras => exact ⟨rfl, Option.some.inj h⟩
  | expression own latex inside => cases h
  | note own text extras => cases h

/-- Folders behind another one have ids of their own. -/
theorem Numbered.nearestFolder_ne {entries : Array Entry} {front more : List Entry} {entry : Entry}
    {last id : Nat} (h : Numbered entries last) (hentries : entries.toList = front ++ entry :: more)
    (hid : entry.folderId? = some id) (i : Nat) : nearestFolder (more.take i) ≠ some id := by
  intro hnearest
  obtain ⟨other, hmem, hother⟩ := List.mem_filterMap.mp (List.mem_of_getLast? hnearest)
  obtain ⟨hnumbered, rfl⟩ := Entry.isNumbered_of_folderId? hid
  obtain ⟨hnumbered', hsame⟩ := Entry.isNumbered_of_folderId? hother
  have hincreasing := h.increasing
  rw [hentries] at hincreasing
  have hbehind := (List.pairwise_append.mp hincreasing).2.1
  have hlt := (List.pairwise_cons.mp hbehind).1 other (List.mem_of_mem_take hmem)
  exact absurd (hlt hnumbered hnumbered') (by omega)

/-- The entries behind a folder. -/
theorem Compiler.InFolders.behind {d : Compiler} (h : d.InFolders) {before more : Array Entry}
    {own : Nat} {title : String}
    (hdocument : d.document = some (before.push (.folder own (some title) []) ++ more))
    (hintact : ∀ entry ∈ before.push (.folder own (some title) []) ++ more,
      entry.isIntact = true) :
    (∀ (i : Nat) id latex inside, more[i]? = some (.expression id latex inside) →
      inside = (nearestFolder (more.toList.take i)).or (some own) ∧
        (inside = some own ↔ ∀ entry ∈ more.toList.take i, entry.folderId? = none)) ∧
      d.folder = (nearestFolder more.toList).or (some own) := by
  obtain ⟨⟨entries, hentries, hnumbered, -⟩, hhoused⟩ := h
  obtain rfl := Option.some.inj (hdocument.symm.trans hentries)
  obtain ⟨hfiled, hfolder⟩ := (hhoused _ hdocument).of_intact fun entry hentry =>
    hintact entry (Array.mem_toList_iff.mp hentry)
  have hlast : nearestFolder (before.push (.folder own (some title) [])).toList = some own := by
    rw [Array.toList_push, nearestFolder_concat]
    rfl
  rw [Array.toList_append] at hfiled hfolder
  rw [nearestFolder_append, hlast] at hfolder
  refine ⟨fun i id latex inside hi => ?_, hfolder⟩
  have hinside := hfiled.behind i id latex inside (by rwa [Array.getElem?_toList])
  rw [hlast] at hinside
  refine ⟨hinside, ?_⟩
  have hlist : (before.push (.folder own (some title) []) ++ more).toList =
      before.toList ++ .folder own (some title) [] :: more.toList := by simp
  have hother := hnumbered.nearestFolder_ne hlist rfl i
  rw [hinside, ← nearestFolder_eq_none]
  cases hnearest : nearestFolder (more.toList.take i) with
  | none => simp
  | some id' => simpa [hnearest] using hother

/-- A namespace does not give its folder up. In the document of a script whose folders are as their
namespaces made them, every expression lies in the folder nearest before it, and in none only if no
folder stands before it. In what a namespace adds to the document, an expression lies in its own
folder exactly if no folder of another one stands between them; and what comes behind the namespace
lies in the last of these folders. -/
theorem entry_lies_in_nearest_folder {files : Files} {code : String} :
    (∀ (d : Compiler) entries, compiled? files code = some d → d.document = some entries →
      (∀ entry ∈ entries, entry.isIntact = true) →
      Filed none entries.toList ∧ d.folder = nearestFolder entries.toList) ∧
    ∀ (levels : Nat) (s s' d : Compiler) (t : Token) (before entries : Array Entry),
      Reached files code (.entering (.statement true)) s → s.document = some before →
      skipNewlines s = .ok () s' → s'.current = some t → t.is "ns" = true →
      (Grammar.descent levels).statement true s = .ok () d → d.document = some entries →
      (∀ entry ∈ entries, entry.isIntact = true) →
      ∃ title more, entries = before.push (.folder (s.lastId + 1) (some title) []) ++ more ∧
        (∀ (i : Nat) id latex inside, more[i]? = some (.expression id latex inside) →
          inside = (nearestFolder (more.toList.take i)).or (some (s.lastId + 1)) ∧
          (inside = some (s.lastId + 1) ↔
            ∀ entry ∈ more.toList.take i, entry.folderId? = none)) ∧
        d.folder = (nearestFolder more.toList).or (some (s.lastId + 1)) := by
  constructor
  · intro d entries hrun hentries hintact
    obtain ⟨c, document, hcode, hrun⟩ := exists_run_of_compiled? hrun
    have hkept := run_goes (R := fun c d => c.InFolders → d.InFolders) (ofCode_begins hcode).1
    rw [hrun] at hkept
    have hhoused := (hkept (inFolders_of_ofCode hcode)).2 entries hentries
    exact hhoused.of_intact fun entry hentry => hintact entry (Array.mem_toList_iff.mp hentry)
  · intro levels s s' d t before entries hreached hbefore hskip hcurrent ht hrun hentries hintact
    obtain ⟨c, hcode, hkept⟩ := hreached.path (R := fun c d => c.InFolders → d.InFolders)
    have hgoes := (goes_descent (R := fun c d => c.InFolders → d.InFolders) .never levels).2 true s
    rw [Watched.descent_never, hrun] at hgoes
    have hd : d.InFolders := hgoes (hkept (inFolders_of_ofCode hcode))
    obtain ⟨title, -, more, hmore⟩ :=
      namespaceStatement_beginsWith hskip hcurrent ht hbefore hrun
    obtain rfl := Option.some.inj (hentries.symm.trans hmore)
    exact ⟨title, more, rfl, hd.behind hentries hintact⟩

/-- A namespace in another one, with an expression behind each of the two. -/
def nestedNamespaces : String := "ns A \x7b\na = 1\nns B \x7b\nb = 2\n\x7d\nc = 3\n\x7d\nd = 4"

def nestedEntries : Array Entry :=
  #[.folder 1 (some "A") [], .expression 2 "A_\x7ba\x7d=1" (some 1), .folder 3 (some "B") [],
    .expression 4 "B_\x7bb\x7d=2" (some 3), .expression 5 "A_\x7bc\x7d=3" (some 3),
    .expression 6 "d=4" (some 3)]

/-- The state that an action ends in without a fault. -/
def finished? : EStateM.Result Fault Compiler Unit → Option Compiler
  | .ok _ d => some d
  | .error _ _ => none

theorem eq_of_finished? {result : EStateM.Result Fault Compiler Unit} {d : Compiler}
    (h : finished? result = some d) : result = .ok () d := by
  cases result with
  | ok _ s => exact congrArg (EStateM.Result.ok ()) (Option.some.inj h)
  | error e s => cases h

theorem nested_entries_lie_in_nearest_folder :
    (∃ d, compiled? [] nestedNamespaces = some d ∧ d.document = some nestedEntries ∧
      Filed none nestedEntries.toList ∧ d.folder = nearestFolder nestedEntries.toList) ∧
    ∃ s d title more, Reached [] nestedNamespaces (.entering (.statement true)) s ∧
      s.document = some #[] ∧ (Grammar.descent 12).statement true s = .ok () d ∧
      d.document = some nestedEntries.pop ∧
      nestedEntries.pop = #[.folder 1 (some title) []] ++ more ∧
      (∀ (i : Nat) id latex inside, more[i]? = some (.expression id latex inside) →
        (inside = some 1 ↔ ∀ entry ∈ more.toList.take i, entry.folderId? = none)) ∧
      d.folder = (nearestFolder more.toList).or (some 1) := by
  have hdocument : ((compiled? [] nestedNamespaces).bind Compiler.document) =
      some nestedEntries := by decide +kernel
  obtain ⟨d, hrun, hentries⟩ := Option.bind_eq_some_iff.mp hdocument
  obtain ⟨hwhole, hblock⟩ := @entry_lies_in_nearest_folder [] nestedNamespaces
  refine ⟨⟨d, hrun, hentries, hwhole d nestedEntries hrun hentries (by decide)⟩, ?_⟩
  let watch : Watch := fun moment _ => moment = .entering (.statement true)
  have hview : ((Compiler.ofCode [] nestedNamespaces).toOption.bind fun c =>
      (stopped? (program (Watched.descent watch 12) { c with line := c.line + 1 })).bind fun s =>
      (finished? (skipNewlines s)).bind fun s' =>
      (finished? ((Grammar.descent 12).statement true s)).map fun d =>
        (s.document, s.lastId, s'.current, d.document)) =
      some (some #[], 0, some (.word .keyword "ns"), some nestedEntries.pop) := by
    decide +kernel
  obtain ⟨c, hcode, hview⟩ := Option.bind_eq_some_iff.mp hview
  obtain ⟨s, hstopped, hview⟩ := Option.bind_eq_some_iff.mp hview
  obtain ⟨s', hskip, hview⟩ := Option.bind_eq_some_iff.mp hview
  obtain ⟨e, hstatement, hview⟩ := Option.map_eq_some_iff.mp hview
  simp only [Prod.mk.injEq] at hview
  obtain ⟨hbefore, hlast, hcurrent, hmade⟩ := hview
  have hreached : Reached [] nestedNamespaces (.entering (.statement true)) s :=
    reached_of_stopped? hcode (fun _ _ hm => of_decide_eq_true hm) hstopped
  obtain ⟨title, more, hadded, hinside, hfolder⟩ := hblock 12 s s' e _ _ _ hreached hbefore
    (eq_of_finished? hskip) hcurrent (by decide) (eq_of_finished? hstatement) hmade (by decide)
  rw [hlast] at hadded hinside hfolder
  exact ⟨s, e, title, more, hreached, hbefore, eq_of_finished? hstatement, hmade, hadded,
    fun i id latex inside hi => (hinside i id latex inside hi).2, hfolder⟩

/-- An expression behind a namespace lies in its folder. -/
theorem entry_behind_namespace_in_folder :
    (compiled? [] "ns N \x7b\na = 1\n\x7d\nb = 2").bind Compiler.document =
      some #[.folder 1 (some "N") [], .expression 2 "N_\x7ba\x7d=1" (some 1),
        .expression 3 "b=2" (some 1)] := by
  decide +kernel

end PlotScript
