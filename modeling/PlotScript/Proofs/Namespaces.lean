import PlotScript.Proofs.Cursor
import PlotScript.Proofs.Effects
import PlotScript.Proofs.Statements
import PlotScript.Proofs.Tables

/-! Namespaces. A block of assignments becomes a folder and an entry for each assignment in it. The
members are bound in a table of their own, and each is written with the name of the namespace in
front. -/

namespace PlotScript
open Compile Grammar

namespace Tree

/-- An assignment with a newline behind it, and perhaps more of them. -/
structure Member where
  name : Name
  value : Expression
  behind : Nat

/-- Assignments in braces, at least one, with newlines in front of the first. -/
structure NamespaceDef where
  name : Name
  before : Nat
  first : Member
  others : List Member

namespace Member
variable (m : Member)

def text : String := m.name.text

def tokens : List Token :=
  m.name.token :: Operator.equals.token ::
    (m.value.tokens ++ List.replicate (m.behind + 1) Token.newline)

theorem length_tokens : m.tokens.length = m.value.tokens.length + m.behind + 3 := by
  simp only [tokens, List.length_cons, List.length_append, List.length_replicate]
  omega

def latex (scope functions : List String) : String :=
  scopedName scope m.text ++ "=" ++ m.value.latex scope functions

/-- What is printed where the member is bound. -/
def announced : String := "\x7b'__name__': " ++ Text.quoted m.text ++ "\x7d"

end Member

/-- The entries of members, numbered on from the last id. -/
def memberEntries (scope functions : List String) (folder : Option Nat) (lastId : Nat)
    (ms : List Member) : Array Entry :=
  (ms.mapIdx fun k m =>
    Entry.expression (lastId + (k + 1)) (m.latex scope functions) folder).toArray

end Tree

open PlotScript.Tree

theorem memberEntries_concat (scope functions : List String) (folder : Option Nat) (lastId : Nat)
    (ms : List Member) (m : Member) :
    memberEntries scope functions folder lastId (ms ++ [m]) =
      (memberEntries scope functions folder lastId ms).push
        (.expression (lastId + (ms.length + 1)) (m.latex scope functions) folder) := by
  simp [memberEntries, List.mapIdx_concat]

/-- The state behind some members of a namespace, with the names that are bound by then. -/
def Compiler.withMembers (c : Compiler) (entries : Array Entry) (names : Table) (ms : List Member) :
    Compiler :=
  { c with
    names
    objectName := (ms.map Member.text).getLastD c.objectName
    printed := c.printed ++ (ms.map Member.announced).toArray
    lastId := c.lastId + ms.length
    document := some (entries ++ memberEntries c.scope c.functions c.folder c.lastId ms)
    target := .document }

section step
variable {c : Compiler} {entries : Array Entry} {names names' : Table} {front : List Member}
  {m : Member} {i : Nat} {line : Int} {u : Token} {rest : List Token}

/-- The state behind one member more. -/
theorem withMembers_concat {j : Nat} {t : Token} (hj : c.tokens[j]? = some t)
    (old : Option Token) :
    ((((c.withMembers entries names front).cursorAt i old line).withEntry
      (entries ++ memberEntries c.scope c.functions c.folder c.lastId front)).withName names'
        m.text).seenAt j (m.latex c.scope c.functions) =
      (c.withMembers entries names' (front ++ [m])).cursorAt j (some t) line := by
  simp only [Compiler.seenAt, Compiler.resume, Compiler.withText, Compiler.withName,
    Compiler.withEntry, Compiler.withMembers, Compiler.cursorAt, hj, Option.map_some,
    Entry.rewriteLast_push, memberEntries_concat, Array.append_push, List.map_append,
    List.length_append]
  simp [Member.announced, Entry.setLatex, Nat.add_assoc]

theorem expressionFrom_member {levels : Nat} (hc : c.Ready) (hself : c.seenAt i "" = c)
    (hadd : c.names.add c.scope m.text .unset = .ok names')
    (hallows : (c.withName names' m.text).Allows (m.text :: m.value.variables) m.value.callees)
    (hlevels : m.value.tokens.length < levels)
    (hahead : c.Ahead i (m.name.token :: Operator.equals.token ::
      (m.value.tokens ++ Token.newline :: rest))) :
    expressionFrom (descent levels) c =
      .ok .accepted ((c.withName names' m.text).seenAt (i + 1 + 1 + m.value.tokens.length)
        (m.latex c.scope c.functions)) := by
  have hown : m.text ∈ m.text :: m.value.variables := List.mem_cons_self ..
  have hready : (c.withName names' m.text).Ready := ⟨hc.isOpen, hc.hasLine, hc.functionNames⟩
  have hvalue : Reads (c.withName names' m.text) (descent levels) m.value :=
    reads_descent hready hlevels (hallows.mono (List.subset_cons_self ..) (List.Subset.refl _))
  have hread := expressionFrom_assigned hc hadd (hallows.known _ hown) (hallows.notFunction _ hown)
    hvalue (.inl (by decide)) hahead
  rwa [hself] at hread

/-- A member is read with the newlines in front of it and one behind it. -/
theorem statementFrom_member {before levels : Nat} {t : Token}
    (hadd : names.add c.scope m.text .unset = .ok names')
    (hallows : (c.withMembers entries names' (front ++ [m])).Allows (m.text :: m.value.variables)
      m.value.callees)
    (hfunctions : ∀ f ∈ c.functions, Lexer.isName f.toList = true)
    (hlevels : m.value.tokens.length < levels) (hfirst : 1 ≤ line + before)
    (hlast : line + before ≤ c.lines.length) (ht : c.tokens[i]? = some t)
    (hahead : c.Ahead i (List.replicate before Token.newline ++ (m.name.token ::
      Operator.equals.token :: (m.value.tokens ++ Token.newline :: rest)))) (hrest : rest ≠ []) :
    statementFrom (descent levels) true
        ((c.withMembers entries names front).cursorAt i (some t) line) =
      .ok () ((c.withMembers entries names' (front ++ [m])).cursorAt
        (i + before + 1 + 1 + m.value.tokens.length + 1)
        c.tokens[i + before + 1 + 1 + m.value.tokens.length + 1]? (line + before + 1)) := by
  obtain ⟨u, more, rfl⟩ := List.exists_cons_of_ne_nil hrest
  have hname := hahead.skip_replicate
  have hskip : skipNewlines ((c.withMembers entries names front).cursorAt i c.tokens[i]? line) =
      .ok () ((c.withMembers entries names front).cursorAt (i + before) (some m.name.token)
        (line + before)) := skipWhile_cursorAt rfl hahead rfl
  rw [ht] at hskip
  have hopen : (((c.withMembers entries names front).cursorAt (i + before) (some m.name.token)
      (line + before)).withEntry (entries ++ memberEntries c.scope c.functions c.folder c.lastId
        front)).IsOpen := isOpen_withEntry
  have hread := expressionFrom_member ⟨hopen, Compiler.hasLine_of_le hfirst hlast, hfunctions⟩
    (seenAt_self rfl hname.head.symm) hadd ⟨hallows.known, hallows.notFunction, hallows.callable⟩
    hlevels hname
  have hend : c.tokens[i + before + 1 + 1 + m.value.tokens.length]? = some Token.newline :=
    hname.tail.tail.skip.head
  have haccepted := hread.trans (congrArg (EStateM.Result.ok Verdict.accepted)
    (withMembers_concat hend (some m.name.token)))
  have hadvance : advance ((c.withMembers entries names' (front ++ [m])).cursorAt
      (i + before + 1 + 1 + m.value.tokens.length) (some Token.newline) (line + before)) = _ :=
    advance_cursorAt hname.tail.tail.skip
  rw [hname.tail.tail.skip.tail.head]
  exact statementFrom_of_expression rfl hskip rfl rfl (Atom.name m.name).opens haccepted hadvance

/-- One round of a namespace reads a member and all newlines behind it. -/
theorem namespaceStatement_member {before levels : Nat}
    (hadd : names.add c.scope m.text .unset = .ok names')
    (hallows : (c.withMembers entries names' (front ++ [m])).Allows (m.text :: m.value.variables)
      m.value.callees)
    (hfunctions : ∀ f ∈ c.functions, Lexer.isName f.toList = true)
    (hlevels : m.value.tokens.length < levels) (hfirst : 1 ≤ line + before)
    (hlast : line + before ≤ c.lines.length)
    (hahead : c.Ahead i (List.replicate before Token.newline ++ (m.tokens ++ u :: rest)))
    (hu : u.isNewline = false) :
    namespaceStatement (descent (levels + 1))
        ((c.withMembers entries names front).cursorAt i c.tokens[i]? line) =
      .ok false ((c.withMembers entries names' (front ++ [m])).cursorAt
        (i + before + m.tokens.length) (some u) (line + before + (m.behind + 1))) := by
  rw [Member.tokens, List.cons_append, List.cons_append, List.append_assoc, List.replicate_succ,
    List.cons_append] at hahead
  obtain ⟨t, ht, hclosing⟩ : ∃ t, c.tokens[i]? = some t ∧ t.is "\x7d" = false := by
    cases before with
    | zero => exact ⟨m.name.token, hahead.head, m.name.token_is (by decide)⟩
    | succ before => exact ⟨Token.newline, hahead.head, by decide⟩
  have hread := statementFrom_member hadd hallows hfunctions hlevels hfirst hlast ht hahead
    (by simp)
  have hbehind := hahead.skip_replicate.tail.tail.skip.tail
  have hskip : skipNewlines ((c.withMembers entries names' (front ++ [m])).cursorAt
      (i + before + 1 + 1 + m.value.tokens.length + 1)
      c.tokens[i + before + 1 + 1 + m.value.tokens.length + 1]? (line + before + 1)) = _ :=
    skipWhile_cursorAt rfl hbehind hu
  have hlength : i + before + m.tokens.length =
      i + before + 1 + 1 + m.value.tokens.length + 1 + m.behind := by
    rw [m.length_tokens]
    omega
  have hline : line + before + (m.behind + 1) = line + before + 1 + m.behind := by omega
  have hstatement : (descent (levels + 1)).statement = statementWithin (levels + 1) := rfl
  have hcurrent : currentIs "\x7d" ((c.withMembers entries names front).cursorAt i (some t) line) =
      .ok (t.is "\x7d") ((c.withMembers entries names front).cursorAt i (some t) line) := rfl
  rw [ht, hlength, hline]
  simp [namespaceStatement, hcurrent, hclosing, hstatement, statementWithin_succ, hread, hskip]

end step

/-! The rounds of a block. -/

/-- No member is a function, every variable is the member itself or one in front of it, and only
known functions are called. -/
def Tree.Scoped (functions : List String) : (known : List String) → List Member → Prop
  | _, [] => True
  | known, m :: ms =>
    (m.text ∉ functions ∧ m.text ∉ builtinFunctions) ∧
    (∀ v ∈ m.value.variables, v ∈ known ++ [m.text]) ∧
    (∀ f ∈ m.value.callees, f ∈ functions ∨ f ∈ builtinFunctions) ∧
    Scoped functions (known ++ [m.text]) ms

def Tree.memberTokens (ms : List Member) : List Token := ms.flatMap Member.tokens

/-- The newlines behind members. -/
def Tree.memberNewlines : List Member → Nat
  | [] => 0
  | m :: ms => m.behind + 1 + memberNewlines ms

theorem memberTokens_cons (m : Member) (ms : List Member) :
    memberTokens (m :: ms) = m.tokens ++ memberTokens ms := List.flatMap_cons

theorem memberTokens_singleton (m : Member) : memberTokens [m] = m.tokens :=
  List.flatMap_singleton ..

theorem memberNewlines_cons (m : Member) (ms : List Member) :
    memberNewlines (m :: ms) = m.behind + 1 + memberNewlines ms := rfl

theorem length_le_memberTokens (ms : List Member) : ms.length ≤ (memberTokens ms).length := by
  induction ms with
  | nil => exact Nat.zero_le _
  | cons m ms ih =>
    rw [memberTokens_cons, List.length_append, m.length_tokens, List.length_cons]
    omega

theorem value_length_lt_memberTokens {ms : List Member} {m : Member} (h : m ∈ ms) :
    m.value.tokens.length < (memberTokens ms).length := by
  induction ms with
  | nil => contradiction
  | cons first ms ih =>
    rw [memberTokens_cons, List.length_append, first.length_tokens]
    rcases List.mem_cons.mp h with rfl | h
    · omega
    · have hlater := ih h
      omega

/-- The names with the members of a namespace in a table of their own. -/
def memberNames (outer : Table) (own : String) (ms : List Member) : Table :=
  outer.bind own (.table (Table.ofNames (ms.map Member.text)))

/-- Between two members of a namespace: the next name will be bound behind those of the members in
front, none of which is a function. In front of the first member the table need not be there. -/
structure Between (c : Compiler) (own : String) (outer names : Table) (front : List Member) :
    Prop where
  scope : c.scope = [own]
  functionNames : ∀ f ∈ c.functions, Lexer.isName f.toList = true
  add : ∀ m : Member, names.add [own] m.text .unset = .ok (memberNames outer own (front ++ [m]))
  plain : ∀ m ∈ front, m.text ∉ c.functions ∧ m.text ∉ builtinFunctions

section rounds
variable {c : Compiler} {entries : Array Entry} {names outer : Table} {own : String}
  {front others : List Member} {m : Member} {before levels : Nat} {i : Nat} {line : Int} {u : Token}
  {rest : List Token}

theorem Between.next (h : Between c own outer names front)
    (hown : m.text ∉ c.functions ∧ m.text ∉ builtinFunctions) :
    Between c own outer (memberNames outer own (front ++ [m])) (front ++ [m]) := by
  refine ⟨h.scope, h.functionNames, fun k => ?_, fun k hk => ?_⟩
  · rw [memberNames, Table.add_ofNames, memberNames]
    simp
  · rcases List.mem_append.mp hk with hk | hk
    · exact h.plain k hk
    · obtain rfl : k = m := List.mem_singleton.mp hk
      exact hown

/-- A member is read with the names in front of it and its own name bound. -/
theorem Between.allows (h : Between c own outer names front)
    (hown : m.text ∉ c.functions ∧ m.text ∉ builtinFunctions)
    (hvariables : ∀ v ∈ m.value.variables, v ∈ front.map Member.text ++ [m.text])
    (hcallees : ∀ f ∈ m.value.callees, f ∈ c.functions ∨ f ∈ builtinFunctions) :
    (c.withMembers entries (memberNames outer own (front ++ [m])) (front ++ [m])).Allows
      (m.text :: m.value.variables) m.value.callees := by
  have hmember : ∀ v ∈ m.text :: m.value.variables, v ∈ (front ++ [m]).map Member.text := by
    intro v hv
    rw [List.map_append]
    rcases List.mem_cons.mp hv with rfl | hv
    · simp
    · exact hvariables v hv
  refine ⟨fun v hv => .inr ?_, fun v hv => ?_, hcallees⟩
  · have hbound := Table.boundAlong_inside outer
      (Table.ofNames ((front ++ [m]).map Member.text)) own v
    rw [(Table.has_ofNames _ v).mpr (hmember v hv), ← h.scope] at hbound
    exact hbound
  · obtain ⟨k, hk, rfl⟩ := List.mem_map.mp (hmember v hv)
    exact (h.next hown).plain k hk

theorem exists_memberTokens (ms : List Member) (rest : List Token) :
    ∃ u more, memberTokens ms ++ mark "\x7d" :: rest = u :: more ∧ u.isNewline = false := by
  cases ms with
  | nil => exact ⟨mark "\x7d", rest, rfl, rfl⟩
  | cons m ms => exact ⟨m.name.token, _, rfl, rfl⟩

/-- The next member, whatever stands behind it in the block. -/
theorem namespaceStatement_next (h : Between c own outer names front)
    (hscoped : Scoped c.functions (front.map Member.text) (m :: others))
    (hlevels : m.value.tokens.length < levels) (hfirst : 1 ≤ line)
    (hlast : line + before ≤ c.lines.length)
    (hahead : c.Ahead i (List.replicate before Token.newline ++
      (memberTokens (m :: others) ++ mark "\x7d" :: rest))) :
    namespaceStatement (descent (levels + 1))
        ((c.withMembers entries names front).cursorAt i c.tokens[i]? line) =
      .ok false ((c.withMembers entries (memberNames outer own (front ++ [m]))
        (front ++ [m])).cursorAt (i + before + m.tokens.length)
          c.tokens[i + before + m.tokens.length]? (line + before + (m.behind + 1))) := by
  obtain ⟨hown, hvariables, hcallees, -⟩ := hscoped
  obtain ⟨u, more, hmore, hu⟩ := exists_memberTokens others rest
  rw [memberTokens_cons, List.append_assoc, hmore] at hahead
  rw [hahead.skip_replicate.skip.head]
  exact namespaceStatement_member (h.scope ▸ h.add m) (h.allows hown hvariables hcallees)
    h.functionNames hlevels (by omega) hlast hahead hu

/-- The rounds end at the closing brace. -/
theorem loop_namespaceStatement_end (down : Descent) (rounds : Nat) :
    loop (namespaceStatement down) (rounds + 1) (c.cursorAt i (some (mark "\x7d")) line) =
      .ok () (c.cursorAt i (some (mark "\x7d")) line) := rfl

/-- All members, by induction on those behind the first. -/
theorem loop_namespaceStatement {rounds : Nat} (h : Between c own outer names front)
    (hscoped : Scoped c.functions (front.map Member.text) (m :: others))
    (hlevels : ∀ k ∈ m :: others, k.value.tokens.length < levels)
    (hrounds : others.length + 1 < rounds) (hfirst : 1 ≤ line)
    (hlast : line + before + memberNewlines (m :: others) ≤ c.lines.length)
    (hahead : c.Ahead i (List.replicate before Token.newline ++
      (memberTokens (m :: others) ++ mark "\x7d" :: rest))) :
    loop (namespaceStatement (descent (levels + 1))) rounds
        ((c.withMembers entries names front).cursorAt i c.tokens[i]? line) =
      .ok () ((c.withMembers entries (memberNames outer own (front ++ m :: others))
        (front ++ m :: others)).cursorAt (i + before + (memberTokens (m :: others)).length)
          (some (mark "\x7d")) (line + before + memberNewlines (m :: others))) := by
  induction others generalizing m front names before i line rounds with
  | nil =>
    obtain ⟨rounds, rfl⟩ : ∃ n, rounds = n + 1 + 1 := Nat.exists_eq_add_of_le' hrounds
    have hround : namespaceStatement (descent (levels + 1))
        ((c.withMembers entries names front).cursorAt i c.tokens[i]? line) = _ :=
      namespaceStatement_next h hscoped (hlevels m (by simp)) hfirst (by omega) hahead
    have hclosing := hahead.skip.skip.head
    rw [List.length_replicate, memberTokens_singleton] at hclosing
    rw [loop, bind_apply, hround, memberTokens_singleton, hclosing]
    exact loop_namespaceStatement_end ..
  | cons next others ih =>
    obtain ⟨rounds, rfl⟩ := Nat.exists_eq_add_of_lt hrounds
    have hround : namespaceStatement (descent (levels + 1))
        ((c.withMembers entries names front).cursorAt i c.tokens[i]? line) = _ :=
      namespaceStatement_next h hscoped (hlevels m (by simp)) hfirst (by omega) hahead
    obtain ⟨hown, -, -, hlater⟩ := hscoped
    have hbehind := hahead.skip
    rw [List.length_replicate, memberTokens_cons, List.append_assoc] at hbehind
    have hafter : c.Ahead (i + before + m.tokens.length) (List.replicate 0 Token.newline ++
        (memberTokens (next :: others) ++ mark "\x7d" :: rest)) := hbehind.skip
    have hfewer : others.length + 1 < (next :: others).length + 1 + rounds := by
      rw [List.length_cons]
      omega
    rw [memberNewlines_cons] at hlast
    have hrest := ih (h.next hown) (by simpa using hlater)
      (fun k hk => hlevels k (List.mem_cons_of_mem _ hk)) hfewer
      (show 1 ≤ line + before + (m.behind + 1) by omega) (by omega) hafter
    have hall : front ++ [m] ++ next :: others = front ++ m :: next :: others := by simp
    have hlength : i + before + m.tokens.length + 0 + (memberTokens (next :: others)).length =
        i + before + (memberTokens (m :: next :: others)).length := by
      rw [memberTokens_cons m, List.length_append]
      omega
    have hlines : line + before + (m.behind + 1) + (0 : Nat) + memberNewlines (next :: others) =
        line + before + memberNewlines (m :: next :: others) := by
      rw [memberNewlines_cons m]
      omega
    rw [hall, hlength, hlines] at hrest
    rw [loop, bind_apply, hround]
    exact hrest

end rounds

/-! The block as a whole. -/

namespace Tree.NamespaceDef
variable (b : NamespaceDef)

def members : List Member := b.first :: b.others

/-- All tokens but the newline behind the block. -/
def tokens : List Token :=
  .word .keyword "ns" :: b.name.token :: mark "\x7b" ::
    (List.replicate b.before Token.newline ++ (memberTokens b.members ++ [mark "\x7d"]))

theorem length_tokens : b.tokens.length = b.before + (memberTokens b.members).length + 4 := by
  simp only [tokens, List.length_cons, List.length_append, List.length_replicate, List.length_nil]
  omega

def newlines : Nat := b.before + memberNewlines b.members

/-- A folder with the name of the namespace, and an entry in it for each member. -/
def entries (functions : List String) (lastId : Nat) : Array Entry :=
  #[.folder (lastId + 1) (some b.name.text) []] ++
    memberEntries [b.name.text] functions (some (lastId + 1)) (lastId + 1) b.members

end Tree.NamespaceDef

/-- The state with a folder behind the other entries, and with other names, another scope and
another folder for the entries that follow. -/
def Compiler.inFolder (c : Compiler) (entries : Array Entry) (title : Option String) (names : Table)
    (scope : List String) (folder : Option Nat) : Compiler :=
  { c with
    names, scope, folder
    lastId := c.lastId + 1
    document := some (entries.push (.folder (c.lastId + 1) title []))
    target := .document }

/-- The state outside of all scopes. -/
def Compiler.atTop (c : Compiler) : Compiler := { c with scope := [] }

section block
variable {c : Compiler} {entries : Array Entry} {names : Table} {scope : List String}
  {title : Option String} {folder : Option Nat} {own : Name} {b : NamespaceDef} {levels i : Nat}
  {t u : Token} {line : Int} {rest : List Token}

theorem reopenScope_inFolder (name : String) :
    reopenScope name ((c.inFolder entries title names [] folder).cursorAt i (some t) line) =
      .ok () ((c.inFolder entries title (names.reopened name) [] folder).cursorAt i (some t)
        line) := by
  have hresolve : names.resolve [] = .ok (.table names) := rfl
  cases h : names.has name with
  | true =>
    simp [reopenScope, Compiler.cursorAt, Compiler.inFolder, hresolve, h, assignName, setNames,
      Table.assign, Table.reopened]
  | false =>
    simp [reopenScope, Compiler.cursorAt, Compiler.inFolder, hresolve, h, Table.reopened]

theorem pushScope_inFolder (name : String) :
    pushScope name ((c.inFolder entries title names scope folder).cursorAt i (some t) line) =
      .ok () ((c.inFolder entries title names (scope ++ [name]) folder).cursorAt i (some t)
        line) := rfl

theorem setTitle_inFolder (name : String) :
    updateLastEntry (Entry.setTitle name)
        ((c.inFolder entries title names scope folder).cursorAt i (some t) line) =
      .ok () ((c.inFolder entries (some name) names scope folder).cursorAt i (some t) line) := by
  rw [updateLastEntry_eq rfl rfl]
  rfl

theorem setFolder_inFolder :
    (modify fun c => { c with folder := some c.lastId } : Compile Unit)
        ((c.inFolder entries title names scope folder).cursorAt i (some t) line) =
      .ok () ((c.inFolder entries title names scope (some (c.lastId + 1))).cursorAt i (some t)
        line) := rfl

theorem advance_inFolder (hahead : c.Ahead i (t :: u :: rest)) (ht : t.isNewline = false) :
    advance ((c.inFolder entries title names scope folder).cursorAt i (some t) line) =
      .ok () ((c.inFolder entries title names scope folder).cursorAt (i + 1) (some u) line) :=
  advance_cursorAt_word hahead ht

/-- The entry becomes a folder, the namespace is emptied if it was there, and its scope opens. -/
theorem openNamespace_eq (hscope : c.scope = [])
    (hahead : c.Ahead i (.word .keyword "ns" :: own.token :: rest)) :
    openNamespace ((c.withEntry entries).cursorAt i (some (.word .keyword "ns")) line) =
      .ok () ((c.inFolder entries (some own.text) (c.names.reopened own.text) [own.text]
        (some (c.lastId + 1))).cursorAt (i + 1) (some own.token) line) := by
  have hid : ((c.withEntry entries).cursorAt i (some (.word .keyword "ns")) line).lastId =
      c.lastId + 1 := rfl
  have hfolder : updateLastEntry (fun _ => .folder (c.lastId + 1) none [])
      ((c.withEntry entries).cursorAt i (some (.word .keyword "ns")) line) =
      .ok () ((c.inFolder entries none c.names [] c.folder).cursorAt i
        (some (.word .keyword "ns")) line) := by
    rw [updateLastEntry_eq rfl rfl, ← hscope]
    rfl
  have hcurrent : current ((c.inFolder entries none c.names [] c.folder).cursorAt (i + 1)
      (some own.token) line) = .ok own.token ((c.inFolder entries none c.names [] c.folder).cursorAt
        (i + 1) (some own.token) line) := rfl
  have htext : own.token.name? = some own.text := rfl
  simp only [openNamespace, enterScope, bind_apply, get_apply, hid, hfolder,
    advance_inFolder hahead rfl, hcurrent, htext, reopenScope_inFolder, pushScope_inFolder,
    pure_apply, setTitle_inFolder, setFolder_inFolder, List.nil_append]

/-- The braces around the members, if these are read. -/
theorem namespaceBody_of_loop {down : Descent} {d : Compiler} {j : Nat} {line' : Int}
    {more : List Token} (hahead : c.Ahead i (own.token :: mark "\x7b" :: u :: more))
    (hloop : loop (namespaceStatement down) down.rounds
      (c.cursorAt (i + 1 + 1) (some u) line) = .ok () (d.cursorAt j (some (mark "\x7d")) line'))
    (hscope : d.scope = [own.text]) (hclosing : d.Ahead j (mark "\x7d" :: t :: rest)) :
    namespaceBody down (c.cursorAt i (some own.token) line) =
      .ok true (d.atTop.cursorAt (j + 1) (some t) line') := by
  have hbrace : advance (c.cursorAt i (some own.token) line) = _ := advance_cursorAt_word hahead rfl
  have hopening : currentIs "\x7b" (c.cursorAt (i + 1) (some (mark "\x7b")) line) =
      .ok true (c.cursorAt (i + 1) (some (mark "\x7b")) line) := rfl
  have hinto : advance (c.cursorAt (i + 1) (some (mark "\x7b")) line) = _ :=
    advance_cursorAt_word hahead.tail rfl
  have hpop : popScope (d.cursorAt j (some (mark "\x7d")) line') =
      .ok () (d.atTop.cursorAt j (some (mark "\x7d")) line') := by
    simp [popScope, Compiler.cursorAt, Compiler.atTop, hscope]
  have hend : advance (d.atTop.cursorAt j (some (mark "\x7d")) line') = _ :=
    advance_cursorAt_word hclosing rfl
  simp [namespaceBody, hbrace, hopening, hinto, endingQuietly, hloop, hpop, hend]

/-- What follows the name of the namespace, up to the newline behind the block. -/
theorem namespaceBody_eq {outer : Table} (h : Between c b.name.text outer names [])
    (hscoped : Scoped c.functions [] b.members)
    (hlevels : ∀ m ∈ b.members, m.value.tokens.length < levels)
    (hrounds : b.members.length ≤ levels) (hfirst : 1 ≤ line)
    (hlast : line + b.newlines ≤ c.lines.length)
    (hahead : c.Ahead i (b.tokens ++ Token.newline :: rest)) :
    namespaceBody (descent (levels + 1)) ((c.withMembers entries names []).cursorAt (i + 1)
        (some b.name.token) line) =
      .ok true ((c.withMembers entries (memberNames outer b.name.text b.members)
        b.members).atTop.cursorAt (i + b.tokens.length) (some Token.newline)
          (line + b.newlines)) := by
  rw [NamespaceDef.newlines] at hlast
  simp only [NamespaceDef.tokens, List.cons_append, List.append_assoc, List.nil_append] at hahead
  have hinner := hahead.tail.tail.tail
  have hclosing := hinner.skip_replicate.skip
  obtain ⟨u, more, hmore⟩ := List.exists_cons_of_ne_nil
    (show List.replicate b.before Token.newline ++ (memberTokens b.members ++
      mark "\x7d" :: Token.newline :: rest) ≠ [] by simp)
  rw [hmore] at hahead
  have hloop : loop (namespaceStatement (descent (levels + 1))) (levels + 1)
      ((c.withMembers entries names []).cursorAt (i + 1 + 1 + 1) c.tokens[i + 1 + 1 + 1]? line) =
      .ok () ((c.withMembers entries (memberNames outer b.name.text b.members) b.members).cursorAt
        (i + 1 + 1 + 1 + b.before + (memberTokens b.members).length) (some (mark "\x7d"))
          (line + b.before + memberNewlines b.members)) :=
    loop_namespaceStatement h hscoped hlevels (Nat.lt_succ_of_le hrounds) hfirst
      (by rw [← NamespaceDef.members]; omega) hinner
  rw [hahead.tail.tail.tail.head] at hloop
  have hlength : i + b.tokens.length =
      i + 1 + 1 + 1 + b.before + (memberTokens b.members).length + 1 := by
    rw [b.length_tokens]
    omega
  have hlines : line + b.newlines = line + b.before + memberNewlines b.members := by
    rw [NamespaceDef.newlines]
    omega
  rw [hlength, hlines]
  exact namespaceBody_of_loop hahead.tail hloop h.scope hclosing

theorem withMembers_inFolder :
    (c.inFolder entries title names scope folder).withMembers
      (entries.push (.folder (c.lastId + 1) title [])) names [] =
        c.inFolder entries title names scope folder := by
  simp [Compiler.withMembers, Compiler.inFolder, memberEntries]

theorem namespaceBlock_accepts (hscope : c.scope = [])
    (hfunctions : ∀ f ∈ c.functions, Lexer.isName f.toList = true)
    (hscoped : Scoped c.functions [] b.members)
    (hlevels : ∀ m ∈ b.members, m.value.tokens.length < levels)
    (hrounds : b.members.length ≤ levels) (hfirst : 1 ≤ line)
    (hlast : line + b.newlines ≤ c.lines.length)
    (hahead : c.Ahead i (b.tokens ++ Token.newline :: rest)) :
    namespaceBlock (descent (levels + 1)) ((c.withEntry entries).cursorAt i
        (some (.word .keyword "ns")) line) =
      .ok true (((c.inFolder entries (some b.name.text) (c.names.reopened b.name.text)
        [b.name.text] (some (c.lastId + 1))).withMembers
          (entries.push (.folder (c.lastId + 1) (some b.name.text) []))
          (memberNames c.names b.name.text b.members) b.members).atTop.cursorAt
            (i + b.tokens.length) (some Token.newline) (line + b.newlines)) := by
  have hns : currentIs "ns" ((c.withEntry entries).cursorAt i (some (.word .keyword "ns")) line) =
      .ok true ((c.withEntry entries).cursorAt i (some (.word .keyword "ns")) line) := rfl
  have hopened : openNamespace ((c.withEntry entries).cursorAt i (some (.word .keyword "ns"))
      line) = _ := openNamespace_eq hscope hahead
  have hbetween : Between (c.inFolder entries (some b.name.text) (c.names.reopened b.name.text)
      [b.name.text] (some (c.lastId + 1))) b.name.text c.names (c.names.reopened b.name.text) [] :=
    ⟨rfl, hfunctions, fun m => Table.add_reopened .., by simp⟩
  have hbody : namespaceBody (descent (levels + 1)) (((c.inFolder entries (some b.name.text)
      (c.names.reopened b.name.text) [b.name.text] (some (c.lastId + 1))).withMembers
        (entries.push (.folder (c.lastId + 1) (some b.name.text) [])) (c.names.reopened b.name.text)
        []).cursorAt (i + 1) (some b.name.token) line) = _ :=
    namespaceBody_eq hbetween hscoped hlevels hrounds hfirst hlast hahead
  rw [withMembers_inFolder] at hbody
  rw [namespaceBlock_eq]
  simp [hns, hopened, hbody]

theorem statementFrom_of_namespace {down : Descent} {d e : Compiler} (ht : c.current = some t)
    (hword : t.isNewline = false) (hdocument : c.document = some entries)
    (hblock : namespaceBlock down (c.withEntry entries) = .ok true d)
    (hadvance : advance d = .ok () e) : statementFrom down true c = .ok () e := by
  simp [statementFrom, ht, skipNewlines_eq ht hword, openBlank_eq hdocument, stampEntry_eq, firstOf,
    hblock, hadvance]

end block

/-- At the top, a block of assignments is read with the newline behind it. It becomes a folder and,
in there, an entry for each assignment, with the next ids. The namespace is bound to a table of just
its members, whatever it was before, and nothing else is bound. -/
theorem namespace_becomes_folder {c : Compiler} {b : NamespaceDef} {levels i : Nat}
    {entries : Array Entry} {rest : List Token} (hlevels : b.tokens.length ≤ levels)
    (hposition : c.position = i)
    (htokens : c.tokens.toList.drop i = b.tokens ++ Token.newline :: rest)
    (hcurrent : c.current = c.tokens[i]?) (hscope : c.scope = [])
    (hdocument : c.document = some entries) (hscoped : Scoped c.functions [] b.members)
    (hfunctions : ∀ f ∈ c.functions, Lexer.isName f.toList = true)
    (hfirst : 1 ≤ c.line) (hlast : c.line + b.newlines ≤ c.lines.length) :
    statementWithin levels true c = .ok () (Compiler.nextLine { c with
        position := i + b.tokens.length
        current := some Token.newline
        line := c.line + b.newlines
        names := c.names.bind b.name.text (.table (Table.ofNames (b.members.map Member.text)))
        scope := []
        objectName := (b.members.map Member.text).getLastD c.objectName
        printed := c.printed ++ (b.members.map Member.announced).toArray
        lastId := c.lastId + 1 + b.members.length
        folder := some (c.lastId + 1)
        document := some (entries ++ b.entries c.functions c.lastId)
        target := .document }) ∧
      ∀ name, (Table.ofNames (b.members.map Member.text)).has name = true ↔
        name ∈ b.members.map Member.text := by
  refine ⟨?_, Table.has_ofNames _⟩
  have hahead : c.Ahead i (b.tokens ++ Token.newline :: rest) := htokens
  have hns : c.current = some (.word .keyword "ns") := hcurrent.trans hahead.head
  rw [b.length_tokens] at hlevels
  obtain ⟨levels, rfl⟩ : ∃ n, levels = n + 1 + 1 := ⟨levels - 2, by omega⟩
  have hmembers : b.members.length ≤ levels := by
    have hcount := length_le_memberTokens b.members
    omega
  have hvalues : ∀ m ∈ b.members, m.value.tokens.length < levels := by
    intro m hm
    have hvalue := value_length_lt_memberTokens hm
    omega
  have hblock : namespaceBlock (descent (levels + 1)) ((c.withEntry entries).cursorAt i
      (some (.word .keyword "ns")) c.line) = _ :=
    namespaceBlock_accepts hscope hfunctions hscoped hvalues hmembers hfirst hlast hahead
  have hself : (c.withEntry entries).cursorAt i (some (.word .keyword "ns")) c.line =
      c.withEntry entries := Compiler.cursorAt_self hposition hns
  rw [hself] at hblock
  have hentries : entries.push (.folder (c.lastId + 1) (some b.name.text) []) ++
      memberEntries [b.name.text] c.functions (some (c.lastId + 1)) (c.lastId + 1) b.members =
      entries ++ b.entries c.functions c.lastId := by
    simp [NamespaceDef.entries]
  rw [statementWithin_succ, ← hentries]
  exact statementFrom_of_namespace hns rfl hdocument hblock (advance_newline rfl)

/-- A namespace in which a member refers to another and to itself, with blank lines in it. -/
def boxed : NamespaceDef :=
  let side : Name := ⟨"side", by decide, by decide⟩
  let area : Name := ⟨"area", by decide, by decide⟩
  let plain (n : Name) : Expression := .term (.value ⟨false, .name n⟩)
  { name := ⟨"box", by decide, by decide⟩
    before := 2
    first := ⟨side, .term (.value ⟨false, .numeral 2⟩), 1⟩
    others := [⟨area, .operation (.value ⟨false, .name side⟩) .times
      (.term (.call ⟨"cos", by decide, by decide⟩ (plain area) [])), 0⟩] }

/-- A state at the top, with the namespace ahead and an older one of the same name. -/
def atBoxed : Compiler where
  code := ""
  lines := ["", "", "", "", "", "", ""]
  tokens := (Token.newline :: (boxed.tokens ++ [Token.newline, .word .name "y"])).toArray
  current := some (.word .keyword "ns")
  position := 1
  line := 2
  names := Table.initial ++ [("box", .table [("old", .unset)]), ("w", .unset)]
  lastId := 3
  document := some #[.expression 3 "y" none]
  target := .document

theorem boxed_becomes_folder :
    boxed.entries [] 3 = #[.folder 4 (some "box") [], .expression 5 "b_\x7boxside\x7d=2" (some 4),
        .expression 6 ("b_\x7boxarea\x7d=b_\x7boxside\x7d*" ++
          "\\cos\\left(b_\x7boxarea\x7d\\right)") (some 4)] ∧
      statementWithin 30 true atBoxed = .ok () { atBoxed with
        position := 22
        current := some (.word .name "y")
        line := 8
        names := Table.initial ++
          [("box", .table [("side", .unset), ("area", .unset)]), ("w", .unset)]
        objectName := "area"
        printed := #["\x7b'__name__': 'side'\x7d", "\x7b'__name__': 'area'\x7d"]
        lastId := 6
        folder := some 4
        document := some (#[.expression 3 "y" none] ++ boxed.entries [] 3) } := by
  have hread := @namespace_becomes_folder atBoxed boxed 30 1 #[.expression 3 "y" none]
    [.word .name "y"] (by decide) rfl (by decide) rfl rfl rfl
    ⟨by decide, by decide, by decide, by decide, by decide, by decide, trivial⟩ (by decide)
    (by decide) (by decide)
  exact ⟨by decide, hread.1⟩

end PlotScript
