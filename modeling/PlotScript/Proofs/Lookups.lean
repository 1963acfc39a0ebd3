import PlotScript.Proofs.References
import PlotScript.Proofs.Tables

/-! Lookups in the table of names. Binding a name at a path either fails and leaves everything as it
was, or it can be looked up from then on. All that lies neither on its path nor below it stays, and
the name stays bound until something is bound on its path. -/

namespace PlotScript
open Compile

/-- Neither of two paths leads on from the other. -/
def Apart (p q : List String) : Prop := ¬ p <+: q ∧ ¬ q <+: p

theorem Apart.cons_iff {a b : String} {p q : List String} :
    Apart (a :: p) (b :: q) ↔ a ≠ b ∨ Apart p q := by
  by_cases h : a = b
  · subst h
    simp [Apart, List.cons_prefix_cons]
  · simp [Apart, List.cons_prefix_cons, h, Ne.symm h]

theorem Apart.ne_nil {p q : List String} (h : Apart p q) : p ≠ [] ∧ q ≠ [] :=
  ⟨fun hp => h.1 (hp ▸ List.nil_prefix), fun hq => h.2 (hq ▸ List.nil_prefix)⟩

namespace Table
section resolve
variable {t : Table} {step : String} {path : List String}

theorem resolve_cons_of_some {next : Binding} (h : t.find? step = some next) :
    t.resolve (step :: path) = next.resolve path := by
  simp [resolve, Binding.resolve, Binding.member, h]

theorem resolve_cons_of_none (h : t.find? step = none) :
    t.resolve (step :: path) = .error .unknownKey := by
  simp [resolve, Binding.resolve, Binding.member, h]

theorem resolve_bind_of_ne {other : String} (h : other ≠ step) (value : Binding) :
    (t.bind step value).resolve (other :: path) = t.resolve (other :: path) := by
  simp [resolve, Binding.resolve, Binding.member, find?_bind_of_ne t value h]

/-- A path can be gone on with only from a table. -/
theorem exists_of_resolve_cons {b : Binding} (h : t.resolve (step :: path) = .ok b) :
    ∃ next, t.find? step = some next ∧ next.resolve path = .ok b := by
  cases hstep : t.find? step with
  | none =>
    rw [resolve_cons_of_none hstep] at h
    cases h
  | some next => exact ⟨next, rfl, resolve_cons_of_some hstep ▸ h⟩

/-- A path that goes on behind its first step leads to a table there. -/
theorem exists_table_of_resolve {b : Binding} (hpath : path ≠ [])
    (h : t.resolve (step :: path) = .ok b) :
    ∃ inner : Table, t.find? step = some (.table inner) ∧ inner.resolve path = .ok b := by
  obtain ⟨next, hstep, hnext⟩ := exists_of_resolve_cons h
  obtain ⟨first, rest, rfl⟩ := List.exists_cons_of_ne_nil hpath
  cases next with
  | table inner => exact ⟨inner, hstep, hnext⟩
  | _ => cases hnext

end resolve

section add
variable {t t' : Table} {step name : String} {path q : List String} {value : Binding}

/-- Binding a name further down changes the table of the first step, which is made if it is
missing. -/
theorem exists_of_add_cons (h : t.add (step :: path) name value = .ok t') :
    ∃ inner inner' : Table,
      (t.find? step = none ∧ inner = [] ∨ t.find? step = some (.table inner)) ∧
      inner.add path name value = .ok inner' ∧ t' = t.bind step (.table inner') := by
  unfold add at h
  split at h
  · next hstep =>
    obtain ⟨inner', hadd, rfl⟩ := exists_of_map_eq_ok h
    exact ⟨[], inner', .inl ⟨hstep, rfl⟩, hadd, rfl⟩
  · next inner hstep =>
    obtain ⟨inner', hadd, rfl⟩ := exists_of_map_eq_ok h
    exact ⟨inner, inner', .inr hstep, hadd, rfl⟩
  · cases h

/-- A name can be bound unless something else than a table is on the way. -/
theorem add_cases (path : List String) (name : String) (value : Binding) (t : Table) :
    (∃ t', t.add path name value = .ok t') ∨
      t.add path name value = .error .notTable ∧
        ∃ q b, q <+: path ∧ t.resolve q = .ok b ∧ ∀ inner, b ≠ .table inner := by
  induction path generalizing t with
  | nil => exact .inl ⟨_, rfl⟩
  | cons step path ih =>
    have hblocked : ∀ next, t.find? step = some next → (∀ inner, next ≠ .table inner) →
        ∃ q b, q <+: step :: path ∧ t.resolve q = .ok b ∧ ∀ inner, b ≠ .table inner :=
      fun next hstep hnext => ⟨[step], next, by simp, resolve_cons_of_some hstep, hnext⟩
    cases hstep : t.find? step with
    | none =>
      -- in a table that is made on the way nothing can be in the way
      obtain ⟨t', ht'⟩ | ⟨-, q, b, -, hq, hb⟩ := ih []
      · exact .inl ⟨t.bind step (.table t'), by simp [add, hstep, ht', Except.map]⟩
      · cases q with
        | nil => exact absurd (Except.ok.inj hq).symm (hb [])
        | cons first q => cases hq
    | some next =>
      cases next with
      | table inner =>
        obtain ⟨t', ht'⟩ | ⟨herror, q, b, hprefix, hq, hb⟩ := ih inner
        · exact .inl ⟨t.bind step (.table t'), by simp [add, hstep, ht', Except.map]⟩
        · refine .inr ⟨by simp [add, hstep, herror, Except.map], step :: q, b, ?_, ?_, hb⟩
          · exact List.cons_prefix_cons.mpr ⟨rfl, hprefix⟩
          · exact (resolve_cons_of_some hstep).trans hq
      | _ => exact .inr ⟨by simp [add, hstep], hblocked _ hstep (by simp)⟩

/-- Away from its path a name that is bound changes nothing. -/
theorem resolve_add_of_apart (h : t.add path name value = .ok t')
    (hapart : Apart (path ++ [name]) q) : t'.resolve q = t.resolve q := by
  obtain ⟨other, q, rfl⟩ := List.exists_cons_of_ne_nil hapart.ne_nil.2
  induction path generalizing t t' other q with
  | nil =>
    cases h
    have hne : other ≠ name := by
      rintro rfl
      exact hapart.1 (by simp)
    exact resolve_bind_of_ne hne value
  | cons step path ih =>
    obtain ⟨inner, inner', hstep, hadd, rfl⟩ := exists_of_add_cons h
    by_cases hne : other = step
    · subst hne
      have hlater : Apart (path ++ [name]) q :=
        (Apart.cons_iff.mp hapart).resolve_left fun hself => hself rfl
      obtain ⟨next, q, rfl⟩ := List.exists_cons_of_ne_nil hlater.ne_nil.2
      rw [resolve_bind, ih hadd next q hlater]
      rcases hstep with ⟨hnone, rfl⟩ | hsome
      · rw [resolve_cons_of_none hnone]
        rfl
      · rw [resolve_cons_of_some hsome]
        rfl
    · exact resolve_bind_of_ne hne _

/-- On the path of a name that was bound there are tables. -/
theorem resolve_add_of_prefix (h : t.add path name value = .ok t') (hq : q <+: path) :
    ∃ inner, t'.resolve q = .ok (.table inner) := by
  induction path generalizing t t' q with
  | nil => exact ⟨t', by rw [List.prefix_nil.mp hq]; rfl⟩
  | cons step path ih =>
    cases q with
    | nil => exact ⟨t', rfl⟩
    | cons first q =>
      obtain ⟨rfl, hlater⟩ := List.cons_prefix_cons.mp hq
      obtain ⟨inner, inner', -, hadd, rfl⟩ := exists_of_add_cons h
      rw [resolve_bind]
      exact ih hadd hlater

/-- What can be looked up stays so, unless something is bound on its path. -/
theorem exists_resolve_add {b : Binding} (h : t.add path name value = .ok t')
    (hq : t.resolve q = .ok b) (hpath : path ++ [name] <+: q → path ++ [name] = q) :
    ∃ b', t'.resolve q = .ok b' := by
  by_cases hbelow : path ++ [name] <+: q
  · exact ⟨value, hpath hbelow ▸ resolve_add h⟩
  · by_cases habove : q <+: path ++ [name]
    · rcases List.prefix_concat_iff.mp habove with rfl | hq
      · exact ⟨value, resolve_add h⟩
      · obtain ⟨inner, hinner⟩ := resolve_add_of_prefix h hq
        exact ⟨_, hinner⟩
    · exact ⟨b, (resolve_add_of_apart h ⟨hbelow, habove⟩).trans hq⟩

end add

/-- A name is found along the path that it can be looked up at. -/
theorem boundAlong_of_resolve {t : Table} {path : List String} {name : String} {b : Binding}
    (hpath : path ≠ []) (h : t.resolve (path ++ [name]) = .ok b) :
    t.boundAlong path name = .ok true := by
  have hgo : ∀ (path : List String) (t : Table) (found : Bool), path ≠ [] ∨ found = true →
      t.resolve (path ++ [name]) = .ok b → boundAlong.go name path found (.table t) = .ok true := by
    intro path
    induction path with
    | nil =>
      rintro t found (hne | rfl) -
      · exact absurd rfl hne
      · rfl
    | cons step path ih =>
      intro t found _ h
      obtain ⟨inner, hstep, hinner⟩ := exists_table_of_resolve (by simp) h
      have hnext := ih inner (found || inner.has name)
      -- in the last scope on the path the name itself is found
      have hfound : path ≠ [] ∨ (found || inner.has name) = true := by
        cases path with
        | cons => exact .inl (by simp)
        | nil =>
          obtain ⟨own, hown, -⟩ := exists_of_resolve_cons hinner
          exact .inr (by simp [has, hown])
      simp only [boundAlong.go, Binding.mentions, Binding.member, has, hstep]
      exact hnext hfound hinner
  exact hgo path t false (.inl hpath) h

end Table

section compile
variable {c d : Compiler} {path : List String} {name : String} {value b : Binding}

theorem addName_of_ok {names : Table} (h : c.names.add path name value = .ok names) :
    addName path name value c = .ok () { c with names } := by
  simp [addName, setNames, h]

theorem addName_of_error {e : Fault} (h : c.names.add path name value = .error e) :
    addName path name value c = .error e c := by
  simp [addName, setNames, h]

/-- The state behind the lookup of a name that is there: a dot behind a name of the outermost table
opens its scope. -/
def Compiler.lookedUp (c : Compiler) (name : String) (next : Token) : Compiler :=
  if c.names.has name && next.is "." then { c with scope := c.scope ++ [name] } else c

theorem isBound_of_resolve {next : Token} (h : c.names.resolve (path ++ [name]) = .ok b)
    (hnext : c.next? = some next) : isBound path name c = .ok true (c.lookedUp name next) := by
  have hpeek : Place.get? c.tokens (c.position + 1) = some next := hnext
  cases htop : c.names.has name with
  | true =>
    cases hdot : next.is "." <;>
      simp [isBound, htop, nextIs, peek, hpeek, hdot, pushScope, Compiler.lookedUp]
  | false =>
    have hpath : path ≠ [] := by
      rintro rfl
      obtain ⟨own, hown, -⟩ := Table.exists_of_resolve_cons h
      simp [Table.has, hown] at htop
    simp [isBound, htop, Table.boundAlong_of_resolve hpath h, Compiler.lookedUp]

/-- A name to be bound at the end of a path. -/
structure Addition where
  path : List String
  name : String
  value : Binding

def Addition.full (a : Addition) : List String := a.path ++ [a.name]

/-- Binds names one after the other. -/
def addNames : List Addition → Compile Unit
  | [] => pure ()
  | a :: additions => do
    addName a.path a.name a.value
    addNames additions

/-- Names bound one after the other change nothing but the table, and what can be looked up stays so
as long as none of them is bound on its path. -/
theorem exists_resolve_addNames {additions : List Addition} {q : List String}
    (hrun : addNames additions c = .ok () d) (hq : c.names.resolve q = .ok b)
    (hpaths : ∀ a ∈ additions, a.full <+: q → a.full = q) :
    d = { c with names := d.names } ∧ ∃ b', d.names.resolve q = .ok b' := by
  induction additions generalizing c b with
  | nil =>
    cases hrun
    exact ⟨rfl, b, hq⟩
  | cons a additions ih =>
    rw [addNames, bind_apply] at hrun
    cases hadd : c.names.add a.path a.name a.value with
    | error e =>
      rw [addName_of_error hadd] at hrun
      cases hrun
    | ok names =>
      rw [addName_of_ok hadd] at hrun
      obtain ⟨b', hb'⟩ := Table.exists_resolve_add hadd hq (hpaths a List.mem_cons_self)
      exact ih (c := { c with names }) hrun hb' fun a' ha' => hpaths a' (List.mem_cons_of_mem a ha')

end compile

/-- Binding a name fails only where something else than a table is on its path, and then nothing has
changed. Else it can be looked up as what it was bound to, and every lookup away from its path gives
what it gave before. The name counts as bound from then on, whatever is bound later, unless that is
on its path. -/
theorem added_name_stays_bound (c : Compiler) (path : List String) (name : String)
    (value : Binding) :
    (addName path name value c = .error .notTable c ∧
      ∃ q b, q <+: path ∧ c.names.resolve q = .ok b ∧ ∀ inner, b ≠ .table inner) ∨
    ∃ names, addName path name value c = .ok () { c with names } ∧
      names.resolve (path ++ [name]) = .ok value ∧
      (∀ q, ¬ path ++ [name] <+: q → ¬ q <+: path ++ [name] →
        names.resolve q = c.names.resolve q) ∧
      ∀ additions d next, addNames additions { c with names } = .ok () d →
        (∀ a ∈ additions, a.full <+: path ++ [name] → a.full = path ++ [name]) →
        c.next? = some next → isBound path name d = .ok true (d.lookedUp name next) := by
  rcases Table.add_cases path name value c.names with ⟨names, hadd⟩ | ⟨hadd, hblocked⟩
  · refine .inr ⟨names, addName_of_ok hadd, Table.resolve_add hadd, fun q hbelow habove =>
      Table.resolve_add_of_apart hadd ⟨hbelow, habove⟩, fun additions d next hrun hpaths hnext => ?_⟩
    obtain ⟨hframe, b, hb⟩ := exists_resolve_addNames hrun (Table.resolve_add hadd) hpaths
    refine isBound_of_resolve hb ?_
    rw [hframe]
    exact hnext
  · exact .inl ⟨addName_of_error hadd, hblocked⟩

/-- A state with a namespace, in front of a name of a namespace in there that is not made yet. -/
def besideNamespace : Compiler where
  code := ""
  lines := [""]
  tokens := #[.word .name "v", .word .mark ".", Token.newline]
  current := some (.word .name "v")
  names := [("N", .table [("a", .unset)]), ("k", .unset)]

/-- The name becomes a table, gets a name below it and one beside it, and is bound anew; a name on
the way that is no table refuses it. -/
theorem nested_name_stays_bound :
    ∃ names d, addName ["N", "M"] "v" (.table []) besideNamespace =
        .ok () { besideNamespace with names } ∧
      names.resolve ["N", "a"] = .ok .unset ∧
      addNames [⟨["N", "M", "v"], "w", .unset⟩, ⟨["N", "M"], "a", .unset⟩, ⟨["N", "M"], "v", .unset⟩]
        { besideNamespace with names } = .ok () d ∧
      isBound ["N", "M"] "v" d = .ok true d ∧
      addName ["k", "M"] "v" .unset besideNamespace = .error .notTable besideNamespace := by
  have hrefused : addName ["k", "M"] "v" .unset besideNamespace =
      .error .notTable besideNamespace := rfl
  rcases added_name_stays_bound besideNamespace ["N", "M"] "v" (.table []) with
    ⟨herror, -⟩ | ⟨names, hadd, -, haway, hlater⟩
  · cases herror
  · cases hadd
    have hmore : addNames [⟨["N", "M", "v"], "w", .unset⟩, ⟨["N", "M"], "a", .unset⟩,
        ⟨["N", "M"], "v", .unset⟩] { besideNamespace with
          names := [("N", .table [("a", .unset), ("M", .table [("v", .table [])])]),
            ("k", .unset)] } = .ok () { besideNamespace with
          names := [("N", .table [("a", .unset), ("M", .table [("v", .unset), ("a", .unset)])]),
            ("k", .unset)] } := rfl
    refine ⟨_, _, rfl, haway ["N", "a"] (by decide) (by decide), hmore, ?_, hrefused⟩
    exact hlater _ _ (.word .mark ".") hmore (by decide) rfl

end PlotScript
