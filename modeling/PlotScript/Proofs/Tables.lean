import PlotScript.Scope

/-! Tables of names, and names that are bound one after the other at the end of a path. -/

namespace PlotScript

theorem exists_of_map_eq_ok {α β : Type} {x : Except Fault α} {f : α → β} {b : β}
    (h : x.map f = .ok b) : ∃ a, x = .ok a ∧ f a = b := by
  cases x with
  | error e => contradiction
  | ok a =>
    cases h
    exact ⟨a, rfl, rfl⟩

theorem Binding.eq_table_of_resolve {path : List String} {b : Binding} {inner : Table}
    (h : b.resolve path = .ok (.table inner)) : ∃ names, b = .table names := by
  cases path with
  | nil =>
    cases h
    exact ⟨inner, rfl⟩
  | cons step path =>
    cases b with
    | table names => exact ⟨names, rfl⟩
    | _ => contradiction

namespace Table

@[simp] theorem bind_bind (t : Table) (name : String) (old value : Binding) :
    (t.bind name old).bind name value = t.bind name value := by
  induction t with
  | nil => simp [bind]
  | cons entry rest ih =>
    simp only [bind]
    split
    · next h => simp [bind, h]
    · next h => simp [bind, h, ih]

theorem resolve_bind (t inner : Table) (step : String) (path : List String) :
    (t.bind step (.table inner)).resolve (step :: path) = inner.resolve path := by
  simp [resolve, Binding.resolve, Binding.member]

theorem resolve_add {path : List String} {name : String} {value : Binding} {t t' : Table}
    (h : t.add path name value = .ok t') : t'.resolve (path ++ [name]) = .ok value := by
  induction path generalizing t t' with
  | nil =>
    cases h
    simp [resolve, Binding.resolve, Binding.member]
  | cons step path ih =>
    unfold add at h
    split at h
    · obtain ⟨inner, hadd, rfl⟩ := exists_of_map_eq_ok h
      exact (resolve_bind t inner step _).trans (ih hadd)
    · obtain ⟨inner, hadd, rfl⟩ := exists_of_map_eq_ok h
      exact (resolve_bind t inner step _).trans (ih hadd)
    · contradiction

/-- In a scope that is there every name can be bound, and the scope is there still. -/
theorem exists_add {path : List String} {t inner : Table} (name : String) (value : Binding)
    (h : t.resolve path = .ok (.table inner)) :
    ∃ t', t.add path name value = .ok t' ∧
      t'.resolve path = .ok (.table (inner.bind name value)) := by
  induction path generalizing t with
  | nil =>
    cases h
    exact ⟨_, rfl, rfl⟩
  | cons step path ih =>
    cases hstep : t.find? step with
    | none => simp [resolve, Binding.resolve, Binding.member, hstep] at h
    | some next =>
      have hnext : next.resolve path = .ok (.table inner) := by
        simpa [resolve, Binding.resolve, Binding.member, hstep] using h
      obtain ⟨names, rfl⟩ := Binding.eq_table_of_resolve hnext
      obtain ⟨names', hadd, hresolve⟩ := ih hnext
      refine ⟨t.bind step (.table names'), ?_, (resolve_bind t names' step path).trans hresolve⟩
      simp [add, hstep, hadd, Except.map]

/-- Binds names one after the other at the end of a path. -/
def addAll (path : List String) (value : Binding) : List String → Table → Except Fault Table
  | [], t => .ok t
  | name :: names, t => (t.add path name value).bind (addAll path value names)

theorem addAll_cons {path : List String} {value : Binding} {name : String} {names : List String}
    {t t' : Table} (h : t.addAll path value (name :: names) = .ok t') :
    ∃ next, t.add path name value = .ok next ∧ next.addAll path value names = .ok t' := by
  cases hadd : t.add path name value with
  | error e => simp [addAll, hadd, Except.bind] at h
  | ok next => exact ⟨next, rfl, by simpa [addAll, hadd, Except.bind] using h⟩

theorem exists_addAll {path : List String} {t inner : Table} (names : List String)
    (value : Binding) (h : t.resolve path = .ok (.table inner)) :
    ∃ t', t.addAll path value names = .ok t' := by
  induction names generalizing t inner with
  | nil => exact ⟨t, rfl⟩
  | cons name names ih =>
    obtain ⟨next, hadd, hresolve⟩ := exists_add name value h
    obtain ⟨t', hlater⟩ := ih hresolve
    exact ⟨t', by simp [addAll, hadd, Except.bind, hlater]⟩

/-- Binds names one after the other in a table. -/
def bindAll (value : Binding) : List String → Table → Table
  | [], t => t
  | name :: names, t => bindAll value names (t.bind name value)

theorem bindAll_concat (value : Binding) (names : List String) (name : String) (t : Table) :
    bindAll value (names ++ [name]) t = (bindAll value names t).bind name value := by
  induction names generalizing t with
  | nil => rfl
  | cons first names ih => exact ih (t.bind first value)

/-- Just these names are bound anew. -/
theorem find?_bindAll (value : Binding) (names : List String) (t : Table) (name : String) :
    (bindAll value names t).find? name = if name ∈ names then some value else t.find? name := by
  induction names generalizing t with
  | nil => rfl
  | cons first names ih =>
    rw [bindAll, ih]
    by_cases hfirst : name = first
    · simp [hfirst]
    · simp [hfirst, find?_bind_of_ne _ _ hfirst]

/-- The table of names that nothing was bound to yet. -/
def ofNames (names : List String) : Table := bindAll .unset names []

theorem has_ofNames (names : List String) (name : String) :
    (ofNames names).has name = true ↔ name ∈ names := by
  rw [has, ofNames, find?_bindAll]
  by_cases h : name ∈ names <;> simp [h, find?]

section inside
variable (t inner : Table) (step name : String) (value : Binding)

/-- A name goes into the table of its scope, -/
theorem add_inside : (t.bind step (.table inner)).add [step] name value =
    .ok (t.bind step (.table (inner.bind name value))) := by
  simp [add, Except.map]

/-- and is found there. -/
theorem boundAlong_inside :
    (t.bind step (.table inner)).boundAlong [step] name = .ok (inner.has name) := by
  simp [boundAlong, boundAlong.go, Binding.mentions, Binding.member, has]
  rfl

theorem addAll_inside (names : List String) :
    (t.bind step (.table inner)).addAll [step] value names =
      .ok (t.bind step (.table (bindAll value names inner))) := by
  induction names generalizing inner with
  | nil => rfl
  | cons name names ih => simp [addAll, add_inside, Except.bind, ih, bindAll]

theorem add_ofNames (names : List String) :
    (t.bind step (.table (ofNames names))).add [step] name .unset =
      .ok (t.bind step (.table (ofNames (names ++ [name])))) := by
  rw [add_inside, ofNames, ofNames, bindAll_concat]

/-- A table for the names of a scope, empty where the scope was there before; where it was not, the
first name will make it. -/
def reopened (t : Table) (step : String) : Table :=
  if t.has step then t.bind step (.table []) else t

theorem add_reopened : (t.reopened step).add [step] name value =
    .ok (t.bind step (.table [(name, value)])) := by
  cases h : t.has step with
  | true =>
    rw [reopened, if_pos h]
    exact add_inside t [] step name value
  | false =>
    have hnone : t.find? step = none := by simpa [has] using h
    simp [reopened, h, add, hnone, Except.map, bind]

end inside

end Table
end PlotScript
