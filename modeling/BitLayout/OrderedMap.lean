/-! # Ordered maps

A map from names to values that remembers the order in which the names first
came in. Setting a name that is present replaces its value and keeps its place.
Two maps have the same entries when each name has the same value in both,
whatever the order.
-/

namespace BitLayout

/-- A map from names to values, listed in the order of the names' arrival. -/
structure OrderedMap (α : Type) where
  entries : List (String × α)
deriving DecidableEq, Repr

namespace OrderedMap

variable {α : Type}

def empty : OrderedMap α := ⟨[]⟩

def names (m : OrderedMap α) : List String := m.entries.map (·.1)

def values (m : OrderedMap α) : List α := m.entries.map (·.2)

def size (m : OrderedMap α) : Nat := m.entries.length

def get? (m : OrderedMap α) (name : String) : Option α := m.entries.lookup name

def setEntry (name : String) (a : α) : List (String × α) → List (String × α)
  | [] => [(name, a)]
  | (n, b) :: rest => if n = name then (n, a) :: rest else (n, b) :: setEntry name a rest

def set (m : OrderedMap α) (name : String) (a : α) : OrderedMap α :=
  ⟨setEntry name a m.entries⟩

/-- The map that a row of entries leaves behind, later values of a name replacing earlier ones. -/
def ofList (entries : List (String × α)) : OrderedMap α :=
  entries.foldl (fun m e => m.set e.1 e.2) empty

/-- The test that two maps have equally many entries and agree on those of the first. -/
def sameEntries [DecidableEq α] (m n : OrderedMap α) : Bool :=
  m.size == n.size && m.entries.all fun e => n.get? e.1 == some e.2

theorem get?_set (m : OrderedMap α) (name other : String) (a : α) :
    (m.set name a).get? other = if other = name then some a else m.get? other := by
  obtain ⟨entries⟩ := m
  simp only [get?, set]
  induction entries with
  | nil =>
    by_cases h : other = name
    · simp [setEntry, h]
    · simp [setEntry, h, List.lookup_cons, beq_eq_false_iff_ne.2 h]
  | cons e rest ih =>
    obtain ⟨n, b⟩ := e
    by_cases hn : n = name
    · subst hn
      by_cases h : other = n <;> simp [setEntry, List.lookup_cons, h, beq_eq_false_iff_ne.2]
    · simp only [setEntry, hn, if_false, List.lookup_cons]
      split
      · rename_i h
        have same : other = n := by simpa using h
        simp [same, hn]
      · exact ih

theorem setEntry_eq_append {name : String} {entries : List (String × α)}
    (h : name ∉ entries.map (·.1)) (a : α) : setEntry name a entries = entries ++ [(name, a)] := by
  induction entries with
  | nil => rfl
  | cons e rest ih =>
    simp only [List.map_cons, List.mem_cons, not_or] at h
    simp [setEntry, Ne.symm h.1, ih h.2]

theorem foldl_set_entries (entries : List (String × α)) (m : OrderedMap α)
    (h : ((m.entries ++ entries).map (·.1)).Nodup) :
    (entries.foldl (fun m e => m.set e.1 e.2) m).entries = m.entries ++ entries := by
  induction entries generalizing m with
  | nil => simp
  | cons e rest ih =>
    have fresh : e.1 ∉ m.entries.map (·.1) := by
      intro he
      simp only [List.map_append, List.map_cons] at h
      exact (List.nodup_append.1 h).2.2 _ he _ List.mem_cons_self rfl
    have step : (m.set e.1 e.2).entries = m.entries ++ [e] := setEntry_eq_append fresh e.2
    rw [List.foldl_cons, ih _ (by simpa [step] using h), step]
    simp

theorem entries_ofList {entries : List (String × α)} (h : (entries.map (·.1)).Nodup) :
    (ofList entries).entries = entries := by
  simpa [ofList, empty] using foldl_set_entries entries empty (by simpa [empty] using h)

end OrderedMap

end BitLayout
