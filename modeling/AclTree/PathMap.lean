/-
Maps from paths, in the order of their code points. The entries are strictly
ascending, so each path occurs once and two maps with the same entries are
the same map. `find?_insert` and `find?_modify` say what the operations do.
-/

namespace AclTree

/-- Values by path, in strictly ascending order. -/
structure PathMap (α : Type) where
  entries : List (String × α)
  ascending : entries.Pairwise (·.1 < ·.1)

namespace PathMap

variable {α β : Type}

def empty : PathMap α := ⟨[], .nil⟩

def paths (m : PathMap α) : List String := m.entries.map (·.1)

def size (m : PathMap α) : Nat := m.entries.length

def find? (m : PathMap α) (path : String) : Option α :=
  (m.entries.find? (·.1 == path)).map (·.2)

def contains (m : PathMap α) (path : String) : Bool := (m.find? path).isSome

/-- Puts a value in its place in a list of ascending paths. -/
def insertEntry (path : String) (value : α) : List (String × α) → List (String × α)
  | [] => [(path, value)]
  | e :: rest =>
    if path < e.1 then (path, value) :: e :: rest
    else if path = e.1 then (path, value) :: rest
    else e :: insertEntry path value rest

/-- Replaces the value at one path. -/
def modifyEntry (path : String) (f : α → α) (e : String × α) : String × α :=
  if e.1 = path then (e.1, f e.2) else e

@[simp] theorem modifyEntry_fst (path : String) (f : α → α) (e : String × α) :
    (modifyEntry path f e).1 = e.1 := by
  unfold modifyEntry; split <;> rfl

theorem mem_insertEntry {path : String} {value : α} {l : List (String × α)} {e : String × α}
    (h : e ∈ insertEntry path value l) : e = (path, value) ∨ e ∈ l := by
  induction l with
  | nil => simp [insertEntry] at h; exact .inl h
  | cons x rest ih =>
    unfold insertEntry at h
    split at h
    · simpa using h
    · split at h
      · simp only [List.mem_cons] at h ⊢
        exact h.imp_right .inr
      · simp only [List.mem_cons] at h ⊢
        rcases h with h | h
        · exact .inr (.inl h)
        · exact (ih h).imp_right .inr

theorem ascending_insertEntry (path : String) (value : α) {l : List (String × α)}
    (h : l.Pairwise (·.1 < ·.1)) : (insertEntry path value l).Pairwise (·.1 < ·.1) := by
  induction l with
  | nil => simp [insertEntry]
  | cons x rest ih =>
    obtain ⟨hx, hrest⟩ := List.pairwise_cons.1 h
    unfold insertEntry
    split
    · rename_i hlt
      refine List.pairwise_cons.2 ⟨fun e he => ?_, h⟩
      rcases List.mem_cons.1 he with rfl | he
      · exact hlt
      · exact String.lt_trans hlt (hx e he)
    · split
      · rename_i heq
        exact List.pairwise_cons.2 ⟨fun e he => heq ▸ hx e he, hrest⟩
      · rename_i hlt hne
        refine List.pairwise_cons.2 ⟨fun e he => ?_, ih hrest⟩
        rcases mem_insertEntry he with rfl | he
        · have hle : x.1 ≤ path := String.not_lt.1 hlt
          exact Classical.byContradiction fun hn =>
            hne (String.le_antisymm (String.not_lt.1 hn) hle)
        · exact hx e he

/-- Adds a value, in place of the one that the path had. -/
def insert (m : PathMap α) (path : String) (value : α) : PathMap α :=
  ⟨insertEntry path value m.entries, ascending_insertEntry path value m.ascending⟩

/-- Changes the value at a path, if there is one. -/
def modify (m : PathMap α) (path : String) (f : α → α) : PathMap α :=
  ⟨m.entries.map (modifyEntry path f), by
    rw [List.pairwise_map]
    exact m.ascending.imp fun h => by simpa using h⟩

theorem find?_insertEntry (path other : String) (value : α) (l : List (String × α)) :
    ((insertEntry path value l).find? (·.1 == other)).map (·.2) =
      if path = other then some value else (l.find? (·.1 == other)).map (·.2) := by
  induction l with
  | nil => by_cases h : path = other <;> simp [insertEntry, h]
  | cons x rest ih =>
    by_cases hpo : path = other
    · subst hpo
      unfold insertEntry
      split
      · simp
      · split
        · simp
        · rename_i hne
          have hne' : ¬x.1 = path := fun h => hne h.symm
          simpa [List.find?_cons, hne'] using ih
    · rw [if_neg hpo] at ih ⊢
      unfold insertEntry
      split
      · simp [List.find?_cons, hpo]
      · split
        · rename_i heq
          have hne' : ¬x.1 = other := fun h => hpo (heq.trans h)
          simp [hpo, hne']
        · by_cases hx : x.1 = other
          · simp [hx]
          · simpa [List.find?_cons, hx] using ih

/-- A path reads back what was last inserted there. -/
theorem find?_insert (m : PathMap α) (path other : String) (value : α) :
    (m.insert path value).find? other = if path = other then some value else m.find? other :=
  find?_insertEntry path other value m.entries

/-- A change at one path shows there alone. -/
theorem find?_modify (m : PathMap α) (path other : String) (f : α → α) :
    (m.modify path f).find? other =
      if path = other then (m.find? other).map f else m.find? other := by
  obtain ⟨l, _⟩ := m
  simp only [find?, modify]
  induction l with
  | nil => simp
  | cons x rest ih =>
    rename_i h
    specialize ih (List.pairwise_cons.1 h).2
    simp only [List.map_cons, List.find?_cons, modifyEntry_fst]
    by_cases hx : x.1 = other
    · subst hx
      by_cases hp : path = x.1
      · simp [modifyEntry, hp]
      · have hp' : ¬x.1 = path := fun h => hp h.symm
        simp [modifyEntry, hp, hp']
    · have hx' : (x.1 == other) = false := by simpa using hx
      simp only [hx']
      exact ih

/-- The paths are in strictly ascending order. -/
theorem ascending_paths (m : PathMap α) : m.paths.Pairwise (· < ·) := by
  simpa [paths, List.pairwise_map] using m.ascending

end PathMap
end AclTree
