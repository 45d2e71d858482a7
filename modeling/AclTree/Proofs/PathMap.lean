/-
More on maps from paths: an entry is found exactly under its path, maps in
which the same is found are equal, and a function on the values acts on each of
them.
-/
import AclTree.PathMap
import Mathlib.Data.List.Sort

namespace AclTree.PathMap

variable {α β : Type}

theorem ext_entries {m n : PathMap α} (h : m.entries = n.entries) : m = n := by
  cases m; cases n; cases h; rfl

theorem find?_eq_some_iff {m : PathMap α} {path : String} {value : α} :
    m.find? path = some value ↔ (path, value) ∈ m.entries := by
  obtain ⟨l, hl⟩ := m
  change (l.find? (·.1 == path)).map (·.2) = some value ↔ (path, value) ∈ l
  induction l with
  | nil => simp
  | cons e rest ih =>
    obtain ⟨he, hrest⟩ := List.pairwise_cons.1 hl
    rw [List.find?_cons, List.mem_cons]
    by_cases hp : e.1 = path
    · have hnot : (path, value) ∉ rest := fun hm => String.lt_irrefl _ (hp ▸ he _ hm)
      simp only [beq_iff_eq.2 hp, Option.map_some, Option.some.injEq, hnot, or_false]
      rw [← hp, Prod.ext_iff]
      exact ⟨fun h => ⟨rfl, h.symm⟩, fun h => h.2.symm⟩
    · have hb : (e.1 == path) = false := by simpa using hp
      have hne : (path, value) ≠ e := fun h => hp (congrArg Prod.fst h).symm
      simp only [hb, hne, false_or]
      exact ih hrest

/-- A map is what is found in it. -/
theorem ext_find? {m n : PathMap α} (h : ∀ path, m.find? path = n.find? path) : m = n := by
  have hirrefl : Std.Irrefl fun a b : String × α => a.1 < b.1 := ⟨fun a => String.lt_irrefl a.1⟩
  have hantisymm : Std.Antisymm fun a b : String × α => a.1 < b.1 :=
    ⟨fun a b hab hba => absurd (String.lt_trans hab hba) (String.lt_irrefl a.1)⟩
  refine ext_entries (m.ascending.eq_of_mem_iff n.ascending fun ⟨path, value⟩ => ?_)
  rw [← find?_eq_some_iff, ← find?_eq_some_iff, h]

theorem contains_iff {m : PathMap α} {path : String} : m.contains path = true ↔ path ∈ m.paths := by
  rw [contains, Option.isSome_iff_exists, paths, List.mem_map]
  constructor
  · rintro ⟨value, h⟩
    exact ⟨(path, value), find?_eq_some_iff.1 h, rfl⟩
  · rintro ⟨⟨_, value⟩, h, rfl⟩
    exact ⟨value, find?_eq_some_iff.2 h⟩

@[simp] theorem length_paths (m : PathMap α) : m.paths.length = m.size := List.length_map ..

/-- The map with a function applied to each value. -/
def mapValues (f : α → β) (m : PathMap α) : PathMap β :=
  ⟨m.entries.map fun e => (e.1, f e.2), by rw [List.pairwise_map]; exact m.ascending⟩

@[simp] theorem find?_mapValues (f : α → β) (m : PathMap α) (path : String) :
    (m.mapValues f).find? path = (m.find? path).map f := by
  simp [find?, mapValues, List.find?_map, Function.comp_def]

/-- A change that a function does not see is none behind it. -/
theorem mapValues_modify {f : α → β} {g : α → α} (h : ∀ a, f (g a) = f a) (m : PathMap α)
    (path : String) : (m.modify path g).mapValues f = m.mapValues f := by
  refine ext_entries ?_
  simp only [mapValues, modify, List.map_map]
  refine List.map_congr_left fun e _ => ?_
  simp only [Function.comp, modifyEntry]
  split <;> simp [h]

/-- Putting back the value that is there changes nothing. -/
theorem modify_same {g : α → α} {m : PathMap α} {path : String}
    (h : ∀ value, m.find? path = some value → g value = value) : m.modify path g = m := by
  refine ext_entries ?_
  conv_rhs => rw [← List.map_id m.entries]
  refine List.map_congr_left fun e he => ?_
  unfold modifyEntry
  split
  · rename_i hp
    rw [h e.2 (hp ▸ find?_eq_some_iff.2 he)]; rfl
  · rfl

end AclTree.PathMap
