/-
Lists of privileges by their names: which names `merge`, `dedup` and `without`
leave, and that they repeat none. `implies_iff_nested` reads implication as a
name somewhere inside a descriptor; `nested_sublist` and `nested_antisymm` make
being inside an order.
-/
import AclTree.Privilege
import Mathlib.Data.List.Nodup

namespace AclTree.Privilege

@[simp] theorem names_nil : names [] = [] := rfl

@[simp] theorem names_cons (p : Privilege) (ps : List Privilege) :
    names (p :: ps) = p.name :: names ps := rfl

@[simp] theorem names_append (ps qs : List Privilege) : names (ps ++ qs) = names ps ++ names qs :=
  List.map_append

@[simp] theorem names_eq_nil {ps : List Privilege} : names ps = [] ↔ ps = [] := List.map_eq_nil_iff

theorem mem_names {ps : List Privilege} {n : String} : n ∈ names ps ↔ ∃ p ∈ ps, p.name = n :=
  List.mem_map

@[simp] theorem holds_iff {ps : List Privilege} {n : String} : holds ps n = true ↔ n ∈ names ps := by
  simp [holds, mem_names]

@[simp] theorem holds_eq_false {ps : List Privilege} {n : String} :
    holds ps n = false ↔ n ∉ names ps := by
  rw [← holds_iff, Bool.not_eq_true]

/-! ## Merging -/

theorem merge_cons (held : List Privilege) (p : Privilege) (more : List Privilege) :
    merge held (p :: more) = merge (if holds held p.name then held else held ++ [p]) more := rfl

@[simp] theorem mem_names_merge {held more : List Privilege} {n : String} :
    n ∈ names (merge held more) ↔ n ∈ names held ∨ n ∈ names more := by
  induction more generalizing held with
  | nil => simp [merge]
  | cons p more ih =>
    rw [merge_cons, ih, names_cons, List.mem_cons]
    by_cases hp : holds held p.name = true
    · have hp' := holds_iff.1 hp
      rw [if_pos hp]
      constructor
      · rintro (h | h)
        · exact .inl h
        · exact .inr (.inr h)
      · rintro (h | rfl | h)
        · exact .inl h
        · exact .inl hp'
        · exact .inr h
    · rw [if_neg hp]
      simp [or_assoc]

theorem nodup_names_merge {held : List Privilege} (more : List Privilege)
    (h : (names held).Nodup) : (names (merge held more)).Nodup := by
  induction more generalizing held with
  | nil => exact h
  | cons p more ih =>
    rw [merge_cons]
    refine ih ?_
    by_cases hp : holds held p.name = true
    · rwa [if_pos hp]
    · have hp' : p.name ∉ names held := fun hn => hp (holds_iff.2 hn)
      rw [if_neg hp, names_append]
      refine List.nodup_append.2 ⟨h, by simp, ?_⟩
      rintro a ha b hb rfl
      simp only [names_cons, names_nil, List.mem_singleton] at hb
      exact hp' (hb ▸ ha)

theorem merge_ne_nil {held : List Privilege} (more : List Privilege) (h : held ≠ []) :
    merge held more ≠ [] := by
  obtain ⟨p, held, rfl⟩ := List.exists_cons_of_ne_nil h
  intro hm
  have hp : p.name ∈ names (merge (p :: held) more) := mem_names_merge.2 (.inl (by simp))
  rw [hm] at hp
  cases hp

/-- Nothing comes behind what is held if its names are held. -/
theorem merge_of_names {held more : List Privilege} (h : ∀ n ∈ names more, n ∈ names held) :
    merge held more = held := by
  induction more with
  | nil => rfl
  | cons p more ih =>
    obtain ⟨hp, hmore⟩ := List.forall_mem_cons.1 h
    rw [merge_cons, if_pos (holds_iff.2 hp), ih hmore]

@[simp] theorem merge_merge (held more : List Privilege) :
    merge (merge held more) more = merge held more :=
  merge_of_names fun _ hn => mem_names_merge.2 (.inr hn)

/-- What is held stays where it is, and only privileges of `more` come behind it. -/
theorem exists_merge (held more : List Privilege) :
    ∃ added, merge held more = held ++ added ∧ added.Sublist more := by
  induction more generalizing held with
  | nil => exact ⟨[], by simp [merge], .slnil⟩
  | cons p more ih =>
    rw [merge_cons]
    split
    · obtain ⟨added, hm, hs⟩ := ih held
      exact ⟨added, hm, hs.cons p⟩
    · obtain ⟨added, hm, hs⟩ := ih (held ++ [p])
      exact ⟨p :: added, by rw [hm, List.append_assoc, List.singleton_append], hs.cons_cons p⟩

theorem dedup_sublist (ps : List Privilege) : (dedup ps).Sublist ps := by
  obtain ⟨added, hm, hs⟩ := exists_merge [] ps
  rw [dedup, hm, List.nil_append]
  exact hs

@[simp] theorem mem_names_dedup {ps : List Privilege} {n : String} :
    n ∈ names (dedup ps) ↔ n ∈ names ps := by
  simp [dedup]

theorem nodup_names_dedup (ps : List Privilege) : (names (dedup ps)).Nodup :=
  nodup_names_merge ps (by simp)

theorem dedup_ne_nil {ps : List Privilege} (h : ps ≠ []) : dedup ps ≠ [] := by
  obtain ⟨p, ps, rfl⟩ := List.exists_cons_of_ne_nil h
  intro hd
  have hp : p.name ∈ names (dedup (p :: ps)) := mem_names_dedup.2 (by simp)
  rw [hd] at hp
  cases hp

/-! ## Taking away -/

@[simp] theorem mem_names_without {ps removed : List Privilege} {n : String} :
    n ∈ names (without ps removed) ↔ n ∈ names ps ∧ n ∉ names removed := by
  simp only [without, mem_names, List.mem_filter, Bool.not_eq_true', holds_eq_false]
  constructor
  · rintro ⟨p, ⟨hp, hr⟩, rfl⟩
    exact ⟨⟨p, hp, rfl⟩, by simpa only [mem_names] using hr⟩
  · rintro ⟨⟨p, hp, rfl⟩, hr⟩
    exact ⟨p, ⟨hp, by simpa only [mem_names] using hr⟩, rfl⟩

/-- As many are left as there were exactly if none was held. -/
theorem length_without {ps removed : List Privilege} :
    (without ps removed).length = ps.length ↔ ∀ p ∈ ps, p.name ∉ names removed := by
  unfold without
  rw [List.length_filter_eq_length_iff]
  simp

/-! ## Implication -/

mutual

/-- A privilege grants the names of the descriptors inside it, at every depth, and no others. -/
theorem implies_iff_nested (n : String) : ∀ p : Privilege,
    p.implies n = true ↔ ∃ q ∈ p.nested, q.name = n
  | simple m => by simp [implies, nested, name]
  | aggregate m parts => by
    rw [implies, Bool.or_eq_true, impliesAny_iff_nestedAll n parts, nested]
    simp [name]

theorem impliesAny_iff_nestedAll (n : String) : ∀ ps : List Privilege,
    impliesAny ps n = true ↔ ∃ q ∈ nestedAll ps, q.name = n
  | [] => by simp [impliesAny, nestedAll]
  | p :: rest => by
    rw [impliesAny, Bool.or_eq_true, implies_iff_nested n p, impliesAny_iff_nestedAll n rest,
      nestedAll]
    simp only [List.mem_append, or_and_right, exists_or]

end

theorem impliesAny_iff {ps : List Privilege} {n : String} :
    impliesAny ps n = true ↔ ∃ p ∈ ps, p.implies n = true := by
  induction ps with
  | nil => simp [impliesAny]
  | cons p rest ih => rw [impliesAny, Bool.or_eq_true, ih]; simp

/-! ## Descriptors inside descriptors -/

@[simp] theorem mem_nested_self (p : Privilege) : p ∈ p.nested := by
  cases p <;> simp [nested]

theorem mem_nestedAll {ps : List Privilege} {q : Privilege} :
    q ∈ nestedAll ps ↔ ∃ p ∈ ps, q ∈ p.nested := by
  induction ps with
  | nil => simp [nestedAll]
  | cons p rest ih => simp [nestedAll, ih]

/-- Inside a descriptor is the descriptor itself, and what is inside its constituents. -/
theorem mem_nested {p q : Privilege} :
    q ∈ p.nested ↔ q = p ∨ ∃ part ∈ p.constituents, q ∈ part.nested := by
  cases p with
  | simple name => simp [nested, constituents]
  | aggregate name parts => rw [nested, List.mem_cons, mem_nestedAll]; rfl

mutual

/-- What is inside a descriptor brings all that is inside it along. -/
theorem nested_sublist : ∀ {p q : Privilege}, q ∈ p.nested → q.nested.Sublist p.nested
  | simple name, q, h => by
    rw [List.mem_singleton.1 h]
  | aggregate name parts, q, h => by
    rcases List.mem_cons.1 h with rfl | h
    · exact .refl _
    · exact (nestedAll_sublist h).cons _

theorem nestedAll_sublist : ∀ {ps : List Privilege} {q : Privilege},
    q ∈ nestedAll ps → q.nested.Sublist (nestedAll ps)
  | p :: rest, q, h => by
    rw [nestedAll] at h ⊢
    rcases List.mem_append.1 h with h | h
    · exact (nested_sublist h).trans (List.sublist_append_left ..)
    · exact (nestedAll_sublist h).trans (List.sublist_append_right ..)

end

/-- Less is inside the constituents of a descriptor than inside the descriptor. -/
theorem length_nested_lt {p part : Privilege} (h : part ∈ p.constituents) :
    part.nested.length < p.nested.length := by
  cases p with
  | simple name => cases h
  | aggregate name parts =>
    have hle : part.nested.length ≤ (nestedAll parts).length :=
      (nestedAll_sublist (mem_nestedAll.2 ⟨part, h, mem_nested_self part⟩)).length_le
    rw [nested, List.length_cons]
    omega

/-- Two descriptors that are inside one another are the same. -/
theorem nested_antisymm {p q : Privilege} (hq : q ∈ p.nested) (hp : p ∈ q.nested) : p = q := by
  rcases mem_nested.1 hq with rfl | ⟨part, hpart, hq⟩
  · rfl
  · have hlt := length_nested_lt hpart
    have hq := (nested_sublist hq).length_le
    have hp := (nested_sublist hp).length_le
    omega

end AclTree.Privilege
