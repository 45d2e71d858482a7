/-
Lists in the form in which the engine keeps them (`Acl.Canonical`): adding and
taking lead from such lists to such lists, whatever privileges are named. The
lists that a fixture describes and the administrator's first entry are built
by adding, so they need no lemma of their own.
-/
import AclTree.Proofs.Acl.Entries
import Mathlib.Data.List.Perm.Basic

namespace AclTree.Acl

/-- No two entries are of one principal, no entry is without privileges, and none repeats one. -/
structure Canonical (acl : Acl) : Prop where
  principals : acl.principals.Nodup
  nonempty : ∀ e ∈ acl.entries, e.privileges ≠ []
  names : ∀ e ∈ acl.entries, e.privilegeNames.Nodup

variable {acl : Acl} {who : Principal} {privileges removed : List Privilege}

theorem Canonical.empty : Acl.empty.Canonical where
  principals := .nil
  nonempty := by simp [Acl.empty]
  names := by simp [Acl.empty]

theorem name_ne_of_principal {who other : Principal} (h : other ≠ who) : other.name ≠ who.name := by
  rcases who with ⟨u⟩
  rcases other with ⟨v⟩
  exact fun he => h (congrArg Principal.mk he)

/-- Where principals have one entry at most, the entries around one are of others. -/
theorem ne_of_split {before after : List Entry} {e : Entry} (h : acl.principals.Nodup)
    (hs : acl.entries = before ++ e :: after) :
    ∀ x ∈ before ++ after, x.principal ≠ e.principal := by
  have hnodup : ((before ++ e :: after).map (·.principal.name)).Nodup := hs ▸ h
  rw [List.map_append, List.map_cons, List.nodup_middle, ← List.map_append] at hnodup
  exact fun x hx he => (List.nodup_cons.1 hnodup).1 (he ▸ List.mem_map_of_mem hx)

/-! ## Adding -/

theorem Canonical.add (h : acl.Canonical) (who : Principal) (privileges : List Privilege) :
    (acl.add who privileges).1.Canonical := by
  by_cases hp : privileges = []
  · subst hp; exact h
  rcases add_cases acl who hp with ⟨before, e, after, hs, -, he, ha⟩ | ⟨hn, ha⟩ <;> rw [ha]
  · have hmem : e ∈ acl.entries := by rw [hs]; simp
    have hrest : ∀ x ∈ before ++ ⟨who, Privilege.merge e.privileges privileges⟩ :: after,
        x ∈ acl.entries ∨ x = ⟨who, Privilege.merge e.privileges privileges⟩ := by
      intro x hx
      rw [hs]
      simp only [List.mem_append, List.mem_cons] at hx ⊢
      tauto
    constructor
    · have hpr := h.principals
      simp only [Acl.principals, hs, List.map_append, List.map_cons, he] at hpr ⊢
      exact hpr
    · intro x hx
      rcases hrest x hx with hx | rfl
      · exact h.nonempty x hx
      · exact Privilege.merge_ne_nil _ (h.nonempty e hmem)
    · intro x hx
      rcases hrest x hx with hx | rfl
      · exact h.names x hx
      · exact Privilege.nodup_names_merge _ (h.names e hmem)
  · constructor
    · simp only [Acl.principals, List.map_append, List.map_cons, List.map_nil]
      refine List.nodup_append.2 ⟨h.principals, by simp, ?_⟩
      intro n hm n' hm' heq
      obtain ⟨x, hx, rfl⟩ := List.mem_map.1 hm
      rw [List.mem_singleton.1 hm'] at heq
      exact name_ne_of_principal (hn x hx) heq
    · intro x hx
      rcases List.mem_append.1 hx with hx | hx
      · exact h.nonempty x hx
      · rw [List.mem_singleton.1 hx]; exact Privilege.dedup_ne_nil hp
    · intro x hx
      rcases List.mem_append.1 hx with hx | hx
      · exact h.names x hx
      · rw [List.mem_singleton.1 hx]; exact Privilege.nodup_names_dedup privileges

/-! ## Taking away -/

theorem remainder_eq_some {e f : Entry} :
    remainder removed e = some f ↔ Privilege.without e.privileges removed ≠ [] ∧
      f = Entry.of e.principal (Privilege.without e.privileges removed) := by
  rw [← List.isEmpty_eq_false_iff]
  unfold remainder
  split
  · rename_i hw
    rw [hw]
    constructor
    · intro h; cases h
    · rintro ⟨h, -⟩; cases h
  · rename_i hw
    rw [Option.some.injEq, eq_comm]
    exact ⟨fun h => ⟨by simpa using hw, h⟩, And.right⟩

theorem principals_remainders (entries : List Entry) :
    ((entries.filterMap (remainder removed)).map (·.principal.name)).Sublist
      (entries.map (·.principal.name)) := by
  induction entries with
  | nil => exact .slnil
  | cons e rest ih =>
    rw [List.filterMap_cons, List.map_cons]
    cases hr : remainder removed e with
    | none => exact ih.cons _
    | some f =>
      obtain ⟨-, rfl⟩ := remainder_eq_some.1 hr
      exact ih.cons_cons _

/-- An entry that taking leaves was there before, or is what was left of one. -/
theorem mem_take {e : Entry} (he : e ∈ (acl.take who removed).1.entries) :
    (e ∈ acl.entries ∧ touched who removed e = false) ∨
      ∃ f ∈ acl.entries, touched who removed f = true ∧ remainder removed f = some e := by
  rw [take_entries, List.mem_append, List.mem_filter, List.mem_filterMap] at he
  rcases he with ⟨he, ht⟩ | ⟨f, hf, hr⟩
  · exact .inl ⟨he, by simpa using ht⟩
  · obtain ⟨hf, ht⟩ := List.mem_filter.1 hf
    exact .inr ⟨f, hf, ht, hr⟩

theorem Canonical.take (h : acl.Canonical) (who : Principal) (removed : List Privilege) :
    (acl.take who removed).1.Canonical where
  principals := by
    have hperm : (acl.entries.filter (!touched who removed ·) ++
        acl.entries.filter (touched who removed)).Perm acl.entries :=
      List.perm_append_comm.trans (List.filter_append_perm _ _)
    have hnodup := (hperm.map fun e : Entry => e.principal.name).nodup_iff.2 h.principals
    unfold Acl.principals
    rw [take_entries]
    rw [List.map_append] at hnodup ⊢
    exact hnodup.sublist ((principals_remainders _).append_left _)
  nonempty := by
    intro e he
    rcases mem_take he with ⟨he, -⟩ | ⟨f, -, -, hr⟩
    · exact h.nonempty e he
    · obtain ⟨hw, rfl⟩ := remainder_eq_some.1 hr
      exact Privilege.dedup_ne_nil hw
  names := by
    intro e he
    rcases mem_take he with ⟨he, -⟩ | ⟨f, -, -, hr⟩
    · exact h.names e he
    · obtain ⟨-, rfl⟩ := remainder_eq_some.1 hr
      exact Privilege.nodup_names_dedup _

end AclTree.Acl
