/-
Changing a list twice in the same way: adding again what was added leaves the
list as it is, entry by entry, and taking again what was taken finds nothing.
Both hold of every list, also of one with several entries of a principal, of
which adding extends the first and taking reduces them all.
-/
import AclTree.Proofs.Acl.Canonical

namespace AclTree.Acl

variable {acl : Acl} {who : Principal} {privileges removed : List Privilege}

/-! ## Adding -/

theorem any_not_holds_merge (held privileges : List Privilege) :
    (privileges.any fun p => !Privilege.holds (Privilege.merge held privileges) p.name) = false := by
  rw [List.any_eq_false]
  intro p hp
  have hname : p.name ∈ Privilege.names (Privilege.merge held privileges) :=
    Privilege.mem_names_merge.2 (.inr (List.mem_map_of_mem hp))
  rw [Privilege.holds_iff.2 hname]
  decide

/-- What was added is held by the entry that it went to, so it is not added again. -/
theorem add_add (acl : Acl) (who : Principal) (privileges : List Privilege) :
    (acl.add who privileges).1.add who privileges = ((acl.add who privileges).1, false) := by
  by_cases hp : privileges = []
  · subst hp
    rfl
  rcases add_cases acl who hp with ⟨before, e, after, -, hb, -, ha⟩ | ⟨hn, ha⟩ <;> rw [ha]
  · rw [add_of_split rfl hb rfl hp, Privilege.merge_merge, any_not_holds_merge]
  · have hmerge : Privilege.merge (Entry.of who privileges).privileges privileges =
        (Entry.of who privileges).privileges := Privilege.merge_merge [] privileges
    have hany : (privileges.any fun p =>
        !Privilege.holds (Entry.of who privileges).privileges p.name) = false :=
      any_not_holds_merge [] privileges
    rw [add_of_split rfl hn rfl hp, hmerge, hany]
    rfl

theorem isEmpty_add (acl : Acl) (who : Principal) (hp : privileges ≠ []) :
    (acl.add who privileges).1.isEmpty = false := by
  rcases add_cases acl who hp with ⟨before, e, after, -, -, -, ha⟩ | ⟨-, ha⟩ <;> rw [ha] <;>
    simp [isEmpty]

/-! ## Taking away -/

/-- No entry is left of the principal that holds what was taken. -/
theorem touched_take {e : Entry} (he : e ∈ (acl.take who removed).1.entries) :
    touched who removed e = false := by
  rcases mem_take he with ⟨-, ht⟩ | ⟨f, -, -, hr⟩
  · exact ht
  · obtain ⟨-, rfl⟩ := remainder_eq_some.1 hr
    rw [← Bool.not_eq_true]
    intro ht
    obtain ⟨-, n, hn, hr⟩ := touched_iff.1 ht
    have hleft : n ∈ Privilege.names (Privilege.without f.privileges removed) :=
      Privilege.mem_names_dedup.1 hn
    exact (Privilege.mem_names_without.1 hleft).2 hr

theorem take_take (acl : Acl) (who : Principal) (removed : List Privilege) :
    ((acl.take who removed).1.take who removed).2 = false := by
  rw [take_changed, List.any_eq_false]
  intro e he ht
  rw [touched_take he] at ht
  cases ht

end AclTree.Acl
