/-
The descriptors in a list, whoever holds them (`Acl.Holds`). Adding brings in
what is added, or drops it for a descriptor of the same name that is held, but
never drops what is held; taking brings in nothing. Whether a list is frozen is
told by the descriptors in it (`isFrozen_eq_false_iff`).
-/
import AclTree.Guard
import AclTree.Proofs.Acl.Pairs

namespace AclTree.Acl

/-- Some entry of the list holds the descriptor. -/
def Holds (acl : Acl) (p : Privilege) : Prop := ∃ e ∈ acl.entries, p ∈ e.privileges

variable {acl : Acl} {who : Principal} {privileges removed : List Privilege} {p : Privilege}

theorem not_holds_empty (p : Privilege) : ¬Acl.empty.Holds p := by
  rintro ⟨e, he, -⟩
  cases he

/-- A list is frozen unless it is empty or some descriptor in it grants the privilege to change
it. -/
theorem isFrozen_eq_false_iff {modify : String} :
    acl.isFrozen modify = false ↔
      acl.isEmpty = true ∨ ∃ p, acl.Holds p ∧ p.implies modify = true := by
  have hgrants : acl.entries.any (·.grants modify) = true ↔
      ∃ p, acl.Holds p ∧ p.implies modify = true := by
    simp only [List.any_eq_true, Entry.grants, Privilege.impliesAny_iff, Holds]
    constructor
    · rintro ⟨e, he, p, hp, hi⟩
      exact ⟨p, ⟨e, he, hp⟩, hi⟩
    · rintro ⟨p, ⟨e, he, hp⟩, hi⟩
      exact ⟨e, he, p, hp, hi⟩
  unfold isFrozen
  rw [Bool.and_eq_false_iff, Bool.not_eq_false', Bool.not_eq_false', hgrants]

/-! ## Adding -/

theorem holds_add (h : (acl.add who privileges).1.Holds p) : acl.Holds p ∨ p ∈ privileges := by
  by_cases hne : privileges = []
  · subst hne
    exact .inl h
  obtain ⟨x, hx, hp⟩ := h
  rcases add_cases acl who hne with ⟨before, e, after, hs, -, -, ha⟩ | ⟨-, ha⟩ <;> rw [ha] at hx
  · have hold : ∀ y, y ∈ before ∨ y = e ∨ y ∈ after → y ∈ acl.entries := by
      intro y hy
      rw [hs]
      simpa using hy
    simp only [List.mem_append, List.mem_cons] at hx
    rcases hx with hx | rfl | hx
    · exact .inl ⟨x, hold x (.inl hx), hp⟩
    · obtain ⟨added, hm, hsub⟩ := Privilege.exists_merge e.privileges privileges
      simp only [hm, List.mem_append] at hp
      exact hp.imp (fun hp => ⟨e, hold e (.inr (.inl rfl)), hp⟩) fun hp => hsub.subset hp
    · exact .inl ⟨x, hold x (.inr (.inr hx)), hp⟩
  · rcases List.mem_append.1 hx with hx | hx
    · exact .inl ⟨x, hx, hp⟩
    · rw [List.mem_singleton.1 hx] at hp
      exact .inr ((Privilege.dedup_sublist privileges).subset hp)

/-- Adding drops nothing that is held. -/
theorem Holds.add (h : acl.Holds p) (who : Principal) (privileges : List Privilege) :
    (acl.add who privileges).1.Holds p := by
  by_cases hne : privileges = []
  · subst hne
    exact h
  obtain ⟨x, hx, hp⟩ := h
  rcases add_cases acl who hne with ⟨before, e, after, hs, -, -, ha⟩ | ⟨-, ha⟩ <;> rw [ha]
  · rw [hs] at hx
    simp only [List.mem_append, List.mem_cons] at hx
    rcases hx with hx | rfl | hx
    · exact ⟨x, by simp [hx], hp⟩
    · obtain ⟨added, hm, -⟩ := Privilege.exists_merge x.privileges privileges
      refine ⟨⟨who, Privilege.merge x.privileges privileges⟩, by simp, ?_⟩
      simp [hm, hp]
    · exact ⟨x, by simp [hx], hp⟩
  · exact ⟨x, List.mem_append.2 (.inl hx), hp⟩

/-- An added name is held afterwards, by the descriptor that came with it or one held before. -/
theorem exists_holds_add {name : String} (hname : name ∈ Privilege.names privileges) :
    ∃ p, (acl.add who privileges).1.Holds p ∧ p.name = name := by
  have hpair : (who.name, name) ∈ (acl.add who privileges).1.pairs := by
    rw [pairs_add]
    exact Finset.mem_union_right _ (mem_shares.2 ⟨rfl, hname⟩)
  obtain ⟨e, he, -, hn⟩ := mem_pairs.1 hpair
  obtain ⟨p, hp, hpn⟩ := Privilege.mem_names.1 hn
  exact ⟨p, ⟨e, he, hp⟩, hpn⟩

/-! ## Taking away -/

theorem holds_take (h : (acl.take who removed).1.Holds p) : acl.Holds p := by
  obtain ⟨e, he, hp⟩ := h
  rcases mem_take he with ⟨he, -⟩ | ⟨f, hf, -, hr⟩
  · exact ⟨e, he, hp⟩
  · obtain ⟨-, rfl⟩ := remainder_eq_some.1 hr
    have hleft : p ∈ Privilege.without f.privileges removed :=
      (Privilege.dedup_sublist _).subset hp
    exact ⟨f, hf, List.mem_of_mem_filter hleft⟩

end AclTree.Acl
