/-
Lists as sets of pairs: who has which privilege, by names. Adding unites,
taking subtracts, and for lists as the engine keeps them both tell truly
whether the set changed.
-/
import AclTree.Proofs.Acl.Canonical
import Mathlib.Data.Finset.Prod

namespace AclTree.Acl

open Privilege (names)

/-- The pairs of a principal and a privilege that it holds. -/
def pairs (acl : Acl) : Finset (String × String) :=
  (acl.entries.flatMap fun e => e.privilegeNames.map (e.principal.name, ·)).toFinset

/-- One principal with each of the privileges. -/
def shares (who : String) (names : List String) : Finset (String × String) := {who} ×ˢ names.toFinset

variable {acl : Acl} {who : Principal} {privileges removed : List Privilege} {u n : String}

theorem mem_pairs :
    (u, n) ∈ acl.pairs ↔ ∃ e ∈ acl.entries, e.principal.name = u ∧ n ∈ e.privilegeNames := by
  simp only [pairs, List.mem_toFinset, List.mem_flatMap, List.mem_map, Prod.mk.injEq]
  constructor
  · rintro ⟨e, he, m, hm, hu, rfl⟩
    exact ⟨e, he, hu, hm⟩
  · rintro ⟨e, he, hu, hn⟩
    exact ⟨e, he, n, hn, hu, rfl⟩

@[simp] theorem mem_shares {w : String} {ns : List String} :
    (u, n) ∈ shares w ns ↔ u = w ∧ n ∈ ns := by
  rw [shares, Finset.mem_product, Finset.mem_singleton, List.mem_toFinset]

theorem shares_subset {w : String} {ns : List String} {held : Finset (String × String)} :
    shares w ns ⊆ held ↔ ∀ n ∈ ns, (w, n) ∈ held := by
  constructor
  · exact fun h n hn => h (mem_shares.2 ⟨rfl, hn⟩)
  · rintro h ⟨u, n⟩ hm
    obtain ⟨rfl, hn⟩ := mem_shares.1 hm
    exact h n hn

@[simp] theorem shares_nil (w : String) : shares w [] = ∅ := by
  simp [shares]

theorem pairs_eq_empty (h : acl.Canonical) : acl.pairs = ∅ ↔ acl.isEmpty = true := by
  unfold isEmpty
  rw [List.isEmpty_iff]
  constructor
  · intro hp
    by_contra hne
    obtain ⟨e, rest, he⟩ := List.exists_cons_of_ne_nil hne
    have hmem : e ∈ acl.entries := by rw [he]; exact List.mem_cons_self
    obtain ⟨p, ps, hps⟩ := List.exists_cons_of_ne_nil (h.nonempty e hmem)
    have hpair : (e.principal.name, p.name) ∈ acl.pairs :=
      mem_pairs.2 ⟨e, hmem, rfl, by rw [Entry.privilegeNames, hps]; exact List.mem_cons_self⟩
    rw [hp] at hpair
    cases hpair
  · intro he
    simp [pairs, he]

/-! ## Adding -/

theorem pairs_add (acl : Acl) (who : Principal) (privileges : List Privilege) :
    (acl.add who privileges).1.pairs = acl.pairs ∪ shares who.name (names privileges) := by
  by_cases hp : privileges = []
  · subst hp
    simp
  ext ⟨u, n⟩
  rw [Finset.mem_union, mem_pairs, mem_pairs, mem_shares]
  rcases add_cases acl who hp with ⟨before, e, after, hs, -, he, ha⟩ | ⟨-, ha⟩ <;> rw [ha]
  · have hmerge : ∀ m, m ∈ (Entry.mk who (Privilege.merge e.privileges privileges)).privilegeNames ↔
        m ∈ e.privilegeNames ∨ m ∈ names privileges := fun _ => Privilege.mem_names_merge
    rw [hs]
    simp only [List.mem_append, List.mem_cons, or_and_right, exists_or, exists_eq_left, hmerge, he]
    grind
  · have hnew : ∀ m, m ∈ (Entry.of who privileges).privilegeNames ↔ m ∈ names privileges :=
      fun _ => Privilege.mem_names_dedup
    simp only [List.mem_append, List.mem_singleton, or_and_right, exists_or, exists_eq_left, hnew]
    exact or_congr_right (and_congr_left' eq_comm)

/-- In a canonical list the entry of a principal tells all that it holds. -/
theorem Canonical.mem_pairs_iff (h : acl.Canonical) {e : Entry} (he : e ∈ acl.entries) :
    (e.principal.name, n) ∈ acl.pairs ↔ n ∈ e.privilegeNames := by
  rw [mem_pairs]
  constructor
  · rintro ⟨f, hf, hname, hn⟩
    have hfe : f = e := List.inj_on_of_nodup_map h.principals hf he hname
    exact hfe ▸ hn
  · exact fun hn => ⟨e, he, rfl, hn⟩

theorem add_changed_iff_exists (h : acl.Canonical) :
    (acl.add who privileges).2 = true ↔ ∃ n ∈ names privileges, (who.name, n) ∉ acl.pairs := by
  by_cases hp : privileges = []
  · subst hp
    simp
  rcases add_cases acl who hp with ⟨before, e, after, hs, -, rfl, ha⟩ | ⟨hn, ha⟩ <;> rw [ha]
  · have he : e ∈ acl.entries := by rw [hs]; simp
    simp only [h.mem_pairs_iff he, List.any_eq_true, Bool.not_eq_true', Privilege.holds_eq_false]
    constructor
    · rintro ⟨p, hp, hout⟩
      exact ⟨p.name, List.mem_map_of_mem hp, hout⟩
    · rintro ⟨n, hn, hout⟩
      obtain ⟨p, hp, rfl⟩ := Privilege.mem_names.1 hn
      exact ⟨p, hp, hout⟩
  · obtain ⟨p, ps, rfl⟩ := List.exists_cons_of_ne_nil hp
    refine iff_of_true rfl ⟨p.name, by simp, fun hm => ?_⟩
    obtain ⟨e, he, hname, -⟩ := mem_pairs.1 hm
    exact name_ne_of_principal (hn e he) hname

/-- Adding tells whether the set changed. -/
theorem add_changed (h : acl.Canonical) (who : Principal) (privileges : List Privilege) :
    (acl.add who privileges).2 = true ↔ (acl.add who privileges).1.pairs ≠ acl.pairs := by
  rw [add_changed_iff_exists h, pairs_add, Ne, Finset.union_eq_left, shares_subset]
  push Not
  rfl

/-! ## Taking away -/

theorem pairs_take (acl : Acl) (who : Principal) (removed : List Privilege) :
    (acl.take who removed).1.pairs = acl.pairs \ shares who.name (names removed) := by
  ext ⟨u, n⟩
  rw [Finset.mem_sdiff, mem_pairs, mem_pairs, mem_shares]
  constructor
  · rintro ⟨e, he, hu, hn⟩
    rcases mem_take he with ⟨he, ht⟩ | ⟨f, hf, ht, hr⟩
    · refine ⟨⟨e, he, hu, hn⟩, ?_⟩
      rintro ⟨rfl, hr⟩
      have hw : e.principal = who := by
        by_contra hne
        exact name_ne_of_principal hne hu
      rw [touched_iff.2 ⟨hw, n, hn, hr⟩] at ht
      cases ht
    · obtain ⟨-, rfl⟩ := remainder_eq_some.1 hr
      obtain ⟨hn, hout⟩ := Privilege.mem_names_without.1 (Privilege.mem_names_dedup.1 hn)
      exact ⟨⟨f, hf, hu, hn⟩, fun h => hout h.2⟩
  · rintro ⟨⟨e, he, hu, hn⟩, hout⟩
    rw [take_entries]
    by_cases ht : touched who removed e = true
    · have hw := (touched_iff.1 ht).1
      have hout : n ∉ names removed := fun hr => hout ⟨by rw [← hu, hw], hr⟩
      have hleft : n ∈ names (Privilege.without e.privileges removed) :=
        Privilege.mem_names_without.2 ⟨hn, hout⟩
      have hne : Privilege.without e.privileges removed ≠ [] := by
        intro h
        rw [h] at hleft
        cases hleft
      refine ⟨Entry.of e.principal (Privilege.without e.privileges removed), ?_, hu,
        Privilege.mem_names_dedup.2 hleft⟩
      exact List.mem_append.2 (.inr (List.mem_filterMap.2
        ⟨e, List.mem_filter.2 ⟨he, ht⟩, remainder_eq_some.2 ⟨hne, rfl⟩⟩))
    · exact ⟨e, List.mem_append.2 (.inl (List.mem_filter.2 ⟨he, by simpa using ht⟩)), hu, hn⟩

theorem take_changed_iff_exists :
    (acl.take who removed).2 = true ↔ ∃ n ∈ names removed, (who.name, n) ∈ acl.pairs := by
  rw [take_changed, List.any_eq_true]
  constructor
  · rintro ⟨e, he, ht⟩
    obtain ⟨hw, n, hn, hr⟩ := touched_iff.1 ht
    exact ⟨n, hr, mem_pairs.2 ⟨e, he, by rw [hw], hn⟩⟩
  · rintro ⟨n, hr, hm⟩
    obtain ⟨e, he, hu, hn⟩ := mem_pairs.1 hm
    have hw : e.principal = who := by
      by_contra hne
      exact name_ne_of_principal hne hu
    exact ⟨e, he, touched_iff.2 ⟨hw, n, hn, hr⟩⟩

/-- Taking tells whether the set changed. -/
theorem take_changed_iff (acl : Acl) (who : Principal) (removed : List Privilege) :
    (acl.take who removed).2 = true ↔ (acl.take who removed).1.pairs ≠ acl.pairs := by
  rw [take_changed_iff_exists, pairs_take, Ne, Finset.sdiff_eq_self_iff_disjoint,
    Finset.disjoint_left]
  push Not
  constructor
  · rintro ⟨n, hn, hm⟩
    exact ⟨_, hm, mem_shares.2 ⟨rfl, hn⟩⟩
  · rintro ⟨⟨u, n⟩, hm, hs⟩
    obtain ⟨rfl, hn⟩ := mem_shares.1 hs
    exact ⟨n, hn, hm⟩

end AclTree.Acl
