/-
Descriptors inside descriptors, as a relation (`OccursIn`): a privilege implies
the names that occur in it (`implies_iff_occurs`). They are found wherever they
stand, so the order of constituents plays no part (`Rearranged`), and more of
them hide none (`Enlarged`).
-/
import AclTree.Proofs.Privilege
import Mathlib.Data.List.Forall2
import Mathlib.Data.List.Perm.Subperm

namespace AclTree

/-! ## Lists up to a relation -/

section Lists

variable {α β : Type} {R : α → β → Prop} {l : List α} {m : List β}

/-- The second list has what the first one has, up to `R`, in any order. -/
def Reordered (R : α → β → Prop) (l : List α) (m : List β) : Prop :=
  ∃ matched, List.Forall₂ R l matched ∧ matched.Perm m

/-- The second list has what the first one has, up to `R`, in any order and among others. -/
def Extended (R : α → β → Prop) (l : List α) (m : List β) : Prop :=
  ∃ matched, List.Forall₂ R l matched ∧ matched.Subperm m

theorem exists_of_forall₂ (h : List.Forall₂ R l m) {a : α} (ha : a ∈ l) : ∃ b ∈ m, R a b := by
  induction h with
  | nil => cases ha
  | cons hab _ ih =>
    rcases List.mem_cons.1 ha with rfl | ha
    · exact ⟨_, List.mem_cons_self, hab⟩
    · obtain ⟨b, hb, hr⟩ := ih ha
      exact ⟨b, List.mem_cons_of_mem _ hb, hr⟩

theorem Extended.exists_of_mem (h : Extended R l m) {a : α} (ha : a ∈ l) : ∃ b ∈ m, R a b := by
  obtain ⟨matched, hmatched, hsub⟩ := h
  obtain ⟨b, hb, hr⟩ := exists_of_forall₂ hmatched ha
  exact ⟨b, hsub.subset hb, hr⟩

theorem Reordered.extended (h : Reordered R l m) : Extended R l m := by
  obtain ⟨matched, hmatched, hperm⟩ := h
  exact ⟨matched, hmatched, hperm.subperm⟩

theorem Reordered.exists_of_mem (h : Reordered R l m) {b : β} (hb : b ∈ m) : ∃ a ∈ l, R a b := by
  obtain ⟨matched, hmatched, hperm⟩ := h
  exact exists_of_forall₂ (R := flip R) hmatched.flip (hperm.mem_iff.2 hb)

end Lists

namespace Privilege

variable {p q : Privilege} {name : String}

/-! ## Occurrence -/

/-- The descriptor is the other one, or lies in it at some depth. -/
inductive OccursIn (q : Privilege) : Privilege → Prop where
  | self : OccursIn q q
  | part {p part : Privilege} : part ∈ p.constituents → OccursIn q part → OccursIn q p

theorem mem_nested_of_occursIn (h : q.OccursIn p) : q ∈ p.nested := by
  induction h with
  | self => exact mem_nested_self q
  | part hpart _ ih => exact mem_nested.2 (.inr ⟨_, hpart, ih⟩)

theorem occursIn_of_mem_nested {p : Privilege} (h : q ∈ p.nested) : q.OccursIn p := by
  rcases mem_nested.1 h with rfl | ⟨part, hpart, hq⟩
  · exact .self
  · exact .part hpart (occursIn_of_mem_nested hq)
termination_by p.nested.length
decreasing_by exact length_nested_lt hpart

/-- A privilege implies the names that occur in it. -/
theorem implies_iff_occurs : p.implies name = true ↔ ∃ q : Privilege, q.OccursIn p ∧ q.name = name := by
  rw [implies_iff_nested]
  exact exists_congr fun q =>
    and_congr_left fun _ => ⟨occursIn_of_mem_nested, mem_nested_of_occursIn⟩

/-! ## Other descriptors with the same names in them -/

/-- Related descriptors have one name, and what the first consists of is related to something of
which the second consists. -/
def Carries (R : Privilege → Privilege → Prop) : Prop :=
  ∀ p q, R p q → p.name = q.name ∧
    ∀ part ∈ p.constituents, ∃ counterpart ∈ q.constituents, R part counterpart

/-- Along such a relation every name is found again, at the same depth. -/
theorem implies_of_carries {R : Privilege → Privilege → Prop} (hR : Carries R) (h : R p q)
    (hi : p.implies name = true) : q.implies name = true := by
  obtain ⟨x, hx, rfl⟩ := implies_iff_occurs.1 hi
  -- By induction on where the name occurs, for every descriptor related to the one it occurs in.
  induction hx generalizing q with
  | self =>
    rw [(hR _ _ h).1]
    exact implies_iff_occurs.2 ⟨q, .self, rfl⟩
  | @part p part hpart hx ih =>
    obtain ⟨counterpart, hmem, hr⟩ := (hR p q h).2 part hpart
    obtain ⟨y, hy, hname⟩ := implies_iff_occurs.1 (ih hr (implies_iff_occurs.2 ⟨x, hx, rfl⟩))
    exact implies_iff_occurs.2 ⟨y, .part hmem hy, hname⟩

/-- The same privilege with its constituents in any order, at every depth. -/
inductive Rearranged : Privilege → Privilege → Prop where
  | simple (name : String) : Rearranged (.simple name) (.simple name)
  | aggregate (name : String) {parts matched others : List Privilege} :
      List.Forall₂ Rearranged parts matched → matched.Perm others →
      Rearranged (.aggregate name parts) (.aggregate name others)

/-- The same privilege with any constituents added, at every depth. -/
inductive Enlarged : Privilege → Privilege → Prop where
  | intro {p q : Privilege} {matched : List Privilege} :
      p.name = q.name → List.Forall₂ Enlarged p.constituents matched →
      matched.Subperm q.constituents → Enlarged p q

theorem Rearranged.refl (p : Privilege) : p.Rearranged p := by
  cases p with
  | simple name => exact .simple name
  | aggregate name _ =>
    exact .aggregate name (List.forall₂_same.2 fun part _ => Rearranged.refl part) (.refl _)
termination_by p.nested.length
decreasing_by exact length_nested_lt ‹_›

theorem Enlarged.refl (p : Privilege) : p.Enlarged p :=
  ⟨rfl, List.forall₂_same.2 fun part _ => Enlarged.refl part, .refl _⟩
termination_by p.nested.length
decreasing_by exact length_nested_lt ‹_›

theorem rearranged_carries : Carries Rearranged := by
  rintro _ _ (name | ⟨name, hmatched, hperm⟩)
  · exact ⟨rfl, nofun⟩
  · have hparts : Reordered Rearranged _ _ := ⟨_, hmatched, hperm⟩
    exact ⟨rfl, fun _ hpart => hparts.extended.exists_of_mem hpart⟩

theorem rearranged_carries_back : Carries (flip Rearranged) := by
  rintro _ _ (name | ⟨name, hmatched, hperm⟩)
  · exact ⟨rfl, nofun⟩
  · have hparts : Reordered Rearranged _ _ := ⟨_, hmatched, hperm⟩
    exact ⟨rfl, fun _ hpart => hparts.exists_of_mem hpart⟩

theorem enlarged_carries : Carries Enlarged := by
  rintro _ _ ⟨hname, hmatched, hsub⟩
  have hparts : Extended Enlarged _ _ := ⟨_, hmatched, hsub⟩
  exact ⟨hname, fun _ hpart => hparts.exists_of_mem hpart⟩

theorem Rearranged.implies_iff (h : p.Rearranged q) : p.implies name = true ↔ q.implies name = true :=
  ⟨implies_of_carries rearranged_carries h, implies_of_carries rearranged_carries_back h⟩

theorem Enlarged.implies (h : p.Enlarged q) (hi : p.implies name = true) : q.implies name = true :=
  implies_of_carries enlarged_carries h hi

end Privilege
end AclTree
