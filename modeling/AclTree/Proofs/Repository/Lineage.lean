/-
The way from a node up to one above it (`Way`), as the list of the nodes on
it. On a tree there is one exactly from the nodes below the target
(`exists_way`), it lists what lies between (`mem_way`), and it is no longer
than its start is deep.
-/
import AclTree.Proofs.Repository.Tree

namespace AclTree.Repository

/-- The nodes from `path` up to `target`, both included, each the parent of the one before. -/
inductive Way (r : Repository) (target : String) : String → List String → Prop where
  | here : Way r target target [target]
  | up {path parent : String} {way : List String} :
      path ≠ target → r.parentOf path = some parent → Way r target parent way →
      Way r target path (path :: way)

variable {r s : Repository} {target path : String} {way : List String}

theorem Way.isBelow (h : r.Way target path way) : r.Below target path := by
  induction h with
  | here => exact .refl
  | up _ hp _ ih => exact ih.child hp

theorem Way.ne_nil (h : r.Way target path way) : way ≠ [] := by
  rintro rfl
  cases h

theorem exists_way (h : r.Below target path) : ∃ way, r.Way target path way := by
  induction h with
  | refl => exact ⟨_, .here⟩
  | @tail parent child _ hp ih =>
    obtain ⟨way, ih⟩ := ih
    by_cases he : child = target
    · subst he
      exact ⟨_, .here⟩
    · exact ⟨_, .up he hp ih⟩

namespace IsTree

variable (h : r.IsTree)
include h

theorem mem_way (hw : r.Way target path way) {q : String} :
    q ∈ way ↔ r.Below target q ∧ r.Below q path := by
  induction hw with
  | here =>
    rw [List.mem_singleton]
    constructor
    · rintro rfl
      exact ⟨.refl, .refl⟩
    · exact fun ⟨htq, hqt⟩ => h.below_antisymm hqt htq
  | @up path parent way hne hp hw ih =>
    rw [List.mem_cons, ih]
    constructor
    · rintro (rfl | ⟨htq, hqp⟩)
      · exact ⟨hw.isBelow.child hp, .refl⟩
      · exact ⟨htq, hqp.child hp⟩
    · rintro ⟨htq, hqp⟩
      rcases hqp.cases_tail with he | ⟨c, hqc, hc⟩
      · exact .inl he.symm
      · rw [hp] at hc
        cases hc
        exact .inr ⟨htq, hqc⟩

/-- On the way to the root, without the root itself. -/
theorem mem_dropLast_way (hw : r.Way Path.root path way) {q : String} :
    q ∈ way.dropLast ↔ r.Below q path ∧ q ≠ Path.root := by
  induction hw with
  | here =>
    refine iff_of_false List.not_mem_nil fun ⟨hq, hne⟩ => ?_
    rcases hq.cases_tail with he | ⟨parent, -, hp⟩
    · exact hne he.symm
    · rw [h.root.2] at hp
      cases hp
  | @up path parent way hne hp hw ih =>
    rw [List.dropLast_cons_of_ne_nil hw.ne_nil, List.mem_cons, ih]
    constructor
    · rintro (rfl | ⟨hq, hroot⟩)
      · exact ⟨.refl, hne⟩
      · exact ⟨hq.child hp, hroot⟩
    · rintro ⟨hq, hroot⟩
      rcases hq.cases_tail with he | ⟨c, hqc, hc⟩
      · exact .inl he.symm
      · rw [hp] at hc
        cases hc
        exact .inr ⟨hqc, hroot⟩

theorem nodup_way (hw : r.Way target path way) : way.Nodup := by
  induction hw with
  | here => exact List.nodup_singleton _
  | @up path parent way _ hp hw ih =>
    refine List.nodup_cons.2 ⟨fun hm => ?_, ih⟩
    have hd := h.depth_of_parentOf hp
    rcases h.depth_of_below ((h.mem_way hw).1 hm).2 with he | hlt
    · rw [he] at hd; omega
    · omega

theorem length_way (hw : r.Way target path way) : way.length ≤ Path.depth path + 1 := by
  induction hw with
  | here => simp
  | up _ hp _ ih =>
    rw [List.length_cons, h.depth_of_parentOf hp]
    omega

/-- No way has more steps than the repository has nodes. -/
theorem length_way_le_size (hw : r.Way target path way) : way.length ≤ r.size + 1 := by
  cases hc : r.contains path with
  | true =>
    have hlength := h.length_way hw
    have hdepth := h.depth_lt_size hc
    omega
  | false =>
    cases hw with
    | here => simp
    | up _ hp _ =>
      rw [contains_of_parentOf hp] at hc
      cases hc

theorem ne_root_of_parentOf {parent : String} (hp : r.parentOf path = some parent) :
    path ≠ Path.root := by
  rintro rfl
  rw [h.root.2] at hp
  cases hp

/-- Up to the root it is as many steps as the node is deep. -/
theorem exists_root_way (hc : r.contains path = true) :
    ∃ way, r.Way Path.root path way ∧ way.length = Path.depth path + 1 := by
  refine h.parentInduction ?_ (fun path parent hp ih => ?_) hc
  · exact ⟨_, .here, rfl⟩
  obtain ⟨way, hw, hlength⟩ := ih
  refine ⟨_, .up (h.ne_root_of_parentOf hp) hp hw, ?_⟩
  rw [List.length_cons, hlength, h.depth_of_parentOf hp]

end IsTree
end AclTree.Repository
