/-
Repositories that are worked on in every way there is (`Live`): beside what
makes them `Reachable`, lists are bound to nodes and unbound directly, whatever
they hold.

Paths, links to parents, lists of children and the list of all nodes tell of
one tree there (`Live.isPathTree`).
-/
import AclTree.Proofs.Repository.Reachable
import AclTree.Proofs.Repository.Lineage

namespace AclTree.Repository

/-- What a reachable repository can become if any lists are bound to its nodes. As for `Reachable`,
steps that fail without giving a repository leave the one before. -/
inductive Live : Repository → Prop where
  | reachable {r : Repository} : Reachable r → Live r
  | addNode {r s : Repository} {parent name kind path : String} :
      Live r → r.addNode parent name kind = .ok (path, s) → Live s
  | addPath {r s : Repository} {path kind added : String} :
      Live r → r.addPath path kind = .ok (added, s) → Live s
  | registerPrivilege {r s : Repository} {name : String} {p : Privilege} :
      Live r → r.registerPrivilege name = .ok (p, s) → Live s
  | registerAggregate {r s : Repository} {name : String} {constituents : List String}
      {p : Privilege} :
      Live r → r.registerAggregate name constituents = .ok (p, s) → Live s
  | setPolicy {r s : Repository} {path : String} {acl : Acl} :
      Live r → r.setPolicy path acl = .ok s → Live s
  | removePolicy {r s : Repository} {path : String} {acl : Acl} :
      Live r → r.removePolicy path acl = .ok s → Live s
  | perform {r s : Repository} {settings : Settings} {request : Request}
      {out : Except AccessError Bool} :
      Live r → r.perform settings request = some (out, s) → Live s

variable {r : Repository}

theorem Live.isTree (h : r.Live) : r.IsTree := by
  induction h with
  | reachable h => exact h.isTree
  | addNode _ ha ih => exact ih.addNode ha
  | addPath _ ha ih => exact ih.addPath ha
  | registerPrivilege _ hr ih =>
    obtain ⟨-, -, rfl⟩ := register_eq_ok hr
    exact ih.of_nodes rfl
  | registerAggregate _ hr ih =>
    obtain ⟨parts, -, hr⟩ := registerAggregate_eq_ok hr
    obtain ⟨-, -, rfl⟩ := register_eq_ok hr
    exact ih.of_nodes rfl
  | setPolicy _ hs ih =>
    rw [setPolicy_eq_ok hs]
    exact ih.of_bare (bare_withPolicy ..)
  | removePolicy _ hs ih =>
    rw [removePolicy_eq_ok hs]
    exact ih.of_bare (bare_withPolicy ..)
  | perform _ hp ih => exact ih.of_bare (bare_perform hp)

/-- What the encodings of the tree have to do with one another: paths, the links to parents, the
lists of children and the list of all nodes. -/
structure IsPathTree (r : Repository) : Prop where
  root : r.contains Path.root = true ∧ r.parentOf Path.root = none
  normal : ∀ q, r.contains q = true → Path.normalize q = .ok q
  /-- The recorded parent of a node is the one in its path, and a node. -/
  parent : ∀ q, r.contains q = true → q ≠ Path.root → ∃ parent name,
    Path.split? q = some (parent, name) ∧ r.parentOf q = some parent ∧ r.contains parent = true
  /-- Children are listed where they belong, and once. -/
  children : ∀ p c, (r.childrenOf p).count c =
    if r.contains c = true ∧ r.parentOf c = some p then 1 else 0
  /-- The way to the root has as many steps as the path is deep. -/
  depth : ∀ q, r.contains q = true →
    ∃ way, r.Way Path.root q way ∧ way.length = Path.depth q + 1
  listed : ∀ q, q ∈ r.paths ↔ r.contains q = true
  ascending : r.paths.Pairwise (· < ·)
  parentsFirst : ∀ q parent, r.parentOf q = some parent → [parent, q].Sublist r.paths

namespace IsTree

variable (h : r.IsTree)
include h

theorem normal {q : String} (hc : r.contains q = true) : Path.normalize q = .ok q := by
  refine h.parentInduction rfl (fun path parent hp ih => ?_) hc
  obtain ⟨-, name, hn, rfl⟩ := h.parentOf_eq hp
  exact Path.normalize_join ih hn

theorem split?_eq {q parent : String} (hp : r.parentOf q = some parent) :
    ∃ name, Path.split? q = some (parent, name) := by
  obtain ⟨hc, name, hn, rfl⟩ := h.parentOf_eq hp
  exact ⟨name, Path.split?_join (h.normal hc) hn⟩

theorem count_children (p c : String) :
    (r.childrenOf p).count c = if r.contains c = true ∧ r.parentOf c = some p then 1 else 0 := by
  split
  · rename_i hc
    exact List.count_eq_one_of_mem (h.nodup p) ((h.mem_children p c).2 hc.2)
  · rename_i hc
    refine List.count_eq_zero.2 fun hm => hc ?_
    have hp := (h.mem_children p c).1 hm
    exact ⟨contains_of_parentOf hp, hp⟩

/-- The order of paths has parents before their children, and so has the list of all nodes. -/
theorem parent_sublist_paths {q parent : String} (hp : r.parentOf q = some parent) :
    [parent, q].Sublist r.paths := by
  obtain ⟨hc, name, hn, hj⟩ := h.parentOf_eq hp
  have hlt : parent < q := hj ▸ Path.lt_join parent hn
  have hpair : [parent, q].Pairwise (· < ·) := List.pairwise_pair.2 hlt
  have hantisymm : Std.Antisymm fun a b : String => a < b :=
    ⟨fun a b hab hba => absurd (String.lt_trans hab hba) (String.lt_irrefl a)⟩
  have hsubset : [parent, q] ⊆ r.paths := by
    intro x hx
    rcases List.mem_pair.1 hx with rfl | rfl
    · exact contains_iff_mem_paths.1 hc
    · exact contains_iff_mem_paths.1 (contains_of_parentOf hp)
  have hnodup : [parent, q].Nodup :=
    List.nodup_cons.2 ⟨fun hm => String.lt_irrefl q (List.mem_singleton.1 hm ▸ hlt), List.nodup_singleton q⟩
  exact List.sublist_of_subperm_of_pairwise (List.subperm_of_subset hnodup hsubset) hpair
    r.nodes.ascending_paths

end IsTree

/-- **One tree**: whatever nodes are added to a repository, whatever is bound to them and whatever
requests do, its encodings agree. -/
theorem Live.isPathTree (h : r.Live) : r.IsPathTree where
  root := h.isTree.root
  normal _ hc := h.isTree.normal hc
  parent q hc hne := by
    obtain ⟨parent, hp⟩ := h.isTree.exists_parentOf hc hne
    obtain ⟨name, hsplit⟩ := h.isTree.split?_eq hp
    exact ⟨parent, name, hsplit, hp, (h.isTree.parentOf_eq hp).1⟩
  children := h.isTree.count_children
  depth _ hc := h.isTree.exists_root_way hc
  listed _ := contains_iff_mem_paths.symm
  ascending := r.nodes.ascending_paths
  parentsFirst _ _ hp := h.isTree.parent_sublist_paths hp

/-- A folder is bound to a list that no request would have made, and then gets a child. -/
theorem isPathTree_bound_folder : ∃ r : Repository,
    r.Live ∧ r.paths = ["/", "/a", "/a/b"] ∧ r.IsPathTree := by
  have hfolder : Repository.initial.addPath "/a/" "folder" =
      .ok ("/a", Repository.initial.grow "/" "/a" "folder") := rfl
  have hbound : (Repository.initial.grow "/" "/a" "folder").setPolicy "/a" ⟨[⟨⟨"u"⟩, []⟩]⟩ =
      .ok ((Repository.initial.grow "/" "/a" "folder").withPolicy "/a" (some ⟨[⟨⟨"u"⟩, []⟩]⟩)) := rfl
  have hfile : ((Repository.initial.grow "/" "/a" "folder").withPolicy "/a"
      (some ⟨[⟨⟨"u"⟩, []⟩]⟩)).addNode "/a/" "b" "file" = .ok ("/a/b", _) := rfl
  have hlive := Live.addNode (.setPolicy (.addPath (.reachable .initial) hfolder) hbound) hfile
  exact ⟨_, hlive, rfl, Live.isPathTree hlive⟩

end AclTree.Repository
