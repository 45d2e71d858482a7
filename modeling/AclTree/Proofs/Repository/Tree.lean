/-
The nodes of a repository as a tree (`IsTree`): every node but the root hangs
below another one by a valid name, and the lists of children are the links to
parents read the other way. Adding nodes keeps this; binding lists does not
concern it, for a repository is the same tree as its `bare` form, without its
lists.

`deeper_lt` and `depth_lt_size` are what bounds walks: downwards fewer and
fewer nodes lie deeper, upwards the depth falls.
-/
import AclTree.Proofs.Except
import AclTree.Proofs.Path
import AclTree.Proofs.PathMap
import AclTree.Proofs.Repository.Change
import Mathlib.Data.List.Nodup
import Mathlib.Logic.Relation

namespace AclTree

/-- A node without its list. -/
def Node.bare (node : Node) : Node := { node with policy := none }

namespace Repository

/-- A repository without its lists. -/
def bare (r : Repository) : Repository := ⟨r.nodes.mapValues Node.bare, r.privileges⟩

def parentOf (r : Repository) (path : String) : Option String :=
  (r.nodes.find? path).bind (·.parent)

def childrenOf (r : Repository) (path : String) : List String :=
  ((r.nodes.find? path).map (·.children)).getD []

def kindOf (r : Repository) (path : String) : Option String := (r.nodes.find? path).map (·.kind)

/-- The nodes form a tree: all but the root hang below another node by a valid name, and a node's
children are those that have it as their parent. -/
structure IsTree (r : Repository) : Prop where
  root : r.contains Path.root = true ∧ r.parentOf Path.root = none
  below : ∀ path, r.contains path = true → path ≠ Path.root →
    ∃ parent name, Path.isName name.toList = true ∧ path = Path.join parent name ∧
      r.parentOf path = some parent ∧ r.contains parent = true
  nodup : ∀ path, (r.childrenOf path).Nodup
  mem_children : ∀ path child, child ∈ r.childrenOf path ↔ r.parentOf child = some path

variable {r s : Repository}

/-! ## Without lists -/

theorem find?_bare (r : Repository) (path : String) :
    r.bare.nodes.find? path = (r.nodes.find? path).map Node.bare :=
  PathMap.find?_mapValues ..

@[simp] theorem contains_bare (r : Repository) : r.bare.contains = r.contains := by
  funext path
  simp [contains, PathMap.contains, find?_bare]

@[simp] theorem parentOf_bare (r : Repository) : r.bare.parentOf = r.parentOf := by
  funext path
  rw [parentOf, find?_bare, Option.bind_map]; rfl

@[simp] theorem childrenOf_bare (r : Repository) : r.bare.childrenOf = r.childrenOf := by
  funext path
  rw [childrenOf, find?_bare, Option.map_map]; rfl

@[simp] theorem kindOf_bare (r : Repository) : r.bare.kindOf = r.kindOf := by
  funext path
  rw [kindOf, find?_bare, Option.map_map]; rfl

@[simp] theorem findPrivilege?_bare (r : Repository) : r.bare.findPrivilege? = r.findPrivilege? :=
  rfl

@[simp] theorem bare_withPolicy (r : Repository) (path : String) (policy : Option Acl) :
    (r.withPolicy path policy).bare = r.bare := by
  have h := PathMap.mapValues_modify (f := Node.bare) (g := fun node => { node with policy })
    (fun _ => rfl) r.nodes path
  exact congrArg (Repository.mk · r.privileges) h

theorem contains_of_bare (h : s.bare = r.bare) : s.contains = r.contains := by
  rw [← contains_bare, h, contains_bare]

theorem parentOf_of_bare (h : s.bare = r.bare) : s.parentOf = r.parentOf := by
  rw [← parentOf_bare, h, parentOf_bare]

theorem childrenOf_of_bare (h : s.bare = r.bare) : s.childrenOf = r.childrenOf := by
  rw [← childrenOf_bare, h, childrenOf_bare]

theorem kindOf_of_bare (h : s.bare = r.bare) : s.kindOf = r.kindOf := by
  rw [← kindOf_bare, h, kindOf_bare]

theorem findPrivilege?_of_bare (h : s.bare = r.bare) : s.findPrivilege? = r.findPrivilege? := by
  rw [← findPrivilege?_bare, h, findPrivilege?_bare]

theorem IsTree.of_bare (h : s.bare = r.bare) (hr : r.IsTree) : s.IsTree where
  root := by rw [contains_of_bare h, parentOf_of_bare h]; exact hr.root
  below := by rw [contains_of_bare h, parentOf_of_bare h]; exact hr.below
  nodup := by rw [childrenOf_of_bare h]; exact hr.nodup
  mem_children := by rw [childrenOf_of_bare h, parentOf_of_bare h]; exact hr.mem_children

/-- A repository is its nodes, and what it is without their lists. -/
theorem ext_bare (hf : ∀ q, s.nodes.find? q = r.nodes.find? q) (hb : s.bare = r.bare) : s = r := by
  obtain ⟨nodes, privileges⟩ := r
  obtain ⟨nodes', privileges'⟩ := s
  have hnodes : nodes' = nodes := PathMap.ext_find? hf
  have hprivileges : privileges' = privileges := congrArg Repository.privileges hb
  rw [hnodes, hprivileges]

/-! ## Reading nodes -/

theorem contains_iff_find? {path : String} :
    r.contains path = true ↔ ∃ node, r.nodes.find? path = some node := Option.isSome_iff_exists

theorem contains_iff_mem_paths {path : String} : r.contains path = true ↔ path ∈ r.paths :=
  PathMap.contains_iff

theorem contains_of_parentOf {path parent : String} (h : r.parentOf path = some parent) :
    r.contains path = true := by
  obtain ⟨node, hf, -⟩ := Option.bind_eq_some_iff.1 h
  exact contains_iff_find?.2 ⟨node, hf⟩

theorem name_of_findPrivilege? {name : String} {p : Privilege} (h : r.findPrivilege? name = some p) :
    p.name = name := by
  simpa using List.find?_some h

theorem node_eq_ok {path : String} {node : Node} :
    r.node path = .ok node ↔ r.nodes.find? path = some node := by
  unfold Repository.node
  cases r.nodes.find? path <;> simp

theorem contains_eq_false {path : String} :
    r.contains path = false ↔ r.nodes.find? path = none := Option.isSome_eq_false_iff.trans
  Option.isNone_iff_eq_none

theorem node_eq_error {path : String} (h : r.contains path = false) :
    r.node path = .error (.nodeNotFound path) := by
  unfold Repository.node
  rw [contains_eq_false.1 h]

namespace IsTree

variable (h : r.IsTree)
include h

/-- A recorded parent is the one in the path. -/
theorem parentOf_eq {path parent : String} (hp : r.parentOf path = some parent) :
    r.contains parent = true ∧
      ∃ name, Path.isName name.toList = true ∧ path = Path.join parent name := by
  have hc := contains_of_parentOf hp
  have hne : path ≠ Path.root := by
    rintro rfl
    rw [h.root.2] at hp; cases hp
  obtain ⟨parent', name, hn, hj, hp', hc'⟩ := h.below path hc hne
  rw [hp'] at hp
  cases hp
  exact ⟨hc', name, hn, hj⟩

theorem exists_parentOf {path : String} (hc : r.contains path = true) (hne : path ≠ Path.root) :
    ∃ parent, r.parentOf path = some parent := by
  obtain ⟨parent, -, -, -, hp, -⟩ := h.below path hc hne
  exact ⟨parent, hp⟩

theorem depth_of_parentOf {path parent : String} (hp : r.parentOf path = some parent) :
    Path.depth path = Path.depth parent + 1 := by
  obtain ⟨-, name, hn, rfl⟩ := h.parentOf_eq hp
  exact Path.depth_join hn

/-- Induction from the root down. -/
@[elab_as_elim]
theorem parentInduction {P : String → Prop} (root : P Path.root)
    (below : ∀ path parent, r.parentOf path = some parent → P parent → P path) {path : String}
    (hc : r.contains path = true) : P path := by
  induction hd : Path.depth path generalizing path with
  | zero =>
    by_cases hroot : path = Path.root
    · rwa [hroot]
    · obtain ⟨parent, hp⟩ := h.exists_parentOf hc hroot
      have hdepth := h.depth_of_parentOf hp
      omega
  | succ n ih =>
    by_cases hroot : path = Path.root
    · rwa [hroot]
    · obtain ⟨parent, hp⟩ := h.exists_parentOf hc hroot
      have hdepth := h.depth_of_parentOf hp
      exact below path parent hp (ih (h.parentOf_eq hp).1 (by omega))

end IsTree

/-! ## Nodes below others -/

/-- The node at `path` is the one at `top` or lies below it: parent links lead up from one to the
other. -/
def Below (r : Repository) (top path : String) : Prop :=
  Relation.ReflTransGen (fun parent child => r.parentOf child = some parent) top path

theorem Below.child {top path child : String} (h : r.Below top path)
    (hp : r.parentOf child = some path) : r.Below top child := h.tail hp

theorem Below.contains {top path : String} (h : r.Below top path) (hc : r.contains top = true) :
    r.contains path = true := by
  induction h with
  | refl => exact hc
  | tail _ hp _ => exact contains_of_parentOf hp

/-- Of two nodes above a third one lies above the other. -/
theorem Below.total {a b path : String} (ha : r.Below a path) (hb : r.Below b path) :
    r.Below a b ∨ r.Below b a := by
  have hunique : Relator.RightUnique fun child parent => r.parentOf child = some parent := by
    intro child p q hp hq
    rw [hp] at hq
    exact Option.some.inj hq
  have h := Relation.ReflTransGen.total_of_right_unique hunique
    (Relation.reflTransGen_swap.2 ha) (Relation.reflTransGen_swap.2 hb)
  exact (h.imp Relation.reflTransGen_swap.1 Relation.reflTransGen_swap.1).symm

namespace IsTree

variable (h : r.IsTree)
include h

theorem depth_of_below {top path : String} (hb : r.Below top path) :
    top = path ∨ Path.depth top < Path.depth path := by
  induction hb with
  | refl => exact .inl rfl
  | tail _ hp ih =>
    have hd := h.depth_of_parentOf hp
    rcases ih with rfl | ih <;> right <;> omega

/-- Of two nodes above a third at most one has a given depth. -/
theorem eq_of_below {a b path : String} (ha : r.Below a path) (hb : r.Below b path)
    (hd : Path.depth a = Path.depth b) : a = b := by
  rcases ha.total hb with hab | hba
  · exact (h.depth_of_below hab).resolve_right (by omega)
  · exact ((h.depth_of_below hba).resolve_right (by omega)).symm

theorem below_antisymm {a b : String} (hab : r.Below a b) (hba : r.Below b a) : a = b := by
  rcases h.depth_of_below hab with he | hlt
  · exact he
  · rcases h.depth_of_below hba with he | hlt'
    · exact he.symm
    · omega

end IsTree

/-! ## How far walks lead -/

theorem countP_lt_countP {α : Type} {p q : α → Bool} {l : List α} (h : ∀ a ∈ l, p a → q a) {a : α}
    (ha : a ∈ l) (hp : p a = false) (hq : q a = true) : l.countP p < l.countP q := by
  induction l with
  | nil => cases ha
  | cons b l ih =>
    have hle : l.countP p ≤ l.countP q :=
      List.countP_mono_left fun x hx => h x (List.mem_cons_of_mem b hx)
    rw [List.countP_cons, List.countP_cons]
    rcases List.mem_cons.1 ha with rfl | ha
    · rw [hp, hq]
      simp; omega
    · have hlt := ih (fun x hx => h x (List.mem_cons_of_mem b hx)) ha
      have hb := h b List.mem_cons_self
      by_cases hpb : p b = true
      · rw [if_pos hpb, if_pos (hb hpb)]; omega
      · rw [if_neg hpb]; omega

theorem countP_lt_length {α : Type} {p : α → Bool} {l : List α} {a : α} (ha : a ∈ l)
    (hp : p a = false) : l.countP p < l.length := by
  rw [← List.countP_true]
  exact countP_lt_countP (fun _ _ _ => rfl) ha hp rfl

/-- How many nodes lie deeper than a path. -/
def deeper (r : Repository) (path : String) : Nat :=
  r.paths.countP fun q => Path.depth path < Path.depth q

namespace IsTree

variable (h : r.IsTree)
include h

theorem deeper_lt {path child : String} (hp : r.parentOf child = some path) :
    r.deeper child < r.deeper path := by
  have hd := h.depth_of_parentOf hp
  refine countP_lt_countP (fun q _ hq => ?_) (contains_iff_mem_paths.1 (contains_of_parentOf hp))
    (by simp) (by simp [hd])
  simp only [decide_eq_true_eq] at hq ⊢
  omega

/-- The root is never deeper, so not all nodes are. -/
theorem deeper_lt_size (path : String) : r.deeper path < r.size := by
  change _ < r.nodes.size
  rw [← PathMap.length_paths]
  exact countP_lt_length (contains_iff_mem_paths.1 h.root.1) (by simp)

theorem depth_le_shallower {n : Nat} : ∀ {path : String}, r.contains path = true →
    Path.depth path = n → n ≤ r.paths.countP (Path.depth · < n) := by
  induction n with
  | zero => intro _ _ _; exact Nat.zero_le _
  | succ n ih =>
    intro path hc hd
    have hne : path ≠ Path.root := by
      rintro rfl
      rw [Path.depth_root] at hd; cases hd
    obtain ⟨parent, hp⟩ := h.exists_parentOf hc hne
    have hd' := h.depth_of_parentOf hp
    have hc' := (h.parentOf_eq hp).1
    have hle := ih hc' (by omega)
    have hlt : r.paths.countP (Path.depth · < n) < r.paths.countP (Path.depth · < n + 1) := by
      refine countP_lt_countP (fun q _ hq => ?_) (contains_iff_mem_paths.1 hc')
        (by simp; omega) (by simp; omega)
      simp only [decide_eq_true_eq] at hq ⊢
      omega
    omega

/-- The way from a node up to the root has fewer steps than there are nodes. -/
theorem depth_lt_size {path : String} (hc : r.contains path = true) :
    Path.depth path < r.size := by
  refine Nat.lt_of_le_of_lt (h.depth_le_shallower hc rfl) ?_
  change _ < r.nodes.size
  rw [← PathMap.length_paths]
  exact countP_lt_length (contains_iff_mem_paths.1 hc) (by simp)

end IsTree

/-! ## Adding nodes -/

theorem addNode_of_ok {parent name p : String} (kind : String)
    (hn : Path.isName name.toList = true) (hp : Path.normalize parent = .ok p) :
    r.addNode parent name kind =
      if r.contains (Path.join p name) = true then .error (.duplicateNode (Path.join p name))
      else if r.contains p = true then .ok (Path.join p name, r.grow p (Path.join p name) kind)
      else .error (.nodeNotFound p) := by
  rw [addNode_eq, Path.checkName, if_pos hn, hp]
  rfl

/-- When a node is added, and what there is then. -/
theorem addNode_eq_ok {parent name kind path : String} :
    r.addNode parent name kind = .ok (path, s) ↔
      ∃ p, Path.isName name.toList = true ∧ Path.normalize parent = .ok p ∧
        path = Path.join p name ∧ r.contains path = false ∧ r.contains p = true ∧
        s = r.grow p path kind := by
  constructor
  · intro h
    by_cases hn : Path.isName name.toList = true
    · cases hp : Path.normalize parent with
      | error e =>
        rw [addNode_eq, Path.checkName, if_pos hn, hp] at h
        cases h
      | ok p =>
        rw [addNode_of_ok kind hn hp] at h
        split at h
        · cases h
        rename_i hd
        split at h
        · rename_i hc
          cases h
          exact ⟨p, hn, rfl, rfl, by simpa using hd, hc, rfl⟩
        · cases h
    · rw [addNode_eq, Path.checkName, if_neg hn] at h
      cases h
  · rintro ⟨p, hn, hp, rfl, hd, hc, rfl⟩
    rw [addNode_of_ok kind hn hp, if_neg (by simp [hd]), if_pos hc]

/-- Adding by a path is adding below what stands before its last name. -/
theorem addPath_eq_ok {path kind added : String} (h : r.addPath path kind = .ok (added, s)) :
    ∃ parent name, r.addNode parent name kind = .ok (added, s) := by
  rw [addPath_eq] at h
  obtain ⟨q, -, h⟩ := Except.bind_eq_ok.1 h
  split at h
  · exact ⟨_, _, h⟩
  · cases h

theorem addPath_root (r : Repository) (kind : String) :
    r.addPath Path.root kind = .error (.duplicateNode Path.root) := rfl

theorem addPath_join {parent name : String} (hp : Path.normalize parent = .ok parent)
    (hn : Path.isName name.toList = true) (kind : String) :
    r.addPath (Path.join parent name) kind = r.addNode parent name kind := by
  rw [addPath_eq, Path.normalize_join hp hn]
  simp only [Except.mapError, Except.bind, Path.split?_join hp hn]

theorem find?_grow (r : Repository) (parent path kind q : String) :
    (r.grow parent path kind).nodes.find? q =
      if path = q then some { kind, parent := some parent }
      else if parent = q then (r.nodes.find? q).map fun node =>
        { node with children := node.children ++ [path] }
      else r.nodes.find? q := by
  unfold grow
  rw [PathMap.find?_insert, PathMap.find?_modify]

theorem contains_grow (r : Repository) (parent path kind q : String) :
    (r.grow parent path kind).contains q = true ↔ q = path ∨ r.contains q = true := by
  simp only [contains_iff_find?, find?_grow]
  by_cases hq : path = q
  · simp [hq]
  · rw [if_neg hq]
    have hq' : q ≠ path := Ne.symm hq
    by_cases hp : parent = q <;> simp [hp, hq']

theorem parentOf_grow (r : Repository) (parent path kind q : String) :
    (r.grow parent path kind).parentOf q = if path = q then some parent else r.parentOf q := by
  unfold parentOf
  rw [find?_grow]
  by_cases hq : path = q
  · rw [if_pos hq, if_pos hq]; rfl
  · rw [if_neg hq, if_neg hq]
    split
    · cases r.nodes.find? q <;> rfl
    · rfl

theorem childrenOf_grow {parent : String} (path kind q : String) (hc : r.contains parent = true) :
    (r.grow parent path kind).childrenOf q =
      if path = q then [] else if parent = q then r.childrenOf q ++ [path] else r.childrenOf q := by
  unfold childrenOf
  rw [find?_grow]
  by_cases hq : path = q
  · rw [if_pos hq, if_pos hq]; rfl
  · rw [if_neg hq, if_neg hq]
    split
    · rename_i hp
      obtain ⟨node, hf⟩ := contains_iff_find?.1 hc
      rw [← hp, hf]; rfl
    · rfl

/-! The new node has no parent and no children yet, for it is not there. -/

theorem parentOf_of_missing {path : String} (hd : r.contains path = false) :
    r.parentOf path = none := by
  unfold parentOf
  rw [contains_eq_false.1 hd]
  rfl

theorem IsTree.parentOf_ne_missing (h : r.IsTree) {path : String} (hd : r.contains path = false)
    (q : String) : r.parentOf q ≠ some path := by
  intro hq
  rw [(h.parentOf_eq hq).1] at hd
  cases hd

theorem IsTree.nodup_grow (h : r.IsTree) {parent path : String} (kind : String)
    (hd : r.contains path = false) (hc : r.contains parent = true) (q : String) :
    ((r.grow parent path kind).childrenOf q).Nodup := by
  rw [childrenOf_grow _ _ _ hc]
  split
  · exact .nil
  split
  · refine List.nodup_append.2 ⟨h.nodup q, by simp, ?_⟩
    rintro a ha b hb rfl
    rw [List.mem_singleton.1 hb, h.mem_children, parentOf_of_missing hd] at ha
    cases ha
  · exact h.nodup q

theorem IsTree.mem_children_grow (h : r.IsTree) {parent path : String} (kind : String)
    (hd : r.contains path = false) (hc : r.contains parent = true) (q child : String) :
    child ∈ (r.grow parent path kind).childrenOf q ↔
      (r.grow parent path kind).parentOf child = some q := by
  rw [childrenOf_grow _ _ _ hc, parentOf_grow]
  by_cases hq : path = q
  · subst hq
    have hneq : path ≠ parent := by
      rintro rfl
      rw [hd] at hc
      cases hc
    rw [if_pos rfl]
    refine iff_of_false List.not_mem_nil fun hm => ?_
    split at hm
    · exact hneq (Option.some.inj hm).symm
    · exact h.parentOf_ne_missing hd child hm
  rw [if_neg hq]
  by_cases hpq : parent = q
  · rw [if_pos hpq, List.mem_append, List.mem_singleton, h.mem_children]
    by_cases hch : path = child
    · rw [if_pos hch]
      exact ⟨fun _ => congrArg some hpq, fun _ => .inr hch.symm⟩
    · rw [if_neg hch]
      exact ⟨fun hm => hm.resolve_right (Ne.symm hch), .inl⟩
  · rw [if_neg hpq, h.mem_children]
    by_cases hch : path = child
    · rw [if_pos hch, ← hch, parentOf_of_missing hd]
      exact iff_of_false (by simp) fun hm => hpq (Option.some.inj hm)
    · rw [if_neg hch]

theorem IsTree.grow (h : r.IsTree) {parent name kind : String}
    (hn : Path.isName name.toList = true) (hd : r.contains (Path.join parent name) = false)
    (hc : r.contains parent = true) : (r.grow parent (Path.join parent name) kind).IsTree where
  root := by
    rw [contains_grow, parentOf_grow, if_neg (Path.join_ne_root hn)]
    exact ⟨.inr h.root.1, h.root.2⟩
  below := by
    intro q hq hne
    rw [contains_grow] at hq
    by_cases hqp : Path.join parent name = q
    · refine ⟨parent, name, hn, hqp.symm, ?_, (contains_grow ..).2 (.inr hc)⟩
      rw [parentOf_grow, if_pos hqp]
    · have hq : r.contains q = true := hq.resolve_left (Ne.symm hqp)
      obtain ⟨p, m, hm, hj, hp, hc'⟩ := h.below q hq hne
      refine ⟨p, m, hm, hj, ?_, (contains_grow ..).2 (.inr hc')⟩
      rw [parentOf_grow, if_neg hqp, hp]
  nodup := h.nodup_grow kind hd hc
  mem_children := h.mem_children_grow kind hd hc

theorem IsTree.addNode (h : r.IsTree) {parent name kind path : String}
    (ha : r.addNode parent name kind = .ok (path, s)) : s.IsTree := by
  obtain ⟨p, hn, -, rfl, hd, hc, rfl⟩ := addNode_eq_ok.1 ha
  exact h.grow hn hd hc

theorem IsTree.addPath (h : r.IsTree) {path kind added : String}
    (ha : r.addPath path kind = .ok (added, s)) : s.IsTree := by
  obtain ⟨parent, name, ha⟩ := addPath_eq_ok ha
  exact h.addNode ha

/-! ## The initial repository -/

theorem find?_initial (q : String) : Repository.initial.nodes.find? q =
    if Path.root = q then some { kind := "rep:root", parent := none } else none :=
  PathMap.find?_insert PathMap.empty Path.root q _

theorem contains_initial (q : String) :
    Repository.initial.contains q = true ↔ q = Path.root := by
  rw [contains_iff_find?, find?_initial]
  split
  · rename_i hq
    simp [hq]
  · rename_i hq
    simp [Ne.symm hq]

theorem parentOf_initial (q : String) : Repository.initial.parentOf q = none := by
  rw [parentOf, find?_initial]
  split <;> rfl

theorem childrenOf_initial (q : String) : Repository.initial.childrenOf q = [] := by
  rw [childrenOf, find?_initial]
  split <;> rfl

theorem IsTree.initial : Repository.initial.IsTree where
  root := ⟨(contains_initial _).2 rfl, parentOf_initial _⟩
  below q hq hne := absurd ((contains_initial q).1 hq) hne
  nodup q := by
    rw [childrenOf_initial]
    exact .nil
  mem_children q child := by
    rw [childrenOf_initial, parentOf_initial]
    simp

end Repository
end AclTree
