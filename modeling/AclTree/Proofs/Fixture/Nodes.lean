/-
The nodes of a fixture. They are added level by level (`Fixture.levels`), in
which order each comes behind its parent, wherever the fixture lists the two,
and children stay in the order of the fixture. So which nodes can be added is
told by their paths alone (`exists_create_eq_ok`), and what comes of it by the
list as it stands (`created`).
-/
import AclTree.Proofs.Fixture
import AclTree.Proofs.Repository.Reachable

namespace AclTree

/-! ## Levels -/

section Levels

variable {α : Type} (key : α → Nat) (l : List α)

/-- The items of a list by ascending keys below a bound, those of one key in their order. -/
def byKey (bound : Nat) : List α := (List.range bound).flatMap fun k => l.filter (key · == k)

theorem byKey_succ (bound : Nat) :
    byKey key l (bound + 1) = byKey key l bound ++ l.filter (key · == bound) := by
  simp [byKey, List.range_succ]

theorem byKey_perm (bound : Nat) : (byKey key l bound).Perm (l.filter (key · < bound)) := by
  induction bound with
  | zero => simp [byKey]
  | succ bound ih =>
    rw [byKey_succ]
    refine (ih.append_right _).trans ?_
    have hsplit := List.filter_append_perm (key · < bound) (l.filter (key · < bound + 1))
    refine .trans (.of_eq ?_) hsplit
    rw [List.filter_filter, List.filter_filter]
    congr 1 <;> refine List.filter_congr fun a _ => ?_
    · rw [Bool.eq_iff_iff]; simp; omega
    · rw [Bool.eq_iff_iff]; simp; omega

theorem key_lt_of_mem_byKey {bound : Nat} {a : α} (ha : a ∈ byKey key l bound) : key a < bound := by
  have hm := (byKey_perm key l bound).mem_iff.1 ha
  simpa using (List.mem_filter.1 hm).2

theorem byKey_pairwise (bound : Nat) : (byKey key l bound).Pairwise (key · ≤ key ·) := by
  induction bound with
  | zero => exact .nil
  | succ bound ih =>
    have hlast : ∀ a ∈ l.filter (key · == bound), key a = bound := by
      intro a ha
      simpa using (List.mem_filter.1 ha).2
    rw [byKey_succ]
    refine List.pairwise_append.2 ⟨ih, List.pairwise_of_forall_mem_list fun a ha b hb => ?_,
      fun a ha b hb => ?_⟩
    · rw [hlast a ha, hlast b hb]
    · rw [hlast b hb]
      exact Nat.le_of_lt (key_lt_of_mem_byKey key l ha)

/-- Items that share a key stay in their order. -/
theorem byKey_filter {bound k : Nat} (hk : k < bound) :
    (byKey key l bound).filter (key · == k) = l.filter (key · == k) := by
  induction bound with
  | zero => cases hk
  | succ bound ih =>
    rw [byKey_succ, List.filter_append, List.filter_filter]
    rcases Nat.lt_succ_iff_lt_or_eq.1 hk with hk | rfl
    · have hnone : l.filter (fun a => key a == k && key a == bound) = [] := by
        rw [List.filter_eq_nil_iff]
        intro a _
        simp
        omega
      rw [ih hk, hnone, List.append_nil]
    · have hnone : (byKey key l k).filter (key · == k) = [] := by
        rw [List.filter_eq_nil_iff]
        intro a ha
        have hlt := key_lt_of_mem_byKey key l ha
        simp
        omega
      simp [hnone]

end Levels

theorem le_foldl_max {l : List Nat} {n m : Nat} (h : m ≤ n ∨ m ∈ l) : m ≤ l.foldl max n := by
  induction l generalizing n with
  | nil => exact h.resolve_right List.not_mem_nil
  | cons k l ih =>
    refine ih ?_
    rcases h with h | h
    · exact .inl (Nat.le_trans h (Nat.le_max_left n k))
    · rcases List.mem_cons.1 h with rfl | h
      · exact .inl (Nat.le_max_right n m)
      · exact .inr h

namespace Fixture

variable {nodes : List NodeDefinition}

theorem levels_eq_byKey (nodes : List NodeDefinition) : ∃ bound,
    (∀ d ∈ nodes, Path.depth d.path < bound) ∧
      levels nodes = byKey (fun d : NodeDefinition => Path.depth d.path) nodes bound := by
  refine ⟨_, fun d hd => ?_, rfl⟩
  exact Nat.lt_succ_of_le (le_foldl_max (.inr (List.mem_map_of_mem hd)))

theorem levels_perm (nodes : List NodeDefinition) : (levels nodes).Perm nodes := by
  obtain ⟨bound, hbound, heq⟩ := levels_eq_byKey nodes
  have hall : nodes.filter (fun d => Path.depth d.path < bound) = nodes :=
    List.filter_eq_self.2 fun d hd => by simpa using hbound d hd
  have hperm := byKey_perm (fun d : NodeDefinition => Path.depth d.path) nodes bound
  rwa [hall, ← heq] at hperm

theorem levels_pairwise (nodes : List NodeDefinition) :
    (levels nodes).Pairwise fun d e => Path.depth d.path ≤ Path.depth e.path := by
  obtain ⟨bound, -, heq⟩ := levels_eq_byKey nodes
  rw [heq]
  exact byKey_pairwise _ nodes bound

/-- Nodes of one depth stay in the order of the fixture. -/
theorem levels_filter {keep : NodeDefinition → Bool} {depth : Nat}
    (h : ∀ d ∈ nodes, keep d = true → Path.depth d.path = depth) :
    (levels nodes).filter keep = nodes.filter keep := by
  obtain ⟨bound, hbound, heq⟩ := levels_eq_byKey nodes
  have hmem : ∀ d, d ∈ levels nodes ↔ d ∈ nodes := fun d => (levels_perm nodes).mem_iff
  by_cases hdepth : depth < bound
  · have hkeep : ∀ l : List NodeDefinition, (∀ d ∈ l, d ∈ nodes) →
        l.filter keep = (l.filter (Path.depth ·.path == depth)).filter keep := by
      intro l hl
      rw [List.filter_filter]
      refine List.filter_congr fun d hd => ?_
      cases hk : keep d with
      | false => rfl
      | true => simp [h d (hl d hd) hk]
    rw [hkeep _ fun d hd => (hmem d).1 hd, hkeep nodes fun d hd => hd, heq,
      byKey_filter (fun d : NodeDefinition => Path.depth d.path) nodes hdepth]
  · -- No node is as deep as that, so none is kept of either list.
    have hnone : ∀ d ∈ nodes, ¬keep d = true := by
      intro d hd hk
      have hlt := hbound d hd
      rw [h d hd hk] at hlt
      exact hdepth hlt
    have hnone' : ∀ d ∈ levels nodes, ¬keep d = true := fun d hd => hnone d ((hmem d).1 hd)
    rw [List.filter_eq_nil_iff.2 hnone, List.filter_eq_nil_iff.2 hnone']

end Fixture

/-! ## Adding nodes -/

namespace NodeDefinition

/-- The path of the node that a definition puts its node under; the root's definition has none. -/
def parent? (d : NodeDefinition) : Option String := (Path.split? d.path).map (·.1)

variable {d : NodeDefinition} {r s : Repository}

theorem parent?_cases (hn : Path.normalize d.path = .ok d.path) :
    (d.path = Path.root ∧ d.parent? = none) ∨
      ∃ parent name, Path.normalize parent = .ok parent ∧ Path.isName name.toList = true ∧
        d.path = Path.join parent name ∧ d.parent? = some parent := by
  by_cases hroot : d.path = Path.root
  · refine .inl ⟨hroot, ?_⟩
    rw [parent?, hroot]
    rfl
  · obtain ⟨parent, name, hp, hname, hj⟩ := Path.exists_join hn hroot
    refine .inr ⟨parent, name, hp, hname, hj, ?_⟩
    rw [parent?, hj, Path.split?_join hp hname]
    rfl

/-- A node is added if its path is new and its parent is there. -/
theorem create_eq_ok_iff (hn : Path.normalize d.path = .ok d.path) :
    d.create r = .ok s ↔ ∃ parent, d.parent? = some parent ∧ r.contains d.path = false ∧
      r.contains parent = true ∧ s = r.grow parent d.path d.kind := by
  unfold create
  rw [Except.map_eq_ok]
  rcases parent?_cases hn with ⟨hroot, hp⟩ | ⟨parent, name, hparent, hname, hj, hp⟩
  · rw [hp, hroot, Repository.addPath_root]
    simp
  · rw [hp, hj, Repository.addPath_join hparent hname]
    constructor
    · rintro ⟨⟨path, t⟩, ha, rfl⟩
      obtain ⟨q, -, hq, rfl, hnew, hc, rfl⟩ := Repository.addNode_eq_ok.1 ha
      rw [hparent] at hq
      cases hq
      exact ⟨parent, rfl, hnew, hc, rfl⟩
    · rintro ⟨_, ⟨⟩, hnew, hc, rfl⟩
      exact ⟨_, Repository.addNode_eq_ok.2 ⟨parent, hname, hparent, rfl, hnew, hc, rfl⟩, rfl⟩

end NodeDefinition

namespace Fixture

variable {r s t : Repository} {d : NodeDefinition} {nodes : List NodeDefinition}

/-- The nodes are below the root, no two in one place, and each hangs below the root or another one
of them, wherever this is listed. -/
structure Rooted (nodes : List NodeDefinition) : Prop where
  nodup : (nodes.map (·.path)).Nodup
  below : ∀ d ∈ nodes, d.path ≠ Path.root
  parents : ∀ d ∈ nodes, ∃ parent, d.parent? = some parent ∧
    (parent = Path.root ∨ parent ∈ nodes.map (·.path))

theorem Rooted.perm {other : List NodeDefinition} (hperm : other.Perm nodes) (h : Rooted nodes) :
    Rooted other where
  nodup := (hperm.map _).nodup_iff.2 h.nodup
  below d hd := h.below d (hperm.mem_iff.1 hd)
  parents d hd := by
    obtain ⟨parent, hp, hparent⟩ := h.parents d (hperm.mem_iff.1 hd)
    exact ⟨parent, hp, hparent.imp_right (hperm.map _).mem_iff.2⟩

theorem depth_of_parent? {parent : String} (hn : Path.normalize d.path = .ok d.path)
    (hp : d.parent? = some parent) : Path.depth d.path = Path.depth parent + 1 := by
  rcases NodeDefinition.parent?_cases hn with ⟨-, hnone⟩ | ⟨q, name, -, hname, hj, hq⟩
  · rw [hnone] at hp
    cases hp
  · rw [hq] at hp
    cases hp
    rw [hj, Path.depth_join hname]

/-- In a list by ascending depth a parent that is listed is listed before. -/
theorem mem_before {before after : List NodeDefinition} {parent : String}
    (hn : Path.normalize d.path = .ok d.path) (hp : d.parent? = some parent)
    (hsorted : (before ++ d :: after).Pairwise fun d e => Path.depth d.path ≤ Path.depth e.path)
    (hmem : parent ∈ (before ++ d :: after).map (·.path)) : parent ∈ before.map (·.path) := by
  have hdepth := depth_of_parent? hn hp
  obtain ⟨e, he, rfl⟩ := List.mem_map.1 hmem
  have hafter := (List.pairwise_append.1 hsorted).2.1
  rcases List.mem_append.1 he with he | he
  · exact List.mem_map_of_mem he
  · exfalso
    rcases List.mem_cons.1 he with rfl | he
    · omega
    · have hle := (List.pairwise_cons.1 hafter).1 e he
      omega

/-- **Level by level** nodes can be added to a root exactly if they are rooted. -/
theorem exists_create_eq_ok (hnormal : ∀ d ∈ nodes, Path.normalize d.path = .ok d.path)
    (hroot : ∀ q, r.contains q = true ↔ q = Path.root) :
    (∃ s, (levels nodes).foldlM (fun r d => d.create r) r = .ok s) ↔ Rooted nodes := by
  have hmem : ∀ d, d ∈ levels nodes ↔ d ∈ nodes := fun d => (levels_perm nodes).mem_iff
  have hcreate : ∀ d ∈ levels nodes, ∀ r : Repository, (∃ s, d.create r = .ok s) ↔
      d.parent?.isSome = true ∧ ¬r.contains d.path = true ∧
        ∀ q ∈ d.parent?.toList, r.contains q = true := by
    intro d hd r
    simp only [NodeDefinition.create_eq_ok_iff (hnormal d ((hmem d).1 hd))]
    cases d.parent? <;> simp
  have hadds : ∀ d ∈ levels nodes, ∀ r s : Repository, d.create r = .ok s → ∀ q,
      s.contains q = true ↔ q = d.path ∨ r.contains q = true := by
    intro d hd r s hs q
    obtain ⟨parent, -, -, -, rfl⟩ :=
      (NodeDefinition.create_eq_ok_iff (hnormal d ((hmem d).1 hd))).1 hs
    exact Repository.contains_grow ..
  rw [Except.exists_foldlM_eq_ok hcreate hadds]
  constructor
  · -- The conditions are read in the order of levels, and then hold in any.
    rintro ⟨hnodup, hfits, hbefore⟩
    refine Rooted.perm (levels_perm nodes).symm ⟨hnodup, fun d hd he => ?_, fun d hd => ?_⟩
    · exact (hfits d hd).2 ((hroot d.path).2 he)
    · obtain ⟨parent, hp⟩ := Option.isSome_iff_exists.1 (hfits d hd).1
      obtain ⟨before, after, heq⟩ := List.append_of_mem hd
      refine ⟨parent, hp, (hbefore before d after heq parent (by simp [hp])).imp (hroot parent).1
        fun hb => ?_⟩
      rw [heq, List.map_append]
      exact List.mem_append_left _ hb
  · intro h
    have h := h.perm (levels_perm nodes)
    refine ⟨h.nodup, fun d hd => ?_, fun before d after heq q hq => ?_⟩
    · obtain ⟨parent, hp, -⟩ := h.parents d hd
      exact ⟨by rw [hp]; rfl, fun hc => h.below d hd ((hroot d.path).1 hc)⟩
    · have hd : d ∈ levels nodes := by rw [heq]; simp
      obtain ⟨parent, hp, hparent⟩ := h.parents d hd
      have hq : q = parent := by simpa [hp] using hq
      rw [hq]
      refine hparent.imp (hroot parent).2 fun hm => ?_
      rw [heq] at hm
      exact mem_before (hnormal d ((hmem d).1 hd)) hp (heq ▸ levels_pairwise nodes) hm

/-! ## The nodes that were added -/

/-- The nodes of a list that hang below a path, in the order of the list. -/
def childrenIn (nodes : List NodeDefinition) (path : String) : List String :=
  (nodes.filter (·.parent? == some path)).map (·.path)

/-- What there is after nodes were added, on top of what there was. -/
structure Created (r : Repository) (nodes : List NodeDefinition) (s : Repository) : Prop where
  privileges : s.privileges = r.privileges
  policies : ∀ q, s.policyAt q = r.policyAt q
  contains : ∀ q, s.contains q = true ↔ q ∈ nodes.map (·.path) ∨ r.contains q = true
  listed : ∀ d ∈ nodes, s.kindOf d.path = some d.kind ∧ s.parentOf d.path = d.parent?
  others : ∀ q, q ∉ nodes.map (·.path) → s.kindOf q = r.kindOf q ∧ s.parentOf q = r.parentOf q
  children : ∀ q, s.childrenOf q = r.childrenOf q ++ childrenIn nodes q

theorem Created.one (hn : Path.normalize d.path = .ok d.path) (hc : d.create r = .ok s) :
    Created r [d] s := by
  obtain ⟨parent, hp, hnew, hparent, rfl⟩ := (NodeDefinition.create_eq_ok_iff hn).1 hc
  have hfind := Repository.contains_eq_false.1 hnew
  have hin : ∀ q, childrenIn [d] q = if parent = q then [d.path] else [] := by
    intro q
    unfold childrenIn
    rw [List.filter_cons, List.filter_nil, hp]
    by_cases hq : parent = q
    · rw [if_pos (by simp [hq]), if_pos hq]
      rfl
    · rw [if_neg (by simpa using hq), if_neg hq]
      rfl
  refine ⟨rfl, fun q => ?_, fun q => ?_, fun e he => ?_, fun q hq => ?_, fun q => ?_⟩
  · rw [Repository.policyAt_grow]
    split
    · rename_i hq
      rw [← hq, Repository.policyAt, hfind]
      rfl
    · rfl
  · rw [Repository.contains_grow]
    simp
  · rw [List.mem_singleton.1 he, Repository.parentOf_grow, if_pos rfl, hp, Repository.kindOf,
      Repository.find?_grow, if_pos rfl]
    exact ⟨rfl, rfl⟩
  · have hne : d.path ≠ q := fun he => hq (by simp [he])
    rw [Repository.parentOf_grow, if_neg hne, Repository.kindOf, Repository.kindOf,
      Repository.find?_grow, if_neg hne]
    refine ⟨?_, rfl⟩
    split
    · cases r.nodes.find? q <;> rfl
    · rfl
  · rw [Repository.childrenOf_grow _ _ _ hparent, hin]
    by_cases hq : d.path = q
    · have hne : parent ≠ q := by
        rintro rfl
        rw [hq, hparent] at hnew
        cases hnew
      rw [if_pos hq, if_neg hne, ← hq, Repository.childrenOf, hfind]
      rfl
    · rw [if_neg hq]
      split <;> simp

theorem Created.cons (h : Created r [d] s) (ht : Created s nodes t)
    (hd : d.path ∉ nodes.map (·.path)) : Created r (d :: nodes) t where
  privileges := ht.privileges.trans h.privileges
  policies q := (ht.policies q).trans (h.policies q)
  contains q := by
    rw [ht.contains, h.contains]
    simp [or_assoc, or_left_comm]
  listed e he := by
    rcases List.mem_cons.1 he with rfl | he
    · rw [(ht.others _ hd).1, (ht.others _ hd).2]
      exact h.listed e List.mem_cons_self
    · exact ht.listed e he
  others q hq := by
    rw [List.map_cons, List.mem_cons, not_or] at hq
    have hone := h.others q (by simpa using hq.1)
    exact ⟨(ht.others q hq.2).1.trans hone.1, (ht.others q hq.2).2.trans hone.2⟩
  children q := by
    rw [ht.children, h.children, List.append_assoc]
    unfold childrenIn
    rw [← List.map_append, ← List.filter_append, List.singleton_append]

/-- Nodes that are added one after the other are all there in the end, as they were listed. -/
theorem created (hnormal : ∀ d ∈ nodes, Path.normalize d.path = .ok d.path)
    (hnodup : (nodes.map (·.path)).Nodup)
    (h : nodes.foldlM (fun r d => d.create r) r = .ok s) : Created r nodes s := by
  induction nodes generalizing r with
  | nil =>
    cases h
    exact ⟨rfl, fun _ => rfl, fun q => by simp, fun _ hd => absurd hd List.not_mem_nil,
      fun _ _ => ⟨rfl, rfl⟩, fun q => (List.append_nil _).symm⟩
  | cons d nodes ih =>
    obtain ⟨hd, hnormal⟩ := List.forall_mem_cons.1 hnormal
    obtain ⟨hnot, hnodup⟩ := List.nodup_cons.1 hnodup
    rw [List.foldlM_cons] at h
    obtain ⟨r₁, hc, h⟩ := Except.bind_eq_ok.1 h
    exact (Created.one hd hc).cons (ih hnormal hnodup h) hnot

/-- Children stand in the order of the fixture. -/
theorem childrenIn_levels (hnormal : ∀ d ∈ nodes, Path.normalize d.path = .ok d.path)
    (path : String) : childrenIn (levels nodes) path = childrenIn nodes path := by
  unfold childrenIn
  rw [levels_filter]
  intro d hd hp
  exact depth_of_parent? (hnormal d hd) (by simpa using hp)

end Fixture

end AclTree
