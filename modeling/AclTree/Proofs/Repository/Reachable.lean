/-
The repositories that can come about (`Reachable`): from the initial one or a
loaded fixture, by adding nodes, registering privileges and carrying out
requests, under any settings and with any outcome.

Their nodes form a tree (`Reachable.isTree`), and every list they bind is as
`Acl.Canonical` has it (`Reachable.canonicalPolicies`).
-/
import AclTree.Proofs.Fixture
import AclTree.Proofs.Repository.Run

namespace AclTree.Repository

/-- What the initial repository or a loaded fixture can become. Steps that fail without giving a
repository leave the one before; a request goes on from what it left also where it fails. -/
inductive Reachable : Repository → Prop where
  | initial : Reachable .initial
  | loaded {f : Fixture} {r : Repository} : f.load = .ok r → Reachable r
  | addNode {r s : Repository} {parent name kind path : String} :
      Reachable r → r.addNode parent name kind = .ok (path, s) → Reachable s
  | addPath {r s : Repository} {path kind added : String} :
      Reachable r → r.addPath path kind = .ok (added, s) → Reachable s
  | registerPrivilege {r s : Repository} {name : String} {p : Privilege} :
      Reachable r → r.registerPrivilege name = .ok (p, s) → Reachable s
  | registerAggregate {r s : Repository} {name : String} {constituents : List String}
      {p : Privilege} :
      Reachable r → r.registerAggregate name constituents = .ok (p, s) → Reachable s
  | perform {r s : Repository} {settings : Settings} {request : Request}
      {out : Except AccessError Bool} :
      Reachable r → r.perform settings request = some (out, s) → Reachable s

/-- What the small steps keep holds of all reachable repositories. -/
theorem Reachable.keeps {I : Repository → Prop} (initial : I .initial)
    (addNode : ∀ {r s : Repository} {parent name kind path},
      I r → r.addNode parent name kind = .ok (path, s) → I s)
    (register : ∀ {r s : Repository} {p q}, I r → r.register p = .ok (q, s) → I s)
    (bind : ∀ {r : Repository} path {acl}, I r → acl.Canonical → I (r.withPolicy path (some acl)))
    (edit : ∀ {settings} r e path, I r → I (Repository.edit r settings e path).2)
    {r : Repository} (h : r.Reachable) : I r := by
  have addPath {r s : Repository} {path kind added : String} (hr : I r)
      (ha : r.addPath path kind = .ok (added, s)) : I s := by
    obtain ⟨parent, name, ha⟩ := addPath_eq_ok ha
    exact addNode hr ha
  induction h with
  | initial => exact initial
  | loaded h =>
    refine Fixture.load_keeps initial ?_ ?_ ?_ h
    · intro d r s hr hd
      obtain ⟨p, hd⟩ := PrivilegeDefinition.register_eq_ok hd
      exact register hr hd
    · intro d r s hr hd
      obtain ⟨path, hd⟩ := NodeDefinition.create_eq_ok hd
      exact addPath hr hd
    · intro d r s hr hd
      rcases NodeDefinition.bind_eq_ok hd with rfl | ⟨acl, hb, rfl⟩
      · exact hr
      · exact bind d.path hr (NodeDefinition.buildAcl_canonical hb)
  | addNode _ h ih => exact addNode ih h
  | addPath _ h ih => exact addPath ih h
  | registerPrivilege _ h ih => exact register ih h
  | registerAggregate _ h ih =>
    obtain ⟨parts, -, h⟩ := registerAggregate_eq_ok h
    exact register ih h
  | perform _ h ih => exact perform_keeps edit ih h

variable {r s : Repository}

/-! ## The tree -/

theorem IsTree.of_nodes (h : r.IsTree) (hn : s.nodes = r.nodes) : s.IsTree := by
  obtain ⟨nodes, privileges⟩ := r
  obtain ⟨nodes', privileges'⟩ := s
  cases hn
  exact ⟨h.root, h.below, h.nodup, h.mem_children⟩

theorem Reachable.isTree (h : r.Reachable) : r.IsTree := by
  refine h.keeps .initial (fun hr ha => hr.addNode ha) (fun hr hs => ?_)
    (fun path acl hr _ => hr.of_bare (bare_withPolicy ..)) fun r e path hr => hr.of_bare (bare_edit ..)
  obtain ⟨-, -, rfl⟩ := register_eq_ok hs
  exact hr.of_nodes rfl

/-! ## The lists -/

/-- The list bound to a node, if there is a node and it has one. -/
def policyAt (r : Repository) (path : String) : Option Acl := (r.nodes.find? path).bind (·.policy)

/-- Every list that is bound is canonical. -/
def CanonicalPolicies (r : Repository) : Prop := ∀ path acl, r.policyAt path = some acl → acl.Canonical

theorem policy_eq_ok {path : String} {acl : Acl} :
    r.policy path = .ok (some acl) ↔ r.policyAt path = some acl := by
  unfold policy policyAt node
  cases r.nodes.find? path <;> simp [Except.map]

theorem policyAt_of_find? {path : String} {node : Node} (hf : r.nodes.find? path = some node) :
    r.policyAt path = node.policy := by
  rw [policyAt, hf]
  rfl

theorem policyAt_withPolicy {path q : String} {policy : Option Acl} {acl : Acl}
    (h : (r.withPolicy path policy).policyAt q = some acl) :
    policy = some acl ∨ r.policyAt q = some acl := by
  unfold policyAt at h ⊢
  rw [find?_withPolicy] at h
  split at h
  · cases hf : r.nodes.find? q with
    | none => rw [hf] at h; cases h
    | some node => rw [hf] at h; exact .inl h
  · exact .inr h

theorem policyAt_withPolicy_of_contains {path : String} (hc : r.contains path = true)
    (policy : Option Acl) (q : String) :
    (r.withPolicy path policy).policyAt q = if path = q then policy else r.policyAt q := by
  unfold policyAt
  rw [find?_withPolicy]
  by_cases hq : path = q
  · obtain ⟨node, hf⟩ := contains_iff_find?.1 hc
    rw [if_pos hq, if_pos hq, ← hq, hf]
    rfl
  · rw [if_neg hq, if_neg hq]

theorem policyAt_grow (r : Repository) (parent path kind q : String) :
    (r.grow parent path kind).policyAt q = if path = q then none else r.policyAt q := by
  unfold policyAt
  rw [find?_grow]
  by_cases hq : path = q
  · rw [if_pos hq, if_pos hq]; rfl
  · rw [if_neg hq, if_neg hq]
    split
    · cases r.nodes.find? q <;> rfl
    · rfl

namespace CanonicalPolicies

variable (h : r.CanonicalPolicies)
include h

theorem withPolicy (path : String) {policy : Option Acl}
    (hp : ∀ acl, policy = some acl → acl.Canonical) : (r.withPolicy path policy).CanonicalPolicies :=
  fun q acl hq => (policyAt_withPolicy hq).elim (hp acl) (h q acl)

theorem grow (parent path kind : String) : (r.grow parent path kind).CanonicalPolicies := by
  intro q acl hq
  rw [policyAt_grow] at hq
  split at hq
  · cases hq
  · exact h q acl hq

end CanonicalPolicies

theorem CanonicalPolicies.edit {settings : Settings} (h : r.CanonicalPolicies) (e : Edit)
    (path : String) : (r.edit settings e path).2.CanonicalPolicies := by
  rcases edit_cases r settings e path with he | ⟨node, policy, changed, hf, ho, he⟩ <;> rw [he]
  · exact h
  · refine h.withPolicy path (Edit.outcome_canonical (fun acl ha => h path acl ?_) ho)
    rw [policyAt_of_find? hf, ha]

theorem policyAt_initial (path : String) : Repository.initial.policyAt path = none := by
  rw [policyAt, find?_initial]
  split <;> rfl

theorem CanonicalPolicies.initial : Repository.initial.CanonicalPolicies := by
  intro path acl h
  rw [policyAt_initial] at h
  cases h

theorem Reachable.canonicalPolicies (h : r.Reachable) : r.CanonicalPolicies := by
  refine h.keeps .initial (fun hr ha => ?_) (fun hr hs => ?_) (fun path acl hr ha => ?_)
    fun r e path hr => hr.edit e path
  · obtain ⟨p, -, -, -, -, -, rfl⟩ := addNode_eq_ok.1 ha
    exact hr.grow _ _ _
  · obtain ⟨-, -, rfl⟩ := register_eq_ok hs
    exact hr
  · refine hr.withPolicy path fun acl' h' => ?_
    cases h'
    exact ha

/-- **Lists keep their form**: whatever was asked of it and however that ended, what a reachable
repository binds has at most one entry of each principal, and no entry that is empty or that holds
two privileges of one name. -/
theorem Reachable.bound_canonical (h : r.Reachable) {path : String} {acl : Acl}
    (hp : r.policy path = .ok (some acl)) :
    acl.principals.Nodup ∧ ∀ e ∈ acl.entries, e.privileges ≠ [] ∧ e.privilegeNames.Nodup := by
  obtain ⟨hprincipals, hnonempty, hnames⟩ := h.canonicalPolicies path acl (policy_eq_ok.1 hp)
  exact ⟨hprincipals, fun e he => ⟨hnonempty e he, hnames e he⟩⟩

/-- The administrator is granted a privilege twice on a node without a list, where it is also put
on the list first. -/
theorem bound_canonical_seeded_admin : ∃ r acl,
    Repository.initial.perform {} (.grant Path.root ⟨"admin"⟩ [Privilege.read, Privilege.read]) =
      some (.ok true, r) ∧
    r.policy Path.root = .ok (some acl) ∧ acl.principals = ["admin"] ∧
    acl.principals.Nodup ∧ ∀ e ∈ acl.entries, e.privileges ≠ [] ∧ e.privilegeNames.Nodup := by
  have reach : ∀ r, Repository.initial.perform {} (.grant Path.root ⟨"admin"⟩
      [Privilege.read, Privilege.read]) = some (.ok true, r) → r.Reachable :=
    fun _ h => .perform .initial h
  refine ⟨_, _, rfl, rfl, rfl, ?_⟩
  exact @Reachable.bound_canonical _ (reach _ rfl) Path.root _ rfl

end AclTree.Repository
