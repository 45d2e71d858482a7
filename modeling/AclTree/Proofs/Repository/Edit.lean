/-
Operations on single nodes as data. An `Edit` takes the list that a node has,
or that it has none, to what it has afterwards (`Edit.outcome`), and
`Repository.edit` binds that. So an edit that fails leaves the repository as it
was, and none touches another node, or the tree.
-/
import AclTree.Proofs.Acl.Canonical
import AclTree.Proofs.Engine.Run
import AclTree.Proofs.Except
import AclTree.Proofs.Repository.Tree

namespace AclTree

/-- What the engine does on a single node, once privileges are looked up. -/
inductive Edit where
  | grant (who : Principal) (privileges : List Privilege)
  | revoke (who : Principal) (privileges : List Privilege)
  | clear

namespace Edit

def operation : Edit → Operation
  | grant .. => .grant
  | revoke .. => .revoke
  | clear => .clear

def privileges : Edit → List Privilege
  | grant _ privileges => privileges
  | revoke _ privileges => privileges
  | clear => []

/-- An edit that asks for nothing; it does not even look for its node. -/
def isVoid : Edit → Bool
  | grant _ privileges => privileges.isEmpty
  | revoke _ privileges => privileges.isEmpty
  | clear => false

theorem isVoid_grant {who : Principal} {privileges : List Privilege} :
    (grant who privileges).isVoid = false ↔ privileges ≠ [] := List.isEmpty_eq_false_iff

theorem isVoid_revoke {who : Principal} {privileges : List Privilege} :
    (revoke who privileges).isVoid = false ↔ privileges ≠ [] := List.isEmpty_eq_false_iff

/-- A list as a grant finds it, and whether the administrator was put on it first. -/
def seeded (s : Settings) (find : String → Option Privilege) (acl : Acl) :
    Except AccessError (Acl × Bool) :=
  if acl.isEmpty then
    match find s.allPrivilege with
    | some p => .ok (acl.add ⟨s.admin⟩ [p])
    | none => .error (.unknownPrivilege s.allPrivilege)
  else
    .ok (acl, false)

/-- What becomes of the list of a node, and whether that is a change. -/
def outcome (s : Settings) (find : String → Option Privilege) :
    Edit → Option Acl → Except AccessError (Option Acl × Bool)
  | grant who privileges, policy => do
    let (acl, seeded) ← seeded s find (policy.getD .empty)
    let (acl, added) := acl.add who privileges
    s.check acl
    pure (some acl, seeded || added)
  | revoke _ _, none => pure (none, false)
  | revoke who privileges, some bound =>
    let (acl, changed) := bound.take who privileges
    if changed then do
      s.check acl
      pure (some acl, true)
    else
      pure (some bound, false)
  | clear, policy => pure (none, policy.isSome)

section Inversion

variable {s : Settings} {find : String → Option Privilege} {who : Principal}
  {privileges : List Privilege} {policy policy' : Option Acl} {changed : Bool}

theorem outcome_grant_eq_ok
    (h : (Edit.grant who privileges).outcome s find policy = .ok (policy', changed)) :
    ∃ start new, seeded s find (policy.getD .empty) = .ok (start, new) ∧
      s.check (start.add who privileges).1 = .ok () ∧
      policy' = some (start.add who privileges).1 ∧
      changed = (new || (start.add who privileges).2) := by
  obtain ⟨⟨start, new⟩, hs, h⟩ := Except.bind_eq_ok.1 h
  obtain ⟨_, hc, h⟩ := Except.bind_eq_ok.1 h
  have hout := Prod.mk.inj (Except.ok.inj h)
  exact ⟨start, new, hs, hc, hout.1.symm, hout.2.symm⟩

theorem outcome_revoke_eq_ok {bound : Acl}
    (h : (Edit.revoke who privileges).outcome s find (some bound) = .ok (policy', changed)) :
    (changed = true ∧ (bound.take who privileges).2 = true ∧
      s.check (bound.take who privileges).1 = .ok () ∧
      policy' = some (bound.take who privileges).1) ∨
    (changed = false ∧ (bound.take who privileges).2 = false ∧ policy' = some bound) := by
  simp only [outcome] at h
  split at h
  · rename_i hch
    obtain ⟨_, hc, h⟩ := Except.bind_eq_ok.1 h
    have hout := Prod.mk.inj (Except.ok.inj h)
    exact .inl ⟨hout.2.symm, hch, hc, hout.1.symm⟩
  · rename_i hch
    have hout := Prod.mk.inj (Except.ok.inj h)
    exact .inr ⟨hout.2.symm, by simpa using hch, hout.1.symm⟩

end Inversion

section Canonical

variable {s : Settings} {find : String → Option Privilege}

theorem seeded_canonical {acl acl' : Acl} {new : Bool} (h : acl.Canonical)
    (hs : seeded s find acl = .ok (acl', new)) : acl'.Canonical := by
  unfold seeded at hs
  split at hs
  · split at hs
    · rename_i p _
      have hacl : (acl.add ⟨s.admin⟩ [p]).1 = acl' := congrArg Prod.fst (Except.ok.inj hs)
      rw [← hacl]
      exact h.add _ _
    · cases hs
  · cases hs; exact h

/-- Edits make canonical lists of such. -/
theorem outcome_canonical {e : Edit} {policy policy' : Option Acl} {changed : Bool}
    (h : ∀ acl, policy = some acl → acl.Canonical)
    (ho : e.outcome s find policy = .ok (policy', changed)) :
    ∀ acl, policy' = some acl → acl.Canonical := by
  intro acl ha
  cases e with
  | grant who privileges =>
    obtain ⟨start, new, hs, -, rfl, -⟩ := outcome_grant_eq_ok ho
    have hstart : (policy.getD .empty).Canonical := by
      cases policy with
      | none => exact .empty
      | some acl => exact h acl rfl
    cases ha
    exact (seeded_canonical hstart hs).add who privileges
  | revoke who privileges =>
    cases policy with
    | none => cases ho; cases ha
    | some bound =>
      have hb := h bound rfl
      rcases outcome_revoke_eq_ok ho with ⟨-, -, -, rfl⟩ | ⟨-, -, rfl⟩ <;> cases ha
      · exact hb.take who privileges
      · exact hb
  | clear => cases ho; cases ha

end Canonical

end Edit

namespace Repository

/-- Carries out an edit on a node of a repository. -/
def edit (r : Repository) (s : Settings) (edit : Edit) (path : String) :
    Except AccessError Bool × Repository :=
  if edit.isVoid then
    (.ok false, r)
  else
    match r.nodes.find? path with
    | some node =>
      match edit.outcome s r.findPrivilege? node.policy with
      | .ok (policy, changed) => (.ok changed, r.withPolicy path policy)
      | .error e => (.error e, r)
    | none =>
      (.error (.repositoryAccess (some path) edit.operation (Privilege.names edit.privileges)
        (.nodeNotFound path)), r)

variable {r r' s : Repository} {settings : Settings} {path : String}

theorem setPolicy_eq_ok {acl : Acl} (h : r.setPolicy path acl = .ok s) :
    s = r.withPolicy path (some acl) := by
  obtain ⟨node, -, rfl⟩ := Except.map_eq_ok.1 h
  rfl

theorem removePolicy_eq_ok {acl : Acl} (h : r.removePolicy path acl = .ok s) :
    s = r.withPolicy path none := by
  obtain ⟨node, -, h⟩ := Except.bind_eq_ok.1 h
  split at h
  · split at h
    · exact (Except.ok.inj h).symm
    · cases h
  · cases h

/-! ## Edits by their outcome -/

theorem withPolicy_same {node : Node} (hf : r.nodes.find? path = some node) :
    r.withPolicy path node.policy = r := by
  have h : r.nodes.modify path (fun nd => { nd with policy := node.policy }) = r.nodes := by
    refine PathMap.modify_same fun nd hnd => ?_
    rw [hf] at hnd
    cases hnd
    rfl
  exact congrArg (Repository.mk · r.privileges) h

section Outcome

variable {e : Edit}

theorem edit_void (hv : e.isVoid = true) : r.edit settings e path = (.ok false, r) := by
  unfold Repository.edit
  rw [if_pos hv]

theorem edit_missing (hv : e.isVoid = false) (hf : r.nodes.find? path = none) :
    r.edit settings e path =
      (.error (.repositoryAccess path e.operation (Privilege.names e.privileges)
        (.nodeNotFound path)), r) := by
  unfold Repository.edit
  rw [hv, hf]
  rfl

theorem edit_found {node : Node} (hv : e.isVoid = false)
    (hf : r.nodes.find? path = some node) :
    r.edit settings e path =
      match e.outcome settings r.findPrivilege? node.policy with
      | .ok (policy, changed) => (.ok changed, r.withPolicy path policy)
      | .error err => (.error err, r) := by
  unfold Repository.edit
  rw [hv, hf]
  rfl

/-- An edit that succeeds asks for nothing, or binds its outcome. -/
theorem edit_eq_ok {changed : Bool} (h : r.edit settings e path = (.ok changed, r')) :
    (e.isVoid = true ∧ changed = false ∧ r' = r) ∨
      ∃ node policy, e.isVoid = false ∧ r.nodes.find? path = some node ∧
        e.outcome settings r.findPrivilege? node.policy = .ok (policy, changed) ∧
        r' = r.withPolicy path policy := by
  cases hv : e.isVoid with
  | true =>
    rw [edit_void hv] at h
    cases h
    exact .inl ⟨rfl, rfl, rfl⟩
  | false =>
    cases hf : r.nodes.find? path with
    | none => rw [edit_missing hv hf] at h; cases h
    | some node =>
      rw [edit_found hv hf] at h
      split at h
      · rename_i policy now ho
        cases h
        exact .inr ⟨node, policy, rfl, rfl, ho, rfl⟩
      · cases h

/-- An edit that fails leaves the repository as it was. -/
theorem edit_eq_error {err : AccessError} (h : r.edit settings e path = (.error err, r')) :
    r' = r := by
  unfold Repository.edit at h
  split at h
  · cases h
  split at h
  · split at h
    · cases h
    · cases h; rfl
  · cases h; rfl

/-- An edit leaves the repository as it was or replaces one node's list. -/
theorem edit_cases (r : Repository) (settings : Settings) (e : Edit) (path : String) :
    (r.edit settings e path).2 = r ∨ ∃ node policy changed, r.nodes.find? path = some node ∧
      e.outcome settings r.findPrivilege? node.policy = .ok (policy, changed) ∧
      (r.edit settings e path).2 = r.withPolicy path policy := by
  rcases h : r.edit settings e path with ⟨err | changed, r'⟩
  · exact .inl (edit_eq_error h)
  · rcases edit_eq_ok h with ⟨-, -, rfl⟩ | ⟨node, policy, -, hf, ho, rfl⟩
    · exact .inl rfl
    · exact .inr ⟨node, policy, changed, hf, ho, rfl⟩

@[simp] theorem bare_edit (r : Repository) (settings : Settings) (e : Edit) (path : String) :
    (r.edit settings e path).2.bare = r.bare := by
  rcases edit_cases r settings e path with h | ⟨-, policy, -, -, -, h⟩ <;> rw [h]
  exact bare_withPolicy r path policy

theorem find?_withPolicy (r : Repository) (path q : String) (policy : Option Acl) :
    (r.withPolicy path policy).nodes.find? q =
      if path = q then (r.nodes.find? q).map ({ · with policy }) else r.nodes.find? q :=
  PathMap.find?_modify ..

theorem find?_edit_of_ne {q : String} (hne : path ≠ q) :
    (r.edit settings e path).2.nodes.find? q = r.nodes.find? q := by
  rcases edit_cases r settings e path with h | ⟨-, policy, -, -, -, h⟩ <;> rw [h]
  rw [find?_withPolicy, if_neg hne]

/-- What an edit does at a node depends on what is there and on the registry alone. -/
theorem edit_local {q : String} (hf : s.nodes.find? q = r.nodes.find? q)
    (hp : s.findPrivilege? = r.findPrivilege?) :
    (s.edit settings e q).1 = (r.edit settings e q).1 ∧
      (s.edit settings e q).2.nodes.find? q = (r.edit settings e q).2.nodes.find? q := by
  cases hv : e.isVoid with
  | true =>
    rw [edit_void hv, edit_void hv]
    exact ⟨rfl, hf⟩
  | false =>
    cases hn : r.nodes.find? q with
    | none =>
      rw [hn] at hf
      rw [edit_missing hv hn, edit_missing hv hf]
      exact ⟨rfl, by rw [hf, hn]⟩
    | some node =>
      rw [hn] at hf
      rw [edit_found hv hn, edit_found hv hf, hp]
      cases e.outcome settings r.findPrivilege? node.policy with
      | error err => exact ⟨rfl, by rw [hf, hn]⟩
      | ok out =>
        refine ⟨rfl, ?_⟩
        rw [find?_withPolicy, find?_withPolicy, if_pos rfl, if_pos rfl, hf, hn]

/-- What an edit does at a node is the same after an edit at another node. -/
theorem edit_after {settings' : Settings} {e' : Edit} {q : String} (hne : path ≠ q) :
    ((r.edit settings e path).2.edit settings' e' q).1 = (r.edit settings' e' q).1 ∧
      ((r.edit settings e path).2.edit settings' e' q).2.nodes.find? q =
        (r.edit settings' e' q).2.nodes.find? q :=
  edit_local (find?_edit_of_ne hne) (findPrivilege?_of_bare (bare_edit ..))

end Outcome

end Repository
end AclTree
