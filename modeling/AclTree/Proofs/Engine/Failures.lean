/-
When operations on a single node of a repository fail, and with what. There are
few causes, and each is looked at only where those before it are not met
(`Repository.GrantFails`, `Repository.RevokeFails`). An operation that fails
leaves the repository as it was (`Repository.fails_exactly`).

What is bound is always what is unbound, so storage refuses no request, however
far it reaches (`Repository.perform_spares`).
-/
import AclTree.Proofs.Engine.Course
import AclTree.Proofs.Engine.Stages
import AclTree.Proofs.Repository.Outcomes

namespace AclTree

/-- The host could not store, or found something else stored than it was told. -/
def AccessError.OfStorage (err : AccessError) : Prop :=
  ∃ path operation names reason, err = .repositoryAccess path operation names (.storage reason)

namespace Repository

open Privilege (names)

/-! ## Causes -/

/-- Why a grant fails: there is no node, the administrator is to be put on the list and cannot be, or
the list that the grant comes to would be frozen. -/
inductive GrantFails (r : Repository) (settings : Settings) (path : String) (who : Principal)
    (privileges : List Privilege) : AccessError → Prop where
  | missing :
      r.contains path = false →
      GrantFails r settings path who privileges
        (.repositoryAccess path .grant (names privileges) (.nodeNotFound path))
  | unseeded :
      r.contains path = true → r.entriesAt path = [] →
      r.findPrivilege? settings.allPrivilege = none →
      GrantFails r settings path who privileges (.unknownPrivilege settings.allPrivilege)
  | frozen {base : List Entry} :
      r.contains path = true → r.Base settings path base → settings.enforce = true →
      Acl.isFrozen ⟨Acl.granted who privileges base⟩ settings.modifyPrivilege = true →
      GrantFails r settings path who privileges
        (.frozenAcl (Acl.principals ⟨Acl.granted who privileges base⟩))

/-- Why a revoke fails: there is no node, or something is taken and the list without it would be
frozen; a list that nothing is left of is not. -/
inductive RevokeFails (r : Repository) (settings : Settings) (path : String) (who : Principal)
    (privileges : List Privilege) : AccessError → Prop where
  | missing :
      r.contains path = false →
      RevokeFails r settings path who privileges
        (.repositoryAccess path .revoke (names privileges) (.nodeNotFound path))
  | frozen {bound : Acl} :
      r.policyAt path = some bound → (∃ e ∈ bound.entries, e.Loses who (names privileges)) →
      settings.enforce = true →
      (bound.revoked who (names privileges)).isFrozen settings.modifyPrivilege = true →
      RevokeFails r settings path who privileges
        (.frozenAcl (bound.revoked who (names privileges)).principals)

variable {r s : Repository} {settings : Settings} {path : String} {who : Principal}
  {privileges : List Privilege} {err : AccessError}

section Edits

variable (hne : privileges ≠ [])
include hne

theorem edit_grant_eq_error : r.edit settings (.grant who privileges) path = (.error err, s) ↔
    r.GrantFails settings path who privileges err ∧ s = r := by
  have hv : (Edit.grant who privileges).isVoid = false := Edit.isVoid_grant.2 hne
  constructor
  · intro h
    refine ⟨?_, edit_eq_error h⟩
    cases hc : r.contains path with
    | false =>
      rw [edit_missing hv (contains_eq_false.1 hc)] at h
      cases h
      exact .missing hc
    | true =>
      rcases base_or_unseeded r settings path with ⟨base, hb⟩ | ⟨hempty, hnone⟩
      · rw [edit_grant_base hne hc hb, Acl.add_eq_granted _ who hne, bindChecked_eq_error] at h
        obtain ⟨⟨henforce, hfrozen, rfl⟩, -⟩ := h
        exact .frozen hc hb henforce hfrozen
      · rw [edit_grant_unseeded hne hc hempty hnone] at h
        cases h
        exact .unseeded hc hempty hnone
  · rintro ⟨hfails, rfl⟩
    cases hfails with
    | missing hc => exact edit_missing hv (contains_eq_false.1 hc)
    | unseeded hc hempty hnone => exact edit_grant_unseeded hne hc hempty hnone
    | frozen hc hb henforce hfrozen =>
      rw [edit_grant_base hne hc hb, Acl.add_eq_granted _ who hne, bindChecked_eq_error]
      exact ⟨⟨henforce, hfrozen, rfl⟩, rfl⟩

theorem edit_revoke_eq_error : r.edit settings (.revoke who privileges) path = (.error err, s) ↔
    r.RevokeFails settings path who privileges err ∧ s = r := by
  have hv : (Edit.revoke who privileges).isVoid = false := Edit.isVoid_revoke.2 hne
  constructor
  · intro h
    refine ⟨?_, edit_eq_error h⟩
    cases hc : r.contains path with
    | false =>
      rw [edit_missing hv (contains_eq_false.1 hc)] at h
      cases h
      exact .missing hc
    | true =>
      cases hp : r.policyAt path with
      | none =>
        rw [edit_revoke_unbound hc hp] at h
        cases h
      | some bound =>
        rw [edit_revoke_bound hne hp, Acl.take_eq_revoked] at h
        split at h
        · rename_i hchanged
          obtain ⟨⟨henforce, hfrozen, rfl⟩, -⟩ := bindChecked_eq_error.1 h
          exact .frozen hp ((Acl.take_changed_iff_loses ..).1 hchanged) henforce hfrozen
        · cases h
  · rintro ⟨hfails, rfl⟩
    cases hfails with
    | missing hc => exact edit_missing hv (contains_eq_false.1 hc)
    | frozen hp hloses henforce hfrozen =>
      rw [edit_revoke_bound hne hp, if_pos ((Acl.take_changed_iff_loses ..).2 hloses),
        Acl.take_eq_revoked, bindChecked_eq_error]
      exact ⟨⟨henforce, hfrozen, rfl⟩, rfl⟩

end Edits

/-- To clear a node only the node is needed: the list that is unbound is the one that was read. -/
theorem edit_clear_eq_error : r.edit settings .clear path = (.error err, s) ↔
    (r.contains path = false ∧ err = .repositoryAccess path .clear [] (.nodeNotFound path)) ∧
      s = r := by
  cases hf : r.nodes.find? path with
  | none =>
    rw [edit_missing rfl hf, contains_eq_false, Prod.mk.injEq, Except.error.injEq, eq_comm,
      @eq_comm _ r s]
    simp only [hf, true_and]
    rfl
  | some node =>
    rw [edit_found rfl hf, contains_eq_false, hf]
    exact iff_of_false nofun nofun

/-! ## Storage -/

/-- The work does not fail for the storage of the repository. -/
def Spares {α : Type} (x : Action Repository α) : Prop :=
  Action.Triple (fun _ => True) x (fun _ _ => True) fun err _ => ¬err.OfStorage

section Calls

variable (settings : Settings) (operation : Operation) (privilegeNames : List String)
  (path : String)

/-- What is read off a node is told of as missing at worst. -/
theorem access_spares {α : Type} {node : String} {call : HostCall Repository α} {f : Node → α}
    (hcall : ∀ r, call r = ((r.node node).map f, r)) :
    Spares (Engine.access path operation privilegeNames call) := by
  intro r _
  cases hn : r.node node with
  | ok found =>
    have hread := hcall r
    rw [hn] at hread
    rw [Engine.access_ok hread]
    trivial
  | error err =>
    have hread := hcall r
    rw [hn] at hread
    rw [Engine.access_error hread]
    have herr : err = .nodeNotFound node := by
      unfold Repository.node at hn
      split at hn
      · cases hn
      · exact (Except.error.inj hn).symm
    rw [herr]
    rintro ⟨_, _, _, _, h⟩
    cases h

theorem parentOf_spares :
    Spares ((Engine.mk host settings).parentOf operation privilegeNames path) := by
  refine (access_spares operation privilegeNames path (parent_run path)).bind fun parent => ?_
  cases parent with
  | some parent => exact .pure fun _ _ => trivial
  | none =>
    refine .throw fun _ _ => ?_
    rintro ⟨_, _, _, _, h⟩
    cases h

theorem matchingChildren_spares (accepts : String → Bool) :
    Spares ((Engine.mk host settings).matchingChildren operation privilegeNames accepts path) :=
  (access_spares operation privilegeNames path (children_run path)).bind fun children =>
    .filterM (fun _ =>
      (access_spares operation privilegeNames path (f := (·.kind)) fun _ => rfl).bind fun _ =>
        .pure fun _ _ => trivial) children

theorem resolveAt_spares (names : List String) :
    Spares ((Engine.mk host settings).resolveAt path names) := by
  intro r _
  rw [resolveAt_run]
  cases hl : r.lookup names with
  | ok privileges => trivial
  | error err =>
    obtain ⟨name, -, -, rfl⟩ := lookup_eq_error hl
    rintro ⟨_, _, _, _, h⟩
    cases h

/-- An edit writes to a node that it has found, and unbinds the list that it has found there. -/
theorem edit_spares (e : Edit) : Spares ((Engine.mk host settings).edit e path) := by
  intro r _
  rw [edit_run]
  rcases hedit : r.edit settings e path with ⟨err | changed, s⟩
  · rintro ⟨_, _, _, _, rfl⟩
    cases hv : e.isVoid with
    | true =>
      rw [edit_void hv] at hedit
      cases hedit
    | false =>
      cases e with
      | grant who privileges =>
        cases ((edit_grant_eq_error (Edit.isVoid_grant.1 hv)).1 hedit).1
      | revoke who privileges =>
        cases ((edit_revoke_eq_error (Edit.isVoid_revoke.1 hv)).1 hedit).1
      | clear => cases (edit_clear_eq_error.1 hedit).1.2
  · trivial

end Calls

/-- Storage refuses no request. -/
theorem perform_spares (settings : Settings) (limit : Nat) (request : Request) :
    Walk.Triple (fun _ => True) ((Engine.mk host settings).perform limit request)
      (fun _ _ => True) fun err _ => ¬err.OfStorage := by
  have hforeign : ∀ start target (r : Repository), True →
      ¬(AccessError.invalidHierarchy start target).OfStorage := by
    rintro start target r - ⟨_, _, _, _, h⟩
    cases h
  have hready : Walk.Triple (fun _ => True) ((Engine.mk host settings).ready limit request)
      (fun _ _ => True) fun err _ => ¬err.OfStorage :=
    Engine.ready_triple (fun path _ => parentOf_spares settings _ _ path) hforeign
  refine (Engine.perform_triple (J := fun _ _ => True) hready
    (resolveAt_spares settings _ request.names) (fun _ _ _ => trivial) fun privileges way => ?_).mono
      (fun _ => id) (fun _ _ _ => trivial) fun _ _ => id
  exact Engine.spread_triple (fun path => edit_spares settings path _)
    (fun path _ => parentOf_spares settings _ _ path)
    (fun accepts path => matchingChildren_spares settings _ _ path accepts) hforeign way

/-! ## All failures -/

/-- **When operations on a node fail**: for the causes listed and no others, with the error of the
first that is met, and the repository stays as it was. Privileges that are none at all are given and
taken everywhere. No operation, on however many nodes, finds a list unbound that it means to unbind. -/
theorem fails_exactly (r : Repository) (settings : Settings) (path : String) (who : Principal)
    (privileges : List Privilege) :
    (privileges = [] →
      (Engine.mk host settings).grant path who privileges r = (.ok false, r) ∧
      (Engine.mk host settings).revoke path who privileges r = (.ok false, r)) ∧
    (privileges ≠ [] → ∀ err s,
      ((Engine.mk host settings).grant path who privileges r = (.error err, s) ↔
        r.GrantFails settings path who privileges err ∧ s = r) ∧
      ((Engine.mk host settings).revoke path who privileges r = (.error err, s) ↔
        r.RevokeFails settings path who privileges err ∧ s = r)) ∧
    (∀ err s, (Engine.mk host settings).clear path r = (.error err, s) ↔
      (r.contains path = false ∧
        err = .repositoryAccess path .clear [] (.nodeNotFound path)) ∧ s = r) ∧
    ∀ limit request err s,
      (Engine.mk host settings).perform limit request r = some (.error err, s) →
        ¬err.OfStorage := by
  refine ⟨fun hempty => ?_, fun hne err s => ?_, fun err s => ?_, fun limit request err s h => ?_⟩
  · rw [grant_run, revoke_run, hempty]
    exact ⟨edit_void rfl, edit_void rfl⟩
  · rw [grant_run, revoke_run]
    exact ⟨edit_grant_eq_error hne, edit_revoke_eq_error hne⟩
  · rw [clear_run]
    exact edit_clear_eq_error
  · exact perform_spares settings limit request r _ s trivial h

/-- On a list that is frozen already: a grant of what is held is refused, and a revoke that leaves the
list as it is goes through. Of a node that is missing, only what asks for nothing does not care. -/
theorem fails_exactly_frozen_root : ∃ r : Repository,
    r.policyAt "/" = some ⟨[⟨⟨"v"⟩, [.simple "x"]⟩, ⟨⟨"u"⟩, [.simple "own"]⟩]⟩ ∧
    (Engine.mk host { enforce := true }).grant "/" ⟨"u"⟩ [.simple "own"] r =
      (.error (.frozenAcl ["v", "u"]), r) ∧
    (Engine.mk host { enforce := true }).revoke "/" ⟨"v"⟩ [.simple "y", .simple "x"] r =
      (.error (.frozenAcl ["u"]), r) ∧
    (∀ err s, (Engine.mk host { enforce := true }).revoke "/" ⟨"v"⟩ [.simple "own"] r ≠
      (.error err, s)) ∧
    (Engine.mk host { enforce := true }).grant "/a" ⟨"u"⟩ [] r = (.ok false, r) ∧
    (Engine.mk host { enforce := true }).clear "/a" r =
      (.error (.repositoryAccess "/a" .clear [] (.nodeNotFound "/a")), r) := by
  let r := initial.withPolicy "/" (some ⟨[⟨⟨"v"⟩, [.simple "x"]⟩, ⟨⟨"u"⟩, [.simple "own"]⟩]⟩)
  have hp : r.policyAt "/" = some ⟨[⟨⟨"v"⟩, [.simple "x"]⟩, ⟨⟨"u"⟩, [.simple "own"]⟩]⟩ := rfl
  have hentries : r.entriesAt "/" ≠ [] := by
    rw [entriesAt, hp]
    exact List.cons_ne_nil _ _
  have hfails := fun path who privileges =>
    fails_exactly r { enforce := true } path who privileges
  refine ⟨r, hp, ?_, ?_, fun err s h => ?_, ?_, ?_⟩
  · refine (((hfails "/" ⟨"u"⟩ [.simple "own"]).2.1 (List.cons_ne_nil _ _) _ _).1).2 ⟨?_, rfl⟩
    exact .frozen rfl (.found hentries) rfl rfl
  · refine (((hfails "/" ⟨"v"⟩ [.simple "y", .simple "x"]).2.1 (List.cons_ne_nil _ _) _ _).2).2
      ⟨?_, rfl⟩
    exact .frozen hp ⟨_, List.mem_cons_self, rfl, "x", by decide, by decide⟩ rfl rfl
  · obtain ⟨hcause, -⟩ :=
      (((hfails "/" ⟨"v"⟩ [.simple "own"]).2.1 (List.cons_ne_nil _ _) _ _).2).1 h
    cases hcause with
    | missing hc => cases hc
    | frozen hbound hloses =>
      cases hp.symm.trans hbound
      revert hloses
      decide
  · exact ((hfails "/a" ⟨"u"⟩ []).1 rfl).1
  · exact ((hfails "/a" ⟨"u"⟩ []).2.2.1 _ _).2 ⟨⟨rfl, rfl⟩, rfl⟩

end Repository
end AclTree
