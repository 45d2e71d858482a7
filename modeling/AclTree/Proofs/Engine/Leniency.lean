/-
Engines that refuse frozen lists beside engines that do not. As long as nothing
is refused the two do the same (`perform_lenient`). Where the administrator's
privilege implies the one to change lists, grants and clears freeze no list, so
nothing is refused of them (`Live.lenient_agrees`).
-/
import AclTree.Proofs.Acl.Holds
import AclTree.Proofs.Engine.Course
import AclTree.Proofs.Engine.Ends
import AclTree.Proofs.Engine.Enforcement
import AclTree.Proofs.Repository.Registry

namespace AclTree

/-! ## Two settings -/

namespace Settings

/-- The settings, with frozen lists refused. -/
def strict (s : Settings) : Settings := { s with enforce := true }

/-- The settings, with frozen lists written like all others. -/
def lenient (s : Settings) : Settings := { s with enforce := false }

theorem check_cases (s : Settings) (acl : Acl) : s.check acl = .ok () ∨ IsRefusal (s.check acl) := by
  unfold check Acl.checkNotFrozen
  split
  · split
    · exact .inr ⟨_, rfl⟩
    · exact .inl rfl
  · exact .inl rfl

end Settings

variable {settings : Settings}

theorem Edit.outcome_lenient {find : String → Option Privilege} {e : Edit} {policy : Option Acl}
    (h : ¬IsRefusal (e.outcome settings.strict find policy)) :
    e.outcome settings.lenient find policy = e.outcome settings.strict find policy := by
  have hcheck : ∀ acl, settings.lenient.check acl = .ok () := fun _ => rfl
  cases e with
  | grant who privileges =>
    have hseeded : ∀ acl, seeded settings.lenient find acl = seeded settings.strict find acl :=
      fun _ => rfl
    simp only [outcome, hseeded, hcheck] at h ⊢
    cases hs : seeded settings.strict find (policy.getD .empty) with
    | error err => rfl
    | ok found =>
      obtain ⟨start, new⟩ := found
      simp only [hs] at h
      rcases settings.strict.check_cases (start.add who privileges).1 with hc | ⟨principals, hc⟩
      · simp only [bind, Except.bind, hc]
      · refine absurd ⟨principals, ?_⟩ h
        simp only [bind, Except.bind, hc]
  | revoke who privileges =>
    cases policy with
    | none => rfl
    | some bound =>
      simp only [outcome, hcheck] at h ⊢
      split
      · rename_i hch
        rw [if_pos hch] at h
        rcases settings.strict.check_cases (bound.take who privileges).1 with hc | ⟨principals, hc⟩
        · simp only [bind, Except.bind, hc]
        · refine absurd ⟨principals, ?_⟩ h
          simp only [bind, Except.bind, hc]
      · rfl
  | clear => rfl

/-- Where each visit is the same unless it is refused, a run is. -/
theorem Action.each_unless {σ : Type} {visit visit' : String → Action σ Bool}
    (h : ∀ path s, ¬IsRefusal (visit path s).1 → visit' path s = visit path s) {paths : List String}
    {s : σ} (hs : ¬IsRefusal (each visit paths s).1) : each visit' paths s = each visit paths s := by
  induction paths generalizing s with
  | nil => rfl
  | cons path rest ih =>
    rcases hv : visit path s with ⟨err | changed, s'⟩
    · rw [each_cons_error hv] at hs ⊢
      exact each_cons_error ((h path s (by rwa [hv])).trans hv)
    · rw [each_cons_ok hv] at hs ⊢
      rw [each_cons_ok ((h path s (by rw [hv]; rintro ⟨_, hr⟩; cases hr)).trans hv), ih]
      rintro ⟨principals, hr⟩
      refine hs ⟨principals, ?_⟩
      rcases hrest : each visit rest s' with ⟨err | later, t⟩ <;> rw [hrest] at hr <;> cases hr
      rfl

namespace Repository

variable {r s : Repository} {e : Edit} {path : String} {request : Request}

theorem edit_lenient (h : ¬IsRefusal (r.edit settings.strict e path).1) :
    r.edit settings.lenient e path = r.edit settings.strict e path := by
  cases hv : e.isVoid with
  | true => rw [edit_void hv, edit_void hv]
  | false =>
    cases hf : r.nodes.find? path with
    | none => rw [edit_missing hv hf, edit_missing hv hf]
    | some node =>
      rw [edit_found hv hf] at h
      rw [edit_found hv hf, edit_found hv hf, Edit.outcome_lenient]
      rintro ⟨principals, ho⟩
      rw [ho] at h
      exact h ⟨principals, rfl⟩

/-- **A request that is not refused** does the same where nothing is refused. -/
theorem perform_lenient (h : r.IsTree) {out : Except AccessError Bool}
    (hp : r.perform settings.strict request = some (out, s)) (hout : ¬IsRefusal out) :
    r.perform settings.lenient request = some (out, s) := by
  cases h.course request with
  | fails err _ hfails =>
    rw [hfails] at hp ⊢
    exact hp
  | runs e nodes failure _ _ hruns =>
    rw [hruns] at hp ⊢
    have hrun : ¬IsRefusal
        (Action.each ((Engine.mk host settings.strict).edit e) nodes r).1 := by
      rintro ⟨principals, hr⟩
      rw [Action.bind_error (Prod.ext hr rfl)] at hp
      cases hp
      exact hout ⟨principals, rfl⟩
    have hsame : Action.each ((Engine.mk host settings.lenient).edit e) nodes r =
        Action.each ((Engine.mk host settings.strict).edit e) nodes r := by
      refine Action.each_unless (fun q t ht => ?_) hrun
      rw [edit_run] at ht
      rw [edit_run, edit_run, edit_lenient ht]
    rw [Action.bind_run, hsame, ← Action.bind_run]
    exact hp

/-! ## One request after the other -/

/-- Carries out requests one after the other, whether those before have failed or not, and tells
what came of each. -/
def performAll (r : Repository) (settings : Settings) :
    List Request → Option (List (Except AccessError Bool) × Repository)
  | [] => some ([], r)
  | request :: rest =>
    (r.perform settings request).bind fun (out, s) =>
      (s.performAll settings rest).map fun (outs, t) => (out :: outs, t)

variable {requests : List Request} {outs : List (Except AccessError Bool)}

theorem performAll_cons_eq_some :
    r.performAll settings (request :: requests) = some (outs, s) ↔
      ∃ out t rest, r.perform settings request = some (out, t) ∧
        t.performAll settings requests = some (rest, s) ∧ outs = out :: rest := by
  rw [performAll, Option.bind_eq_some_iff]
  constructor
  · rintro ⟨⟨out, t⟩, hp, h⟩
    obtain ⟨⟨rest, u⟩, hrest, h⟩ := Option.map_eq_some_iff.1 h
    cases h
    exact ⟨out, t, rest, hp, hrest, rfl⟩
  · rintro ⟨out, t, rest, hp, hrest, rfl⟩
    exact ⟨(out, t), hp, Option.map_eq_some_iff.2 ⟨_, hrest, rfl⟩⟩

theorem IsTree.perform (h : r.IsTree) {out : Except AccessError Bool}
    (hp : r.perform settings request = some (out, s)) : s.IsTree :=
  h.of_bare (bare_perform hp)

theorem IsTree.performAll_ends (h : r.IsTree) (settings : Settings) (requests : List Request) :
    ∃ outs s, r.performAll settings requests = some (outs, s) := by
  induction requests generalizing r with
  | nil => exact ⟨[], r, rfl⟩
  | cons request requests ih =>
    obtain ⟨⟨out, t⟩, hp⟩ := h.perform_ends settings request
    obtain ⟨outs, s, hrest⟩ := ih (h.perform hp)
    exact ⟨out :: outs, s, performAll_cons_eq_some.2 ⟨out, t, outs, hp, hrest, rfl⟩⟩

theorem performAll_lenient (h : r.IsTree)
    (hp : r.performAll settings.strict requests = some (outs, s))
    (houts : ∀ out ∈ outs, ¬IsRefusal out) :
    r.performAll settings.lenient requests = some (outs, s) := by
  induction requests generalizing r outs with
  | nil => exact hp
  | cons request requests ih =>
    obtain ⟨out, t, rest, hfirst, hrest, rfl⟩ := performAll_cons_eq_some.1 hp
    obtain ⟨hout, houts⟩ := List.forall_mem_cons.1 houts
    exact performAll_cons_eq_some.2
      ⟨out, t, rest, perform_lenient h hfirst hout, ih (h.perform hfirst) hrest houts, rfl⟩

end Repository

/-! ## Grants and clears -/

namespace Request

/-- The request takes privileges away. -/
def isRevoke : Request → Bool
  | .revoke .. => true
  | .revokeNamed .. => true
  | _ => false

theorem asks_grant_or_clear {request : Request} {r : Repository} {e : Edit}
    (h : request.isRevoke = false) (ha : request.Asks r e) :
    (∃ who privileges, e = .grant who privileges) ∨ e = .clear := by
  cases ha with
  | grant => exact .inl ⟨_, _, rfl⟩
  | revoke => cases h
  | grantNamed => exact .inl ⟨_, _, rfl⟩
  | revokeNamed => cases h
  | clear => exact .inr rfl

end Request

/-- A grant freezes no list: what makes a list amendable stays on it, and a list without entries is
given to the administrator first. -/
theorem Edit.isFrozen_grant {find : String → Option Privilege} {acl start : Acl} {new : Bool}
    {modify : String} {all : Privilege} (hall : find settings.allPrivilege = some all)
    (hi : all.implies modify = true) (hacl : acl.isFrozen modify = false)
    (hs : seeded settings find acl = .ok (start, new)) (who : Principal)
    (privileges : List Privilege) : (start.add who privileges).1.isFrozen modify = false := by
  have hstart : ∃ p, start.Holds p ∧ p.implies modify = true := by
    rcases seeded_eq_ok hs with ⟨hne, rfl⟩ | ⟨hempty, p, hp, rfl⟩
    · rcases Acl.isFrozen_eq_false_iff.1 hacl with hempty | hheld
      · rw [hne] at hempty
        cases hempty
      · exact hheld
    · rw [hall] at hp
      cases hp
      obtain ⟨q, hq, -⟩ : ∃ q, (acl.add ⟨settings.admin⟩ [all]).1.Holds q ∧ q.name = all.name :=
        Acl.exists_holds_add List.mem_cons_self
      rcases Acl.holds_add hq with ⟨e, he, -⟩ | hq'
      · rw [List.isEmpty_iff.1 hempty] at he
        cases he
      · rw [List.mem_singleton.1 hq'] at hq
        exact ⟨all, hq, hi⟩
  obtain ⟨p, hp, hi⟩ := hstart
  exact Acl.isFrozen_eq_false_iff.2 (.inr ⟨p, hp.add who privileges, hi⟩)

namespace Repository

variable {r s : Repository} {e : Edit} {path all modify : String} {request : Request}

/-- The administrator's privilege implies the one to change lists, and no list is frozen. -/
structure Secured (r : Repository) (all modify : String) : Prop where
  implies : r.Implies all modify
  unfrozen : r.frozenNodes modify = ∅

theorem frozenNodes_eq_empty : r.frozenNodes modify = ∅ ↔
    ∀ path acl, r.policyAt path = some acl → acl.isFrozen modify = false := by
  rw [Set.eq_empty_iff_forall_notMem]
  simp only [frozenNodes, Set.mem_ofPred_eq, not_exists, not_and, Bool.not_eq_true]

namespace Secured

variable (h : r.Secured settings.allPrivilege settings.modifyPrivilege)
include h

/-- What a grant would write on any node. -/
theorem isFrozen_grant {node : Node} (hf : r.nodes.find? path = some node) {start : Acl} {new : Bool}
    (hs : Edit.seeded settings r.findPrivilege? (node.policy.getD .empty) = .ok (start, new))
    (who : Principal) (privileges : List Privilege) :
    (start.add who privileges).1.isFrozen settings.modifyPrivilege = false := by
  obtain ⟨all, hall, hi⟩ := h.implies
  refine Edit.isFrozen_grant hall hi ?_ hs who privileges
  cases hpolicy : node.policy with
  | none => rfl
  | some acl =>
    exact frozenNodes_eq_empty.1 h.unfrozen path acl ((policyAt_of_find? hf).trans hpolicy)

theorem withPolicy {policy : Option Acl}
    (hpolicy : ∀ acl, policy = some acl → acl.isFrozen settings.modifyPrivilege = false) :
    (r.withPolicy path policy).Secured settings.allPrivilege settings.modifyPrivilege where
  implies := h.implies
  unfrozen := Set.subset_empty_iff.1 (h.unfrozen ▸ frozenNodes_withPolicy hpolicy)

section Edits

variable (he : (∃ who privileges, e = .grant who privileges) ∨ e = .clear) (path : String)
include he

theorem edit : (r.edit settings e path).2.Secured settings.allPrivilege settings.modifyPrivilege := by
  rcases edit_cases r settings e path with heq | ⟨node, policy, changed, hf, ho, heq⟩ <;> rw [heq]
  · exact h
  · refine h.withPolicy fun acl hacl => ?_
    rcases he with ⟨who, privileges, rfl⟩ | rfl
    · obtain ⟨start, new, hs, -, hadd, -⟩ := Edit.outcome_grant_eq_ok ho
      rw [hacl] at hadd
      cases hadd
      exact h.isFrozen_grant hf hs who privileges
    · cases ho
      cases hacl

theorem edit_not_refused : ¬IsRefusal (r.edit settings e path).1 := by
  intro hrefused
  obtain ⟨node, hf, hrefused⟩ := edit_refused hrefused
  rcases he with ⟨who, privileges, rfl⟩ | rfl
  · obtain ⟨start, new, hs, hfrozen⟩ := Edit.outcome_grant_refused hrefused
    rw [h.isFrozen_grant hf hs who privileges] at hfrozen
    cases hfrozen
  · obtain ⟨principals, ho⟩ := hrefused
    cases ho

end Edits

/-- No grant and no clear is refused or freezes a list, however far it reaches. -/
theorem perform (ht : r.IsTree) (hrevoke : request.isRevoke = false)
    {out : Except AccessError Bool} (hp : r.perform settings request = some (out, s)) :
    ¬IsRefusal out ∧ s.Secured settings.allPrivilege settings.modifyPrivilege := by
  have hkeeps : ∀ e (t : Repository) q, request.Asks r e → t.bare = r.bare →
      t.Secured settings.allPrivilege settings.modifyPrivilege →
      (t.edit settings e q).2.Secured settings.allPrivilege settings.modifyPrivilege :=
    fun e t q ha _ hsecured => hsecured.edit (Request.asks_grant_or_clear hrevoke ha) q
  have hcourse := ht.course request
  exact ⟨hcourse.not_refused hkeeps h hp fun e t q ha _ hsecured =>
    hsecured.edit_not_refused (Request.asks_grant_or_clear hrevoke ha) q, hcourse.keeps hkeeps h hp⟩

theorem performAll (ht : r.IsTree) {requests : List Request}
    (hrevoke : ∀ request ∈ requests, request.isRevoke = false)
    {outs : List (Except AccessError Bool)}
    (hp : r.performAll settings requests = some (outs, s)) :
    (∀ out ∈ outs, ¬IsRefusal out) ∧
      s.Secured settings.allPrivilege settings.modifyPrivilege := by
  induction requests generalizing r outs with
  | nil =>
    cases hp
    exact ⟨fun _ hout => absurd hout List.not_mem_nil, h⟩
  | cons request requests ih =>
    obtain ⟨out, t, rest, hfirst, hrest, rfl⟩ := performAll_cons_eq_some.1 hp
    obtain ⟨hrequest, hrevoke⟩ := List.forall_mem_cons.1 hrevoke
    obtain ⟨hout, hsecured⟩ := h.perform ht hrequest hfirst
    obtain ⟨houts, hsecured⟩ := ih hsecured (ht.perform hfirst) hrevoke hrest
    exact ⟨List.forall_mem_cons.2 ⟨hout, houts⟩, hsecured⟩

end Secured

/-- **Leniency makes no difference** as long as nothing is refused: requests have the same outcomes and
leave the same repository, whether frozen lists are refused or not. Where the administrator's
privilege implies the one to change lists and no list is frozen, nothing is refused of grants and
clears, and none of them freezes a list, not even where frozen lists are written. -/
theorem Live.lenient_agrees (h : r.Live) (settings : Settings) (requests : List Request) :
    ∃ outs s, r.performAll settings.strict requests = some (outs, s) ∧
      ((∀ out ∈ outs, ¬IsRefusal out) →
        r.performAll settings.lenient requests = some (outs, s)) ∧
      (r.Implies settings.allPrivilege settings.modifyPrivilege →
        r.frozenNodes settings.modifyPrivilege = ∅ →
        (∀ request ∈ requests, request.isRevoke = false) →
        (∀ out ∈ outs, ¬IsRefusal out) ∧
          ∀ before after, requests = before ++ after →
            ∃ outs t, r.performAll settings.lenient before = some (outs, t) ∧
              t.frozenNodes settings.modifyPrivilege = ∅) := by
  obtain ⟨outs, s, hp⟩ := h.isTree.performAll_ends settings.strict requests
  refine ⟨outs, s, hp, performAll_lenient h.isTree hp, fun hi hnone hrevoke => ⟨?_, ?_⟩⟩
  · have hsecured : r.Secured settings.strict.allPrivilege settings.strict.modifyPrivilege :=
      ⟨hi, hnone⟩
    exact (hsecured.performAll h.isTree hrevoke hp).1
  · rintro before after rfl
    have hsecured : r.Secured settings.lenient.allPrivilege settings.lenient.modifyPrivilege :=
      ⟨hi, hnone⟩
    obtain ⟨outs, t, hp⟩ := h.isTree.performAll_ends settings.lenient before
    have hrevoke : ∀ request ∈ before, request.isRevoke = false :=
      fun request hrequest => hrevoke request (List.mem_append_left after hrequest)
    exact ⟨outs, t, hp, (hsecured.performAll h.isTree hrevoke hp).2.unfrozen⟩

/-- Somebody is granted a privilege that is not registered, the root is cleared, and then a grant
starts from nothing again. -/
theorem lenient_agrees_cleared_root : ∃ s,
    Repository.initial.performAll { enforce := true }
      [.grant Path.root ⟨"u"⟩ [.simple "own"], .clear Path.root (.subtree fun _ => true),
        .grantNamed Path.root .node ⟨"u"⟩ ["jcr:read"]] =
      some ([.ok true, .ok true, .ok true], s) ∧
    Repository.initial.performAll {}
      [.grant Path.root ⟨"u"⟩ [.simple "own"], .clear Path.root (.subtree fun _ => true),
        .grantNamed Path.root .node ⟨"u"⟩ ["jcr:read"]] =
      some ([.ok true, .ok true, .ok true], s) ∧
    s.frozenNodes "jcr:modifyAccessControl" = ∅ := by
  have hnone : Repository.initial.frozenNodes "jcr:modifyAccessControl" = ∅ :=
    frozenNodes_eq_empty.2 fun path acl ha => by
      rw [policyAt_initial] at ha
      cases ha
  obtain ⟨outs, s, hp, hagree, hgrants⟩ := Live.lenient_agrees (.reachable .initial) {}
    [.grant Path.root ⟨"u"⟩ [.simple "own"], .clear Path.root (.subtree fun _ => true),
      .grantNamed Path.root .node ⟨"u"⟩ ["jcr:read"]]
  obtain ⟨hrefused, hfrozen⟩ := hgrants ⟨_, rfl, rfl⟩ hnone (by simp [Request.isRevoke])
  obtain ⟨_, t, hlenient, ht⟩ := hfrozen _ [] (List.append_nil _).symm
  have hsame := hagree hrefused
  rw [hlenient] at hsame
  cases hsame
  have houts : outs = [.ok true, .ok true, .ok true] := by
    have hmap := congrArg (Option.map Prod.fst) hp
    cases hmap
    rfl
  exact ⟨s, houts ▸ hp, houts ▸ hlenient, ht⟩

end Repository
end AclTree
