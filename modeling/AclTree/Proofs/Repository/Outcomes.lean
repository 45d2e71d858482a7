/-
What grants and revokes come to on a node. A grant adds to the entries of the
node's list or, if there are none, to the administrator's (`Repository.Base`); a
revoke takes from the list that is bound. What they make is bound unless it is
refused (`edit_grant_base`, `edit_revoke_bound`), and where frozen lists are not
refused it is bound in any case.
-/
import AclTree.Proofs.Acl.ClosedForms
import AclTree.Proofs.Repository.Reachable

namespace AclTree

theorem Settings.check_eq_error {settings : Settings} {acl : Acl} {err : AccessError} :
    settings.check acl = .error err ↔ settings.enforce = true ∧
      acl.isFrozen settings.modifyPrivilege = true ∧ err = .frozenAcl acl.principals := by
  unfold check Acl.checkNotFrozen
  cases settings.enforce <;> cases acl.isFrozen settings.modifyPrivilege <;> simp [eq_comm]

theorem Settings.check_lenient {settings : Settings} (h : settings.enforce = false) (acl : Acl) :
    settings.check acl = .ok () :=
  check_eq_ok.2 fun henforce => absurd henforce (by rw [h]; decide)

namespace Repository

open Privilege (names)

/-- The entries of a node's list; none if it has no list. -/
def entriesAt (r : Repository) (path : String) : List Entry := (r.policyAt path).elim [] (·.entries)

/-- The entries that a grant adds to: those of the node's list or, if there are none, one that gives the
administrator the registered privilege of the settings. -/
inductive Base (r : Repository) (settings : Settings) (path : String) : List Entry → Prop where
  | found : r.entriesAt path ≠ [] → Base r settings path (r.entriesAt path)
  | seeded {all : Privilege} :
      r.entriesAt path = [] → r.findPrivilege? settings.allPrivilege = some all →
      Base r settings path [⟨⟨settings.admin⟩, [all]⟩]

/-- Binds a list to a node, unless it is refused. -/
def bindChecked (r : Repository) (settings : Settings) (path : String) (acl : Acl) (changed : Bool) :
    Except AccessError Bool × Repository :=
  match settings.check acl with
  | .ok _ => (.ok changed, r.withPolicy path (some acl))
  | .error err => (.error err, r)

variable {r s : Repository} {settings : Settings} {path : String} {who : Principal}
  {privileges : List Privilege} {base : List Entry} {acl bound : Acl} {changed : Bool}

theorem bindChecked_eq_error {err : AccessError} :
    r.bindChecked settings path acl changed = (.error err, s) ↔
      (settings.enforce = true ∧ acl.isFrozen settings.modifyPrivilege = true ∧
        err = .frozenAcl acl.principals) ∧ s = r := by
  rw [← Settings.check_eq_error]
  unfold bindChecked
  cases settings.check acl <;> simp [eq_comm]

theorem bindChecked_lenient (hlenient : settings.enforce = false) :
    r.bindChecked settings path acl changed = (.ok changed, r.withPolicy path (some acl)) := by
  unfold bindChecked
  rw [Settings.check_lenient hlenient]

/-! ## The list of a node -/

theorem entriesAt_of_find? {node : Node} (hf : r.nodes.find? path = some node) :
    r.entriesAt path = (node.policy.getD .empty).entries := by
  rw [entriesAt, policyAt_of_find? hf]
  cases node.policy <;> rfl

theorem entriesAt_of_policyAt (h : r.policyAt path = some bound) :
    r.entriesAt path = bound.entries := by
  rw [entriesAt, h]
  rfl

theorem contains_of_policyAt (h : r.policyAt path = some bound) : r.contains path = true := by
  obtain ⟨node, hf, -⟩ := Option.bind_eq_some_iff.1 h
  exact contains_iff_find?.2 ⟨node, hf⟩

theorem policyAt_bound (hc : r.contains path = true) (acl : Acl) :
    (r.withPolicy path (some acl)).policyAt path = some acl := by
  rw [policyAt_withPolicy_of_contains hc, if_pos rfl]

theorem withPolicy_policyAt (hc : r.contains path = true) :
    r.withPolicy path (r.policyAt path) = r := by
  obtain ⟨node, hf⟩ := contains_iff_find?.1 hc
  rw [policyAt_of_find? hf, withPolicy_same hf]

@[simp] theorem withPolicy_withPolicy (r : Repository) (path : String) (first second : Option Acl) :
    (r.withPolicy path first).withPolicy path second = r.withPolicy path second := by
  have hnodes : ((r.withPolicy path first).withPolicy path second).nodes =
      (r.withPolicy path second).nodes := by
    refine PathMap.ext_find? fun q => ?_
    rw [find?_withPolicy, find?_withPolicy, find?_withPolicy]
    split
    · rw [Option.map_map]
      rfl
    · rfl
  exact congrArg (Repository.mk · r.privileges) hnodes

/-! ## Grants -/

theorem Base.seeded_eq_ok {node : Node} (hf : r.nodes.find? path = some node)
    (hb : r.Base settings path base) :
    Edit.seeded settings r.findPrivilege? (node.policy.getD .empty) =
      .ok (⟨base⟩, (r.entriesAt path).isEmpty) := by
  have hentries := entriesAt_of_find? hf
  generalize node.policy.getD .empty = found at hentries
  obtain ⟨entries⟩ := found
  unfold Edit.seeded Acl.isEmpty
  cases hb with
  | found hne =>
    rw [hentries] at hne ⊢
    have hempty : entries.isEmpty = false := by simpa using hne
    rw [if_neg (by simp [hempty]), hempty]
  | seeded hempty hall =>
    cases hentries.symm.trans hempty
    rw [hall, hempty]
    rfl

/-- Either a grant has entries to add to, or it wants the administrator's privilege in vain. -/
theorem base_or_unseeded (r : Repository) (settings : Settings) (path : String) :
    (∃ base, r.Base settings path base) ∨
      (r.entriesAt path = [] ∧ r.findPrivilege? settings.allPrivilege = none) := by
  by_cases hempty : r.entriesAt path = []
  · cases hall : r.findPrivilege? settings.allPrivilege with
    | some all => exact .inl ⟨_, .seeded hempty hall⟩
    | none => exact .inr ⟨hempty, rfl⟩
  · exact .inl ⟨_, .found hempty⟩

section Grant

variable (hne : privileges ≠ []) (hc : r.contains path = true)
include hne hc

theorem edit_grant_unseeded (hempty : r.entriesAt path = [])
    (hnone : r.findPrivilege? settings.allPrivilege = none) :
    r.edit settings (.grant who privileges) path =
      (.error (.unknownPrivilege settings.allPrivilege), r) := by
  obtain ⟨node, hf⟩ := contains_iff_find?.1 hc
  have hseeded : Edit.seeded settings r.findPrivilege? (node.policy.getD .empty) =
      .error (.unknownPrivilege settings.allPrivilege) := by
    rw [entriesAt_of_find? hf] at hempty
    unfold Edit.seeded Acl.isEmpty
    rw [hempty, if_pos List.isEmpty_nil, hnone]
  rw [edit_found (Edit.isVoid_grant.2 hne) hf]
  simp only [Edit.outcome, hseeded, bind, Except.bind]

/-- A grant that has entries to add to binds the list that it comes to, unless that is refused. -/
theorem edit_grant_base (hb : r.Base settings path base) :
    r.edit settings (.grant who privileges) path =
      r.bindChecked settings path (Acl.add ⟨base⟩ who privileges).1
        ((r.entriesAt path).isEmpty || (Acl.add ⟨base⟩ who privileges).2) := by
  obtain ⟨node, hf⟩ := contains_iff_find?.1 hc
  rw [edit_found (Edit.isVoid_grant.2 hne) hf]
  simp only [Edit.outcome, hb.seeded_eq_ok hf, bind, Except.bind, bindChecked]
  cases settings.check (Acl.add ⟨base⟩ who privileges).1 <;> rfl

theorem edit_grant_lenient (hlenient : settings.enforce = false) (hb : r.Base settings path base)
    (who : Principal) :
    r.edit settings (.grant who privileges) path =
      (.ok ((r.entriesAt path).isEmpty || (Acl.add ⟨base⟩ who privileges).2),
        r.withPolicy path (some (Acl.add ⟨base⟩ who privileges).1)) := by
  rw [edit_grant_base hne hc hb, bindChecked_lenient hlenient]

end Grant

/-- Nothing is added to a list that has entries but what is granted, also if that is nothing. -/
theorem edit_grant_bound (hlenient : settings.enforce = false) (hp : r.policyAt path = some bound)
    (hentries : bound.entries ≠ []) (who : Principal) (privileges : List Privilege) :
    r.edit settings (.grant who privileges) path =
      (.ok (bound.add who privileges).2,
        r.withPolicy path (some (bound.add who privileges).1)) := by
  have hc := contains_of_policyAt hp
  by_cases hne : privileges = []
  · have hsame := withPolicy_policyAt hc
    rw [hp] at hsame
    rw [hne, edit_void rfl, Acl.add_nil, hsame]
  · have hat := entriesAt_of_policyAt hp
    have hempty : bound.entries.isEmpty = false := by simpa using hentries
    have hb : r.Base settings path bound.entries := hat ▸ .found (hat ▸ hentries)
    rw [edit_grant_lenient hne hc hlenient hb who, hat, hempty, Bool.false_or]

/-! ## Revokes -/

theorem edit_revoke_unbound (hc : r.contains path = true) (hp : r.policyAt path = none)
    (settings : Settings) (who : Principal) (privileges : List Privilege) :
    r.edit settings (.revoke who privileges) path = (.ok false, r) := by
  by_cases hne : privileges = []
  · rw [hne, edit_void rfl]
  obtain ⟨node, hf⟩ := contains_iff_find?.1 hc
  have hpolicy : node.policy = none := (policyAt_of_find? hf).symm.trans hp
  have hsame := withPolicy_same hf
  rw [hpolicy] at hsame
  rw [edit_found (Edit.isVoid_revoke.2 hne) hf, hpolicy]
  exact Prod.ext rfl hsame

/-- A revoke that takes something binds the list without it, unless that is refused. -/
theorem edit_revoke_bound (hne : privileges ≠ []) (hp : r.policyAt path = some bound) :
    r.edit settings (.revoke who privileges) path =
      if (bound.take who privileges).2 then
        r.bindChecked settings path (bound.take who privileges).1 true
      else
        (.ok false, r) := by
  obtain ⟨node, hf⟩ := contains_iff_find?.1 (contains_of_policyAt hp)
  have hpolicy : node.policy = some bound := (policyAt_of_find? hf).symm.trans hp
  have hsame := withPolicy_same hf
  rw [hpolicy] at hsame
  rw [edit_found (Edit.isVoid_revoke.2 hne) hf, hpolicy]
  simp only [Edit.outcome, bindChecked]
  cases (bound.take who privileges).2 with
  | true => cases settings.check (bound.take who privileges).1 <;> rfl
  | false => exact Prod.ext rfl hsame

/-- What is not changed may be told as bound anew. -/
theorem edit_revoke_lenient (hlenient : settings.enforce = false) (hp : r.policyAt path = some bound)
    (who : Principal) (privileges : List Privilege) :
    r.edit settings (.revoke who privileges) path =
      (.ok (bound.take who privileges).2,
        r.withPolicy path (some (bound.take who privileges).1)) := by
  have hsame := withPolicy_policyAt (contains_of_policyAt hp)
  rw [hp] at hsame
  by_cases hne : privileges = []
  · rw [hne, edit_void rfl, Acl.take_nil, hsame]
  rw [edit_revoke_bound hne hp]
  cases htake : (bound.take who privileges).2 with
  | true => rw [if_pos rfl, bindChecked_lenient hlenient]
  | false => rw [if_neg Bool.false_ne_true, Acl.take_eq_self htake, hsame]

end Repository
end AclTree
