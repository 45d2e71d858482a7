/-
The course of a request on a repository. The tree and the registry decide which
nodes a request visits, with which edit, and whether it fails before or behind
them (`IsTree.course`); settings have a say in the edits alone. So what a
request keeps (`Course.keeps`) and how it fails (`Course.outcome_cases`) is told
by the edit that it asks for.
-/
import AclTree.Proofs.Engine.Foreign

namespace AclTree

/-- The outcome is that a list was refused, because it would be frozen. -/
def IsRefusal {α : Type} (out : Except AccessError α) : Prop :=
  ∃ principals, out = .error (.frozenAcl principals)

/-! ## Refused edits -/

namespace Edit

variable {s : Settings} {find : String → Option Privilege} {who : Principal}
  {privileges : List Privilege} {policy : Option Acl} {acl start : Acl} {new : Bool}

theorem seeded_eq_ok (h : seeded s find acl = .ok (start, new)) :
    (acl.isEmpty = false ∧ start = acl) ∨
      (acl.isEmpty = true ∧ ∃ p, find s.allPrivilege = some p ∧ start = (acl.add ⟨s.admin⟩ [p]).1) := by
  unfold seeded at h
  split at h
  · rename_i hempty
    split at h
    · rename_i p hp
      exact .inr ⟨hempty, p, hp, (congrArg Prod.fst (Except.ok.inj h)).symm⟩
    · cases h
  · rename_i hempty
    exact .inl ⟨by simpa using hempty, (congrArg Prod.fst (Except.ok.inj h)).symm⟩

/-- Without an administrator's privilege only lists that have entries are granted on. -/
theorem seeded_eq_error {err : AccessError} (h : seeded s find acl = .error err) :
    acl.isEmpty = true ∧ find s.allPrivilege = none ∧ err = .unknownPrivilege s.allPrivilege := by
  unfold seeded at h
  split at h
  · rename_i hempty
    split at h
    · cases h
    · rename_i hnone
      exact ⟨hempty, hnone, (Except.error.inj h).symm⟩
  · cases h

theorem outcome_grant_of_seeded (hs : seeded s find (policy.getD .empty) = .ok (start, new))
    (hc : s.check (start.add who privileges).1 = .ok ()) :
    (Edit.grant who privileges).outcome s find policy =
      .ok (some (start.add who privileges).1, new || (start.add who privileges).2) := by
  refine Except.bind_eq_ok.2 ⟨_, hs, ?_⟩
  exact Except.bind_eq_ok.2 ⟨_, hc, rfl⟩

/-- A grant is refused for the list that it would have made. -/
theorem outcome_grant_refused (h : IsRefusal ((Edit.grant who privileges).outcome s find policy)) :
    ∃ start new, seeded s find (policy.getD .empty) = .ok (start, new) ∧
      (start.add who privileges).1.isFrozen s.modifyPrivilege = true := by
  obtain ⟨principals, h⟩ := h
  cases hs : seeded s find (policy.getD .empty) with
  | error err =>
    obtain ⟨-, -, rfl⟩ := seeded_eq_error hs
    simp only [outcome, hs] at h
    cases h
  | ok found =>
    obtain ⟨start, new⟩ := found
    refine ⟨start, new, rfl, ?_⟩
    by_contra hfrozen
    rw [outcome_grant_of_seeded hs (Settings.check_eq_ok.2 fun _ => by simpa using hfrozen)] at h
    cases h

end Edit

theorem Repository.edit_refused {r : Repository} {settings : Settings} {e : Edit} {path : String}
    (h : IsRefusal (r.edit settings e path).1) :
    ∃ node, r.nodes.find? path = some node ∧
      IsRefusal (e.outcome settings r.findPrivilege? node.policy) := by
  obtain ⟨principals, h⟩ := h
  cases hv : e.isVoid with
  | true =>
    rw [edit_void hv] at h
    cases h
  | false =>
    cases hf : r.nodes.find? path with
    | none =>
      rw [edit_missing hv hf] at h
      cases h
    | some node =>
      rw [edit_found hv hf] at h
      refine ⟨node, rfl, principals, ?_⟩
      cases ho : e.outcome settings r.findPrivilege? node.policy with
      | ok out =>
        rw [ho] at h
        cases h
      | error err =>
        rw [ho] at h
        exact congrArg Except.error (Except.error.inj h)

/-! ## The run of a request -/

/-- Work ends as it did, or fails behind all that it has done. -/
def Action.ending {σ : Type} (failure : Option AccessError) (changed : Bool) : Action σ Bool :=
  match failure with
  | none => pure changed
  | some err => throw err

namespace Repository

variable {r s : Repository} {settings : Settings} {request : Request} {e : Edit}
  {path start target : String}

/-- How a request goes, whatever the settings are. What it fails by, beside its edits, is no refusal. -/
inductive Course (r : Repository) (request : Request) : Prop where
  /-- It fails before it does anything. -/
  | fails (err : AccessError) :
      ¬IsRefusal (Except.error (α := Bool) err) →
      (∀ settings, r.perform settings request = some (.error err, r)) → Course r request
  /-- It carries out an edit that it asks for on nodes, and then it ends or fails. -/
  | runs (e : Edit) (nodes : List String) (failure : Option AccessError) :
      request.Asks r e → (∀ err, failure = some err → ¬IsRefusal (Except.error (α := Bool) err)) →
      (∀ settings, r.perform settings request =
        some ((Action.each ((Engine.mk host settings).edit e) nodes >>= Action.ending failure) r)) →
      Course r request

namespace Course

/-- A request that comes to a run and nothing else. -/
theorem of_each (nodes : List String) (ha : request.Asks r e)
    (hp : ∀ settings, r.perform settings request =
      some (Action.each ((Engine.mk host settings).edit e) nodes r)) : r.Course request := by
  refine .runs e nodes none ha (by simp) fun settings => ?_
  have hending : Action.each ((Engine.mk host settings).edit e) nodes >>= Action.ending none =
      Action.each ((Engine.mk host settings).edit e) nodes := bind_pure _
  rw [hp, hending]

/-- A request that looks names up first fails if it does not find them all. -/
theorem of_lookup (names : List String)
    (hfails : ∀ err settings, r.lookup names = .error err →
      r.perform settings request = some (.error err, r))
    (hfound : ∀ privileges, r.lookup names = .ok privileges → r.Course request) :
    r.Course request := by
  cases hl : r.lookup names with
  | ok privileges => exact hfound privileges hl
  | error err =>
    obtain ⟨name, -, -, rfl⟩ := lookup_eq_error hl
    exact .fails _ (by rintro ⟨_, h⟩; cases h) fun settings => hfails _ settings hl

theorem of_missing (path : String) (operation : Operation) (names : List String)
    (hp : ∀ settings, r.perform settings request =
      some (.error (.repositoryAccess path operation names (.nodeNotFound path)), r)) :
    r.Course request :=
  .fails _ (by rintro ⟨_, h⟩; cases h) hp

end Course

/-! ## Walks from where there is no node -/

theorem matchingChildren_missing (hc : r.contains path = false) (operation : Operation)
    (names : List String) (accepts : String → Bool) :
    (Engine.mk host settings).matchingChildren operation names accepts path r =
      (.error (.repositoryAccess path operation names (.nodeNotFound path)), r) :=
  access_missing path r (children_run path r) hc operation names _

theorem parentOf_missing (hc : r.contains path = false) (operation : Operation)
    (names : List String) :
    (Engine.mk host settings).parentOf operation names path r =
      (.error (.repositoryAccess path operation names (.nodeNotFound path)), r) :=
  access_missing path r (parent_run path r) hc operation names _

/-- The edit finds out that there is no node, or it asks for nothing and what comes next does. -/
theorem edit_bind_missing {α : Type} (hc : r.contains path = false) {rest : Bool → Walk Repository α}
    (hrest : rest false r = some (.error (.repositoryAccess path e.operation
      (Privilege.names e.privileges) (.nodeNotFound path)), r)) :
    (Walk.step ((Engine.mk host settings).edit e path) >>= rest) r =
      some (.error (.repositoryAccess path e.operation (Privilege.names e.privileges)
        (.nodeNotFound path)), r) := by
  have hrun := edit_run settings path r e
  cases hv : e.isVoid with
  | true =>
    rw [edit_void hv] at hrun
    rw [Walk.bind_ok (congrArg some hrun)]
    exact hrest
  | false =>
    rw [edit_missing hv (contains_eq_false.1 hc)] at hrun
    exact Walk.bind_error (congrArg some hrun)

theorem descend_missing (hc : r.contains path = false) (order : Engine.Order)
    (accepts : String → Bool) (limit : Nat) :
    (Engine.mk host settings).descend order e.operation (Privilege.names e.privileges) accepts
        ((Engine.mk host settings).edit e) (limit + 1) path r =
      some (.error (.repositoryAccess path e.operation (Privilege.names e.privileges)
        (.nodeNotFound path)), r) := by
  have hchildren : (Engine.mk host settings).matchingChildren e.operation
      (Privilege.names e.privileges) accepts path r = _ := matchingChildren_missing hc ..
  cases order with
  | parentFirst => exact edit_bind_missing hc (Walk.bind_error (congrArg some hchildren))
  | childrenFirst => exact Walk.bind_error (congrArg some hchildren)

section Upwards

variable (hc : r.contains start = false) (htarget : start ≠ target) (hroot : start ≠ Path.root)
include hc htarget hroot

theorem climb_missing (limit : Nat) :
    (Engine.mk host settings).climb e.operation (Privilege.names e.privileges)
        ((Engine.mk host settings).edit e) start target (limit + 1) start r =
      some (.error (.repositoryAccess start e.operation (Privilege.names e.privileges)
        (.nodeNotFound start)), r) := by
  have hroot : start ≠ (Engine.mk host settings).host.root := hroot
  unfold Engine.climb
  rw [if_neg htarget, if_neg hroot]
  exact edit_bind_missing hc (Walk.bind_error (congrArg some (parentOf_missing hc _ _)))

theorem lineage_missing (names : List String) (limit : Nat) :
    (Engine.mk host settings).lineage names start target (limit + 1) start r =
      some (.error (.repositoryAccess start .grant names (.nodeNotFound start)), r) := by
  have hroot : start ≠ (Engine.mk host settings).host.root := hroot
  unfold Engine.lineage
  rw [if_neg htarget, if_neg hroot]
  exact Walk.bind_error (congrArg some (parentOf_missing hc _ _))

end Upwards

/-! ## The course -/

theorem lineage_run (h : r.IsTree) {way : List String} (hw : r.Way target start way)
    (names : List String) :
    (Engine.mk host settings).lineage names start target r.size start r = some (.ok way, r) := by
  have hrun : (Engine.mk host settings).lineage names start target r.size start r =
      some (.ok way, host.asked way.dropLast r) :=
    Engine.lineage_run r.parents (h.ascent_iff_way.2 hw) rfl (h.length_way_le_size hw)
  have hasked : host.asked way.dropLast r = r :=
    Engine.asked_eq (e := Engine.mk host settings) (I := fun s => s.bare = r.bare) parent_quiet rfl _
  rw [hrun, hasked]

/-- A grant that has a way is a run over it from its end, unless its names are not all known. -/
theorem grant_along_run (h : r.IsTree) {way : List String} (hw : r.Way target start way)
    (settings : Settings) (who : Principal) (names : List String) :
    r.perform settings (.grantNamed start (.ancestors target) who names) = some
      (match r.lookup names with
      | .ok privileges =>
        Action.each ((Engine.mk host settings).edit (.grant who privileges)) way.reverse r
      | .error err => (.error err, r)) := by
  have hlookup := resolveAt_run settings start names r
  refine (Walk.bind_ok (lineage_run h hw names)).trans ?_
  cases hl : r.lookup names with
  | error err =>
    rw [hl] at hlookup
    exact Walk.bind_error (congrArg some hlookup)
  | ok privileges =>
    rw [hl] at hlookup
    refine (Walk.bind_ok (congrArg some hlookup)).trans ?_
    rw [Walk.visitAll_step, Action.after_false]
    rfl

namespace IsTree

variable (h : r.IsTree)
include h

theorem size_eq_succ : ∃ n, r.size = n + 1 :=
  Nat.exists_eq_succ_of_ne_zero (Nat.ne_zero_of_lt (h.depth_lt_size h.root.1))

/-- Where there is no way to the target, the start is no node or the target is not above it. -/
theorem way_cases (start target : String) :
    (∃ way, r.Way target start way) ∨
      (r.contains start = true ∧ ¬r.Below target start) ∨
      (r.contains start = false ∧ start ≠ target ∧ start ≠ Path.root) := by
  by_cases hb : r.Below target start
  · exact .inl (exists_way hb)
  cases hc : r.contains start with
  | true => exact .inr (.inl ⟨rfl, hb⟩)
  | false =>
    refine .inr (.inr ⟨rfl, fun he => hb (he ▸ .refl), fun he => ?_⟩)
    rw [he, h.root.1] at hc
    cases hc

theorem course_descend (order : Engine.Order) (accepts : String → Bool) (path : String)
    (ha : request.Asks r e)
    (hp : ∀ settings, r.perform settings request =
      (Engine.mk host settings).descend order e.operation (Privilege.names e.privileges) accepts
        ((Engine.mk host settings).edit e) r.size path r) : r.Course request := by
  cases hc : r.contains path with
  | true => exact .of_each _ ha fun settings => (hp settings).trans (descend_edit_run h hc _ _ _ _)
  | false =>
    obtain ⟨n, hn⟩ := h.size_eq_succ
    rw [hn] at hp
    exact .of_missing _ _ _ fun settings => (hp settings).trans (descend_missing hc order accepts n)

theorem course_climb (start target : String) (ha : request.Asks r e)
    (hp : ∀ settings, r.perform settings request =
      (Engine.mk host settings).climb e.operation (Privilege.names e.privileges)
        ((Engine.mk host settings).edit e) start target r.size start r) : r.Course request := by
  rcases h.way_cases start target with ⟨way, hw⟩ | ⟨hc, hb⟩ | ⟨hc, htarget, hroot⟩
  · exact .of_each _ ha fun settings => (hp settings).trans
      (climb_run h edit_keeps_bare _ _ hw rfl (h.length_way_le_size hw))
  · obtain ⟨way, hw, -⟩ := h.exists_root_way hc
    refine .runs e way.dropLast (some (.invalidHierarchy start target)) ha ?_ fun settings => ?_
    · rintro _ ⟨⟩ ⟨_, h⟩
      cases h
    · exact (hp settings).trans (climb_foreign h hb hw _ _ e)
  · obtain ⟨n, hn⟩ := h.size_eq_succ
    rw [hn] at hp
    exact .of_missing _ _ _ fun settings => (hp settings).trans (climb_missing hc htarget hroot n)

theorem course_grant_along (start target : String) (who : Principal) (names : List String) :
    r.Course (.grantNamed start (.ancestors target) who names) := by
  rcases h.way_cases start target with ⟨way, hw⟩ | ⟨hc, hb⟩ | ⟨hc, htarget, hroot⟩
  · refine .of_lookup names (fun err settings hl => ?_) fun privileges hl =>
      .of_each way.reverse (.grantNamed hl) fun settings => ?_
    · rw [grant_along_run h hw, hl]
    · rw [grant_along_run h hw, hl]
  · refine .fails (.invalidHierarchy start target) (by rintro ⟨_, h⟩; cases h) fun settings => ?_
    exact Walk.bind_error (lineage_foreign h hc hb names)
  · obtain ⟨n, hn⟩ := h.size_eq_succ
    refine .of_missing start .grant names fun settings => ?_
    change (Engine.mk host settings).grantAlong r.size start target who names r = _
    rw [hn]
    exact Walk.bind_error (lineage_missing hc htarget hroot names n)

/-- As `course_descend`, for requests by names; `act` is what they ask for. -/
theorem course_named_descend {order : Engine.Order} {operation : Operation} {names : List String}
    {accepts : String → Bool} (act : List Privilege → Edit)
    (hact : ∀ privileges, (act privileges).operation = operation ∧
      (act privileges).privileges = privileges)
    (ha : ∀ privileges, r.lookup names = .ok privileges → request.Asks r (act privileges))
    (hp : ∀ settings, r.perform settings request =
      (if names.isEmpty then
        pure false
      else do
        let privileges ← Walk.step ((Engine.mk host settings).resolveAt path names)
        (Engine.mk host settings).descend order operation (Privilege.names privileges) accepts
          ((Engine.mk host settings).edit (act privileges)) r.size path : Walk Repository Bool) r) :
    r.Course request := by
  by_cases hempty : names.isEmpty = true
  · rw [List.isEmpty_iff.1 hempty] at ha hp
    exact .of_each [] (ha [] rfl) hp
  simp only [if_neg hempty] at hp
  refine .of_lookup names (fun err settings hl => ?_) fun privileges hl =>
    h.course_descend order accepts path (ha privileges hl) fun settings => ?_
  all_goals
    have hlookup := resolveAt_run settings path names r
    rw [hl] at hlookup
    rw [hp]
  · exact Walk.bind_error (congrArg some hlookup)
  · rw [Walk.bind_ok (congrArg some hlookup), (hact privileges).1, (hact privileges).2]

theorem course_revoke_along (start target : String) (who : Principal) (names : List String) :
    r.Course (.revokeNamed start (.ancestors target) who names) := by
  refine .of_lookup names (fun err settings hl => ?_) fun privileges hl =>
    h.course_climb start target (.revokeNamed hl) fun settings => ?_
  all_goals
    have hlookup := resolveAt_run settings start names r
    rw [hl] at hlookup
  · exact Walk.bind_error (congrArg some hlookup)
  · refine (Walk.bind_ok (congrArg some hlookup)).trans ?_
    rw [Edit.privileges, names_lookup hl]
    rfl

/-- **The course of a request** is the same for all settings: it fails before it does anything, or it
is a run of an edit that it asks for. -/
theorem course (request : Request) : r.Course request := by
  rcases request with ⟨path, who, privileges⟩ | ⟨path, who, privileges⟩ |
    ⟨path, _ | target | accepts, who, names⟩ | ⟨path, _ | target | accepts, who, names⟩ |
    ⟨path, _ | target | accepts⟩
  · exact .of_each [path] .grant fun settings => by rw [Action.each_singleton]; rfl
  · exact .of_each [path] .revoke fun settings => by rw [Action.each_singleton]; rfl
  · refine .of_lookup names (fun err settings hl => ?_) fun privileges hl =>
      .of_each [path] (.grantNamed hl) fun settings => ?_
    all_goals
      refine congrArg some ((grantNamed_run settings path r who names).trans ?_)
      rw [hl]
    rw [Action.each_singleton, edit_run]
  · exact h.course_grant_along path target who names
  · exact h.course_named_descend (.grant who) (fun _ => ⟨rfl, rfl⟩) (fun _ hl => .grantNamed hl)
      fun _ => rfl
  · refine .of_lookup names (fun err settings hl => ?_) fun privileges hl =>
      .of_each [path] (.revokeNamed hl) fun settings => ?_
    all_goals
      refine congrArg some ((revokeNamed_run settings path r who names).trans ?_)
      rw [hl]
    rw [Action.each_singleton, edit_run]
  · exact h.course_revoke_along path target who names
  · exact h.course_named_descend (.revoke who) (fun _ => ⟨rfl, rfl⟩) (fun _ hl => .revokeNamed hl)
      fun _ => rfl
  · exact .of_each [path] .clear fun settings => by rw [Action.each_singleton]; rfl
  · exact h.course_climb path target .clear fun _ => rfl
  · exact h.course_descend _ _ path .clear fun _ => rfl

end IsTree

/-! ## Outcomes and what is kept -/

/-- A request touched nothing, or it left what a run of an edit that it asks for has left. If it was
refused, then by that edit. -/
theorem Course.outcome_cases (h : r.Course request) {out : Except AccessError Bool}
    (hp : r.perform settings request = some (out, s)) :
    (s = r ∧ ¬IsRefusal out) ∨ ∃ e nodes ran, request.Asks r e ∧
      Action.each ((Engine.mk host settings).edit e) nodes r = (ran, s) ∧
      (IsRefusal out → out = ran) := by
  cases h with
  | fails err hrefusal hfails =>
    rw [hfails] at hp
    cases hp
    exact .inl ⟨rfl, hrefusal⟩
  | runs e nodes failure ha hfailure hruns =>
    rw [hruns, Action.bind_run] at hp
    refine .inr ⟨e, nodes, ?_⟩
    rcases hrun : Action.each ((Engine.mk host settings).edit e) nodes r with ⟨err | changed, s'⟩
    · rw [hrun] at hp
      cases hp
      exact ⟨_, ha, rfl, fun _ => rfl⟩
    · rw [hrun] at hp
      cases failure with
      | none =>
        cases hp
        exact ⟨_, ha, rfl, fun _ => rfl⟩
      | some err =>
        cases hp
        exact ⟨_, ha, rfl, fun hout => absurd hout (hfailure err rfl)⟩

section Kept

variable {I : Repository → Prop} {out : Except AccessError Bool}
  (hkeeps : ∀ e s path, request.Asks r e → s.bare = r.bare → I s → I (s.edit settings e path).2)
  (hr : I r) (hp : r.perform settings request = some (out, s))
include hkeeps hr

theorem each_asked_keeps (ha : request.Asks r e) {nodes : List String}
    {ran : Except AccessError Bool}
    (hrun : Action.each ((Engine.mk host settings).edit e) nodes r = (ran, s)) :
    s.bare = r.bare ∧ I s := by
  have hkeeps : Keeps (fun s => s.bare = r.bare ∧ I s)
      (Action.each ((Engine.mk host settings).edit e) nodes) :=
    each_edit_keeps fun path _ s hs => ⟨(bare_edit ..).trans hs.1, hkeeps e s path ha hs.1 hs.2⟩
  have hkept := hkeeps r ⟨rfl, hr⟩
  rwa [hrun] at hkept

include hp

/-- **What a request keeps**: what the edits that it asks for keep, as long as the tree and the
registry stay. -/
theorem Course.keeps (h : r.Course request) : I s := by
  rcases h.outcome_cases hp with ⟨rfl, -⟩ | ⟨e, nodes, ran, ha, hrun, -⟩
  · exact hr
  · exact (each_asked_keeps hkeeps hr ha hrun).2

/-- A request is not refused where none of its edits is. -/
theorem Course.not_refused (h : r.Course request)
    (hedit : ∀ e s path, request.Asks r e → s.bare = r.bare → I s →
      ¬IsRefusal (s.edit settings e path).1) : ¬IsRefusal out := by
  rcases h.outcome_cases hp with ⟨-, hout⟩ | ⟨e, nodes, ran, ha, hrun, hran⟩
  · exact hout
  -- A refusal can only come from one of the edits, before which all that is kept still held.
  intro hout
  rw [hran hout] at hout
  obtain ⟨principals, rfl⟩ := hout
  obtain ⟨visited, path, left, changed, -, hvisited, hpath⟩ := each_edit_eq_error hrun
  obtain ⟨hbare, hs⟩ := each_asked_keeps hkeeps hr ha hvisited
  refine hedit e s path ha hbare hs ⟨principals, ?_⟩
  rw [← edit_run, hpath]

end Kept

end Repository
end AclTree
