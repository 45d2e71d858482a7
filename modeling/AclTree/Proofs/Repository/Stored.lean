/-
What the lists of a repository hold, against its registry. A list keeps the
descriptors that were looked up when it was changed. As long as requests give
privileges by their names (`ReachableByName`), these are the registered ones, so
names tell all there is to know of a list: what it grants, whether it is frozen,
and that granting a name which implies the privilege to change lists is never
refused (`names_suffice`).
-/
import AclTree.Proofs.Acl.Holds
import AclTree.Proofs.Engine.Course
import AclTree.Proofs.Engine.Ends
import AclTree.Proofs.Repository.Registry

namespace AclTree

/-- The request gives its privileges by their names, if it gives any. -/
def Request.byName : Request → Bool
  | .grant .. => false
  | .revoke .. => false
  | .grantNamed .. => true
  | .revokeNamed .. => true
  | .clear .. => true

/-! ## Where descriptors come from -/

namespace Edit

variable {s : Settings} {find : String → Option Privilege} {p : Privilege}

theorem holds_seeded {acl start : Acl} {new : Bool} (hs : seeded s find acl = .ok (start, new))
    (hp : start.Holds p) : acl.Holds p ∨ find s.allPrivilege = some p := by
  rcases seeded_eq_ok hs with ⟨-, rfl⟩ | ⟨-, all, hall, rfl⟩
  · exact .inl hp
  · rcases Acl.holds_add hp with hp | hp
    · exact .inl hp
    · rw [List.mem_singleton.1 hp]
      exact .inr hall

/-- What a list holds after an edit it held before, or the edit brought it, or it is what the
administrator gets. -/
theorem holds_outcome {e : Edit} {policy : Option Acl} {acl : Acl} {changed : Bool}
    (ho : e.outcome s find policy = .ok (some acl, changed)) (hp : acl.Holds p) :
    (∃ old, policy = some old ∧ old.Holds p) ∨ p ∈ e.privileges ∨
      find s.allPrivilege = some p := by
  cases e with
  | grant who privileges =>
    obtain ⟨start, new, hs, -, ha, -⟩ := outcome_grant_eq_ok ho
    rw [Option.some.inj ha] at hp
    rcases Acl.holds_add hp with hp | hp
    · rcases holds_seeded hs hp with hp | hp
      · cases policy with
        | none => exact absurd hp (Acl.not_holds_empty p)
        | some old => exact .inl ⟨old, rfl, hp⟩
      · exact .inr (.inr hp)
    · exact .inr (.inl hp)
  | revoke who privileges =>
    cases policy with
    | none => cases ho
    | some bound =>
      rcases outcome_revoke_eq_ok ho with ⟨-, -, -, ha⟩ | ⟨-, -, ha⟩ <;> cases ha
      · exact .inl ⟨bound, rfl, Acl.holds_take hp⟩
      · exact .inl ⟨_, rfl, hp⟩
  | clear => cases ho

end Edit

namespace Repository

variable {r s : Repository} {settings : Settings} {request : Request} {path : String}
  {p : Privilege}

/-- Some list that is bound holds the descriptor. -/
def Stores (r : Repository) (p : Privilege) : Prop :=
  ∃ path acl, r.policyAt path = some acl ∧ acl.Holds p

theorem stores_of_nodes (hn : s.nodes = r.nodes) (h : s.Stores p) : r.Stores p := by
  obtain ⟨path, acl, ha, hp⟩ := h
  unfold policyAt at ha
  rw [hn] at ha
  exact ⟨path, acl, ha, hp⟩

theorem stores_grow {parent path kind : String} (h : (r.grow parent path kind).Stores p) :
    r.Stores p := by
  obtain ⟨q, acl, ha, hp⟩ := h
  rw [policyAt_grow] at ha
  split at ha
  · cases ha
  · exact ⟨q, acl, ha, hp⟩

theorem stores_withPolicy {policy : Option Acl} (h : (r.withPolicy path policy).Stores p) :
    r.Stores p ∨ ∃ acl, policy = some acl ∧ acl.Holds p := by
  obtain ⟨q, acl, ha, hp⟩ := h
  rcases policyAt_withPolicy ha with hpolicy | ha
  · exact .inr ⟨acl, hpolicy, hp⟩
  · exact .inl ⟨q, acl, ha, hp⟩

theorem stores_edit {e : Edit} (h : (r.edit settings e path).2.Stores p) :
    r.Stores p ∨ p ∈ e.privileges ∨ r.findPrivilege? settings.allPrivilege = some p := by
  rcases edit_cases r settings e path with he | ⟨node, policy, changed, hf, ho, he⟩ <;> rw [he] at h
  · exact .inl h
  · rcases stores_withPolicy h with h | ⟨acl, rfl, hp⟩
    · exact .inl h
    · rcases Edit.holds_outcome ho hp with ⟨old, hold, hp⟩ | h
      · refine .inl ⟨path, old, ?_, hp⟩
        rw [policyAt, hf]
        exact hold
      · exact .inr h

/-! ## Registered descriptors -/

/-- The lists hold registered descriptors only. -/
def StoresRegistered (r : Repository) : Prop := ∀ p, r.Stores p → r.Registered p

theorem registered_of_bare (h : s.bare = r.bare) : s.Registered p ↔ r.Registered p := by
  unfold Registered
  rw [findPrivilege?_of_bare h]

theorem registered_of_lookup {names : List String} {privileges : List Privilege}
    (h : r.lookup names = .ok privileges) : ∀ p ∈ privileges, r.Registered p :=
  (forall₂_find_iff.1 (lookup_eq_ok.1 h)).2

theorem implies_of_bare (h : s.bare = r.bare) {held name : String} :
    s.Implies held name ↔ r.Implies held name := by
  unfold Implies
  rw [findPrivilege?_of_bare h]

/-- What a request by names asks for is registered. -/
theorem registered_of_asks {e : Edit} (hname : request.byName = true) (ha : request.Asks r e) :
    ∀ p ∈ e.privileges, r.Registered p := by
  cases ha with
  | grant => cases hname
  | revoke => cases hname
  | grantNamed hl => exact registered_of_lookup hl
  | revokeNamed hl => exact registered_of_lookup hl
  | clear => exact fun _ hp => absurd hp List.not_mem_nil

namespace StoresRegistered

theorem initial : Repository.initial.StoresRegistered := by
  rintro p ⟨path, acl, ha, -⟩
  rw [policyAt_initial] at ha
  cases ha

theorem register (h : r.StoresRegistered) {q : Privilege} (hr : r.register p = .ok (q, s)) :
    s.StoresRegistered := by
  intro known hknown
  rw [registered_register hr]
  obtain ⟨-, -, rfl⟩ := register_eq_ok hr
  exact .inr (h known (stores_of_nodes rfl hknown))

theorem addNode (h : r.StoresRegistered) {parent name kind : String}
    (ha : r.addNode parent name kind = .ok (path, s)) : s.StoresRegistered := by
  obtain ⟨parent, -, -, -, -, -, rfl⟩ := addNode_eq_ok.1 ha
  exact fun known hknown => h known (stores_grow hknown)

theorem addPath (h : r.StoresRegistered) {kind added : String}
    (ha : r.addPath path kind = .ok (added, s)) : s.StoresRegistered := by
  obtain ⟨parent, name, ha⟩ := addPath_eq_ok ha
  exact h.addNode ha

theorem edit (h : r.StoresRegistered) {e : Edit} (he : ∀ p ∈ e.privileges, r.Registered p)
    (path : String) : (r.edit settings e path).2.StoresRegistered := by
  intro known hknown
  rw [registered_of_bare (bare_edit r settings e path)]
  rcases stores_edit hknown with hknown | hknown | hknown
  · exact h known hknown
  · exact he known hknown
  · exact registered_of_find hknown

/-- An edit that was asked for by names, at any point of the request. -/
theorem edit_asked (h : s.StoresRegistered) {e : Edit} (hname : request.byName = true)
    (ha : request.Asks r e) (hbare : s.bare = r.bare) (path : String) :
    (s.edit settings e path).2.StoresRegistered := by
  refine h.edit (fun p hp => ?_) path
  rw [registered_of_bare hbare]
  exact registered_of_asks hname ha p hp

theorem perform (h : r.StoresRegistered) (ht : r.IsTree) (hname : request.byName = true)
    {out : Except AccessError Bool} (hp : r.perform settings request = some (out, s)) :
    s.StoresRegistered :=
  (ht.course request).keeps
    (fun _ _ path ha hbare ht => ht.edit_asked hname ha hbare path) h hp

/-- The lists of a fixture are made of what is registered when they are bound. -/
theorem bind (h : r.StoresRegistered) {d : NodeDefinition} (hd : d.bind r = .ok s) :
    s.StoresRegistered := by
  rcases NodeDefinition.bind_eq_ok hd with rfl | ⟨acl, hb, rfl⟩
  · exact h
  have hacl : ∀ p, acl.Holds p → r.Registered p := by
    refine NodeDefinition.buildAcl_keeps (I := fun acl => ∀ p, acl.Holds p → r.Registered p)
      (fun p hp => absurd hp (Acl.not_holds_empty p)) (fun e privileges acl ih hr p hp => ?_) hb
    rcases Acl.holds_add hp with hp | hp
    · exact ih p hp
    · exact (forall₂_find_iff.1 (resolve_eq_ok.1 hr)).2 p hp
  intro known hknown
  rcases stores_withPolicy hknown with hknown | ⟨_, hacl', hknown⟩
  · exact h known hknown
  · cases hacl'
    exact hacl known hknown

end StoresRegistered

/-! ## Requests by names -/

/-- What the initial repository or a loaded fixture can become as long as requests give privileges
by their names. As for `Reachable`, steps that fail without giving a repository leave the one
before. -/
inductive ReachableByName : Repository → Prop where
  | initial : ReachableByName .initial
  | loaded {f : Fixture} {r : Repository} : f.load = .ok r → ReachableByName r
  | addNode {r s : Repository} {parent name kind path : String} :
      ReachableByName r → r.addNode parent name kind = .ok (path, s) → ReachableByName s
  | addPath {r s : Repository} {path kind added : String} :
      ReachableByName r → r.addPath path kind = .ok (added, s) → ReachableByName s
  | registerPrivilege {r s : Repository} {name : String} {p : Privilege} :
      ReachableByName r → r.registerPrivilege name = .ok (p, s) → ReachableByName s
  | registerAggregate {r s : Repository} {name : String} {constituents : List String}
      {p : Privilege} :
      ReachableByName r → r.registerAggregate name constituents = .ok (p, s) → ReachableByName s
  | perform {r s : Repository} {settings : Settings} {request : Request}
      {out : Except AccessError Bool} :
      ReachableByName r → request.byName = true → r.perform settings request = some (out, s) →
      ReachableByName s

namespace ReachableByName

theorem reachable (h : r.ReachableByName) : r.Reachable := by
  induction h with
  | initial => exact .initial
  | loaded h => exact .loaded h
  | addNode _ h ih => exact .addNode ih h
  | addPath _ h ih => exact .addPath ih h
  | registerPrivilege _ h ih => exact .registerPrivilege ih h
  | registerAggregate _ h ih => exact .registerAggregate ih h
  | perform _ _ h ih => exact .perform ih h

theorem storesRegistered (h : r.ReachableByName) : r.StoresRegistered := by
  induction h with
  | initial => exact .initial
  | loaded h =>
    refine Fixture.load_keeps .initial (fun d r s hr hd => ?_) (fun d r s hr hd => ?_)
      (fun d r s hr hd => hr.bind hd) h
    · obtain ⟨p, hd⟩ := PrivilegeDefinition.register_eq_ok hd
      exact hr.register hd
    · obtain ⟨path, hd⟩ := NodeDefinition.create_eq_ok hd
      exact hr.addPath hd
  | addNode _ h ih => exact ih.addNode h
  | addPath _ h ih => exact ih.addPath h
  | registerPrivilege _ h ih => exact ih.register h
  | registerAggregate _ h ih =>
    obtain ⟨parts, -, h⟩ := registerAggregate_eq_ok h
    exact ih.register h
  | perform hr hname h ih => exact ih.perform hr.reachable.isTree hname h

end ReachableByName

/-! ## What names tell -/

/-- Whether a list is frozen, by what is reported of it and the registry. -/
def frozenByNames (r : Repository) (modify : String) (entries : List EntryListing) : Bool :=
  !entries.isEmpty && !entries.any fun e => e.privileges.any fun name =>
    (r.findPrivilege? name).any (·.implies modify)

/-- `Acl.checkNotFrozen` by what is reported of the list and the registry. -/
def checkNames (r : Repository) (modify : String) (entries : List EntryListing) :
    Except AccessError Unit :=
  if r.frozenByNames modify entries then .error (.frozenAcl (entries.map (·.principal))) else .ok ()

theorem grants_iff {e : Entry} (h : ∀ p ∈ e.privileges, r.Registered p) (name : String) :
    e.grants name = true ↔ ∃ held ∈ e.privilegeNames, r.Implies held name := by
  unfold Entry.grants Implies
  rw [Privilege.impliesAny_iff]
  constructor
  · rintro ⟨p, hp, hi⟩
    exact ⟨p.name, List.mem_map_of_mem hp, p, h p hp, hi⟩
  · rintro ⟨held, hheld, p, hfind, hi⟩
    obtain ⟨q, hq, rfl⟩ := Privilege.mem_names.1 hheld
    rw [h q hq] at hfind
    cases hfind
    exact ⟨p, hq, hi⟩

theorem isFrozen_eq_frozenByNames {acl : Acl} (h : ∀ p, acl.Holds p → r.Registered p)
    (path kind modify : String) :
    acl.isFrozen modify = r.frozenByNames modify (PolicyListing.of path kind acl).entries := by
  have hgrants : acl.entries.any (·.grants modify) = acl.entries.any fun e =>
      e.privilegeNames.any fun name => (r.findPrivilege? name).any (·.implies modify) := by
    rw [Bool.eq_iff_iff, List.any_eq_true, List.any_eq_true]
    refine exists_congr fun e => and_congr_right fun he => ?_
    rw [grants_iff (fun p hp => h p ⟨e, he, hp⟩), List.any_eq_true]
    simp only [Option.any_eq_true, Implies]
  unfold Acl.isFrozen frozenByNames PolicyListing.of Acl.isEmpty
  rw [List.isEmpty_map, List.any_map, hgrants]
  rfl

/-- What names tell of the lists of a repository. -/
structure NamesTell (r : Repository) : Prop where
  /-- Every descriptor in a list is the one registered under its name, constituents and all. -/
  stored : ∀ path acl, r.policyAt path = some acl → ∀ e ∈ acl.entries, ∀ p ∈ e.privileges,
    r.findPrivilege? p.name = some p
  /-- An entry grants what is implied by a name that it holds. -/
  grants : ∀ path acl, r.policyAt path = some acl → ∀ e ∈ acl.entries, ∀ name,
    e.grants name = true ↔ ∃ held ∈ e.privilegeNames, r.Implies held name
  /-- What is reported of a list decides whether it is frozen. -/
  frozen : ∀ path kind acl, r.policyAt path = some acl → ∀ modify,
    acl.checkNotFrozen modify = r.checkNames modify (PolicyListing.of path kind acl).entries

theorem StoresRegistered.namesTell (h : r.StoresRegistered) : r.NamesTell where
  stored path acl ha e he p hp := h p ⟨path, acl, ha, e, he, hp⟩
  grants path acl ha e he name := grants_iff (fun p hp => h p ⟨path, acl, ha, e, he, hp⟩) name
  frozen path kind acl ha modify := by
    have hprincipals : (PolicyListing.of path kind acl).entries.map (·.principal) = acl.principals := by
      simp [PolicyListing.of, Acl.principals, Function.comp_def]
    unfold Acl.checkNotFrozen checkNames
    rw [isFrozen_eq_frozenByNames (fun p hp => h p ⟨path, acl, ha, hp⟩) path kind, hprincipals]

/-! ## Amending lists by names -/

/-- A list is not frozen once a name is granted that implies the privilege to change it: whether
its descriptor is new to the list or is there already, it is the registered one. -/
theorem isFrozen_add {acl : Acl} {who : Principal} {privileges : List Privilege}
    {name modify : String} (hacl : ∀ p, acl.Holds p → r.Registered p)
    (hp : ∀ p ∈ privileges, r.Registered p) (hname : name ∈ Privilege.names privileges)
    (hi : r.Implies name modify) : (acl.add who privileges).1.isFrozen modify = false := by
  have hgranted : ∃ p, (acl.add who privileges).1.Holds p ∧ p.name = name :=
    Acl.exists_holds_add hname
  obtain ⟨p, hheld, rfl⟩ := hgranted
  have hregistered : r.Registered p := (Acl.holds_add hheld).elim (hacl p) (hp p)
  obtain ⟨q, hq, hi⟩ := hi
  rw [hregistered] at hq
  cases hq
  exact Acl.isFrozen_eq_false_iff.2 (.inr ⟨p, hheld, hi⟩)

namespace StoresRegistered

variable (h : r.StoresRegistered) (who : Principal) {privileges : List Privilege}
  (hp : ∀ p ∈ privileges, r.Registered p) {name : String}
  (hname : name ∈ Privilege.names privileges) (hi : r.Implies name settings.modifyPrivilege)
include h hp hname hi

theorem isFrozen_grant {node : Node} (hf : r.nodes.find? path = some node) {start : Acl} {new : Bool}
    (hs : Edit.seeded settings r.findPrivilege? (node.policy.getD .empty) = .ok (start, new)) :
    (start.add who privileges).1.isFrozen settings.modifyPrivilege = false := by
  refine isFrozen_add (fun p hheld => ?_) hp hname hi
  rcases Edit.holds_seeded hs hheld with hheld | hall
  · cases hpolicy : node.policy with
    | none =>
      rw [hpolicy] at hheld
      exact absurd hheld (Acl.not_holds_empty p)
    | some acl =>
      rw [hpolicy] at hheld
      exact h p ⟨path, acl, (policyAt_of_find? hf).trans hpolicy, hheld⟩
  · exact registered_of_find hall

theorem grant_not_refused : ¬IsRefusal (r.edit settings (.grant who privileges) path).1 := by
  intro hrefused
  obtain ⟨node, hf, hrefused⟩ := edit_refused hrefused
  obtain ⟨start, new, hs, hfrozen⟩ := Edit.outcome_grant_refused hrefused
  rw [h.isFrozen_grant who hp hname hi hf hs] at hfrozen
  cases hfrozen

/-- Granting the name on a node makes its list one that is not frozen. -/
theorem grant_repairs (hc : r.contains path = true)
    (hall : (r.findPrivilege? settings.allPrivilege).isSome = true ∨
      ∃ acl, r.policyAt path = some acl ∧ acl.isEmpty = false) :
    ∃ changed acl, (r.edit settings (.grant who privileges) path).1 = .ok changed ∧
      (r.edit settings (.grant who privileges) path).2.policyAt path = some acl ∧
      acl.isFrozen settings.modifyPrivilege = false := by
  obtain ⟨node, hf⟩ := contains_iff_find?.1 hc
  have hv : (Edit.grant who privileges).isVoid = false := by
    cases privileges with
    | nil => cases hname
    | cons p rest => rfl
  cases hs : Edit.seeded settings r.findPrivilege? (node.policy.getD .empty) with
  | error err =>
    obtain ⟨hempty, hnone, -⟩ := Edit.seeded_eq_error hs
    rcases hall with hall | ⟨acl, ha, hne⟩
    · rw [hnone] at hall
      cases hall
    · rw [← policyAt_of_find? hf, ha, Option.getD_some, hne] at hempty
      cases hempty
  | ok found =>
    obtain ⟨start, new⟩ := found
    have hfrozen := h.isFrozen_grant who hp hname hi hf hs
    have ho := Edit.outcome_grant_of_seeded hs (Settings.check_eq_ok.2 fun _ => hfrozen)
    rw [edit_found hv hf, ho]
    refine ⟨_, _, rfl, ?_, hfrozen⟩
    rw [policyAt, find?_withPolicy, if_pos rfl, hf]
    rfl

end StoresRegistered

/-- However far the names are granted, no list is refused for it. -/
theorem StoresRegistered.grantNamed_not_refused (h : r.StoresRegistered) (ht : r.IsTree)
    {scope : Scope} {who : Principal} {names : List String} {name : String}
    (hname : name ∈ names) (hi : r.Implies name settings.modifyPrivilege)
    {out : Except AccessError Bool}
    (hp : r.perform settings (.grantNamed path scope who names) = some (out, s)) :
    ¬IsRefusal out := by
  refine (ht.course _).not_refused (I := StoresRegistered)
    (fun _ _ q ha hbare hs => hs.edit_asked rfl ha hbare q) h hp fun e t q ha hbare hs => ?_
  cases ha with
  | grantNamed hl =>
    refine hs.grant_not_refused who (fun p hp => ?_) ((names_lookup hl).symm ▸ hname)
      ((implies_of_bare hbare).2 hi)
    exact (registered_of_bare hbare).2 (registered_of_lookup hl p hp)

/-- **Names suffice** as long as only they are given: every descriptor in a list is what its name is
registered for, so names and the registry tell what an entry grants and whether a list is frozen.
Granting names, one of which implies the privilege to change lists, is never refused, and on a node
it leaves a list that is not frozen, if it was frozen before or not. -/
theorem ReachableByName.names_suffice (h : r.ReachableByName) :
    r.NamesTell ∧ ∀ settings path who names name, name ∈ names →
      r.Implies name settings.modifyPrivilege →
      (∀ scope, ∃ out s, r.perform settings (.grantNamed path scope who names) = some (out, s) ∧
        ¬IsRefusal out) ∧
      (r.contains path = true → (∀ n ∈ names, (r.findPrivilege? n).isSome = true) →
        ((r.findPrivilege? settings.allPrivilege).isSome = true ∨
          ∃ acl, r.policyAt path = some acl ∧ acl.isEmpty = false) →
        ∃ changed s acl, r.perform settings (.grantNamed path .node who names) =
          some (.ok changed, s) ∧ s.policyAt path = some acl ∧
          acl.isFrozen settings.modifyPrivilege = false) := by
  have hstores := h.storesRegistered
  have htree := h.reachable.isTree
  refine ⟨hstores.namesTell, fun settings path who names name hname hi => ⟨fun scope => ?_, ?_⟩⟩
  · obtain ⟨⟨out, s⟩, hp⟩ := htree.perform_ends settings (.grantNamed path scope who names)
    exact ⟨out, s, hp, hstores.grantNamed_not_refused htree hname hi hp⟩
  · intro hc hknown hall
    obtain ⟨privileges, hl⟩ := exists_lookup hknown
    obtain ⟨changed, acl, hout, hacl, hfrozen⟩ := hstores.grant_repairs who
      (registered_of_lookup hl) ((names_lookup hl).symm ▸ hname) hi hc hall
    refine ⟨changed, _, acl, ?_, hacl, hfrozen⟩
    refine congrArg some ((grantNamed_run settings path r who names).trans ?_)
    rw [hl]
    exact Prod.ext hout rfl

/-- The administrator is taken from the list of the root, where the other principal can only read:
the list is frozen, and granting all privileges to that principal repairs it. -/
theorem names_suffice_frozen_root : ∃ r₁ r s acl,
    Repository.initial.perform {} (.grantNamed Path.root .node ⟨"u"⟩ ["jcr:read"]) =
      some (.ok true, r₁) ∧
    r₁.perform {} (.revokeNamed Path.root .node ⟨"admin"⟩ ["jcr:all"]) = some (.ok true, r) ∧
    r.checkNames "jcr:modifyAccessControl" [⟨"u", ["jcr:read"]⟩] = .error (.frozenAcl ["u"]) ∧
    r.NamesTell ∧
    r.perform { enforce := true } (.grantNamed Path.root .node ⟨"u"⟩ ["jcr:write", "jcr:all"]) =
      some (.ok true, s) ∧
    s.policyAt Path.root = some acl ∧ acl.isFrozen "jcr:modifyAccessControl" = false := by
  have hrun : ∃ r₁ r, Repository.initial.perform {}
        (.grantNamed Path.root .node ⟨"u"⟩ ["jcr:read"]) = some (.ok true, r₁) ∧
      r₁.perform {} (.revokeNamed Path.root .node ⟨"admin"⟩ ["jcr:all"]) = some (.ok true, r) ∧
      r.contains Path.root = true ∧ r.privileges = Privilege.standard ∧
      r.checkNames "jcr:modifyAccessControl" [⟨"u", ["jcr:read"]⟩] = .error (.frozenAcl ["u"]) ∧
      (r.perform { enforce := true } (.grantNamed Path.root .node ⟨"u"⟩
        ["jcr:write", "jcr:all"])).map Prod.fst = some (.ok true) :=
    ⟨_, _, rfl, rfl, rfl, rfl, rfl, rfl⟩
  obtain ⟨r₁, r, hgrant, hrevoke, hc, hstandard, hfrozen, hchanged⟩ := hrun
  have hreach : r.ReachableByName := .perform (.perform .initial rfl hgrant) rfl hrevoke
  have hfind : r.findPrivilege? = Repository.initial.findPrivilege? := by
    unfold findPrivilege?
    rw [hstandard]
    rfl
  obtain ⟨htell, hgrants⟩ := ReachableByName.names_suffice hreach
  have himplies : r.Implies "jcr:all" "jcr:modifyAccessControl" := by
    unfold Implies
    rw [hfind]
    exact ⟨_, rfl, rfl⟩
  have hrepairs := (hgrants { enforce := true } Path.root ⟨"u"⟩ ["jcr:write", "jcr:all"] "jcr:all"
    (by decide) himplies).2 hc
  rw [hfind] at hrepairs
  obtain ⟨changed, s, acl, hp, hacl, hamendable⟩ := hrepairs (by decide) (.inl rfl)
  rw [hp] at hchanged
  cases hchanged
  exact ⟨r₁, r, s, acl, hgrant, hrevoke, hfrozen, htell, hp, hacl, hamendable⟩

end Repository
end AclTree
