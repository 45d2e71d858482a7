/-
The registry of privileges. An aggregate holds copies of what it was made of;
since names are never registered twice, these stay what the registry has under
their names (`Coherent`). So implication is a partial order of the registered
names, and none contains itself at any depth, whatever is registered in
whatever order (`registered_hierarchy`).
-/
import AclTree.Proofs.Fixture
import AclTree.Proofs.Repository.Tree
import Mathlib.Order.Defs.Unbundled

namespace AclTree.Repository

variable {r s : Repository} {p q : Privilege} {d : PrivilegeDefinition} {name : String}

/-- The descriptor is what the repository has under its name, constituents and all. -/
def Registered (r : Repository) (p : Privilege) : Prop := r.findPrivilege? p.name = some p

theorem registered_of_find (h : r.findPrivilege? name = some p) : r.Registered p := by
  unfold Registered
  rwa [name_of_findPrivilege? h]

theorem findPrivilege?_eq_none :
    r.findPrivilege? name = none ↔ Privilege.holds r.privileges name = false := by
  simp [findPrivilege?, Privilege.holds]

theorem findPrivilege?_isSome :
    (r.findPrivilege? name).isSome = true ↔ name ∈ Privilege.names r.privileges := by
  rw [Option.isSome_iff_ne_none, Ne, findPrivilege?_eq_none, Bool.not_eq_false, Privilege.holds_iff]

/-- What is found stays so behind more privileges. -/
theorem findPrivilege?_append {more : List Privilege} (hs : s.privileges = r.privileges ++ more)
    (h : r.findPrivilege? name = some p) : s.findPrivilege? name = some p := by
  unfold findPrivilege? at h ⊢
  rw [hs, List.find?_append, h]
  rfl

/-! ## Looking up constituents -/

theorem resolve_eq_ok {names : List String} {privileges : List Privilege} :
    r.resolve names = .ok privileges ↔
      List.Forall₂ (fun name p => r.findPrivilege? name = some p) names privileges := by
  unfold resolve
  rw [Except.mapM_eq_ok]
  refine iff_of_eq (congrArg (List.Forall₂ · names privileges) ?_)
  funext name p
  cases r.findPrivilege? name <;> simp

/-- Names are looked up one by one; all of them have to be there. -/
theorem resolve_eq_ok_iff {names : List String} {privileges : List Privilege} :
    r.resolve names = .ok privileges ↔
      (∀ name ∈ names, (r.findPrivilege? name).isSome = true) ∧
        privileges = names.filterMap r.findPrivilege? := by
  unfold resolve
  rw [Except.mapM_eq_ok_iff]
  refine and_congr (forall₂_congr fun name _ => ?_) (iff_of_eq (congrArg (privileges = ·) ?_))
  · cases r.findPrivilege? name <;> simp
  · refine List.filterMap_congr fun name _ => ?_
    cases r.findPrivilege? name <;> rfl

theorem exists_resolve_eq_ok {names : List String} :
    (∃ privileges, r.resolve names = .ok privileges) ↔
      ∀ name ∈ names, (r.findPrivilege? name).isSome = true := by
  simp only [resolve_eq_ok_iff, exists_and_left, exists_eq, and_true]

/-- Descriptors that were looked up by names are registered, and have these names. -/
theorem forall₂_find_iff {names : List String} {privileges : List Privilege} :
    List.Forall₂ (fun name p => r.findPrivilege? name = some p) names privileges ↔
      Privilege.names privileges = names ∧ ∀ p ∈ privileges, r.Registered p := by
  constructor
  · intro h
    induction h with
    | nil => simp
    | cons hp _ ih =>
      rw [Privilege.names_cons, ih.1, name_of_findPrivilege? hp]
      exact ⟨rfl, List.forall_mem_cons.2 ⟨registered_of_find hp, ih.2⟩⟩
  · rintro ⟨rfl, h⟩
    exact List.forall₂_map_left_iff.2 (List.forall₂_same.2 h)

/-! ## One registration -/

theorem register_eq_ok_iff :
    r.register p = .ok (q, s) ↔ q = p ∧ r.findPrivilege? p.name = none ∧
      s = { r with privileges := r.privileges ++ [p] } := by
  rw [findPrivilege?_eq_none]
  constructor
  · exact register_eq_ok
  · rintro ⟨rfl, hn, rfl⟩
    rw [register_eq, hn]
    rfl

/-- What there is under a name after one more registration. -/
theorem findPrivilege?_register (h : r.register p = .ok (q, s)) (name : String) :
    s.findPrivilege? name = if p.name = name then some p else r.findPrivilege? name := by
  obtain ⟨-, hn, rfl⟩ := register_eq_ok_iff.1 h
  have happend : (Repository.mk r.nodes (r.privileges ++ [p])).findPrivilege? name =
      (r.findPrivilege? name).or ([p].find? (·.name == name)) := List.find?_append
  rw [happend]
  by_cases hp : p.name = name
  · rw [if_pos hp, ← hp, hn]
    simp
  · rw [if_neg hp]
    simp [hp]

/-- Nothing registered is ever replaced. -/
theorem registered_register (h : r.register p = .ok (q, s)) {known : Privilege} :
    s.Registered known ↔ known = p ∨ r.Registered known := by
  obtain ⟨-, hn, -⟩ := register_eq_ok_iff.1 h
  unfold Registered
  rw [findPrivilege?_register h]
  split
  · rename_i hp
    rw [← hp, hn]
    simp [eq_comm]
  · rename_i hp
    have hne : known ≠ p := fun hk => hp (congrArg Privilege.name hk).symm
    simp [hne]

/-- The descriptor of a definition: simple, or made of what is registered under the names that the
definition lists. -/
def Describes (r : Repository) (d : PrivilegeDefinition) (p : Privilege) : Prop :=
  match d.aggregates with
  | none => p = .simple d.name
  | some names => ∃ parts, r.resolve names = .ok parts ∧ p = .aggregate d.name parts

theorem Describes.name_eq (h : r.Describes d p) : p.name = d.name := by
  unfold Describes at h
  split at h
  · rw [h]; rfl
  · obtain ⟨parts, -, rfl⟩ := h
    rfl

theorem Describes.mono (h : r.Describes d p)
    (hsub : ∀ name q, r.findPrivilege? name = some q → s.findPrivilege? name = some q) :
    s.Describes d p := by
  unfold Describes at h ⊢
  split at h
  · exact h
  · obtain ⟨parts, hr, hp⟩ := h
    rw [resolve_eq_ok] at hr
    exact ⟨parts, resolve_eq_ok.2 (hr.imp hsub), hp⟩

theorem Describes.constituents_registered (h : r.Describes d p) :
    ∀ part ∈ p.constituents, r.Registered part := by
  unfold Describes at h
  split at h
  · rw [h]
    exact fun _ hpart => absurd hpart List.not_mem_nil
  · obtain ⟨parts, hr, rfl⟩ := h
    exact (forall₂_find_iff.1 (resolve_eq_ok.1 hr)).2

theorem exists_describes :
    (∃ p, r.Describes d p) ↔
      ∀ name ∈ d.aggregates.getD [], (r.findPrivilege? name).isSome = true := by
  unfold Describes
  split
  · rename_i hd
    simp [hd]
  · rename_i names hd
    rw [hd, Option.getD_some, ← exists_resolve_eq_ok]
    constructor
    · rintro ⟨_, parts, hr, -⟩
      exact ⟨parts, hr⟩
    · rintro ⟨parts, hr⟩
      exact ⟨_, parts, hr, rfl⟩

end Repository

/-- **A definition registers** the descriptor that it describes. -/
theorem PrivilegeDefinition.register_eq_ok_iff {r s : Repository} {d : PrivilegeDefinition} :
    d.register r = .ok s ↔ ∃ p, r.Describes d p ∧ r.register p = .ok (p, s) := by
  have hown : ∀ p, (∃ q, r.register p = .ok (q, s)) ↔ r.register p = .ok (p, s) := by
    intro p
    constructor
    · rintro ⟨q, h⟩
      obtain ⟨rfl, -⟩ := Repository.register_eq_ok_iff.1 h
      exact h
    · exact fun h => ⟨p, h⟩
  unfold PrivilegeDefinition.register PrivilegeDefinition.registration Repository.Describes
  cases d.aggregates with
  | none =>
    simp only [Except.map_eq_ok, Prod.exists, exists_eq_right, exists_eq_left]
    exact hown (.simple d.name)
  | some names =>
    simp only [Except.map_eq_ok, Prod.exists, exists_eq_right]
    constructor
    · rintro ⟨q, h⟩
      obtain ⟨parts, hr, h⟩ := Repository.registerAggregate_eq_ok h
      exact ⟨_, ⟨parts, hr, rfl⟩, (hown _).1 ⟨q, h⟩⟩
    · rintro ⟨p, ⟨parts, hr, rfl⟩, h⟩
      refine ⟨_, (Repository.registerAggregate_eq ..).trans (Except.bind_eq_ok.2 ⟨parts, hr, h⟩)⟩

namespace Repository

variable {r s : Repository} {p q : Privilege} {d : PrivilegeDefinition} {name : String}

/-! ## Coherence -/

/-- What is inside a registered descriptor, at any depth, is registered as it is there. -/
def Coherent (r : Repository) : Prop := ∀ p, r.Registered p → ∀ q ∈ p.nested, r.Registered q

theorem Coherent.initial : Repository.initial.Coherent := by
  have hstandard : ∀ p ∈ Privilege.standard, ∀ q ∈ p.nested,
      Privilege.standard.find? (·.name == q.name) = some q := by
    simp [Privilege.standard, Privilege.all, Privilege.write, Privilege.read,
      Privilege.modifications, Privilege.management, Privilege.nested, Privilege.nestedAll,
      Privilege.name]
  exact fun p hp => hstandard p (List.mem_of_find?_eq_some hp)

theorem Coherent.register (h : r.Coherent) (hr : r.register p = .ok (q, s))
    (hparts : ∀ part ∈ p.constituents, r.Registered part) : s.Coherent := by
  intro known hknown inner hinner
  rw [registered_register hr] at hknown ⊢
  rcases hknown with rfl | hknown
  · rcases Privilege.mem_nested.1 hinner with rfl | ⟨part, hpart, hinner⟩
    · exact .inl rfl
    · exact .inr (h part (hparts part hpart) inner hinner)
  · exact .inr (h known hknown inner hinner)

theorem Coherent.define (h : r.Coherent) (hd : d.register r = .ok s) : s.Coherent := by
  obtain ⟨p, hp, hr⟩ := PrivilegeDefinition.register_eq_ok_iff.1 hd
  exact h.register hr hp.constituents_registered

/-! ## The order of names -/

/-- What is registered as `a` grants `b`. -/
def Implies (r : Repository) (a b : String) : Prop :=
  ∃ p, r.findPrivilege? a = some p ∧ p.implies b = true

/-- What is registered as `a` has a constituent of the name `b`. -/
def Comprises (r : Repository) (a b : String) : Prop :=
  ∃ p, r.findPrivilege? a = some p ∧ ∃ part ∈ p.constituents, part.name = b

namespace Coherent

variable (h : r.Coherent) {a b c : String}
include h

/-- What is granted by a registered name lies inside, as it is registered itself. -/
theorem implies_iff : r.Implies a b ↔
    ∃ p q, r.findPrivilege? a = some p ∧ r.findPrivilege? b = some q ∧ q ∈ p.nested := by
  unfold Implies
  constructor
  · rintro ⟨p, hp, hb⟩
    obtain ⟨q, hq, rfl⟩ := (Privilege.implies_iff_nested b p).1 hb
    exact ⟨p, q, hp, h p (registered_of_find hp) q hq, hq⟩
  · rintro ⟨p, q, hp, hq, hin⟩
    exact ⟨p, hp, (Privilege.implies_iff_nested b p).2 ⟨q, hin, name_of_findPrivilege? hq⟩⟩

theorem implies_trans (hab : r.Implies a b) (hbc : r.Implies b c) : r.Implies a c := by
  rw [h.implies_iff] at *
  obtain ⟨p, q, hp, hq, hqp⟩ := hab
  obtain ⟨q', u, hq', hu, huq⟩ := hbc
  rw [hq] at hq'
  cases hq'
  exact ⟨p, u, hp, hu, (Privilege.nested_sublist hqp).subset huq⟩

theorem implies_antisymm (hab : r.Implies a b) (hba : r.Implies b a) : a = b := by
  rw [h.implies_iff] at *
  obtain ⟨p, q, hp, hq, hqp⟩ := hab
  obtain ⟨q', p', hq', hp', hpq⟩ := hba
  rw [hq] at hq'
  rw [hp] at hp'
  cases hq'
  cases hp'
  rw [← name_of_findPrivilege? hp, ← name_of_findPrivilege? hq, Privilege.nested_antisymm hqp hpq]

/-- Implication between registered names is a partial order. -/
theorem isPartialOrder :
    IsPartialOrder {name : String // (r.findPrivilege? name).isSome = true}
      fun a b => r.Implies a b where
  refl a := by
    obtain ⟨p, hp⟩ := Option.isSome_iff_exists.1 a.2
    exact h.implies_iff.2 ⟨p, p, hp, hp, Privilege.mem_nested_self p⟩
  trans _ _ _ hab hbc := h.implies_trans hab hbc
  antisymm _ _ hab hba := Subtype.ext (h.implies_antisymm hab hba)

/-- How much is inside what is registered under a name falls from aggregates to constituents. -/
theorem transGen_comprises (hab : Relation.TransGen r.Comprises a b) :
    ∃ p q, r.findPrivilege? a = some p ∧ r.findPrivilege? b = some q ∧
      q.nested.length < p.nested.length := by
  have hstep : ∀ {a b}, r.Comprises a b → ∃ p q, r.findPrivilege? a = some p ∧
      r.findPrivilege? b = some q ∧ q.nested.length < p.nested.length := by
    rintro a b ⟨p, hp, part, hpart, rfl⟩
    have hin : part ∈ p.nested := Privilege.mem_nested.2 (.inr ⟨part, hpart, Privilege.mem_nested_self part⟩)
    exact ⟨p, part, hp, h p (registered_of_find hp) part hin, Privilege.length_nested_lt hpart⟩
  induction hab with
  | single hab => exact hstep hab
  | tail _ hbc ih =>
    obtain ⟨p, q, hp, hq, hlt⟩ := ih
    obtain ⟨q', u, hq', hu, hlt'⟩ := hstep hbc
    rw [hq] at hq'
    cases hq'
    exact ⟨p, u, hp, hu, hlt'.trans hlt⟩

theorem acyclic (name : String) : ¬Relation.TransGen r.Comprises name name := by
  intro hcycle
  obtain ⟨p, q, hp, hq, hlt⟩ := h.transGen_comprises hcycle
  rw [hp] at hq
  cases hq
  exact Nat.lt_irrefl _ hlt

end Coherent

/-! ## Registrations one after the other -/

theorem Change.atomic_registration (d : PrivilegeDefinition) : Atomic d.registration := by
  unfold PrivilegeDefinition.registration
  split
  · exact atomic_registerAggregate _ _
  · exact atomic_register _

/-- The repository that registrations leave, of which any may fail. -/
def afterAll (r : Repository) (ds : List PrivilegeDefinition) : Repository :=
  ds.foldl (fun r d => d.registration.left r) r

/-- A registration leaves what comes of it, and where nothing comes of it the repository before. -/
theorem left_registration (r : Repository) (d : PrivilegeDefinition) :
    d.register r = .ok (d.registration.left r) ∨
      ∃ e, d.register r = .error e ∧ d.registration.left r = r := by
  unfold PrivilegeDefinition.register
  cases h : d.registration.attempt r with
  | ok result => exact .inl (congrArg Except.ok (Change.left_of_attempt h).symm)
  | error e => exact .inr ⟨e, rfl, Change.atomic_registration d r e h⟩

theorem afterAll_keeps {I : Repository → Prop}
    (h : ∀ (d : PrivilegeDefinition) r s, I r → d.register r = .ok s → I s)
    (ds : List PrivilegeDefinition) (hr : I r) : I (r.afterAll ds) := by
  induction ds generalizing r with
  | nil => exact hr
  | cons d ds ih =>
    have hleft : I (d.registration.left r) := by
      rcases left_registration r d with hd | ⟨e, -, hsame⟩
      · exact h d r _ hr hd
      · rwa [hsame]
    exact ih hleft

/-- What the registered privileges are to one another. -/
structure IsHierarchy (r : Repository) : Prop where
  /-- Each name is registered once. -/
  nodup : (Privilege.names r.privileges).Nodup
  /-- What is inside a registered descriptor, at any depth, is what its name stands for. -/
  coherent : ∀ name p, r.findPrivilege? name = some p →
    ∀ q ∈ p.nested, r.findPrivilege? q.name = some q
  order : IsPartialOrder {name : String // (r.findPrivilege? name).isSome = true}
    fun a b => r.Implies a b
  acyclic : ∀ name, ¬Relation.TransGen r.Comprises name name

/-- What comes of registering a privilege. -/
structure Registers (r : Repository) (d : PrivilegeDefinition) : Prop where
  succeeds : (∃ s, d.register r = .ok s) ↔ r.findPrivilege? d.name = none ∧
    ∀ name ∈ d.aggregates.getD [], (r.findPrivilege? name).isSome = true
  /-- One name is added, for what the definition describes, and nothing else is changed. -/
  adds : ∀ s, d.register r = .ok s → s.nodes = r.nodes ∧ r.findPrivilege? d.name = none ∧
    ∃ p, r.Describes d p ∧ s.privileges = r.privileges ++ [p] ∧
      ∀ name, s.findPrivilege? name = if d.name = name then some p else r.findPrivilege? name
  fails : ∀ e, d.register r = .error e → r.afterAll [d] = r

theorem registers (r : Repository) (d : PrivilegeDefinition) : r.Registers d where
  succeeds := by
    rw [← exists_describes]
    constructor
    · rintro ⟨s, hs⟩
      obtain ⟨p, hp, hr⟩ := PrivilegeDefinition.register_eq_ok_iff.1 hs
      obtain ⟨-, hn, -⟩ := register_eq_ok_iff.1 hr
      exact ⟨hp.name_eq ▸ hn, p, hp⟩
    · rintro ⟨hn, p, hp⟩
      have hr := register_eq_ok_iff.2 ⟨rfl, hp.name_eq.symm ▸ hn, rfl⟩
      exact ⟨_, PrivilegeDefinition.register_eq_ok_iff.2 ⟨p, hp, hr⟩⟩
  adds s hs := by
    obtain ⟨p, hp, hr⟩ := PrivilegeDefinition.register_eq_ok_iff.1 hs
    have hfind := findPrivilege?_register hr
    obtain ⟨-, hn, rfl⟩ := register_eq_ok_iff.1 hr
    rw [hp.name_eq] at hfind hn
    exact ⟨rfl, hn, p, hp, rfl, hfind⟩
  fails e he := by
    rcases left_registration r d with hd | ⟨-, -, hsame⟩
    · rw [he] at hd
      cases hd
    · exact hsame

theorem nodup_register (h : (Privilege.names r.privileges).Nodup)
    (hr : r.register p = .ok (q, s)) : (Privilege.names s.privileges).Nodup := by
  obtain ⟨-, hn, rfl⟩ := register_eq_ok_iff.1 hr
  rw [findPrivilege?_eq_none, Privilege.holds_eq_false] at hn
  rw [Privilege.names_append]
  refine List.nodup_append.2 ⟨h, by simp, ?_⟩
  rintro a ha b hb rfl
  simp only [Privilege.names_cons, Privilege.names_nil, List.mem_singleton] at hb
  exact hn (hb ▸ ha)

/-- **The registry is a hierarchy**, after any registrations, whether they succeeded or failed: what
is nested in what is registered is registered itself, and names are in a partial order, without
cycles. One more registration adds its name and changes no other, or it fails and changes nothing. -/
theorem registered_hierarchy (ds : List PrivilegeDefinition) :
    (Repository.initial.afterAll ds).IsHierarchy ∧
      ∀ d, (Repository.initial.afterAll ds).Registers d := by
  have hcoherent : (Repository.initial.afterAll ds).Coherent :=
    afterAll_keeps (fun _ _ _ h hd => h.define hd) ds .initial
  have hnodup : (Privilege.names (Repository.initial.afterAll ds).privileges).Nodup := by
    refine afterAll_keeps (I := fun r => (Privilege.names r.privileges).Nodup)
      (fun d r s h hd => ?_) ds (by decide)
    obtain ⟨p, -, hr⟩ := PrivilegeDefinition.register_eq_ok_iff.1 hd
    exact nodup_register h hr
  refine ⟨⟨hnodup, fun name p hp => ?_, hcoherent.isPartialOrder, hcoherent.acyclic⟩, fun d => ?_⟩
  · exact hcoherent p (registered_of_find hp)
  · exact registers _ d

/-- An aggregate is registered after what it is made of. One that is to contain itself fails, and so
does a standard name. -/
theorem registered_hierarchy_feeds : ∃ r,
    r = Repository.initial.afterAll [⟨"tba:accessFeed", none⟩,
      ⟨"tba:editFeed", some ["tba:accessFeed", "jcr:write"]⟩, ⟨"tba:loop", some ["tba:loop"]⟩,
      ⟨"jcr:read", none⟩] ∧
    Privilege.names r.privileges =
      Privilege.names Privilege.standard ++ ["tba:accessFeed", "tba:editFeed"] ∧
    r.Implies "tba:editFeed" "jcr:addChildNodes" ∧ r.IsHierarchy ∧
    r.Registers ⟨"tba:feeds", some ["tba:editFeed"]⟩ := by
  obtain ⟨hhierarchy, hregisters⟩ := registered_hierarchy [⟨"tba:accessFeed", none⟩,
    ⟨"tba:editFeed", some ["tba:accessFeed", "jcr:write"]⟩, ⟨"tba:loop", some ["tba:loop"]⟩,
    ⟨"jcr:read", none⟩]
  exact ⟨_, rfl, rfl, ⟨_, rfl, rfl⟩, hhierarchy, hregisters _⟩

end AclTree.Repository
