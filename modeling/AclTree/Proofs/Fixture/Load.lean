/-
Loading a fixture. Its privileges, nodes and lists are put in one pass each, and
a pass can only fail on what the fixture itself says: a fixture loads exactly if
it is well formed (`Fixture.WellFormed`), and then into the repository that it
describes (`Fixture.Describes`). Nothing of this depends on the order of the
nodes but the order of children.
-/
import AclTree.Proofs.Fixture.Lists
import AclTree.Proofs.Fixture.Nodes

namespace AclTree.Fixture

variable {r s : Repository} {f g : Fixture} {ds : List PrivilegeDefinition}
  {nodes : List NodeDefinition} {d : NodeDefinition} {name : String}

/-! ## The privileges -/

/-- The names that are standard or defined. -/
def Known (ds : List PrivilegeDefinition) (name : String) : Prop :=
  name ∈ Privilege.names Privilege.standard ∨ name ∈ ds.map (·.name)

/-- No name is defined twice or is standard, and aggregates consist of what is known before them. -/
structure Definable (ds : List PrivilegeDefinition) : Prop where
  nodup : (ds.map (·.name)).Nodup
  fresh : ∀ d ∈ ds, d.name ∉ Privilege.names Privilege.standard
  constituents : ∀ before d after, ds = before ++ d :: after →
    ∀ name ∈ d.aggregates.getD [], Known before name

theorem exists_register_eq_ok :
    (∃ s, ds.foldlM (fun r d => d.register r) Repository.initial = .ok s) ↔ Definable ds := by
  have hsucceeds : ∀ d ∈ ds, ∀ r : Repository, (∃ s, d.register r = .ok s) ↔
      True ∧ ¬d.name ∈ Privilege.names r.privileges ∧
        ∀ name ∈ d.aggregates.getD [], name ∈ Privilege.names r.privileges := by
    intro d _ r
    rw [(r.registers d).succeeds, true_and, Repository.findPrivilege?_eq_none,
      Privilege.holds_eq_false]
    simp only [Repository.findPrivilege?_isSome]
  have hadds : ∀ d ∈ ds, ∀ r s : Repository, d.register r = .ok s → ∀ name,
      name ∈ Privilege.names s.privileges ↔
        name = d.name ∨ name ∈ Privilege.names r.privileges := by
    intro d _ r s hs name
    obtain ⟨-, -, p, hp, hprivileges, -⟩ := (r.registers d).adds s hs
    rw [hprivileges, Privilege.names_append, List.mem_append, Privilege.names_cons, hp.name_eq,
      Privilege.names_nil, List.mem_singleton, or_comm]
  rw [Except.exists_foldlM_eq_ok hsucceeds hadds]
  constructor
  · rintro ⟨hnodup, hfresh, hconstituents⟩
    exact ⟨hnodup, fun d hd => (hfresh d hd).2, hconstituents⟩
  · rintro ⟨hnodup, hfresh, hconstituents⟩
    exact ⟨hnodup, fun d hd => ⟨trivial, hfresh d hd⟩, hconstituents⟩

/-- What there is after privileges were defined, on top of what there was. -/
structure Defined (r : Repository) (ds : List PrivilegeDefinition) (s : Repository) : Prop where
  nodes : s.nodes = r.nodes
  privileges : ∃ ps, s.privileges = r.privileges ++ ps ∧ List.Forall₂ s.Describes ds ps

/-- Privileges that are defined one after the other stay what their definitions describe. -/
theorem defined (h : ds.foldlM (fun r d => d.register r) r = .ok s) : Defined r ds s := by
  induction ds generalizing r with
  | nil =>
    cases h
    exact ⟨rfl, [], (List.append_nil _).symm, .nil⟩
  | cons d ds ih =>
    rw [List.foldlM_cons] at h
    obtain ⟨t, hd, h⟩ := Except.bind_eq_ok.1 h
    obtain ⟨hnodes, -, p, hp, ht, -⟩ := (r.registers d).adds t hd
    obtain ⟨hnodes', ps, hs, hps⟩ := ih h
    rw [ht, List.append_assoc, List.singleton_append] at hs
    exact ⟨hnodes'.trans hnodes, p :: ps, hs,
      .cons (hp.mono fun _ _ => Repository.findPrivilege?_append hs) hps⟩

theorem names_of_describes {ps : List Privilege} (h : List.Forall₂ s.Describes ds ps) :
    Privilege.names ps = ds.map (·.name) := by
  induction h with
  | nil => rfl
  | cons hp _ ih => rw [Privilege.names_cons, hp.name_eq, ih, List.map_cons]

theorem Defined.isSome_iff (h : Defined .initial ds s) :
    (s.findPrivilege? name).isSome = true ↔ Known ds name := by
  obtain ⟨ps, hs, hps⟩ := h.privileges
  have hnames := names_of_describes hps
  rw [Repository.findPrivilege?_isSome, hs, Privilege.names_append, hnames, List.mem_append]
  rfl

/-! ## The passes -/

/-- The nodes with their paths in normal form, without those whose paths have none. -/
def placed (nodes : List NodeDefinition) : List NodeDefinition :=
  nodes.filterMap (·.normalize.toOption)

theorem normalize_eq_ok {e : NodeDefinition} : d.normalize = .ok e ↔
    ∃ path, Path.normalize d.path = .ok path ∧ e = { d with path } := by
  unfold NodeDefinition.normalize
  cases Path.normalize d.path <;> simp [Except.map, Except.mapError, eq_comm]

theorem mem_placed {e : NodeDefinition} : e ∈ placed nodes ↔
    ∃ d ∈ nodes, ∃ path, Path.normalize d.path = .ok path ∧ e = { d with path } := by
  unfold placed
  rw [List.mem_filterMap]
  refine exists_congr fun d => and_congr_right fun _ => ?_
  rw [← normalize_eq_ok]
  cases d.normalize <;> simp [Except.toOption]

theorem normal_of_mem_placed (hd : d ∈ placed nodes) : Path.normalize d.path = .ok d.path := by
  obtain ⟨_, -, path, hpath, rfl⟩ := mem_placed.1 hd
  exact Path.normalize_normal hpath

theorem load_eq_ok : f.load = .ok r ↔ ∃ s t,
    f.privileges.foldlM (fun r d => d.register r) Repository.initial = .ok s ∧
    (∀ d ∈ f.nodes, ∃ path, Path.normalize d.path = .ok path) ∧
    (levels (placed f.nodes)).foldlM (fun r d => d.create r) s = .ok t ∧
    (levels (placed f.nodes)).foldlM (fun r d => d.bind r) t = .ok r := by
  have hnormalize : ∀ nodes, f.nodes.mapM NodeDefinition.normalize = .ok nodes ↔
      (∀ d ∈ f.nodes, ∃ path, Path.normalize d.path = .ok path) ∧ nodes = placed f.nodes := by
    intro nodes
    rw [Except.mapM_eq_ok_iff]
    refine and_congr_left fun _ => forall₂_congr fun d _ => ?_
    simp only [normalize_eq_ok]
    exact ⟨fun ⟨_, path, hpath, _⟩ => ⟨path, hpath⟩, fun ⟨path, hpath⟩ => ⟨_, path, hpath, rfl⟩⟩
  unfold load
  simp only [Except.bind_eq_ok, hnormalize]
  constructor
  · rintro ⟨s, hs, _, ⟨hpaths, rfl⟩, t, ht, hr⟩
    exact ⟨s, t, hs, hpaths, ht, hr⟩
  · rintro ⟨s, t, hs, hpaths, ht, hr⟩
    exact ⟨s, hs, _, ⟨hpaths, rfl⟩, t, ht, hr⟩

/-! ## What a fixture describes -/

/-- **What a fixture has to be** to load, by its texts alone. -/
structure WellFormed (f : Fixture) : Prop where
  privileges : Definable f.privileges
  paths : ∀ d ∈ f.nodes, ∃ path, Path.normalize d.path = .ok path
  rooted : Rooted (placed f.nodes)
  entries : ∀ d ∈ f.nodes, ∀ e ∈ d.acl,
    e.privileges ≠ [] ∧ ∀ name ∈ e.privileges, Known f.privileges name

/-- The standard and the defined privileges; the root and the listed nodes, children as they are
listed; and the lists of the nodes that have entries. -/
structure Describes (f : Fixture) (r : Repository) : Prop where
  privileges : ∃ ps, r.privileges = Privilege.standard ++ ps ∧
    List.Forall₂ r.Describes f.privileges ps
  contains : ∀ q, r.contains q = true ↔ q = Path.root ∨ q ∈ (placed f.nodes).map (·.path)
  root : r.kindOf Path.root = some "rep:root" ∧ r.parentOf Path.root = none ∧
    r.policyAt Path.root = none
  listed : ∀ d ∈ placed f.nodes, r.kindOf d.path = some d.kind ∧ r.parentOf d.path = d.parent? ∧
    r.policyAt d.path = d.policy? r
  children : ∀ q, r.childrenOf q = childrenIn (placed f.nodes) q

theorem mem_levels : d ∈ levels nodes ↔ d ∈ nodes := (levels_perm nodes).mem_iff

theorem mem_paths_levels {q : String} :
    q ∈ (levels nodes).map (·.path) ↔ q ∈ nodes.map (·.path) :=
  ((levels_perm nodes).map _).mem_iff

theorem normal_of_mem_levels (hd : d ∈ levels (placed nodes)) :
    Path.normalize d.path = .ok d.path :=
  normal_of_mem_placed (mem_levels.1 hd)

/-- The entries of the nodes are those of the fixture; what they may list is known by then. -/
theorem Defined.resolves_iff (h : Defined .initial f.privileges r)
    (hpaths : ∀ d ∈ f.nodes, ∃ path, Path.normalize d.path = .ok path)
    (hs : s.privileges = r.privileges) :
    (∀ d ∈ levels (placed f.nodes), ∀ e ∈ d.acl, e.Resolves s) ↔
      ∀ d ∈ f.nodes, ∀ e ∈ d.acl,
        e.privileges ≠ [] ∧ ∀ name ∈ e.privileges, Known f.privileges name := by
  have hresolves : ∀ e : EntryDefinition, e.Resolves s ↔
      e.privileges ≠ [] ∧ ∀ name ∈ e.privileges, Known f.privileges name := by
    intro e
    unfold EntryDefinition.Resolves Repository.findPrivilege?
    rw [hs]
    exact and_congr_right fun _ => forall₂_congr fun name _ => h.isSome_iff
  simp only [mem_levels, mem_placed, hresolves]
  constructor
  · intro hall d hd
    obtain ⟨path, hpath⟩ := hpaths d hd
    exact hall { d with path } ⟨d, hd, path, hpath, rfl⟩
  · rintro hall _ ⟨d, hd, path, -, rfl⟩
    exact hall d hd

theorem Defined.contains_iff (h : Defined .initial ds s) (q : String) :
    s.contains q = true ↔ q = Path.root := by
  unfold Repository.contains
  rw [h.nodes]
  exact Repository.contains_initial q

theorem created_levels (hrooted : Rooted (placed nodes))
    (h : (levels (placed nodes)).foldlM (fun r d => d.create r) r = .ok s) :
    Created r (levels (placed nodes)) s :=
  created (fun _ => normal_of_mem_levels) (hrooted.perm (levels_perm _)).nodup h

theorem exists_load_eq_ok : (∃ r, f.load = .ok r) ↔ f.WellFormed := by
  have hcreate {s : Repository} (hs : Defined .initial f.privileges s) :
      (∃ t, (levels (placed f.nodes)).foldlM (fun r d => d.create r) s = .ok t) ↔
        Rooted (placed f.nodes) :=
    exists_create_eq_ok (fun _ => normal_of_mem_placed) hs.contains_iff
  constructor
  · rintro ⟨r, h⟩
    obtain ⟨s, t, hs, hpaths, ht, hr⟩ := load_eq_ok.1 h
    have hdefined := defined hs
    have hrooted := (hcreate hdefined).1 ⟨t, ht⟩
    have hentries := exists_bind_eq_ok.1 ⟨r, hr⟩
    rw [hdefined.resolves_iff hpaths (created_levels hrooted ht).privileges] at hentries
    exact ⟨exists_register_eq_ok.1 ⟨s, hs⟩, hpaths, hrooted, hentries⟩
  · -- Pass by pass, since each condition is about what the passes before have left.
    rintro ⟨hdefinable, hpaths, hrooted, hentries⟩
    obtain ⟨s, hs⟩ := exists_register_eq_ok.2 hdefinable
    have hdefined := defined hs
    obtain ⟨t, ht⟩ := (hcreate hdefined).2 hrooted
    rw [← hdefined.resolves_iff hpaths (created_levels hrooted ht).privileges] at hentries
    obtain ⟨r, hr⟩ := exists_bind_eq_ok.2 hentries
    exact ⟨r, load_eq_ok.2 ⟨s, t, hs, hpaths, ht, hr⟩⟩

/-- What a load has put by its end, pass by pass. -/
theorem load_passes (h : f.load = .ok r) : f.WellFormed ∧ ∃ s t,
    f.privileges.foldlM (fun r d => d.register r) Repository.initial = .ok s ∧
    Created s (levels (placed f.nodes)) t ∧ Bound t (levels (placed f.nodes)) r := by
  have hwell := exists_load_eq_ok.1 ⟨r, h⟩
  obtain ⟨s, t, hs, -, ht, hr⟩ := load_eq_ok.1 h
  have hcreated := created_levels hwell.rooted ht
  refine ⟨hwell, s, t, hs, hcreated, bound (fun d hd => ⟨?_, ?_⟩) ?_ hr⟩
  · exact (hcreated.contains _).2 (.inl (List.mem_map_of_mem hd))
  · rw [hcreated.policies, Repository.policyAt, (defined hs).nodes]
    exact Repository.policyAt_initial _
  · exact (hwell.rooted.perm (levels_perm _)).nodup

theorem load_privileges (h : f.load = .ok r) : ∃ s,
    f.privileges.foldlM (fun r d => d.register r) Repository.initial = .ok s ∧
      r.privileges = s.privileges := by
  obtain ⟨-, s, t, hs, hcreated, hbound⟩ := load_passes h
  exact ⟨s, hs, hbound.privileges.trans hcreated.privileges⟩

theorem describes_of_load (h : f.load = .ok r) : f.Describes r := by
  obtain ⟨hwell, s, t, hs, hcreated, hbound⟩ := load_passes h
  have hdefined := defined hs
  have hprivileges : r.privileges = s.privileges :=
    hbound.privileges.trans hcreated.privileges
  have hroot : Path.root ∉ (levels (placed f.nodes)).map (·.path) := by
    rw [mem_paths_levels]
    intro hmem
    obtain ⟨d, hd, he⟩ := List.mem_map.1 hmem
    exact hwell.rooted.below d hd he
  refine ⟨?_, fun q => ?_, ⟨?_, ?_, ?_⟩, fun d hd => ⟨?_, ?_, ?_⟩, fun q => ?_⟩
  · obtain ⟨ps, hps, hall⟩ := hdefined.privileges
    refine ⟨ps, hprivileges.trans hps, hall.imp fun d p hp => hp.mono fun name q => ?_⟩
    exact Repository.findPrivilege?_append (hprivileges.trans (List.append_nil _).symm)
  · rw [Repository.contains_of_bare hbound.bare, hcreated.contains, hdefined.contains_iff,
      mem_paths_levels, or_comm]
  · rw [Repository.kindOf_of_bare hbound.bare, (hcreated.others _ hroot).1, Repository.kindOf,
      hdefined.nodes]
    rfl
  · rw [Repository.parentOf_of_bare hbound.bare, (hcreated.others _ hroot).2, Repository.parentOf,
      hdefined.nodes]
    exact Repository.parentOf_initial _
  · rw [hbound.others _ hroot, hcreated.policies, Repository.policyAt, hdefined.nodes]
    exact Repository.policyAt_initial _
  · rw [Repository.kindOf_of_bare hbound.bare]
    exact (hcreated.listed d (mem_levels.2 hd)).1
  · rw [Repository.parentOf_of_bare hbound.bare]
    exact (hcreated.listed d (mem_levels.2 hd)).2
  · rw [hbound.listed d (mem_levels.2 hd), policy?_of_bare hbound.bare]
  · rw [Repository.childrenOf_of_bare hbound.bare, hcreated.children, Repository.childrenOf,
      hdefined.nodes, childrenIn_levels fun _ => normal_of_mem_placed]
    exact congrArg (· ++ _) (Repository.childrenOf_initial q)

/-! ## Other orders of the nodes -/

theorem placed_perm {other : List NodeDefinition} (h : other.Perm nodes) :
    (placed other).Perm (placed nodes) := h.filterMap _

theorem WellFormed.perm (h : f.WellFormed) (hprivileges : g.privileges = f.privileges)
    (hnodes : g.nodes.Perm f.nodes) : g.WellFormed where
  privileges := by rw [hprivileges]; exact h.privileges
  paths d hd := h.paths d (hnodes.mem_iff.1 hd)
  rooted := h.rooted.perm (placed_perm hnodes)
  entries d hd := by rw [hprivileges]; exact h.entries d (hnodes.mem_iff.1 hd)

/-- The repositories are the same but for the order in which nodes have their children. -/
structure SameUpToOrder (r s : Repository) : Prop where
  privileges : s.privileges = r.privileges
  contains : s.contains = r.contains
  nodes : ∀ q, s.kindOf q = r.kindOf q ∧ s.parentOf q = r.parentOf q ∧ s.policyAt q = r.policyAt q
  children : ∀ q, (s.childrenOf q).Perm (r.childrenOf q)

theorem Describes.perm (hr : f.Describes r) (hs : g.Describes s)
    (hprivileges : s.privileges = r.privileges) (hnodes : g.nodes.Perm f.nodes) :
    SameUpToOrder r s := by
  have hplaced := placed_perm hnodes
  have hfind : s.findPrivilege? = r.findPrivilege? := by
    unfold Repository.findPrivilege?
    rw [hprivileges]
  have hcontains : s.contains = r.contains := by
    funext q
    rw [Bool.eq_iff_iff, hs.contains, hr.contains, (hplaced.map _).mem_iff]
  refine ⟨hprivileges, hcontains, fun q => ?_, fun q => ?_⟩
  · by_cases hq : r.contains q = true
    · rcases (hr.contains q).1 hq with rfl | hmem
      · obtain ⟨hkind, hparent, hpolicy⟩ := hr.root
        rw [hkind, hparent, hpolicy]
        exact hs.root
      · obtain ⟨d, hd, rfl⟩ := List.mem_map.1 hmem
        obtain ⟨hkind, hparent, hpolicy⟩ := hr.listed d hd
        have hd := hs.listed d (hplaced.mem_iff.2 hd)
        rw [NodeDefinition.policy?, hfind] at hd
        rw [hkind, hparent, hpolicy, NodeDefinition.policy?]
        exact hd
    · have hmissing : ∀ t : Repository, t.contains = r.contains → t.nodes.find? q = none := by
        intro t ht
        rw [← Repository.contains_eq_false, ht]
        simpa using hq
      unfold Repository.kindOf Repository.parentOf Repository.policyAt
      rw [hmissing s hcontains, hmissing r rfl]
      exact ⟨rfl, rfl, rfl⟩
  · rw [hs.children, hr.children]
    exact (hplaced.filter _).map _

/-- **A fixture loads exactly if it is well formed**, and then into the repository that it
describes. With its nodes in another order it loads if it did before, into the same repository but
for the order of children. -/
theorem load_exact (f : Fixture) : ((∃ r, f.load = .ok r) ↔ f.WellFormed) ∧
    (∀ r, f.load = .ok r → f.Describes r) ∧
    ∀ g : Fixture, g.privileges = f.privileges → g.nodes.Perm f.nodes →
      ((∃ s, g.load = .ok s) ↔ ∃ r, f.load = .ok r) ∧
        ∀ r s, f.load = .ok r → g.load = .ok s → SameUpToOrder r s := by
  refine ⟨exists_load_eq_ok, fun r => describes_of_load, fun g hprivileges hnodes => ⟨?_, ?_⟩⟩
  · rw [exists_load_eq_ok, exists_load_eq_ok]
    exact ⟨fun h => h.perm hprivileges.symm hnodes.symm, fun h => h.perm hprivileges hnodes⟩
  · intro r s hr hs
    obtain ⟨t, ht, hrt⟩ := load_privileges hr
    obtain ⟨u, hu, hsu⟩ := load_privileges hs
    rw [hprivileges, ht] at hu
    cases hu
    exact (describes_of_load hr).perm (describes_of_load hs) (hsu.trans hrt.symm) hnodes

/-- A fixture with a node before its parent, a slash at the end of its path, and two entries of one
principal on it. -/
def childFirst : Fixture where
  privileges := [⟨"tba:accessFeed", none⟩, ⟨"tba:editFeed", some ["tba:accessFeed", "jcr:write"]⟩]
  nodes := [⟨"/metadata/feeds/", "tba:category", [⟨"editors", ["tba:editFeed"]⟩,
      ⟨"analysts", ["tba:accessFeed"]⟩, ⟨"editors", ["jcr:read", "tba:editFeed"]⟩]⟩,
    ⟨"/metadata", "tba:folder", []⟩]

def parentFirst : Fixture := { childFirst with nodes := childFirst.nodes.reverse }

/-- It loads, with one entry for that principal; and so it does with the parent first. -/
theorem load_exact_childFirst : ∃ r s, childFirst.load = .ok r ∧ parentFirst.load = .ok s ∧
    (r.policyAt "/metadata/feeds").map (fun acl => acl.entries.map (·.privilegeNames)) =
      some [["tba:editFeed", "jcr:read"], ["tba:accessFeed"]] ∧
    childFirst.WellFormed ∧ childFirst.Describes r ∧ SameUpToOrder r s := by
  have hr : ∃ r, childFirst.load = .ok r ∧
      (r.policyAt "/metadata/feeds").map (fun acl => acl.entries.map (·.privilegeNames)) =
        some [["tba:editFeed", "jcr:read"], ["tba:accessFeed"]] := ⟨_, rfl, rfl⟩
  have hs : ∃ s, parentFirst.load = .ok s := ⟨_, rfl⟩
  obtain ⟨r, hr, hpolicy⟩ := hr
  obtain ⟨s, hs⟩ := hs
  obtain ⟨hload, hdescribes, hperm⟩ := load_exact childFirst
  exact ⟨r, s, hr, hs, hpolicy, hload.1 ⟨r, hr⟩, hdescribes r hr,
    (hperm parentFirst rfl (List.reverse_perm _)).2 r s hr hs⟩

end AclTree.Fixture
