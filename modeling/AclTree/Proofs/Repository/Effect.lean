/-
What requests do to grants. Of each node only who has which privilege there is
looked at, or that it has no list (`Repository.grantsAt`). Granting then
unites, revoking subtracts and clearing unbinds, on the nodes that a request
visits and nowhere else, and a request tells whether that changed something.
-/
import AclTree.Proofs.Acl.Pairs
import AclTree.Proofs.Engine.Ends
import AclTree.Proofs.Engine.Visits

namespace AclTree

/-- Who has which privilege on a node, by names; none if no list is bound to the node. -/
abbrev Grants := Option (Finset (String × String))

namespace Grants

/-- Privileges given to a principal come on top of the grants there are. Where there are none the
administrator gets its share first. -/
def give (s : Settings) (who : String) (names : List String) (held : Grants) : Grants :=
  if names = [] then held
  else if held.getD ∅ = ∅ then some ({(s.admin, s.allPrivilege)} ∪ Acl.shares who names)
  else some (held.getD ∅ ∪ Acl.shares who names)

/-- Privileges taken from a principal are gone; a list that grants nothing is still bound. -/
def take (who : String) (names : List String) (held : Grants) : Grants :=
  held.map (· \ Acl.shares who names)

end Grants

/-- What an edit makes of the grants on its node. -/
def Edit.effect (s : Settings) : Edit → Grants → Grants
  | .grant who privileges => Grants.give s who.name (Privilege.names privileges)
  | .revoke who privileges => Grants.take who.name (Privilege.names privileges)
  | .clear => fun _ => none

/-- What a request makes of the grants on each node that it visits. -/
def Request.effect (s : Settings) : Request → Grants → Grants
  | .grant _ who privileges => Grants.give s who.name (Privilege.names privileges)
  | .revoke _ who privileges => Grants.take who.name (Privilege.names privileges)
  | .grantNamed _ _ who names => Grants.give s who.name names
  | .revokeNamed _ _ who names => Grants.take who.name names
  | .clear _ _ => fun _ => none

namespace Edit

variable {s : Settings} {find : String → Option Privilege} {e : Edit}

theorem effect_of_asks {r : Repository} {request : Request} (h : request.Asks r e) :
    e.effect s = request.effect s := by
  cases h with
  | grant => rfl
  | revoke => rfl
  | grantNamed hl => simp only [effect, Request.effect, Repository.names_lookup hl]
  | revokeNamed hl => simp only [effect, Request.effect, Repository.names_lookup hl]
  | clear => rfl

theorem effect_void (hv : e.isVoid = true) (held : Grants) : e.effect s held = held := by
  cases e with
  | grant who privileges =>
    rw [List.isEmpty_iff.1 hv]
    simp [effect, Grants.give]
  | revoke who privileges =>
    rw [List.isEmpty_iff.1 hv]
    cases held <;> simp [effect, Grants.take]
  | clear => cases hv

/-! ## Outcomes as effects -/

/-- The administrator's share is all there is on a list that was empty. -/
theorem seeded_pairs (hfind : ∀ n p, find n = some p → p.name = n) {acl acl' : Acl} {new : Bool}
    (h : acl.Canonical) (hs : seeded s find acl = .ok (acl', new)) :
    (acl.pairs = ∅ ∧ new = true ∧ acl'.pairs = {(s.admin, s.allPrivilege)}) ∨
      (acl.pairs ≠ ∅ ∧ new = false ∧ acl' = acl) := by
  have hempty := Acl.pairs_eq_empty h
  unfold seeded at hs
  split at hs
  · rename_i hacl
    split at hs
    · rename_i p hp
      have hadd := Except.ok.inj hs
      have hpairs : (acl.add ⟨s.admin⟩ [p]).1.pairs = acl'.pairs := by rw [hadd]
      have hchanged : (acl.add ⟨s.admin⟩ [p]).2 = true ↔ new = true := by rw [hadd]
      rw [Acl.pairs_add, hempty.2 hacl, Privilege.names_cons, Privilege.names_nil,
        hfind _ _ hp] at hpairs
      rw [Acl.add_changed_iff_exists h, hempty.2 hacl] at hchanged
      refine .inl ⟨hempty.2 hacl, hchanged.1 (by simp), ?_⟩
      rw [← hpairs]
      ext ⟨u, n⟩
      simp
    · cases hs
  · rename_i hacl
    cases hs
    exact .inr ⟨fun h => hacl (hempty.1 h), rfl, rfl⟩

theorem grant_effect (hfind : ∀ n p, find n = some p → p.name = n) {who : Principal}
    {privileges : List Privilege} (hp : privileges ≠ []) {policy policy' : Option Acl}
    {changed : Bool} (hc : ∀ acl, policy = some acl → acl.Canonical)
    (h : (Edit.grant who privileges).outcome s find policy = .ok (policy', changed)) :
    policy'.map Acl.pairs = (Edit.grant who privileges).effect s (policy.map Acl.pairs) ∧
      (changed = true ↔ policy'.map Acl.pairs ≠ policy.map Acl.pairs) := by
  obtain ⟨start, new, hs, -, rfl, rfl⟩ := outcome_grant_eq_ok h
  have hcanon : (policy.getD .empty).Canonical := by
    cases policy with
    | none => exact .empty
    | some acl => exact hc acl rfl
  have hheld : (policy.map Acl.pairs).getD ∅ = (policy.getD .empty).pairs := by
    cases policy <;> rfl
  have hnames : Privilege.names privileges ≠ [] := fun h => hp (Privilege.names_eq_nil.1 h)
  have hstart := seeded_canonical hcanon hs
  simp only [effect, Grants.give, if_neg hnames, hheld, Option.map_some, Acl.pairs_add]
  rcases seeded_pairs hfind hcanon hs with ⟨hnone, rfl, hpairs⟩ | ⟨hsome, rfl, rfl⟩
  · rw [if_pos hnone, hpairs]
    refine ⟨rfl, iff_of_true rfl fun heq => ?_⟩
    rw [← heq] at hheld
    rw [hnone] at hheld
    have hmem : (s.admin, s.allPrivilege) ∈ (∅ : Finset (String × String)) := by
      rw [← hheld]
      simp
    cases hmem
  · obtain ⟨acl, rfl⟩ : ∃ acl, policy = some acl := by
      cases policy with
      | none => exact absurd rfl hsome
      | some acl => exact ⟨acl, rfl⟩
    rw [if_neg hsome]
    refine ⟨rfl, ?_⟩
    have hchanged := Acl.add_changed hcanon who privileges
    rw [Acl.pairs_add] at hchanged
    rw [Bool.false_or, hchanged]
    exact not_congr ⟨congrArg some, Option.some.inj⟩

theorem revoke_effect {who : Principal} {privileges : List Privilege} {policy policy' : Option Acl}
    {changed : Bool}
    (h : (Edit.revoke who privileges).outcome s find policy = .ok (policy', changed)) :
    policy'.map Acl.pairs = (Edit.revoke who privileges).effect s (policy.map Acl.pairs) ∧
      (changed = true ↔ policy'.map Acl.pairs ≠ policy.map Acl.pairs) := by
  cases policy with
  | none =>
    cases h
    exact ⟨rfl, by simp⟩
  | some bound =>
    have hpairs := Acl.pairs_take bound who privileges
    have hiff := Acl.take_changed_iff bound who privileges
    rcases outcome_revoke_eq_ok h with ⟨rfl, hch, -, rfl⟩ | ⟨rfl, hch, rfl⟩
    · have hne := hiff.1 hch
      exact ⟨congrArg some hpairs, iff_of_true rfl fun heq => hne (Option.some.inj heq)⟩
    · have hsame : (bound.take who privileges).1.pairs = bound.pairs := by
        by_contra hne
        rw [hiff.2 hne] at hch
        cases hch
      rw [hsame] at hpairs
      exact ⟨congrArg some hpairs, iff_of_false Bool.false_ne_true fun hne => hne rfl⟩

/-- **An edit that succeeds** has its effect on the grants, and tells whether they changed. -/
theorem outcome_effect (hfind : ∀ n p, find n = some p → p.name = n) (hv : e.isVoid = false)
    {policy policy' : Option Acl} {changed : Bool}
    (hc : ∀ acl, policy = some acl → acl.Canonical)
    (h : e.outcome s find policy = .ok (policy', changed)) :
    policy'.map Acl.pairs = e.effect s (policy.map Acl.pairs) ∧
      (changed = true ↔ policy'.map Acl.pairs ≠ policy.map Acl.pairs) := by
  cases e with
  | grant who privileges =>
    have hp : privileges ≠ [] := by
      rintro rfl
      cases hv
    exact grant_effect hfind hp hc h
  | revoke who privileges => exact revoke_effect h
  | clear =>
    cases h
    cases policy <;> simp [effect]

end Edit

namespace Repository

variable {r s : Repository} {settings : Settings}

/-- Who has which privilege on a node; none if it has no list. -/
def grantsAt (r : Repository) (path : String) : Grants := (r.policyAt path).map Acl.pairs

theorem grantsAt_of_find? {q : String} (h : s.nodes.find? q = r.nodes.find? q) :
    s.grantsAt q = r.grantsAt q := by
  unfold grantsAt policyAt
  rw [h]

theorem edit_effect (h : r.CanonicalPolicies) {e : Edit} {q : String} {changed : Bool}
    (he : r.edit settings e q = (.ok changed, s)) :
    s.grantsAt q = e.effect settings (r.grantsAt q) ∧
      (changed = true ↔ s.grantsAt q ≠ r.grantsAt q) := by
  rcases edit_eq_ok he with ⟨hv, rfl, rfl⟩ | ⟨node, policy, hv, hf, ho, rfl⟩
  · rw [Edit.effect_void hv]
    exact ⟨rfl, iff_of_false Bool.false_ne_true fun hne => hne rfl⟩
  · have hold : r.policyAt q = node.policy := by rw [policyAt, hf]; rfl
    have hnew : (r.withPolicy q policy).policyAt q = policy := by
      rw [policyAt, find?_withPolicy, if_pos rfl, hf]
      rfl
    have hcanon : ∀ acl, node.policy = some acl → acl.Canonical :=
      fun acl ha => h q acl (by rw [hold, ha])
    unfold grantsAt
    rw [hold, hnew]
    exact Edit.outcome_effect (fun _ _ => name_of_findPrivilege?) hv hcanon ho

/-- On a tree with lists as they should be, the effect of a request that succeeds. -/
theorem effect_of_perform (ht : r.IsTree) (hc : r.CanonicalPolicies) {request : Request}
    {changed : Bool} (hp : r.perform settings request = some (.ok changed, s)) :
    (∀ q, request.Visits r q → s.grantsAt q = request.effect settings (r.grantsAt q)) ∧
    (∀ q, ¬request.Visits r q → s.nodes.find? q = r.nodes.find? q) ∧
    (changed = true ↔ ∃ q, request.Visits r q ∧ s.grantsAt q ≠ r.grantsAt q) := by
  obtain ⟨e, nodes, ha, hnodup, hvisits, hr⟩ := ht.perform_eq_ok hp
  obtain ⟨heach, hchanged⟩ := each_edit_eq_ok hnodup hr
  have hnode : ∀ q ∈ nodes, s.grantsAt q = e.effect settings (r.grantsAt q) ∧
      ((r.edit settings e q).1 = .ok true ↔ s.grantsAt q ≠ r.grantsAt q) := by
    intro q hq
    obtain ⟨⟨now, hnow⟩, hfind⟩ := heach q hq
    have hedit : r.edit settings e q = (.ok now, (r.edit settings e q).2) := Prod.ext hnow rfl
    obtain ⟨heffect, hiff⟩ := edit_effect hc hedit
    rw [grantsAt_of_find? hfind, hnow, Except.ok.injEq]
    exact ⟨heffect, hiff⟩
  refine ⟨fun q hq => ?_, fun q hq => ?_, ?_⟩
  · rw [← Edit.effect_of_asks ha]
    exact (hnode q ((hvisits q).2 hq)).1
  · exact find?_each_edit hr fun hm => hq ((hvisits q).1 hm)
  · rw [hchanged]
    exact exists_congr fun q =>
      ⟨fun ⟨hq, ht⟩ => ⟨(hvisits q).1 hq, (hnode q hq).2.1 ht⟩,
        fun ⟨hq, hne⟩ => ⟨(hvisits q).2 hq, (hnode q ((hvisits q).2 hq)).2.2 hne⟩⟩

/-- **Requests as algebra of sets**: a request ends, and one that succeeds has its effect on the
grants of each node that it visits; other nodes, the tree and the registry stay as they are. It
tells whether the grants of some node changed. -/
theorem Reachable.perform_effect (h : r.Reachable) (settings : Settings) (request : Request) :
    ∃ out s, r.perform settings request = some (out, s) ∧ ∀ changed, out = .ok changed →
      (∀ q, request.Visits r q → s.grantsAt q = request.effect settings (r.grantsAt q)) ∧
      (∀ q, ¬request.Visits r q → s.nodes.find? q = r.nodes.find? q) ∧
      s.bare = r.bare ∧
      (changed = true ↔ ∃ q, request.Visits r q ∧ s.grantsAt q ≠ r.grantsAt q) := by
  obtain ⟨⟨out, s⟩, hp⟩ := h.isTree.perform_ends settings request
  refine ⟨out, s, hp, ?_⟩
  rintro changed rfl
  obtain ⟨hvisited, hothers, hchanged⟩ := effect_of_perform h.isTree h.canonicalPolicies hp
  exact ⟨hvisited, hothers, bare_perform hp, hchanged⟩

/-- A grant on a root that had no list. -/
theorem perform_effect_first_grant : ∃ s,
    Repository.initial.perform {} (.grantNamed Path.root .node ⟨"u"⟩ ["jcr:read"]) =
      some (.ok true, s) ∧
    s.grantsAt Path.root =
      Grants.give {} "u" ["jcr:read"] (Repository.initial.grantsAt Path.root) ∧
    s.grantsAt Path.root = some {("admin", "jcr:all"), ("u", "jcr:read")} := by
  obtain ⟨out, s, hp, heffect⟩ := Reachable.perform_effect .initial {}
    (.grantNamed Path.root .node ⟨"u"⟩ ["jcr:read"])
  have hout : out = .ok true := (Prod.mk.inj (Option.some.inj hp)).1.symm
  have hroot := (heffect true hout).1 Path.root rfl
  refine ⟨s, hout ▸ hp, hroot, hroot.trans ?_⟩
  rfl

end Repository
end AclTree
