/-
Requests carried out twice. The second time each node is found as the edit has
left it, where the edit does nothing more (`Edit.outcome_again`): the
administrator is not put on a list that has entries, a grant finds all that it
gives and a revoke nothing that it takes. The walks come to the same nodes
again, for these are told by the tree and the registry, which no request
touches (`RunsAlike`).
-/
import AclTree.Proofs.Acl.Idempotence
import AclTree.Proofs.Engine.Course

namespace AclTree

/-! ## Single nodes -/

namespace Edit

variable {s : Settings} {find : String → Option Privilege} {e : Edit} {policy policy' : Option Acl}
  {changed : Bool}

/-- Of what an edit has made of a list, it makes the same again. -/
theorem outcome_again (hv : e.isVoid = false)
    (h : e.outcome s find policy = .ok (policy', changed)) :
    e.outcome s find policy' = .ok (policy', false) := by
  cases e with
  | grant who privileges =>
    have hne : privileges ≠ [] := by simpa [isVoid] using hv
    obtain ⟨start, new, -, hc, rfl, -⟩ := outcome_grant_eq_ok h
    have hs : seeded s find (some (start.add who privileges).1 |>.getD .empty) =
        .ok ((start.add who privileges).1, false) := by
      unfold seeded
      rw [Option.getD_some, start.isEmpty_add who hne, if_neg Bool.false_ne_true]
    have hc' : s.check ((start.add who privileges).1.add who privileges).1 = .ok () := by
      rwa [Acl.add_add]
    rw [outcome_grant_of_seeded hs hc', Acl.add_add]
    rfl
  | revoke who privileges =>
    cases policy with
    | none =>
      cases h
      rfl
    | some bound =>
      have hfalse : ∀ acl : Acl, (acl.take who privileges).2 = false →
          (Edit.revoke who privileges).outcome s find (some acl) = .ok (some acl, false) := by
        intro acl hacl
        simp only [outcome, hacl, Bool.false_eq_true, if_false]
        rfl
      rcases outcome_revoke_eq_ok h with ⟨-, -, -, rfl⟩ | ⟨-, hch, rfl⟩
      · exact hfalse _ (bound.take_take who privileges)
      · exact hfalse bound hch
  | clear =>
    cases h
    rfl

end Edit

/-- Where each visit changes nothing, a run does not. -/
theorem Action.each_settled {σ : Type} {visit : String → Action σ Bool} {paths : List String} {s : σ}
    (h : ∀ path ∈ paths, visit path s = (.ok false, s)) : each visit paths s = (.ok false, s) := by
  induction paths with
  | nil => rfl
  | cons path rest ih =>
    obtain ⟨hpath, hrest⟩ := List.forall_mem_cons.1 h
    rw [each_cons_ok hpath, ih hrest]
    rfl

namespace Repository

variable {r s t : Repository} {settings : Settings} {e : Edit} {request : Request}
  {path start target : String} {changed : Bool}

theorem edit_again (h : r.edit settings e path = (.ok changed, s)) :
    s.edit settings e path = (.ok false, s) := by
  rcases edit_eq_ok h with ⟨hv, -, -⟩ | ⟨node, policy, hv, hf, ho, rfl⟩
  · exact edit_void hv
  have hfound : (r.withPolicy path policy).nodes.find? path = some { node with policy } := by
    rw [find?_withPolicy, if_pos rfl, hf]
    rfl
  have hfind : (r.withPolicy path policy).findPrivilege? = r.findPrivilege? :=
    findPrivilege?_of_bare (bare_withPolicy ..)
  rw [edit_found hv hfound, hfind, Edit.outcome_again hv ho]
  exact congrArg _ (withPolicy_same hfound)

/-- A run that has succeeded finds nothing more to do. -/
theorem each_edit_again {nodes : List String} (hn : nodes.Nodup)
    (h : Action.each ((Engine.mk host settings).edit e) nodes r = (.ok changed, s)) :
    Action.each ((Engine.mk host settings).edit e) nodes s = (.ok false, s) := by
  refine Action.each_settled fun q hq => ?_
  obtain ⟨⟨now, hnow⟩, hfind⟩ := (each_edit_eq_ok hn h).1 q hq
  have hagain : (r.edit settings e q).2.edit settings e q = (.ok false, (r.edit settings e q).2) :=
    edit_again (Prod.ext hnow rfl)
  -- The run has left the node as the edit alone would have, so it does there what it does after that.
  have hregistry : s.findPrivilege? = (r.edit settings e q).2.findPrivilege? :=
    findPrivilege?_of_bare ((bare_each_edit h).trans (bare_edit ..).symm)
  have hlocal : (s.edit settings e q).1 = ((r.edit settings e q).2.edit settings e q).1 ∧
      (s.edit settings e q).2.nodes.find? q =
        ((r.edit settings e q).2.edit settings e q).2.nodes.find? q := edit_local hfind hregistry
  rw [hagain] at hlocal
  obtain ⟨hout, hsame⟩ := hlocal
  rw [edit_run]
  refine Prod.ext hout (ext_bare (fun p => ?_) (bare_edit ..))
  by_cases hp : q = p
  · rw [← hp, hsame, hfind]
  · exact find?_edit_of_ne hp

/-! ## The same tree -/

theorem size_of_bare (h : s.bare = r.bare) : s.size = r.size := by
  have hsize : ∀ r : Repository, r.bare.size = r.size := fun r => List.length_map ..
  rw [← hsize, h, hsize]

theorem lookup_of_bare (h : s.bare = r.bare) : s.lookup = r.lookup := by
  funext names
  unfold lookup
  rw [findPrivilege?_of_bare h]

theorem Way.of_bare (h : s.bare = r.bare) {way : List String} (hw : r.Way target path way) :
    s.Way target path way := by
  induction hw with
  | here => exact .here
  | up hne hp _ ih => exact .up hne (by rwa [parentOf_of_bare h]) ih

/-- The request is a run of one edit over the same nodes, on the repository and on all others that
have its tree and registry, whatever lists are bound there. -/
def RunsAlike (r : Repository) (settings : Settings) (request : Request) : Prop :=
  ∃ e nodes, nodes.Nodup ∧ ∀ t : Repository, t.bare = r.bare →
    t.perform settings request =
      some (Action.each ((Engine.mk host settings).edit e) nodes t)

theorem runsAlike_node (path : String) (e : Edit)
    (hp : ∀ t : Repository, t.bare = r.bare →
      t.perform settings request = some (t.edit settings e path)) :
    r.RunsAlike settings request := by
  refine ⟨e, [path], List.nodup_singleton path, fun t ht => ?_⟩
  rw [hp t ht, Action.each_singleton, edit_run]

section Lookups

variable {names : List String} {privileges : List Privilege}

theorem resolveAt_of_bare (hl : r.lookup names = .ok privileges) (ht : t.bare = r.bare) :
    (Engine.mk host settings).resolveAt path names t = (.ok privileges, t) := by
  rw [resolveAt_run, lookup_of_bare ht, hl]

theorem lookup_of_named (act : List Privilege → Edit)
    (h : (match r.lookup names with
      | .ok privileges => r.edit settings (act privileges) path
      | .error err => (.error err, r)) = (.ok changed, s)) :
    ∃ privileges, r.lookup names = .ok privileges := by
  cases hl : r.lookup names with
  | ok privileges => exact ⟨privileges, rfl⟩
  | error err =>
    rw [hl] at h
    cases h

end Lookups

section Walks

variable (h : r.IsTree)
include h

theorem runsAlike_climb {operation : Operation} {names : List String} {way : List String}
    (hw : r.Way target start way)
    (hp : ∀ t : Repository, t.bare = r.bare → t.perform settings request =
      (Engine.mk host settings).climb operation names ((Engine.mk host settings).edit e) start target
        t.size start t) : r.RunsAlike settings request := by
  refine ⟨e, way, h.nodup_way hw, fun t ht => (hp t ht).trans ?_⟩
  have hlimit : way.length ≤ t.size + 1 := by
    rw [size_of_bare ht]
    exact h.length_way_le_size hw
  exact climb_run h edit_keeps_bare operation names hw ht hlimit

theorem runsAlike_descend (order : Engine.Order) (operation : Operation) (names : List String)
    (accepts : String → Bool) (hc : r.contains path = true)
    (hp : ∀ t : Repository, t.bare = r.bare → t.perform settings request =
      (Engine.mk host settings).descend order operation names accepts
        ((Engine.mk host settings).edit e) t.size path t) : r.RunsAlike settings request := by
  refine ⟨e, r.traversal order accepts path, h.nodup_traversal, fun t ht => (hp t ht).trans ?_⟩
  have hlimit : r.deeper path < t.size := by
    rw [size_of_bare ht]
    exact h.deeper_lt_size path
  exact descend_run h edit_keeps_bare order operation names ht hc hlimit

/-- As `runsAlike_descend`, for requests by names; `act` is what they ask for. -/
theorem runsAlike_named_descend {order : Engine.Order} {operation : Operation} {names : List String}
    {accepts : String → Bool} (act : List Privilege → Edit)
    (hp : ∀ t : Repository, t.perform settings request =
      (if names.isEmpty then
        pure false
      else do
        let privileges ← Walk.step ((Engine.mk host settings).resolveAt path names)
        (Engine.mk host settings).descend order operation (Privilege.names privileges) accepts
          ((Engine.mk host settings).edit (act privileges)) t.size path : Walk Repository Bool) t)
    (hok : r.perform settings request = some (.ok changed, s)) : r.RunsAlike settings request := by
  by_cases hempty : names.isEmpty = true
  · exact ⟨.clear, [], .nil, fun t _ => by rw [hp, if_pos hempty]; rfl⟩
  simp only [if_neg hempty] at hp
  rw [hp] at hok
  obtain ⟨privileges, s₁, hl, hd⟩ := Walk.bind_eq_ok.1 hok
  obtain ⟨hs₁, hl⟩ := resolveAt_eq_ok (Option.some.inj hl)
  rw [hs₁] at hd
  refine runsAlike_descend h order operation (Privilege.names privileges) accepts
    (contains_of_descend edit_keeps_bare hd) (e := act privileges) fun t ht => (hp t).trans ?_
  exact Walk.bind_ok (congrArg some (resolveAt_of_bare hl ht))

theorem runsAlike_grant_along {who : Principal} {names : List String}
    (hok : r.perform settings (.grantNamed start (.ancestors target) who names) =
      some (.ok changed, s)) :
    r.RunsAlike settings (.grantNamed start (.ancestors target) who names) := by
  obtain ⟨way, s₁, hway, hok⟩ := Walk.bind_eq_ok.1 hok
  obtain ⟨privileges, s₂, hl, -⟩ := Walk.bind_eq_ok.1 hok
  obtain ⟨hs₁, hw⟩ := lineage_eq_ok h hway
  rw [hs₁] at hl
  obtain ⟨-, hl⟩ := resolveAt_eq_ok (Option.some.inj hl)
  refine ⟨.grant who privileges, way.reverse, List.nodup_reverse.2 (h.nodup_way hw), fun t ht => ?_⟩
  rw [grant_along_run (h.of_bare ht) (hw.of_bare ht), lookup_of_bare ht, hl]

theorem runsAlike_revoke_along {who : Principal} {names : List String}
    (hok : r.perform settings (.revokeNamed start (.ancestors target) who names) =
      some (.ok changed, s)) :
    r.RunsAlike settings (.revokeNamed start (.ancestors target) who names) := by
  obtain ⟨privileges, s₁, hl, hc⟩ := Walk.bind_eq_ok.1 hok
  obtain ⟨hs₁, hl⟩ := resolveAt_eq_ok (Option.some.inj hl)
  rw [hs₁] at hc
  obtain ⟨way, hw, -⟩ := climb_edit_eq_ok (e := .revoke who privileges) h hc
  exact runsAlike_climb h (e := .revoke who privileges) hw fun t ht =>
    Walk.bind_ok (congrArg some (resolveAt_of_bare hl ht))

/-- **A request that succeeds** succeeds by the tree and the registry: what it visits and what it asks
for there do not depend on the lists. -/
theorem IsTree.runsAlike (hok : r.perform settings request = some (.ok changed, s)) :
    r.RunsAlike settings request := by
  rcases request with ⟨path, who, privileges⟩ | ⟨path, who, privileges⟩ |
    ⟨path, _ | target | accepts, who, names⟩ | ⟨path, _ | target | accepts, who, names⟩ |
    ⟨path, _ | target | accepts⟩
  · exact runsAlike_node path (.grant who privileges) fun t _ => congrArg some (grant_run ..)
  · exact runsAlike_node path (.revoke who privileges) fun t _ => congrArg some (revoke_run ..)
  · have hrun := grantNamed_run settings path r who names
    obtain ⟨privileges, hl⟩ := lookup_of_named (.grant who) (hrun.symm.trans (Option.some.inj hok))
    refine runsAlike_node path (.grant who privileges) fun t ht => congrArg some ?_
    rw [grantNamed_run, lookup_of_bare ht, hl]
  · exact runsAlike_grant_along h hok
  · exact runsAlike_named_descend h (.grant who) (fun _ => rfl) hok
  · have hrun := revokeNamed_run settings path r who names
    obtain ⟨privileges, hl⟩ := lookup_of_named (.revoke who) (hrun.symm.trans (Option.some.inj hok))
    refine runsAlike_node path (.revoke who privileges) fun t ht => congrArg some ?_
    rw [revokeNamed_run, lookup_of_bare ht, hl]
  · exact runsAlike_revoke_along h hok
  · exact runsAlike_named_descend h (.revoke who) (fun _ => rfl) hok
  · exact runsAlike_node path .clear fun t _ => congrArg some (clear_run ..)
  · obtain ⟨way, hw, -⟩ := climb_edit_eq_ok (e := .clear) h hok
    exact runsAlike_climb h (e := .clear) hw fun _ _ => rfl
  · exact runsAlike_descend h .childrenFirst .clear [] accepts
      (contains_of_descend (edit_keeps_bare (e := .clear)) hok) (e := .clear) fun _ _ => rfl

end Walks

/-- **Requests are idempotent**: one that succeeded, whatever lists it came upon, succeeds again,
tells of no change and leaves the repository as it is. -/
theorem Live.perform_idempotent (h : r.Live)
    (hok : r.perform settings request = some (.ok changed, s)) :
    s.perform settings request = some (.ok false, s) := by
  obtain ⟨e, nodes, hn, hruns⟩ := h.isTree.runsAlike hok
  have hrun : Action.each ((Engine.mk host settings).edit e) nodes r = (.ok changed, s) :=
    Option.some.inj ((hruns r rfl).symm.trans hok)
  rw [hruns s (bare_perform hok), each_edit_again hn hrun]

/-- The first entry of "u" is extended; what is repeated in it stays, as do the other entries. -/
theorem perform_idempotent_malformed_list : ∃ r s : Repository, r.Live ∧
    r.policyAt Path.root = some ⟨[⟨⟨"u"⟩, [.simple "own", .simple "own"]⟩, ⟨⟨"v"⟩, []⟩,
      ⟨⟨"u"⟩, [.simple "own"]⟩]⟩ ∧
    r.perform {} (.grantNamed Path.root (.subtree fun _ => true) ⟨"u"⟩ ["jcr:read", "jcr:read"]) =
      some (.ok true, s) ∧
    s.policyAt Path.root = some ⟨[⟨⟨"u"⟩, [.simple "own", .simple "own", .simple "jcr:read"]⟩,
      ⟨⟨"v"⟩, []⟩, ⟨⟨"u"⟩, [.simple "own"]⟩]⟩ ∧
    s.perform {} (.grantNamed Path.root (.subtree fun _ => true) ⟨"u"⟩ ["jcr:read", "jcr:read"]) =
      some (.ok false, s) := by
  have hbound : Repository.initial.setPolicy Path.root ⟨[⟨⟨"u"⟩, [.simple "own", .simple "own"]⟩,
      ⟨⟨"v"⟩, []⟩, ⟨⟨"u"⟩, [.simple "own"]⟩]⟩ =
    .ok (Repository.initial.withPolicy Path.root (some ⟨[⟨⟨"u"⟩, [.simple "own", .simple "own"]⟩,
      ⟨⟨"v"⟩, []⟩, ⟨⟨"u"⟩, [.simple "own"]⟩]⟩)) := rfl
  have hlive := Live.setPolicy (.reachable .initial) hbound
  exact ⟨_, _, hlive, rfl, rfl, rfl, Live.perform_idempotent hlive rfl⟩

end Repository
end AclTree
