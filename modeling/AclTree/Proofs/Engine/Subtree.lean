/-
Requests on subtrees of a repository: a walk does what the operation does over
the list of the nodes it reaches, `Repository.traversal`. `descend_run` is the
walk itself; the requests look privileges up first.
-/
import AclTree.Proofs.Repository.Reachable
import AclTree.Proofs.Repository.Subtree

namespace AclTree.Repository

open Engine (Order)

variable {r s : Repository} {settings : Settings} {accepts : String → Bool} {path : String}

/-! ## The walk -/

theorem kind_run {kind : String} (h : r.kindOf path = some kind) : host.kind path r = (.ok kind, r) := by
  obtain ⟨node, hf, rfl⟩ := Option.map_eq_some_iff.1 h
  change ((r.node path).map (·.kind), r) = _
  rw [node_eq_ok.2 hf]
  rfl

theorem exists_kindOf (h : r.contains path = true) : ∃ kind, r.kindOf path = some kind := by
  obtain ⟨node, hf⟩ := contains_iff_find?.1 h
  exact ⟨node.kind, by rw [kindOf, hf]; rfl⟩

theorem matchingChildren_run (h : r.IsTree) (hc : r.contains path = true) (operation : Operation)
    (names : List String) :
    (Engine.mk host settings).matchingChildren operation names accepts path r =
      (.ok (r.accepted accepts path), r) := by
  obtain ⟨node, hf⟩ := contains_iff_find?.1 hc
  have hchildren : r.childrenOf path = node.children := by rw [childrenOf, hf]; rfl
  unfold Engine.matchingChildren
  rw [access_found path r (children_run path r) hf, ← hchildren]
  refine Action.filterM_reading fun child hchild => ?_
  have hp := (h.mem_children path child).1 hchild
  obtain ⟨kind, hk⟩ := exists_kindOf (contains_of_parentOf hp)
  rw [Action.bind_ok (Engine.access_ok (kind_run hk)), hk]
  rfl

/-- **A walk over a subtree** is a run over its traversal. -/
theorem descend_run (h : r.IsTree) {visit : String → Action Repository Bool}
    (hvisit : ∀ q, Keeps (fun s => s.bare = r.bare) (visit q)) (order : Order)
    (operation : Operation) (names : List String) {limit : Nat} (hs : s.bare = r.bare)
    (hc : r.contains path = true) (hlimit : r.deeper path < limit) :
    (Engine.mk host settings).descend order operation names accepts visit limit path s =
      some (Action.each visit (r.traversal order accepts path) s) := by
  induction limit generalizing path s with
  | zero => exact absurd hlimit (Nat.not_lt_zero _)
  | succ limit ih =>
    -- The walks from the children, in whatever state the visits before have left.
    have hbelow : ∀ child ∈ r.accepted accepts path, ∀ s, s.bare = r.bare →
        (Engine.mk host settings).descend order operation names accepts visit limit child s =
          some (Action.each visit (r.traversal order accepts child) s) := by
      intro child hchild s hs
      have hlt := h.deeper_accepted hchild
      exact ih hs (contains_of_parentOf (h.mem_accepted.1 hchild).1) (by omega)
    have hchildren : ∀ s, s.bare = r.bare →
        (Engine.mk host settings).matchingChildren operation names accepts path s =
          (.ok (r.accepted accepts path), s) := by
      intro s hs
      rw [matchingChildren_run (h.of_bare hs) (by rw [contains_of_bare hs]; exact hc),
        accepted_of_bare hs]
    rw [h.traversal_eq]
    unfold Engine.descend
    cases order with
    | parentFirst =>
      dsimp only
      have hkept := hvisit path s hs
      rcases hv : visit path s with ⟨e | changed, s₁⟩
      · rw [Order.arrange, Action.each_cons_error hv]
        exact Walk.bind_error (congrArg some hv)
      · rw [hv] at hkept
        rw [Order.arrange, Action.each_cons_ok hv, Walk.bind_ok (congrArg some hv),
          Walk.bind_ok (congrArg some (hchildren s₁ hkept))]
        exact Walk.visitAll_each hvisit hbelow changed hkept
    | childrenFirst =>
      dsimp only
      rw [Walk.bind_ok (congrArg some (hchildren s hs))]
      have hall := Walk.visitAll_each hvisit hbelow false hs
      rw [Action.after_false] at hall
      rcases he : Action.each visit ((r.accepted accepts path).flatMap
          (r.traversal .childrenFirst accepts)) s with ⟨e | changed, s₁⟩
      · rw [he] at hall
        rw [Order.arrange, Action.each_append_error he]
        exact Walk.bind_error hall
      · rw [he] at hall
        rw [Order.arrange, Action.each_append_ok he, Action.each_singleton, Walk.bind_ok hall]
        exact Walk.step_after changed (visit path) s₁

theorem contains_of_matchingChildren {operation : Operation} {names children : List String}
    (h : (Engine.mk host settings).matchingChildren operation names accepts path r =
      (.ok children, s)) : r.contains path = true := by
  cases hc : r.contains path with
  | true => rfl
  | false =>
    unfold Engine.matchingChildren at h
    rw [access_missing path r (children_run path r) hc] at h
    cases h

/-- A walk that succeeds started at a node. -/
theorem contains_of_descend {visit : String → Action Repository Bool}
    (hvisit : ∀ q, Keeps (fun s => s.bare = r.bare) (visit q)) {order : Order}
    {operation : Operation} {names : List String} {limit : Nat} {changed : Bool}
    (h : (Engine.mk host settings).descend order operation names accepts visit limit path r =
      some (.ok changed, s)) : r.contains path = true := by
  cases limit with
  | zero => cases h
  | succ limit =>
    unfold Engine.descend at h
    cases order with
    | parentFirst =>
      obtain ⟨now, s₁, hv, h⟩ := Walk.bind_eq_ok.1 h
      obtain ⟨children, s₂, hm, -⟩ := Walk.bind_eq_ok.1 h
      have hs₁ := hvisit path r rfl
      rw [Option.some.inj hv] at hs₁
      rw [← contains_of_bare hs₁]
      exact contains_of_matchingChildren (Option.some.inj hm)
    | childrenFirst =>
      obtain ⟨children, s₂, hm, -⟩ := Walk.bind_eq_ok.1 h
      exact contains_of_matchingChildren (Option.some.inj hm)

/-! ## The requests -/

section Requests

variable (h : r.IsTree) (hc : r.contains path = true)
include h hc

theorem descend_edit_run (order : Order) (operation : Operation) (names : List String) (e : Edit) :
    (Engine.mk host settings).descend order operation names accepts
        ((Engine.mk host settings).edit e) r.size path r =
      some (Action.each ((Engine.mk host settings).edit e) (r.traversal order accepts path) r) :=
  descend_run h edit_keeps_bare order operation names rfl hc (h.deeper_lt_size path)

/-- Looking up and walking, as requests by names do; `act` is what they ask for. -/
theorem named_descend_run {names : List String} {privileges : List Privilege} (hne : names ≠ [])
    (hl : r.lookup names = .ok privileges) (order : Order) (operation : Operation)
    (act : List Privilege → Edit) :
    (if names.isEmpty then
      pure false
    else do
      let privileges ← Walk.step ((Engine.mk host settings).resolveAt path names)
      (Engine.mk host settings).descend order operation (Privilege.names privileges) accepts
        ((Engine.mk host settings).edit (act privileges)) r.size path : Walk Repository Bool) r =
      some (Action.each ((Engine.mk host settings).edit (act privileges))
        (r.traversal order accepts path) r) := by
  have hlookup := resolveAt_run settings path names r
  rw [hl] at hlookup
  rw [if_neg (by simpa using hne), Walk.bind_ok (congrArg some hlookup)]
  exact descend_edit_run h hc order operation _ (act privileges)

theorem perform_grant_subtree {names : List String} {privileges : List Privilege}
    (hne : names ≠ []) (hl : r.lookup names = .ok privileges) (who : Principal) :
    r.perform settings (.grantNamed path (.subtree accepts) who names) =
      some (Action.each ((Engine.mk host settings).edit (.grant who privileges))
        (r.traversal .parentFirst accepts path) r) :=
  named_descend_run h hc hne hl .parentFirst .grant (.grant who)

theorem perform_revoke_subtree {names : List String} {privileges : List Privilege}
    (hne : names ≠ []) (hl : r.lookup names = .ok privileges) (who : Principal) :
    r.perform settings (.revokeNamed path (.subtree accepts) who names) =
      some (Action.each ((Engine.mk host settings).edit (.revoke who privileges))
        (r.traversal .childrenFirst accepts path) r) :=
  named_descend_run h hc hne hl .childrenFirst .revoke (.revoke who)

theorem perform_clear_subtree :
    r.perform settings (.clear path (.subtree accepts)) =
      some (Action.each ((Engine.mk host settings).edit .clear)
        (r.traversal .childrenFirst accepts path) r) :=
  descend_edit_run h hc .childrenFirst .clear [] .clear

end Requests

/-- A request does what an edit does on the nodes of a list, from left to right up to the first on
which it fails. That one and those after it then are as before, those before it are finished. -/
structure RunsOver (r : Repository) (settings : Settings) (request : Request) (e : Edit)
    (nodes : List String) : Prop where
  outcome : r.perform settings request =
    some (Action.each ((Engine.mk host settings).edit e) nodes r)
  aborted : ∀ err s, r.perform settings request = some (.error err, s) →
    ∃ visited q left changed, nodes = visited ++ q :: left ∧
      Action.each ((Engine.mk host settings).edit e) visited r = (.ok changed, s) ∧
      (Engine.mk host settings).edit e q s = (.error err, s) ∧
      ∀ p, p ∉ visited → s.nodes.find? p = r.nodes.find? p

theorem runsOver {request : Request} {e : Edit} {nodes : List String}
    (h : r.perform settings request =
      some (Action.each ((Engine.mk host settings).edit e) nodes r)) :
    r.RunsOver settings request e nodes where
  outcome := h
  aborted err s hs := by
    rw [h] at hs
    obtain ⟨visited, q, left, changed, hn, hv, he⟩ := each_edit_eq_error (Option.some.inj hs)
    exact ⟨visited, q, left, changed, hn, hv, he, fun p hp => find?_each_edit hv hp⟩

/-- What the traversals of a node's subtree are like: they list the nodes that accepted types lead to
from there, each once, children's subtrees in the order of the children. -/
structure Traverses (r : Repository) (order : Order) (accepts : String → Bool) (path : String) :
    Prop where
  mem : ∀ q, q ∈ r.traversal order accepts path ↔ r.Reaches accepts path q
  nodup : (r.traversal order accepts path).Nodup
  siblings : ∀ q, r.traversal order accepts q =
    order.arrange q ((r.accepted accepts q).flatMap (r.traversal order accepts))
  /-- Nodes stand behind those that precede them in the order. -/
  ordered : (r.traversal order accepts path).Pairwise fun a b => ¬order.Precedes r b a
  /-- Where a run stops, nothing is missing that precedes what it has visited. -/
  closed : ∀ visited left, r.traversal order accepts path = visited ++ left →
    ∀ a ∈ visited, ∀ b ∈ r.traversal order accepts path, order.Precedes r b a → b ∈ visited

theorem IsTree.traverses (h : r.IsTree) (order : Order) (accepts : String → Bool) (path : String) :
    r.Traverses order accepts path where
  mem _ := h.mem_traversal
  nodup := h.nodup_traversal
  siblings := h.traversal_eq order accepts
  ordered := h.pairwise_traversal order accepts path
  closed _ _ ht _ ha _ hb hp := h.closed_traversal ht ha hb hp

/-- **Requests on subtrees**: granting, revoking and clearing end, and do what the operation on a
single node does over the traversal of the subtree, parents first for grants and children first for
the others. -/
theorem Reachable.perform_subtree (h : r.Reachable) (hc : r.contains path = true)
    (settings : Settings) (accepts : String → Bool) (who : Principal) {names : List String}
    (hne : names ≠ []) (hknown : ∀ name ∈ names, (r.findPrivilege? name).isSome = true) :
    ∃ privileges,
      List.Forall₂ (fun name p => r.findPrivilege? name = some p) names privileges ∧
      r.RunsOver settings (.grantNamed path (.subtree accepts) who names) (.grant who privileges)
        (r.traversal .parentFirst accepts path) ∧
      r.RunsOver settings (.revokeNamed path (.subtree accepts) who names) (.revoke who privileges)
        (r.traversal .childrenFirst accepts path) ∧
      r.RunsOver settings (.clear path (.subtree accepts)) .clear
        (r.traversal .childrenFirst accepts path) ∧
      ∀ order, r.Traverses order accepts path := by
  obtain ⟨privileges, hl⟩ := exists_lookup hknown
  have htree := h.isTree
  refine ⟨privileges, lookup_eq_ok.1 hl, runsOver ?_, runsOver ?_, runsOver ?_, ?_⟩
  · exact perform_grant_subtree htree hc hne hl who
  · exact perform_revoke_subtree htree hc hne hl who
  · exact perform_clear_subtree htree hc
  · exact fun order => htree.traverses order accepts path

/-- Below the root a folder and a file; only folders are accepted. -/
theorem perform_subtree_folders : ∃ r : Repository,
    r.traversal .parentFirst (· == "folder") "/" = ["/", "/a"] ∧ r.Reachable ∧ ∃ privileges,
      List.Forall₂ (fun name p => r.findPrivilege? name = some p) ["jcr:read"] privileges ∧
      r.RunsOver {} (.grantNamed "/" (.subtree (· == "folder")) ⟨"u"⟩ ["jcr:read"])
        (.grant ⟨"u"⟩ privileges) (r.traversal .parentFirst (· == "folder") "/") ∧
      r.RunsOver {} (.revokeNamed "/" (.subtree (· == "folder")) ⟨"u"⟩ ["jcr:read"])
        (.revoke ⟨"u"⟩ privileges) (r.traversal .childrenFirst (· == "folder") "/") ∧
      r.RunsOver {} (.clear "/" (.subtree (· == "folder"))) .clear
        (r.traversal .childrenFirst (· == "folder") "/") ∧
      ∀ order, r.Traverses order (· == "folder") "/" := by
  have hfolder : Repository.initial.addNode "/" "a" "folder" =
      .ok ("/a", Repository.initial.grow "/" "/a" "folder") := rfl
  have hfile : (Repository.initial.grow "/" "/a" "folder").addNode "/" "b" "file" =
      .ok ("/b", (Repository.initial.grow "/" "/a" "folder").grow "/" "/b" "file") := rfl
  have hreach := Reachable.addNode (.addNode .initial hfolder) hfile
  exact ⟨_, rfl, hreach, hreach.perform_subtree rfl {} (· == "folder") ⟨"u"⟩ (by simp) (by decide)⟩

end AclTree.Repository
