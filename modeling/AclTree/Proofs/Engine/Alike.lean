/-
Engines with one setting on two hosts whose calls are related (`Host.Alike`).
Step by step from single calls: operations on one node are related
(`Host.Alike.nodes`), then walks over nodes, then whole requests
(`NodesAlike.perform`).

Nothing is asked of calls that bind a list which the settings refuse:
`checked_write` is where lists reach the host, and only past the check.
-/
import AclTree.Proofs.Engine.Relates

namespace AclTree

variable {σ τ : Type} {R : σ → τ → Prop}

/-- Every call that an engine with the settings may make is related on both hosts. -/
structure Host.Alike (settings : Settings) (R : σ → τ → Prop) (host : Host σ) (host' : Host τ) :
    Prop where
  root : host.root = host'.root
  parent : ∀ path, Relates R (host.parent path) (host'.parent path)
  children : ∀ path, Relates R (host.children path) (host'.children path)
  kind : ∀ path, Relates R (host.kind path) (host'.kind path)
  applicable : ∀ path, Relates R (host.applicable path) (host'.applicable path)
  applied : ∀ path, Relates R (host.applied path) (host'.applied path)
  setPolicy : ∀ path acl, settings.Allows acl →
    Relates R (host.setPolicy path acl) (host'.setPolicy path acl)
  removePolicy : ∀ path acl, Relates R (host.removePolicy path acl) (host'.removePolicy path acl)
  privilege : ∀ name, Relates R (host.privilege name) (host'.privilege name)

/-- The calls that walks make themselves, and the operations on single nodes, are related. -/
structure NodesAlike (settings : Settings) (R : σ → τ → Prop) (host : Host σ) (host' : Host τ) :
    Prop where
  root : host.root = host'.root
  parent : ∀ path, Relates R (host.parent path) (host'.parent path)
  children : ∀ path, Relates R (host.children path) (host'.children path)
  kind : ∀ path, Relates R (host.kind path) (host'.kind path)
  privilege : ∀ name, Relates R (host.privilege name) (host'.privilege name)
  grant : ∀ path who privileges, Relates R ((Engine.mk host settings).grant path who privileges)
    ((Engine.mk host' settings).grant path who privileges)
  revoke : ∀ path who privileges, Relates R ((Engine.mk host settings).revoke path who privileges)
    ((Engine.mk host' settings).revoke path who privileges)
  clear : ∀ path, Relates R ((Engine.mk host settings).clear path)
    ((Engine.mk host' settings).clear path)

variable {settings : Settings} {host : Host σ} {host' : Host τ}

theorem Engine.resolve_relates
    (h : ∀ name, Relates R (host.privilege name) (host'.privilege name)) (names : List String) :
    Relates R ((Engine.mk host settings).resolve names) ((Engine.mk host' settings).resolve names) :=
  Relates.mapM (fun name => (h name).adapt.bind fun found => by
    cases found with
    | some p => exact .pure p
    | none => exact .throw _) names

theorem Engine.resolveAt_relates
    (h : ∀ name, Relates R (host.privilege name) (host'.privilege name)) (path : String)
    (names : List String) :
    Relates R ((Engine.mk host settings).resolveAt path names)
      ((Engine.mk host' settings).resolveAt path names) :=
  (Engine.resolve_relates h names).adapt

/-! ## Single nodes -/

namespace Host.Alike

variable (h : Host.Alike settings R host host')
include h

theorem candidate (path : String) : Relates R (host.candidate path) (host'.candidate path) := by
  unfold Host.candidate
  refine (h.applicable path).bind fun lists => ?_
  cases lists with
  | cons acl _ => exact .pure acl
  | nil =>
    refine (h.applied path).bind fun lists => ?_
    cases lists with
    | cons acl _ => exact .pure acl
    | nil => exact .throw _

theorem seed (path : String) (acl : Acl) :
    Relates R ((Engine.mk host settings).seed path acl) ((Engine.mk host' settings).seed path acl) := by
  unfold Engine.seed
  split
  · exact (Engine.resolveAt_relates h.privilege _ _).bind fun _ => .pure _
  · exact .pure _

/-- A list reaches the host only through the check. -/
theorem checked_write (path : String) (operation : Operation) (names : List String) (acl : Acl)
    (changed : Bool) :
    Relates R
      (do
        (Engine.mk host settings).checkConsistency acl
        Engine.access path operation names (host.setPolicy path acl)
        Pure.pure changed)
      (do
        (Engine.mk host' settings).checkConsistency acl
        Engine.access path operation names (host'.setPolicy path acl)
        Pure.pure changed) := by
  intro s t hst
  have hc := Engine.checkConsistency_run (Engine.mk host settings) acl s
  have hc' := Engine.checkConsistency_run (Engine.mk host' settings) acl t
  cases hcheck : settings.check acl with
  | error err =>
    rw [hcheck] at hc hc'
    rw [Action.bind_error hc, Action.bind_error hc']
    exact ⟨rfl, hst⟩
  | ok _ =>
    rw [hcheck] at hc hc'
    rw [Action.bind_ok hc, Action.bind_ok hc']
    have hset := h.setPolicy path acl (Settings.check_eq_ok.1 hcheck)
    exact (hset.adapt.bind fun _ => .pure changed) s t hst

theorem grant (path : String) (who : Principal) (privileges : List Privilege) :
    Relates R ((Engine.mk host settings).grant path who privileges)
      ((Engine.mk host' settings).grant path who privileges) := by
  unfold Engine.grant
  split
  · exact .pure _
  · exact (h.candidate path).adapt.bind fun found => (h.seed path found).bind fun _ =>
      h.checked_write _ _ _ _ _

theorem revoke (path : String) (who : Principal) (privileges : List Privilege) :
    Relates R ((Engine.mk host settings).revoke path who privileges)
      ((Engine.mk host' settings).revoke path who privileges) := by
  unfold Engine.revoke
  split
  · exact .pure _
  · refine (h.applied path).adapt.bind fun bound => ?_
    cases bound with
    | nil => exact .pure _
    | cons acl _ =>
      dsimp only
      split
      · exact h.checked_write _ _ _ _ _
      · exact .pure _

theorem clear (path : String) :
    Relates R ((Engine.mk host settings).clear path) ((Engine.mk host' settings).clear path) :=
  (h.applied path).adapt.bind fun bound =>
    (Relates.forM (fun acl => (h.removePolicy path acl).adapt) bound).bind fun _ => .pure _

/-- Where the calls are related, the operations on single nodes are. -/
theorem nodes : NodesAlike settings R host host' where
  root := h.root
  parent := h.parent
  children := h.children
  kind := h.kind
  privilege := h.privilege
  grant := h.grant
  revoke := h.revoke
  clear := h.clear

end Host.Alike

/-! ## Walks -/

namespace NodesAlike

variable (h : NodesAlike settings R host host')
include h

theorem grantNamed (path : String) (who : Principal) (names : List String) :
    Relates R ((Engine.mk host settings).grantNamed path who names)
      ((Engine.mk host' settings).grantNamed path who names) := by
  unfold Engine.grantNamed
  split
  · exact .pure _
  · exact (Engine.resolveAt_relates h.privilege _ _).bind fun privileges =>
      h.grant path who privileges

theorem revokeNamed (path : String) (who : Principal) (names : List String) :
    Relates R ((Engine.mk host settings).revokeNamed path who names)
      ((Engine.mk host' settings).revokeNamed path who names) := by
  unfold Engine.revokeNamed
  split
  · exact .pure _
  · exact (Engine.resolveAt_relates h.privilege _ _).bind fun privileges =>
      h.revoke path who privileges

theorem parentOf (operation : Operation) (names : List String) (path : String) :
    Relates R ((Engine.mk host settings).parentOf operation names path)
      ((Engine.mk host' settings).parentOf operation names path) :=
  (h.parent path).adapt.bind fun found => by
    cases found with
    | some parent => exact .pure parent
    | none => exact .throw _

theorem lineage (names : List String) (start target : String) (limit : Nat) (current : String) :
    Walk.Relates R ((Engine.mk host settings).lineage names start target limit current)
      ((Engine.mk host' settings).lineage names start target limit current) := by
  induction limit generalizing current with
  | zero =>
    unfold Engine.lineage
    rw [h.root]
    split
    · exact .pure _
    split
    · exact .throw _
    · exact .unfinished
  | succ limit ih =>
    unfold Engine.lineage
    rw [h.root]
    split
    · exact .pure _
    split
    · exact .throw _
    · exact (Walk.Relates.step (h.parentOf _ _ current)).bind fun parent =>
        (ih parent).bind fun _ => .pure _

/-- The operation that walks carry out on each node. -/
theorem climb (operation : Operation) (names : List String) {visit : String → Action σ Bool}
    {visit' : String → Action τ Bool} (hv : ∀ path, Relates R (visit path) (visit' path))
    (start target : String) (limit : Nat) (current : String) :
    Walk.Relates R
      ((Engine.mk host settings).climb operation names visit start target limit current)
      ((Engine.mk host' settings).climb operation names visit' start target limit current) := by
  induction limit generalizing current with
  | zero =>
    unfold Engine.climb
    rw [h.root]
    split
    · exact .step (hv current)
    split
    · exact .throw _
    · exact .unfinished
  | succ limit ih =>
    unfold Engine.climb
    rw [h.root]
    split
    · exact .step (hv current)
    split
    · exact .throw _
    · exact (Walk.Relates.step (hv current)).bind fun _ =>
        (Walk.Relates.step (h.parentOf _ _ current)).bind fun parent =>
          (ih parent).bind fun _ => .pure _

theorem matchingChildren (operation : Operation) (names : List String) (accepts : String → Bool)
    (path : String) :
    Relates R ((Engine.mk host settings).matchingChildren operation names accepts path)
      ((Engine.mk host' settings).matchingChildren operation names accepts path) :=
  (h.children path).adapt.bind fun children =>
    Relates.filterM (fun child => (h.kind child).adapt.bind fun _ => .pure _) children

theorem descend (order : Engine.Order) (operation : Operation) (names : List String)
    (accepts : String → Bool) {visit : String → Action σ Bool} {visit' : String → Action τ Bool}
    (hv : ∀ path, Relates R (visit path) (visit' path)) (limit : Nat) (path : String) :
    Walk.Relates R
      ((Engine.mk host settings).descend order operation names accepts visit limit path)
      ((Engine.mk host' settings).descend order operation names accepts visit' limit path) := by
  induction limit generalizing path with
  | zero => exact .unfinished
  | succ limit ih =>
    have children := Walk.Relates.step (h.matchingChildren operation names accepts path)
    cases order with
    | parentFirst =>
      exact (Walk.Relates.step (hv path)).bind fun _ => children.bind fun kids => .visitAll ih kids _
    | childrenFirst =>
      exact children.bind fun kids => (Walk.Relates.visitAll ih kids false).bind fun _ =>
        (Walk.Relates.step (hv path)).bind fun _ => .pure _

theorem grantSubtree (limit : Nat) (path : String) (accepts : String → Bool) (who : Principal)
    (names : List String) :
    Walk.Relates R ((Engine.mk host settings).grantSubtree limit path accepts who names)
      ((Engine.mk host' settings).grantSubtree limit path accepts who names) := by
  unfold Engine.grantSubtree
  split
  · exact .pure _
  · exact (Walk.Relates.step (Engine.resolveAt_relates h.privilege path names)).bind
      fun privileges => h.descend _ _ _ _ (fun path => h.grant path who privileges) limit path

theorem revokeSubtree (limit : Nat) (path : String) (accepts : String → Bool) (who : Principal)
    (names : List String) :
    Walk.Relates R ((Engine.mk host settings).revokeSubtree limit path accepts who names)
      ((Engine.mk host' settings).revokeSubtree limit path accepts who names) := by
  unfold Engine.revokeSubtree
  split
  · exact .pure _
  · exact (Walk.Relates.step (Engine.resolveAt_relates h.privilege path names)).bind
      fun privileges => h.descend _ _ _ _ (fun path => h.revoke path who privileges) limit path

theorem grantAlong (limit : Nat) (start target : String) (who : Principal) (names : List String) :
    Walk.Relates R ((Engine.mk host settings).grantAlong limit start target who names)
      ((Engine.mk host' settings).grantAlong limit start target who names) :=
  (h.lineage names start target limit start).bind fun way =>
    (Walk.Relates.step (Engine.resolveAt_relates h.privilege start names)).bind fun privileges =>
      .visitAll (fun path => .step (h.grant path who privileges)) way.reverse false

theorem revokeAlong (limit : Nat) (start target : String) (who : Principal) (names : List String) :
    Walk.Relates R ((Engine.mk host settings).revokeAlong limit start target who names)
      ((Engine.mk host' settings).revokeAlong limit start target who names) :=
  (Walk.Relates.step (Engine.resolveAt_relates h.privilege start names)).bind fun privileges =>
    h.climb _ _ (fun path => h.revoke path who privileges) start target limit start

/-- **Whole requests** are related, with the nodes that they visit before they fail. -/
theorem perform (limit : Nat) (request : Request) :
    Walk.Relates R ((Engine.mk host settings).perform limit request)
      ((Engine.mk host' settings).perform limit request) := by
  rcases request with ⟨path, who, privileges⟩ | ⟨path, who, privileges⟩ |
    ⟨path, _ | target | accepts, who, names⟩ | ⟨path, _ | target | accepts, who, names⟩ |
    ⟨path, _ | target | accepts⟩
  · exact .step (h.grant path who privileges)
  · exact .step (h.revoke path who privileges)
  · exact .step (h.grantNamed path who names)
  · exact h.grantAlong limit path target who names
  · exact h.grantSubtree limit path accepts who names
  · exact .step (h.revokeNamed path who names)
  · exact h.revokeAlong limit path target who names
  · exact h.revokeSubtree limit path accepts who names
  · exact .step (h.clear path)
  · exact h.climb _ _ h.clear path target limit path
  · exact h.descend _ _ _ _ h.clear limit path

end NodesAlike
end AclTree
