/-
Requests by stages: a grant up to an ancestor first finds the way there
(`Engine.ready`), then names are looked up, and then one edit is carried out on
the nodes of the request's scope (`Engine.spread`). All requests go by these
stages (`Engine.perform_stages`); those without names have the last alone.
-/
import AclTree.Proofs.Engine.Triple
import AclTree.Proofs.Repository.Run

namespace AclTree

variable {σ α β : Type}

namespace Request

def start : Request → String
  | .grant path .. | .revoke path .. => path
  | .grantNamed path .. | .revokeNamed path .. => path
  | .clear path _ => path

def scope : Request → Scope
  | .grant .. | .revoke .. => .node
  | .grantNamed _ scope _ _ | .revokeNamed _ scope _ _ => scope
  | .clear _ scope => scope

def operation : Request → Operation
  | .grant .. | .grantNamed .. => .grant
  | .revoke .. | .revokeNamed .. => .revoke
  | .clear .. => .clear

/-- The names of the privileges that are asked for. -/
def names : Request → List String
  | .grant _ _ privileges | .revoke _ _ privileges => Privilege.names privileges
  | .grantNamed _ _ _ names | .revokeNamed _ _ _ names => names
  | .clear .. => []

/-- The request has names that are yet to be looked up. -/
def looksUp : Request → Bool
  | .grantNamed .. | .revokeNamed .. => true
  | _ => false

/-- The edit on each node, by the descriptors of the names that were looked up. -/
def act : Request → List Privilege → Edit
  | .grant _ who privileges, _ => .grant who privileges
  | .revoke _ who privileges, _ => .revoke who privileges
  | .grantNamed _ _ who _, privileges => .grant who privileges
  | .revokeNamed _ _ who _, privileges => .revoke who privileges
  | .clear .., _ => .clear

end Request

/-- Privileges are given from above and taken from below. -/
def Edit.order : Edit → Engine.Order
  | .grant .. => .parentFirst
  | .revoke .. | .clear => .childrenFirst

theorem Walk.step_bind (x : Action σ α) (f : α → Action σ β) :
    Walk.step (x >>= f) = Walk.step x >>= fun a => Walk.step (f a) := by
  funext s
  rw [Walk.bind_run, Walk.step_run, Walk.step_run, Action.bind_run]
  rcases x s with ⟨err | a, s'⟩ <;> rfl

namespace Engine

variable (e : Engine σ) (limit : Nat) (request : Request)

/-- What has to be found before any name is looked up. -/
def ready : Request → Walk σ (List String)
  | .grantNamed path (.ancestors target) _ names => e.lineage names path target limit path
  | _ => pure []

/-- Carries out the edit on the nodes of the request's scope. A grant goes back on the way that was
found for it. -/
def spread (way : List String) (ed : Edit) : Walk σ Bool :=
  match request.scope, ed with
  | .node, ed => Walk.step (e.edit ed request.start)
  | .ancestors _, .grant who privileges =>
    Walk.visitAll (fun path => Walk.step (e.edit (.grant who privileges) path)) way.reverse false
  | .ancestors target, ed =>
    e.climb request.operation request.names (e.edit ed) request.start target limit request.start
  | .subtree accepts, ed =>
    e.descend ed.order request.operation (Privilege.names ed.privileges) accepts (e.edit ed) limit
      request.start

/-- **The stages of a request**: all of them, or the last alone, or none if it asks for nothing. -/
theorem perform_stages :
    (request.looksUp = false ∧
      e.perform limit request = e.spread limit request [] (request.act [])) ∨
    (request.names = [] ∧ e.perform limit request = pure false) ∨
    (request.looksUp = true ∧ e.perform limit request = do
      let way ← e.ready limit request
      let privileges ← Walk.step (e.resolveAt request.start request.names)
      e.spread limit request way (request.act privileges)) := by
  rcases request with ⟨path, who, privileges⟩ | ⟨path, who, privileges⟩ |
    ⟨path, _ | target | accepts, who, names⟩ | ⟨path, _ | target | accepts, who, names⟩ |
    ⟨path, _ | target | accepts⟩
  case grantNamed.node | revokeNamed.node =>
    cases names with
    | nil => exact .inr (.inl ⟨rfl, rfl⟩)
    | cons => exact .inr (.inr ⟨rfl, Walk.step_bind _ _⟩)
  case grantNamed.subtree | revokeNamed.subtree =>
    cases names with
    | nil => exact .inr (.inl ⟨rfl, rfl⟩)
    | cons => exact .inr (.inr ⟨rfl, rfl⟩)
  case grantNamed.ancestors | revokeNamed.ancestors => exact .inr (.inr ⟨rfl, rfl⟩)
  all_goals exact .inl ⟨rfl, rfl⟩

/-! ## Assertions -/

section Triples

variable {e limit request} {I : σ → Prop} {E : AccessError → σ → Prop}

theorem ready_triple
    (hp : ∀ path, path ≠ e.host.root →
      Action.Triple I (e.parentOf request.operation request.names path) (fun _ => I) E)
    (hE : ∀ start target s, I s → E (.invalidHierarchy start target) s) :
    Walk.Triple I (e.ready limit request) (fun _ => I) E := by
  unfold ready
  split
  · exact lineage_triple hp (hE _ _) limit _
  · exact .pure fun _ hs => hs

theorem spread_triple {ed : Edit} (hv : ∀ path, Action.Triple I (e.edit ed path) (fun _ => I) E)
    (hp : ∀ path, path ≠ e.host.root →
      Action.Triple I (e.parentOf request.operation request.names path) (fun _ => I) E)
    (hm : ∀ accepts path, Action.Triple I (e.matchingChildren request.operation
      (Privilege.names ed.privileges) accepts path) (fun _ => I) E)
    (hE : ∀ start target s, I s → E (.invalidHierarchy start target) s) (way : List String) :
    Walk.Triple I (e.spread limit request way ed) (fun _ => I) E := by
  unfold spread
  split
  · exact .step (hv _)
  · exact .visitAll (fun path => .step (hv path)) way.reverse false
  · exact climb_triple hv hp (hE _ _) limit _
  · exact descend_triple hv (hm _) _ limit _

/-- A request keeps what its stages keep, from one to the next. -/
theorem perform_triple {J : List Privilege → σ → Prop}
    (hready : Walk.Triple I (e.ready limit request) (fun _ => I) E)
    (hresolve : Action.Triple I (e.resolveAt request.start request.names) J E)
    (hidle : request.looksUp = false ∨ request.names = [] → ∀ s, I s → J [] s)
    (hspread : ∀ privileges way, Walk.Triple (J privileges)
      (e.spread limit request way (request.act privileges)) (fun _ => J privileges) E) :
    Walk.Triple I (e.perform limit request) (fun _ s => ∃ privileges, J privileges s) E := by
  rcases e.perform_stages limit request with ⟨hl, h⟩ | ⟨hn, h⟩ | ⟨-, h⟩ <;> rw [h]
  · exact (hspread [] []).mono (hidle (.inl hl)) (fun _ _ hs => ⟨[], hs⟩) fun _ _ => id
  · exact .pure fun s hs => ⟨[], hidle (.inr hn) s hs⟩
  · exact hready.bind fun way => (Walk.Triple.step hresolve).bind fun privileges =>
      (hspread privileges way).mono (fun _ => id) (fun _ _ hs => ⟨privileges, hs⟩) fun _ _ => id

end Triples

end Engine
end AclTree
