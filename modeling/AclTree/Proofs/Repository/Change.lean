/-
Changes of a repository, step by step. What a change tries before it writes may
fail, and then the repository stands as it was (`Change.Atomic`); this holds of
all of them. So each can be told by what it gives, the new repository with it
(`addNode_eq` and the like).
-/
import AclTree.Proofs.Except
import AclTree.Repository

namespace AclTree.Repository

namespace Change

variable {α β : Type}

/-! ## Failures -/

/-- Where the change fails, it leaves the repository as it was. -/
def Atomic (c : Change α) : Prop := ∀ r e, c.attempt r = .error e → c.left r = r

namespace Atomic

theorem throw (e : ContentError) : Atomic (MonadExcept.throw e : Change α) := fun _ _ _ => rfl

theorem ofExcept_bind {x : Except ContentError α} {f : α → Change β} (h : ∀ a, Atomic (f a)) :
    Atomic (ofExcept x >>= f) := by
  intro r e he
  cases x with
  | error e => rfl
  | ok a => exact h a r e he

theorem get_bind {f : Repository → Change α} (h : ∀ r, Atomic (f r)) : Atomic (get >>= f) :=
  fun r => h r r

end Atomic

theorem atomic_addNode (parent name kind : String) : Atomic (addNode parent name kind) := by
  refine .ofExcept_bind fun _ => .ofExcept_bind fun parent => .get_bind fun r => ?_
  split
  · exact .throw _
  split
  · -- Neither of the two writes can fail.
    rintro r e ⟨⟩
  · exact .throw _

theorem atomic_addPath (path kind : String) : Atomic (addPath path kind) := by
  refine .ofExcept_bind fun path => ?_
  split
  · exact atomic_addNode _ _ _
  · exact .throw _

theorem atomic_register (p : Privilege) : Atomic (register p) := by
  refine .get_bind fun r => ?_
  split
  · exact .throw _
  · rintro r e ⟨⟩

theorem atomic_registerAggregate (name : String) (constituents : List String) :
    Atomic (registerAggregate name constituents) :=
  .get_bind fun _ => .ofExcept_bind fun _ => atomic_register _

/-! ## Results -/

theorem left_of_attempt {c : Change α} {a : α} {r s : Repository} (h : c.attempt r = .ok (a, s)) :
    c.left r = s := by
  unfold attempt at h
  obtain ⟨b, -, hb⟩ := Except.map_eq_ok.1 h
  exact (Prod.mk.inj hb).2

theorem attempt_ofExcept_bind (x : Except ContentError α) (f : α → Change β) (r : Repository) :
    (ofExcept x >>= f).attempt r = x.bind fun a => (f a).attempt r := by
  cases x <;> rfl

theorem attempt_get_bind (f : Repository → Change α) (r : Repository) :
    (get >>= f).attempt r = (f r).attempt r := rfl

end Change

/-- A new node below another one, behind its other children. -/
def grow (r : Repository) (parent path kind : String) : Repository :=
  { r with nodes := (r.nodes.modify parent fun node =>
      { node with children := node.children ++ [path] }).insert path { kind, parent := some parent } }

theorem addNode_eq (r : Repository) (parent name kind : String) :
    r.addNode parent name kind =
      ((Path.checkName name).mapError .invalidPath).bind fun _ =>
      ((Path.normalize parent).mapError .invalidPath).bind fun p =>
        if r.contains (Path.join p name) = true then .error (.duplicateNode (Path.join p name))
        else if r.contains p = true then .ok (Path.join p name, r.grow p (Path.join p name) kind)
        else .error (.nodeNotFound p) := by
  unfold addNode Change.addNode
  rw [Change.attempt_ofExcept_bind]
  refine congrArg _ (funext fun _ => ?_)
  rw [Change.attempt_ofExcept_bind]
  refine congrArg _ (funext fun p => ?_)
  rw [Change.attempt_get_bind]
  split
  · rfl
  split <;> rfl

theorem addPath_eq (r : Repository) (path kind : String) :
    r.addPath path kind = ((Path.normalize path).mapError .invalidPath).bind fun path =>
      match Path.split? path with
      | some (parent, name) => r.addNode parent name kind
      | none => .error (.duplicateNode Path.root) := by
  unfold addPath Change.addPath
  rw [Change.attempt_ofExcept_bind]
  refine congrArg _ (funext fun path => ?_)
  rcases Path.split? path with _ | ⟨parent, name⟩ <;> rfl

theorem register_eq (r : Repository) (p : Privilege) :
    r.register p =
      if Privilege.holds r.privileges p.name = true then .error (.duplicatePrivilege p.name)
      else .ok (p, { r with privileges := r.privileges ++ [p] }) := by
  unfold register Change.register
  rw [Change.attempt_get_bind]
  split <;> rfl

theorem registerAggregate_eq (r : Repository) (name : String) (constituents : List String) :
    r.registerAggregate name constituents =
      (r.resolve constituents).bind fun parts => r.register (.aggregate name parts) := by
  unfold registerAggregate Change.registerAggregate
  rw [Change.attempt_get_bind, Change.attempt_ofExcept_bind]
  rfl

end AclTree.Repository
