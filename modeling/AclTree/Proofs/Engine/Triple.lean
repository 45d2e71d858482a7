/-
Assertions about work on a host, before it and after. Work ends in one of two
ways, and a triple says something of both: what holds with the result, and what
holds with the error. Walks that do not end within their limit satisfy every
triple.

A walk over nodes keeps what its steps keep, and fails as one of them fails
(`Engine.climb_triple`, `Engine.descend_triple`).
-/
import AclTree.Engine.Lineage
import AclTree.Engine.Subtree
import AclTree.Proofs.Engine.Run

namespace AclTree

variable {σ α β : Type}

/-- Of the two assertions, the one for how the work ended. -/
def Ended (Q : α → σ → Prop) (E : AccessError → σ → Prop) : Except AccessError α → σ → Prop
  | .ok a, s => Q a s
  | .error err, s => E err s

/-- From states of `P`, work that succeeds ends in `Q` and work that fails in `E`. -/
def Action.Triple (P : σ → Prop) (x : Action σ α) (Q : α → σ → Prop)
    (E : AccessError → σ → Prop) : Prop :=
  ∀ s, P s → Ended Q E (x s).1 (x s).2

/-- As `Action.Triple`, for walks that end. -/
def Walk.Triple (P : σ → Prop) (w : Walk σ α) (Q : α → σ → Prop)
    (E : AccessError → σ → Prop) : Prop :=
  ∀ s out s', P s → w s = some (out, s') → Ended Q E out s'

section Steps

variable {P I : σ → Prop} {Q : α → σ → Prop} {R : β → σ → Prop} {E : AccessError → σ → Prop}

theorem Action.Triple.bind {x : Action σ α} {f : α → Action σ β} (hx : Action.Triple P x Q E)
    (hf : ∀ a, Action.Triple (Q a) (f a) R E) : Action.Triple P (x >>= f) R E := by
  intro s hs
  have hended := hx s hs
  rw [Action.bind_run]
  revert hended
  rcases x s with ⟨err | a, s'⟩
  · exact id
  · exact hf a s'

theorem Action.Triple.pure {a : α} (h : ∀ s, P s → Q a s) : Action.Triple P (Pure.pure a) Q E := h

theorem Action.Triple.throw {err : AccessError} (h : ∀ s, P s → E err s) :
    Action.Triple P (MonadExcept.throw err : Action σ α) Q E := h

theorem Action.Triple.filterAuxM {f : α → Action σ Bool}
    (hf : ∀ a, Action.Triple I (f a) (fun _ => I) E) :
    ∀ l kept : List α, Action.Triple I (List.filterAuxM f l kept) (fun _ => I) E
  | [], _ => .pure fun _ hs => hs
  | a :: l, _ => (hf a).bind fun _ => filterAuxM hf l _

theorem Action.Triple.filterM {f : α → Action σ Bool}
    (hf : ∀ a, Action.Triple I (f a) (fun _ => I) E) (l : List α) :
    Action.Triple I (l.filterM f) (fun _ => I) E :=
  (filterAuxM hf l []).bind fun _ => .pure fun _ hs => hs

theorem Action.Triple.mono {Q' : α → σ → Prop} {x : Action σ α} (hx : Action.Triple P x Q E)
    (hQ : ∀ a s, Q a s → Q' a s) : Action.Triple P x Q' E := by
  intro s hs
  have hended := hx s hs
  revert hended
  rcases x s with ⟨err | a, s'⟩
  · exact id
  · exact hQ a s'

namespace Walk.Triple

/-- What is known for certain beforehand may be used. -/
theorem given {φ : Prop} {w : Walk σ α} (h : φ → Walk.Triple P w Q E) :
    Walk.Triple (fun s => P s ∧ φ) w Q E :=
  fun s out s' hs => h hs.2 s out s' hs.1

theorem pure {a : α} (h : ∀ s, P s → Q a s) : Walk.Triple P (Pure.pure a) Q E := by
  intro s out s' hs hw
  cases hw
  exact h s hs

theorem throw {err : AccessError} (h : ∀ s, P s → E err s) :
    Walk.Triple P (MonadExcept.throw err) Q E := by
  intro s out s' hs hw
  cases hw
  exact h s hs

theorem unfinished : Walk.Triple P (Walk.unfinished : Walk σ α) Q E := by
  intro s out s' hs hw
  cases hw

theorem step {x : Action σ α} (h : Action.Triple P x Q E) : Walk.Triple P (Walk.step x) Q E := by
  intro s out s' hs hw
  have hx : x s = (out, s') := Option.some.inj hw
  have hended := h s hs
  rwa [hx] at hended

theorem bind {w : Walk σ α} {f : α → Walk σ β} (hw : Walk.Triple P w Q E)
    (hf : ∀ a, Walk.Triple (Q a) (f a) R E) : Walk.Triple P (w >>= f) R E := by
  intro s out s' hs h
  rw [Walk.bind_run] at h
  obtain ⟨⟨first, s₁⟩, hfirst, h⟩ := Option.bind_eq_some_iff.1 h
  have hended := hw s first s₁ hs hfirst
  cases first with
  | error err =>
    cases h
    exact hended
  | ok a => exact hf a s₁ out s' hended h

theorem mono {P' : σ → Prop} {Q' : α → σ → Prop} {E' : AccessError → σ → Prop} {w : Walk σ α}
    (hw : Walk.Triple P w Q E) (hP : ∀ s, P' s → P s) (hQ : ∀ a s, Q a s → Q' a s)
    (hE : ∀ err s, E err s → E' err s) : Walk.Triple P' w Q' E' := by
  intro s out s' hs h
  have hended := hw s out s' (hP s hs) h
  cases out with
  | error err => exact hE err s' hended
  | ok a => exact hQ a s' hended

theorem visitAll {visit : String → Walk σ Bool}
    (hv : ∀ path, Walk.Triple I (visit path) (fun _ => I) E) :
    ∀ (paths : List String) (changed : Bool),
      Walk.Triple I (Walk.visitAll visit paths changed) (fun _ => I) E
  | [], changed => by unfold Walk.visitAll; exact .pure fun _ hs => hs
  | path :: paths, changed => by
    unfold Walk.visitAll
    rw [List.foldlM_cons]
    exact ((hv path).bind fun _ => .pure fun _ hs => hs).bind fun changed =>
      visitAll hv paths changed

end Walk.Triple

end Steps

namespace Engine

variable {e : Engine σ} {I : σ → Prop} {E : AccessError → σ → Prop} {operation : Operation}
  {names : List String} {visit : String → Action σ Bool}

theorem lineage_triple {start target : String}
    (hp : ∀ path, path ≠ e.host.root →
      Action.Triple I (e.parentOf .grant names path) (fun _ => I) E)
    (hE : ∀ s, I s → E (.invalidHierarchy start target) s) (limit : Nat) (path : String) :
    Walk.Triple I (e.lineage names start target limit path) (fun _ => I) E := by
  fun_induction Engine.lineage e names start target limit path with
  | case1 => exact .pure fun _ hs => hs
  | case2 => exact .throw hE
  | case3 => exact .unfinished
  | case4 path _ hne limit ih =>
    exact (Walk.Triple.step (hp path hne)).bind fun parent =>
      (ih parent).bind fun _ => .pure fun _ hs => hs

theorem climb_triple {start target : String}
    (hv : ∀ path, Action.Triple I (visit path) (fun _ => I) E)
    (hp : ∀ path, path ≠ e.host.root →
      Action.Triple I (e.parentOf operation names path) (fun _ => I) E)
    (hE : ∀ s, I s → E (.invalidHierarchy start target) s) (limit : Nat) (path : String) :
    Walk.Triple I (e.climb operation names visit start target limit path) (fun _ => I) E := by
  fun_induction Engine.climb e operation names visit start target limit path with
  | case1 => exact .step (hv target)
  | case2 => exact .throw hE
  | case3 => exact .unfinished
  | case4 path _ hne limit ih =>
    exact (Walk.Triple.step (hv path)).bind fun _ =>
      (Walk.Triple.step (hp path hne)).bind fun parent =>
        (ih parent).bind fun _ => .pure fun _ hs => hs

theorem descend_triple {accepts : String → Bool}
    (hv : ∀ path, Action.Triple I (visit path) (fun _ => I) E)
    (hm : ∀ path, Action.Triple I (e.matchingChildren operation names accepts path) (fun _ => I) E)
    (order : Order) (limit : Nat) (path : String) :
    Walk.Triple I (e.descend order operation names accepts visit limit path) (fun _ => I) E := by
  induction limit generalizing path with
  | zero => exact .unfinished
  | succ limit ih =>
    have hvisit := Walk.Triple.step (hv path)
    have hchildren := Walk.Triple.step (hm path)
    cases order with
    | parentFirst => exact hvisit.bind fun _ => hchildren.bind fun children => .visitAll ih children _
    | childrenFirst =>
      exact hchildren.bind fun children => (Walk.Triple.visitAll ih children false).bind fun _ =>
        hvisit.bind fun _ => .pure fun _ hs => hs

end Engine
end AclTree
