/-
An engine on two hosts side by side. Work on both is related (`Relates`) if
from related states it has one outcome and leaves related states. An engine
knows nothing of its host but the answers to its calls, so if the calls it may
make are related (`Host.Alike`) then so are whole requests
(`NodesAlike.perform`); lists that the settings refuse are never passed on, so
nothing is asked of calls that would bind one.

With one host on both sides this tells what requests keep (`relates_self`).
-/
import AclTree.Engine.Request
import AclTree.Proofs.Engine.Keeps

namespace AclTree

variable {ε ε' σ τ α β : Type}

/-- From states that `R` relates, both have the same outcome and leave states that it relates. -/
def Relates (R : σ → τ → Prop) (x : ExceptT ε (StateM σ) α) (y : ExceptT ε (StateM τ) α) : Prop :=
  ∀ s t, R s t → (x s).1 = (y t).1 ∧ R (x s).2 (y t).2

/-- As `Relates`, for walks: both end, or neither does. -/
def Walk.Relates (R : σ → τ → Prop) (w : Walk σ α) (v : Walk τ α) : Prop :=
  ∀ s t, R s t → Option.Rel (fun a b => a.1 = b.1 ∧ R a.2 b.2) (w s) (v t)

variable {R : σ → τ → Prop}

theorem relates_self {I : σ → Prop} {x : ExceptT ε (StateM σ) α} :
    AclTree.Relates (fun s t => s = t ∧ I s) x x ↔ Keeps I x := by
  constructor
  · exact fun h s hs => (h s s ⟨rfl, hs⟩).2.2
  · rintro h s _ ⟨rfl, hs⟩
    exact ⟨rfl, rfl, h s hs⟩

/-- Chains of two that relate what they hand on are related. -/
theorem rel_bind {α₁ α₂ β₁ β₂ : Type} {P : α₁ → α₂ → Prop} {Q : β₁ → β₂ → Prop} {x : Option α₁}
    {y : Option α₂} {f : α₁ → Option β₁} {g : α₂ → Option β₂} (h : Option.Rel P x y)
    (hf : ∀ a b, P a b → Option.Rel Q (f a) (g b)) : Option.Rel Q (x.bind f) (y.bind g) := by
  cases h with
  | none => exact .none
  | some hab => exact hf _ _ hab

namespace Relates

theorem pure (a : α) :
    Relates R (Pure.pure a : ExceptT ε (StateM σ) α) (Pure.pure a : ExceptT ε (StateM τ) α) :=
  fun _ _ h => ⟨rfl, h⟩

theorem throw (e : ε) :
    Relates R (MonadExcept.throw e : ExceptT ε (StateM σ) α)
      (MonadExcept.throw e : ExceptT ε (StateM τ) α) :=
  fun _ _ h => ⟨rfl, h⟩

theorem bind {x : ExceptT ε (StateM σ) α} {y : ExceptT ε (StateM τ) α}
    {f : α → ExceptT ε (StateM σ) β} {g : α → ExceptT ε (StateM τ) β} (hx : Relates R x y)
    (hf : ∀ a, Relates R (f a) (g a)) : Relates R (x >>= f) (y >>= g) := by
  intro s t hst
  have h := hx s t hst
  rw [Action.bind_run, Action.bind_run]
  revert h
  rcases x s with ⟨out, s'⟩
  rcases y t with ⟨out', t'⟩
  rintro ⟨hout, hst'⟩
  cases hout
  cases out with
  | error e => exact ⟨rfl, hst'⟩
  | ok a => exact hf a s' t' hst'

theorem adapt {f : ε → ε'} {x : ExceptT ε (StateM σ) α} {y : ExceptT ε (StateM τ) α}
    (h : Relates R x y) : Relates R (ExceptT.adapt f x) (ExceptT.adapt f y) := by
  intro s t hst
  obtain ⟨hout, hst'⟩ := h s t hst
  exact ⟨congrArg (Except.mapError f) hout, hst'⟩

theorem mapM {f : α → ExceptT ε (StateM σ) β} {g : α → ExceptT ε (StateM τ) β}
    (hf : ∀ a, Relates R (f a) (g a)) : ∀ l : List α, Relates R (l.mapM f) (l.mapM g)
  | [] => by rw [List.mapM_nil, List.mapM_nil]; exact .pure []
  | a :: l => by
    rw [List.mapM_cons, List.mapM_cons]
    exact (hf a).bind fun _ => (mapM hf l).bind fun _ => .pure _

theorem filterAuxM {f : α → ExceptT ε (StateM σ) Bool} {g : α → ExceptT ε (StateM τ) Bool}
    (hf : ∀ a, Relates R (f a) (g a)) :
    ∀ l kept : List α, Relates R (List.filterAuxM f l kept) (List.filterAuxM g l kept)
  | [], _ => .pure _
  | a :: l, _ => (hf a).bind fun _ => filterAuxM hf l _

theorem filterM {f : α → ExceptT ε (StateM σ) Bool} {g : α → ExceptT ε (StateM τ) Bool}
    (hf : ∀ a, Relates R (f a) (g a)) (l : List α) : Relates R (l.filterM f) (l.filterM g) :=
  (filterAuxM hf l []).bind fun _ => .pure _

theorem forM {f : α → ExceptT ε (StateM σ) PUnit} {g : α → ExceptT ε (StateM τ) PUnit}
    (hf : ∀ a, Relates R (f a) (g a)) : ∀ l : List α, Relates R (l.forM f) (l.forM g)
  | [] => .pure _
  | a :: l => (hf a).bind fun _ => forM hf l

end Relates

namespace Walk.Relates

theorem pure (a : α) : Walk.Relates R (Pure.pure a : Walk σ α) (Pure.pure a : Walk τ α) :=
  fun _ _ h => .some ⟨rfl, h⟩

theorem throw (e : AccessError) :
    Walk.Relates R (MonadExcept.throw e : Walk σ α) (MonadExcept.throw e : Walk τ α) :=
  fun _ _ h => .some ⟨rfl, h⟩

theorem unfinished : Walk.Relates R (Walk.unfinished : Walk σ α) (Walk.unfinished : Walk τ α) :=
  fun _ _ _ => .none

theorem step {x : Action σ α} {y : Action τ α} (h : AclTree.Relates R x y) :
    Walk.Relates R (Walk.step x) (Walk.step y) :=
  fun s t hst => .some (h s t hst)

theorem bind {x : Walk σ α} {y : Walk τ α} {f : α → Walk σ β} {g : α → Walk τ β}
    (hx : Walk.Relates R x y) (hf : ∀ a, Walk.Relates R (f a) (g a)) :
    Walk.Relates R (x >>= f) (y >>= g) := by
  intro s t hst
  rw [Walk.bind_run, Walk.bind_run]
  refine rel_bind (hx s t hst) ?_
  rintro ⟨out, s'⟩ ⟨out', t'⟩ ⟨hout, hst'⟩
  cases hout
  cases out with
  | error e => exact .some ⟨rfl, hst'⟩
  | ok a => exact hf a s' t' hst'

theorem visitAll {visit : String → Walk σ Bool} {visit' : String → Walk τ Bool}
    (hv : ∀ path, Walk.Relates R (visit path) (visit' path)) :
    ∀ (paths : List String) (changed : Bool),
      Walk.Relates R (Walk.visitAll visit paths changed) (Walk.visitAll visit' paths changed)
  | [], changed => by unfold Walk.visitAll; exact .pure changed
  | path :: paths, changed => by
    unfold Walk.visitAll
    rw [List.foldlM_cons, List.foldlM_cons]
    exact ((hv path).bind fun _ => .pure _).bind fun changed => visitAll hv paths changed

/-- What a walk keeps, told of it beside itself. -/
theorem keeps {I : σ → Prop} {w : Walk σ α} (h : Walk.Relates (fun s t => s = t ∧ I s) w w)
    {s s' : σ} {out : Except AccessError α} (hs : I s) (hw : w s = some (out, s')) : I s' := by
  have hrel := h s s ⟨rfl, hs⟩
  rw [hw] at hrel
  cases hrel with
  | some hrel => exact hrel.2.2

end Walk.Relates
end AclTree
