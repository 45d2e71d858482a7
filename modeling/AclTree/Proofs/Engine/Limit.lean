/-
Limits of walks: more steps never change an answer. A walk that ends within its
limit ends in the same way within any higher one (`perform_mono`), so no answer
tells of the limit that it was found with.
-/
import AclTree.Engine.Request
import AclTree.Proofs.Engine.Run

namespace AclTree

variable {σ α β : Type}

/-- Where the first walk ends, the second ends in the same way. -/
def Walk.Within (w v : Walk σ α) : Prop := ∀ s out, w s = some out → v s = some out

namespace Walk.Within

theorem refl (w : Walk σ α) : Walk.Within w w := fun _ _ h => h

theorem unfinished (v : Walk σ α) : Walk.Within Walk.unfinished v := by
  intro s out h
  cases h

theorem bind {w v : Walk σ α} {f g : α → Walk σ β} (hw : Walk.Within w v)
    (hf : ∀ a, Walk.Within (f a) (g a)) : Walk.Within (w >>= f) (v >>= g) := by
  intro s out h
  rw [Walk.bind_run] at h ⊢
  obtain ⟨⟨first, s₁⟩, hfirst, h⟩ := Option.bind_eq_some_iff.1 h
  rw [hw s _ hfirst, Option.bind_some]
  cases first with
  | error e => exact h
  | ok a => exact hf a s₁ out h

theorem ite {c : Prop} [Decidable c] (w : Walk σ α) {v v' : Walk σ α} (hv : Walk.Within v v') :
    Walk.Within (if c then w else v) (if c then w else v') := by
  split
  · exact .refl w
  · exact hv

theorem visitAll {visit visit' : String → Walk σ Bool}
    (hv : ∀ path, Walk.Within (visit path) (visit' path)) :
    ∀ (paths : List String) (changed : Bool),
      Walk.Within (Walk.visitAll visit paths changed) (Walk.visitAll visit' paths changed)
  | [], _ => .refl _
  | path :: paths, changed => by
    unfold Walk.visitAll
    rw [List.foldlM_cons, List.foldlM_cons]
    exact ((hv path).bind fun _ => .refl _).bind fun changed => visitAll hv paths changed

end Walk.Within

namespace Engine

variable (e : Engine σ) (start target : String) {n m : Nat}

theorem lineage_mono (names : List String) (h : n ≤ m) (path : String) :
    Walk.Within (e.lineage names start target n path) (e.lineage names start target m path) := by
  induction n generalizing m path with
  | zero =>
    unfold lineage
    exact .ite _ (.ite _ (.unfinished _))
  | succ n ih =>
    obtain ⟨m, rfl⟩ : ∃ k, m = k + 1 := ⟨m - 1, by omega⟩
    unfold lineage
    exact .ite _ (.ite _ (.bind (.refl _) fun parent =>
      .bind (ih (by omega) parent) fun _ => .refl _))

theorem climb_mono (operation : Operation) (names : List String) (visit : String → Action σ Bool)
    (h : n ≤ m) (path : String) :
    Walk.Within (e.climb operation names visit start target n path)
      (e.climb operation names visit start target m path) := by
  induction n generalizing m path with
  | zero =>
    unfold climb
    exact .ite _ (.ite _ (.unfinished _))
  | succ n ih =>
    obtain ⟨m, rfl⟩ : ∃ k, m = k + 1 := ⟨m - 1, by omega⟩
    unfold climb
    exact .ite _ (.ite _ (.bind (.refl _) fun _ => .bind (.refl _) fun parent =>
      .bind (ih (by omega) parent) fun _ => .refl _))

theorem descend_mono (order : Order) (operation : Operation) (names : List String)
    (accepts : String → Bool) (visit : String → Action σ Bool) (h : n ≤ m) (path : String) :
    Walk.Within (e.descend order operation names accepts visit n path)
      (e.descend order operation names accepts visit m path) := by
  induction n generalizing m path with
  | zero => exact .unfinished _
  | succ n ih =>
    obtain ⟨m, rfl⟩ : ∃ k, m = k + 1 := ⟨m - 1, by omega⟩
    have hbelow := fun children changed => Walk.Within.visitAll (ih (m := m) (by omega)) children changed
    cases order with
    | parentFirst =>
      exact .bind (.refl _) fun changed => .bind (.refl _) fun children => hbelow children changed
    | childrenFirst =>
      exact .bind (.refl _) fun children => .bind (hbelow children false) fun _ => .refl _

/-- **Limits** make no difference to requests that end. -/
theorem perform_mono (h : n ≤ m) (request : Request) :
    Walk.Within (e.perform n request) (e.perform m request) := by
  rcases request with ⟨path, who, privileges⟩ | ⟨path, who, privileges⟩ |
    ⟨path, _ | target | accepts, who, names⟩ | ⟨path, _ | target | accepts, who, names⟩ |
    ⟨path, _ | target | accepts⟩
  · exact .refl _
  · exact .refl _
  · exact .refl _
  · exact .bind (e.lineage_mono path target names h path) fun _ => .refl _
  · exact .ite _ (.bind (.refl _) fun _ => e.descend_mono _ _ _ _ _ h path)
  · exact .refl _
  · exact .bind (.refl _) fun _ => e.climb_mono path target _ _ _ h path
  · exact .ite _ (.bind (.refl _) fun _ => e.descend_mono _ _ _ _ _ h path)
  · exact .refl _
  · exact e.climb_mono path target _ _ _ h path
  · exact e.descend_mono _ _ _ _ _ h path

end Engine
end AclTree
