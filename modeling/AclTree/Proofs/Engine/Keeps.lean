/-
Predicates on the states of a host that work keeps, whether it succeeds or
fails (`Keeps`), and walks whose steps keep what the steps after them rely on
(`Walk.visitAll_each`).
-/
import AclTree.Proofs.Engine.Run

namespace AclTree

variable {ε σ α β : Type}

/-- The work leaves the states of `I` in `I`, whether it succeeds or fails. -/
def Keeps (I : σ → Prop) (x : ExceptT ε (StateM σ) α) : Prop := ∀ s, I s → I (x s).2

variable {I : σ → Prop}

namespace Keeps

theorem pure (a : α) : Keeps I (Pure.pure a : ExceptT ε (StateM σ) α) := fun _ h => h

theorem bind {x : ExceptT ε (StateM σ) α} {f : α → ExceptT ε (StateM σ) β} (hx : Keeps I x)
    (hf : ∀ a, Keeps I (f a)) : Keeps I (x >>= f) := by
  intro s hs
  have h := hx s hs
  rw [Action.bind_run]
  revert h
  rcases x s with ⟨e | a, s'⟩
  · exact id
  · exact hf a s'

theorem each {visit : String → Action σ Bool} :
    ∀ {paths : List String}, (∀ path ∈ paths, Keeps I (visit path)) → Keeps I (Action.each visit paths)
  | [], _ => .pure false
  | path :: _, hv =>
    (hv path List.mem_cons_self).bind fun _ =>
      (Keeps.each fun q hq => hv q (List.mem_cons_of_mem path hq)).bind fun _ => .pure _

end Keeps

/-- Walks that are runs over lists, one after the other, are a run over these lists together. The
predicate may tell each walk what the visits before it have left in place. -/
theorem Walk.visitAll_each {visit : String → Action σ Bool} {walk : String → Walk σ Bool}
    {nodes : String → List String} (hvisit : ∀ path, Keeps I (visit path))
    {paths : List String}
    (hwalk : ∀ path ∈ paths, ∀ s, I s → walk path s = some (Action.each visit (nodes path) s))
    (changed : Bool) {s : σ} (hs : I s) :
    Walk.visitAll walk paths changed s =
      some (Action.after changed (Action.each visit (paths.flatMap nodes) s)) := by
  induction paths generalizing changed s with
  | nil => simp [Walk.visitAll]
  | cons path rest ih =>
    have hhead := hwalk path List.mem_cons_self s hs
    have hkept := (Keeps.each fun q (_ : q ∈ nodes path) => hvisit q) s hs
    unfold Walk.visitAll at ih ⊢
    rw [List.foldlM_cons, List.flatMap_cons]
    rcases he : Action.each visit (nodes path) s with ⟨e | now, s₁⟩
    · rw [he] at hhead
      rw [Action.each_append_error he]
      exact Walk.bind_error (Walk.bind_error hhead)
    · rw [he] at hhead hkept
      rw [Action.each_append_ok he, Action.after_after,
        ← ih (fun q hq => hwalk q (List.mem_cons_of_mem path hq)) _ hkept]
      exact Walk.bind_ok (Walk.bind_ok hhead)

/-- A walk over single nodes is a run over their list. -/
theorem Walk.visitAll_step (visit : String → Action σ Bool) (paths : List String) (changed : Bool)
    (s : σ) :
    Walk.visitAll (fun path => Walk.step (visit path)) paths changed s =
      some (Action.after changed (Action.each visit paths s)) := by
  have h : Walk.visitAll (fun path => Walk.step (visit path)) paths changed s =
      some (Action.after changed (Action.each visit (paths.flatMap fun path => [path]) s)) :=
    Walk.visitAll_each (I := fun _ => True) (fun _ _ _ => trivial)
      (fun path _ s _ => by rw [Action.each_singleton]; rfl) changed trivial
  rwa [List.flatMap_singleton'] at h

end AclTree
