/-
Requests from a node up to one of its ancestors: a walk that succeeds has
found the way (`Repository.Way`) and does what the operation does over it,
from the start up for revokes and clears, from the target down for grants.
Repositories answer about parents alike as long as only lists change, and
looking parents up leaves them as they are.
-/
import AclTree.Proofs.Engine.Ascent
import AclTree.Proofs.Repository.Lineage
import AclTree.Proofs.Repository.Run

namespace AclTree.Repository

variable {r s s' : Repository} {settings : Settings} {path start target : String}

theorem parentOf_run (h : r.contains path = true) (operation : Operation) (names : List String) :
    (Engine.mk host settings).parentOf operation names path r =
      match r.parentOf path with
      | some parent => (.ok parent, r)
      | none => (.error (.repositoryAccess path operation names (.invalidPath path)), r) := by
  obtain ⟨node, hf⟩ := contains_iff_find?.1 h
  have hp : r.parentOf path = node.parent := by rw [parentOf, hf]; rfl
  unfold Engine.parentOf
  rw [access_found path r (parent_run path r) hf, hp]
  cases node.parent <;> rfl

theorem parentOf_eq_ok {operation : Operation} {names : List String} {parent : String}
    (h : (Engine.mk host settings).parentOf operation names path r = (.ok parent, s)) :
    s = r ∧ r.parentOf path = some parent := by
  cases hc : r.contains path with
  | true =>
    rw [parentOf_run hc] at h
    split at h
    · rename_i p hp
      cases h
      exact ⟨rfl, hp⟩
    · cases h
  | false =>
    unfold Engine.parentOf at h
    rw [access_missing path r (parent_run path r) hc] at h
    cases h

/-! ## The tree as an answer -/

/-- What a repository answers when it is asked for a parent. -/
def parentAnswer (r : Repository) (path : String) : Except RepositoryError (Option String) :=
  (r.node path).map (·.parent)

theorem parentAnswer_eq {parent : String} :
    r.parentAnswer path = .ok (some parent) ↔ r.parentOf path = some parent := by
  unfold parentAnswer parentOf node
  cases r.nodes.find? path <;> simp [Except.map]

@[simp] theorem parentAnswer_bare (r : Repository) : r.bare.parentAnswer = r.parentAnswer := by
  funext path
  unfold parentAnswer node
  rw [find?_bare]
  cases r.nodes.find? path <;> rfl

theorem parentAnswer_of_bare (h : s.bare = r.bare) : s.parentAnswer = r.parentAnswer := by
  rw [← parentAnswer_bare, h, parentAnswer_bare]

/-- As long as only lists change, a repository gives the same answers about parents. -/
theorem parents (r : Repository) : host.Parents (fun s => s.bare = r.bare) r.parentAnswer where
  answer path _ hs := congrFun (parentAnswer_of_bare hs) path
  keeps _ _ hs := hs

/-- What a way is by the answers, it is by the links. -/
theorem IsTree.ascent_iff_way (h : r.IsTree) {way : List String} :
    Ascent r.parentAnswer Path.root target path way ↔ r.Way target path way := by
  constructor
  · intro ha
    induction ha with
    | here => exact .here
    | step hne _ hp _ ih => exact .up hne (parentAnswer_eq.1 hp) ih
  · intro hw
    induction hw with
    | here => exact .here
    | up hne hp _ ih => exact .step hne (h.ne_root_of_parentOf hp) (parentAnswer_eq.2 hp) ih

/-! ## Climbing -/

theorem parent_quiet (q : String) (s : Repository) : s.bare = r.bare → (host.parent q s).2 = s :=
  fun _ => rfl

/-- A walk up that succeeds has found the way. -/
theorem climb_eq_ok (h : r.IsTree) {visit : String → Action Repository Bool}
    (hvisit : ∀ q, Keeps (fun s => s.bare = r.bare) (visit q)) {operation : Operation}
    {names : List String} {changed : Bool} {limit : Nat} (hs : s.bare = r.bare)
    (hc : (Engine.mk host settings).climb operation names visit start target limit path s =
      some (.ok changed, s')) : ∃ way, r.Way target path way := by
  obtain ⟨way, ha⟩ := Engine.ascent_of_climb r.parents hvisit hs hc
  exact ⟨way, h.ascent_iff_way.1 ha⟩

/-- **A walk up** that has a way is a run over it. -/
theorem climb_run (h : r.IsTree) {visit : String → Action Repository Bool}
    (hvisit : ∀ q, Keeps (fun s => s.bare = r.bare) (visit q)) (operation : Operation)
    (names : List String) {way : List String} (hw : r.Way target path way) {limit : Nat}
    (hs : s.bare = r.bare) (hlimit : way.length ≤ limit + 1) :
    (Engine.mk host settings).climb operation names visit start target limit path s =
      some (Action.each visit way s) := by
  have hkeeps : ∀ q ∈ way, Keeps (fun s => s.bare = r.bare) (visit q) := fun q _ => hvisit q
  have hrun : (Engine.mk host settings).climb operation names visit start target limit path s =
      some (Action.each (host.thenUp target visit) way s) :=
    Engine.climb_run r.parents (h.ascent_iff_way.2 hw) hkeeps hs hlimit
  rw [hrun]
  exact congrArg some (Engine.each_thenUp (e := Engine.mk host settings) parent_quiet hkeeps hs)

/-- The way is found without touching the repository, or not at all. -/
theorem lineage_eq_ok (h : r.IsTree) {names : List String} {way : List String} {limit : Nat}
    (hl : (Engine.mk host settings).lineage names start target limit path r = some (.ok way, s)) :
    s = r ∧ r.Way target path way := by
  obtain ⟨ha, hs⟩ := Engine.ascent_of_lineage (I := fun s => s.bare = r.bare) r.parents rfl hl
  rw [Engine.asked_eq (I := fun s => s.bare = r.bare) parent_quiet rfl] at hs
  exact ⟨hs, h.ascent_iff_way.1 ha⟩

end AclTree.Repository
