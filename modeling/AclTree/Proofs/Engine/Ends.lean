/-
Requests on a repository end (`perform_ends`): upwards the nodes of a tree are
less and less deep, downwards fewer and fewer are deeper, so no walk needs more
steps than there are nodes. A walk from where there is no node fails at once.
-/
import AclTree.Proofs.Engine.Lineage
import AclTree.Proofs.Engine.Subtree

namespace AclTree

theorem Walk.bind_ends {σ α β : Type} {w : Walk σ α} {f : α → Walk σ β} {s : σ}
    (hw : ∃ out, w s = some out)
    (hf : ∀ a s', w s = some (.ok a, s') → ∃ out, f a s' = some out) :
    ∃ out, (w >>= f) s = some out := by
  obtain ⟨⟨e | a, s'⟩, hw⟩ := hw
  · exact ⟨_, Walk.bind_error hw⟩
  · rw [Walk.bind_ok hw]
    exact hf a s' hw

namespace Repository

variable {r s : Repository} {settings : Settings} {path start target : String} {limit : Nat}

/-! ## Upwards -/

/-- As many steps as the path is deep, and at least one where there is no node. -/
def Climbable (r : Repository) (path : String) (limit : Nat) : Prop :=
  if r.contains path then Path.depth path ≤ limit else 0 < limit

theorem IsTree.climbable (h : r.IsTree) (path : String) : r.Climbable path r.size := by
  unfold Climbable
  split
  · rename_i hc
    exact Nat.le_of_lt (h.depth_lt_size hc)
  · exact Nat.zero_lt_of_lt (h.depth_lt_size h.root.1)

/-- Below the root there is a step left, and after it enough to climb on from the parent. -/
theorem IsTree.climbable_up (h : r.IsTree) (hc : r.Climbable path limit) (hne : path ≠ Path.root) :
    ∃ n, limit = n + 1 ∧ ∀ parent, r.parentOf path = some parent → r.Climbable parent n := by
  unfold Climbable at hc
  split at hc
  · rename_i hcontains
    obtain ⟨parent, hp⟩ := h.exists_parentOf hcontains hne
    have hdepth := h.depth_of_parentOf hp
    refine ⟨limit - 1, by omega, fun parent' hp' => ?_⟩
    rw [hp] at hp'
    cases hp'
    unfold Climbable
    rw [if_pos (h.parentOf_eq hp).1]
    omega
  · rename_i hcontains
    refine ⟨limit - 1, by omega, fun parent hp => absurd (contains_of_parentOf hp) hcontains⟩

theorem lineage_ends (h : r.IsTree) (names : List String) (hc : r.Climbable path limit) :
    ∃ out, (Engine.mk host settings).lineage names start target limit path r = some out := by
  fun_induction Engine.lineage (Engine.mk host settings) names start target limit path with
  | case1 => exact ⟨_, rfl⟩
  | case2 => exact ⟨_, rfl⟩
  | case3 path _ hne =>
    obtain ⟨n, hn, -⟩ := h.climbable_up hc hne
    cases hn
  | case4 path _ hne limit ih =>
    obtain ⟨n, hn, hup⟩ := h.climbable_up hc hne
    cases hn
    refine Walk.bind_ends ⟨_, rfl⟩ fun parent s hp => ?_
    obtain ⟨hs, hp⟩ := parentOf_eq_ok (Option.some.inj hp)
    rw [hs]
    exact Walk.bind_ends (ih parent (hup parent hp)) fun _ _ _ => ⟨_, rfl⟩

theorem climb_ends (h : r.IsTree) {visit : String → Action Repository Bool}
    (hvisit : ∀ q, Keeps (fun s => s.bare = r.bare) (visit q)) (operation : Operation)
    (names : List String) (hs : s.bare = r.bare) (hc : r.Climbable path limit) :
    ∃ out, (Engine.mk host settings).climb operation names visit start target limit path s =
      some out := by
  fun_induction Engine.climb (Engine.mk host settings) operation names visit start target limit path
    generalizing s with
  | case1 => exact ⟨_, rfl⟩
  | case2 => exact ⟨_, rfl⟩
  | case3 path _ hne =>
    obtain ⟨n, hn, -⟩ := h.climbable_up hc hne
    cases hn
  | case4 path _ hne limit ih =>
    obtain ⟨n, hn, hup⟩ := h.climbable_up hc hne
    cases hn
    refine Walk.bind_ends ⟨_, rfl⟩ fun changed s₁ hv => ?_
    have hs₁ := hvisit path s hs
    rw [Option.some.inj hv] at hs₁
    refine Walk.bind_ends ⟨_, rfl⟩ fun parent s₂ hp => ?_
    obtain ⟨rfl, hp⟩ := parentOf_eq_ok (Option.some.inj hp)
    rw [parentOf_of_bare hs₁] at hp
    exact Walk.bind_ends (ih parent hs₁ (hup parent hp)) fun _ _ _ => ⟨_, rfl⟩

/-! ## Downwards -/

/-- A walk from a node is a run; one from elsewhere fails when it asks for the children. -/
theorem descend_ends (h : r.IsTree) (order : Engine.Order) (operation : Operation)
    (names : List String) (accepts : String → Bool) (e : Edit) (path : String) :
    ∃ out, (Engine.mk host settings).descend order operation names accepts
      ((Engine.mk host settings).edit e) r.size path r = some out := by
  cases hc : r.contains path with
  | true => exact ⟨_, descend_edit_run h hc order operation names e⟩
  | false =>
    obtain ⟨limit, hlimit⟩ : ∃ n, r.size = n + 1 :=
      ⟨r.size - 1, by have := h.depth_lt_size h.root.1; omega⟩
    have hmatching : ∀ s : Repository, s.bare = r.bare → ∀ kids s',
        Walk.step ((Engine.mk host settings).matchingChildren operation names accepts path) s ≠
          some (.ok kids, s') := by
      intro s hs kids s' hm
      have hcontains := contains_of_matchingChildren (Option.some.inj hm)
      rw [contains_of_bare hs, hc] at hcontains
      cases hcontains
    rw [hlimit]
    unfold Engine.descend
    cases order with
    | parentFirst =>
      refine Walk.bind_ends ⟨_, rfl⟩ fun changed s hv => ?_
      have hs : ((Engine.mk host settings).edit e path r).2.bare = r.bare :=
        edit_keeps_bare path r rfl
      rw [Option.some.inj hv] at hs
      exact Walk.bind_ends ⟨_, rfl⟩ fun kids s' hm => absurd hm (hmatching s hs kids s')
    | childrenFirst =>
      exact Walk.bind_ends ⟨_, rfl⟩ fun kids s' hm => absurd hm (hmatching r rfl kids s')

/-! ## Requests -/

theorem resolve_bind_ends {β : Type} {names : List String} {f : List Privilege → Walk Repository β}
    (hf : ∀ privileges, ∃ out, f privileges r = some out) :
    ∃ out, (Walk.step ((Engine.mk host settings).resolveAt path names) >>= f) r = some out := by
  refine Walk.bind_ends ⟨_, rfl⟩ fun privileges s hl => ?_
  obtain ⟨hs, -⟩ := resolveAt_eq_ok (Option.some.inj hl)
  rw [hs]
  exact hf privileges

/-- Upwards, within as many steps as the start is deep. -/
theorem IsTree.along_ends (h : r.IsTree) {request : Request} (ha : request.Along start target)
    (hc : r.Climbable start limit) (settings : Settings) :
    ∃ out, (Engine.mk host settings).perform limit request r = some out := by
  cases ha with
  | grant =>
    refine Walk.bind_ends (lineage_ends h _ hc) fun way s hw => ?_
    obtain ⟨hs, -⟩ := lineage_eq_ok h hw
    rw [hs]
    exact resolve_bind_ends fun privileges => ⟨_, Walk.visitAll_step ..⟩
  | @revoke who names =>
    exact resolve_bind_ends fun privileges =>
      climb_ends h (edit_keeps_bare (e := .revoke who privileges)) .revoke names rfl hc
  | clear => exact climb_ends h (edit_keeps_bare (e := .clear)) .clear [] rfl hc

/-- **Requests end**, on trees. -/
theorem IsTree.perform_ends (h : r.IsTree) (settings : Settings) (request : Request) :
    ∃ out, r.perform settings request = some out := by
  rcases request with ⟨path, who, privileges⟩ | ⟨path, who, privileges⟩ |
    ⟨path, _ | target | accepts, who, names⟩ | ⟨path, _ | target | accepts, who, names⟩ |
    ⟨path, _ | target | accepts⟩
  · exact ⟨_, rfl⟩
  · exact ⟨_, rfl⟩
  · exact ⟨_, rfl⟩
  · exact h.along_ends .grant (h.climbable path) settings
  · change ∃ out, (if names.isEmpty then pure false else _ : Walk Repository Bool) r = some out
    split
    · exact ⟨_, rfl⟩
    · exact resolve_bind_ends fun privileges => descend_ends h _ _ _ _ (.grant who privileges) path
  · exact ⟨_, rfl⟩
  · exact h.along_ends .revoke (h.climbable path) settings
  · change ∃ out, (if names.isEmpty then pure false else _ : Walk Repository Bool) r = some out
    split
    · exact ⟨_, rfl⟩
    · exact resolve_bind_ends fun privileges => descend_ends h _ _ _ _ (.revoke who privileges) path
  · exact ⟨_, rfl⟩
  · exact h.along_ends .clear (h.climbable path) settings
  · exact descend_ends h _ _ _ _ .clear path

end Repository
end AclTree
