/-
What a request comes to on a repository: the nodes it visits (`Request.Visits`)
and the edit it asks for on each of them (`Request.Asks`). A request that
succeeds is a run of that edit over these nodes, each of them once
(`perform_eq_ok`).
-/
import AclTree.Proofs.Engine.Lineage
import AclTree.Proofs.Engine.Subtree

namespace AclTree

/-- The nodes that an operation is to reach from `path`. -/
def Scope.Visits (r : Repository) (path : String) : Scope → String → Prop
  | .node, q => q = path
  | .ancestors target, q => r.Below target q ∧ r.Below q path
  | .subtree accepts, q => r.Reaches accepts path q

namespace Request

/-- The nodes that a request is to act on. -/
def Visits (r : Repository) : Request → String → Prop
  | .grant path _ _ => (Scope.node).Visits r path
  | .revoke path _ _ => (Scope.node).Visits r path
  | .grantNamed path scope _ _ => scope.Visits r path
  | .revokeNamed path scope _ _ => scope.Visits r path
  | .clear path scope => scope.Visits r path

/-- What a request asks for on each node, its names looked up. -/
inductive Asks (r : Repository) : Request → Edit → Prop where
  | grant {path who privileges} : Asks r (.grant path who privileges) (.grant who privileges)
  | revoke {path who privileges} : Asks r (.revoke path who privileges) (.revoke who privileges)
  | grantNamed {path scope who names privileges} :
      r.lookup names = .ok privileges →
      Asks r (.grantNamed path scope who names) (.grant who privileges)
  | revokeNamed {path scope who names privileges} :
      r.lookup names = .ok privileges →
      Asks r (.revokeNamed path scope who names) (.revoke who privileges)
  | clear {path scope} : Asks r (.clear path scope) .clear

end Request

namespace Repository

variable {r s : Repository} {settings : Settings} {changed : Bool}

/-- The request has the outcome of an edit it asks for, run over the nodes it visits, each of them
once. -/
def IsRun (r : Repository) (settings : Settings) (request : Request) (changed : Bool)
    (s : Repository) : Prop :=
  ∃ e nodes, request.Asks r e ∧ nodes.Nodup ∧ (∀ q, q ∈ nodes ↔ request.Visits r q) ∧
    Action.each ((Engine.mk host settings).edit e) nodes r = (.ok changed, s)

theorem isRun_node {request : Request} {e : Edit} {path : String} (ha : request.Asks r e)
    (hv : ∀ q, request.Visits r q ↔ q = path)
    (h : r.edit settings e path = (.ok changed, s)) : r.IsRun settings request changed s := by
  refine ⟨e, [path], ha, List.nodup_singleton _, fun q => ?_, ?_⟩
  · rw [hv, List.mem_singleton]
  · rw [Action.each_singleton, edit_run, h]

theorem isRun_along (h : r.IsTree) {request : Request} {e : Edit} {start target : String}
    {way nodes : List String} (ha : request.Asks r e)
    (hv : ∀ q, request.Visits r q ↔ r.Below target q ∧ r.Below q start)
    (hw : r.Way target start way) (hperm : nodes.Perm way)
    (hr : Action.each ((Engine.mk host settings).edit e) nodes r = (.ok changed, s)) :
    r.IsRun settings request changed s :=
  ⟨e, nodes, ha, hperm.nodup_iff.2 (h.nodup_way hw),
    fun q => by rw [hperm.mem_iff, h.mem_way hw, hv], hr⟩

theorem isRun_subtree (h : r.IsTree) {request : Request} {e : Edit} {order : Engine.Order}
    {path : String} {accepts : String → Bool} (ha : request.Asks r e)
    (hv : ∀ q, request.Visits r q ↔ r.Reaches accepts path q)
    (hr : Action.each ((Engine.mk host settings).edit e) (r.traversal order accepts path) r =
      (.ok changed, s)) : r.IsRun settings request changed s :=
  ⟨e, _, ha, h.nodup_traversal, fun q => by rw [h.mem_traversal, hv], hr⟩

theorem climb_edit_eq_ok (h : r.IsTree) {operation : Operation} {names : List String} {e : Edit}
    {start target : String}
    (hc : (Engine.mk host settings).climb operation names ((Engine.mk host settings).edit e) start
      target r.size start r = some (.ok changed, s)) :
    ∃ way, r.Way target start way ∧
      Action.each ((Engine.mk host settings).edit e) way r = (.ok changed, s) := by
  have hvisit : ∀ q, Keeps (fun s => s.bare = r.bare) ((Engine.mk host settings).edit e q) :=
    edit_keeps_bare
  obtain ⟨way, hw⟩ := climb_eq_ok h hvisit rfl hc
  rw [climb_run h hvisit operation names hw rfl (h.length_way_le_size hw)] at hc
  exact ⟨way, hw, Option.some.inj hc⟩

theorem descend_edit_eq_ok (h : r.IsTree) {order : Engine.Order} {operation : Operation}
    {names : List String} {accepts : String → Bool} {e : Edit} {path : String}
    (hd : (Engine.mk host settings).descend order operation names accepts
      ((Engine.mk host settings).edit e) r.size path r = some (.ok changed, s)) :
    Action.each ((Engine.mk host settings).edit e) (r.traversal order accepts path) r =
      (.ok changed, s) := by
  have hc := contains_of_descend edit_keeps_bare hd
  rw [descend_edit_run h hc] at hd
  exact Option.some.inj hd

/-- As `descend_edit_eq_ok`, for requests by names; `act` is what they ask for. -/
theorem named_descend_eq_ok (h : r.IsTree) {order : Engine.Order} {operation : Operation}
    {names : List String} {accepts : String → Bool} {path : String} (act : List Privilege → Edit)
    (hvoid : (act []).isVoid = true)
    (hd : (if names.isEmpty then
        pure false
      else do
        let privileges ← Walk.step ((Engine.mk host settings).resolveAt path names)
        (Engine.mk host settings).descend order operation (Privilege.names privileges) accepts
          ((Engine.mk host settings).edit (act privileges)) r.size path : Walk Repository Bool) r =
      some (.ok changed, s)) :
    ∃ privileges, r.lookup names = .ok privileges ∧
      Action.each ((Engine.mk host settings).edit (act privileges))
        (r.traversal order accepts path) r = (.ok changed, s) := by
  split at hd
  · rename_i hn
    rw [List.isEmpty_iff.1 hn]
    exact ⟨[], rfl, (each_edit_void hvoid r).trans (Option.some.inj hd)⟩
  · obtain ⟨privileges, s₁, hl, hd⟩ := Walk.bind_eq_ok.1 hd
    obtain ⟨hs₁, hl⟩ := resolveAt_eq_ok (Option.some.inj hl)
    rw [hs₁] at hd
    exact ⟨privileges, hl, descend_edit_eq_ok h hd⟩

/-- **A request that succeeds** is a run of the edit it asks for over the nodes it visits. -/
theorem IsTree.perform_eq_ok (h : r.IsTree) {request : Request}
    (hp : r.perform settings request = some (.ok changed, s)) :
    r.IsRun settings request changed s := by
  cases request with
  | grant path who privileges =>
    refine isRun_node .grant (fun _ => Iff.rfl) ?_
    rw [← edit_run]
    exact Option.some.inj hp
  | revoke path who privileges =>
    refine isRun_node .revoke (fun _ => Iff.rfl) ?_
    rw [← edit_run]
    exact Option.some.inj hp
  | grantNamed path scope who names =>
    cases scope with
    | node =>
      have hp := Option.some.inj hp
      rw [grantNamed_run] at hp
      split at hp
      · rename_i privileges hl
        exact isRun_node (.grantNamed hl) (fun _ => Iff.rfl) hp
      · cases hp
    | ancestors target =>
      obtain ⟨way, s₁, hway, hp⟩ := Walk.bind_eq_ok.1 hp
      obtain ⟨privileges, s₂, hl, hp⟩ := Walk.bind_eq_ok.1 hp
      obtain ⟨hs₁, hw⟩ := lineage_eq_ok h hway
      rw [hs₁] at hl
      obtain ⟨hs₂, hl⟩ := resolveAt_eq_ok (Option.some.inj hl)
      rw [hs₂, Walk.visitAll_step, Action.after_false] at hp
      exact isRun_along h (.grantNamed hl) (fun _ => Iff.rfl) hw (List.reverse_perm way)
        (Option.some.inj hp)
    | subtree accepts =>
      obtain ⟨privileges, hl, hr⟩ := named_descend_eq_ok h (.grant who) rfl hp
      exact isRun_subtree h (.grantNamed hl) (fun _ => Iff.rfl) hr
  | revokeNamed path scope who names =>
    cases scope with
    | node =>
      have hp := Option.some.inj hp
      rw [revokeNamed_run] at hp
      split at hp
      · rename_i privileges hl
        exact isRun_node (.revokeNamed hl) (fun _ => Iff.rfl) hp
      · cases hp
    | ancestors target =>
      obtain ⟨privileges, s₁, hl, hp⟩ := Walk.bind_eq_ok.1 hp
      obtain ⟨hs₁, hl⟩ := resolveAt_eq_ok (Option.some.inj hl)
      rw [hs₁] at hp
      obtain ⟨way, hw, hr⟩ := climb_edit_eq_ok (e := .revoke who privileges) h hp
      exact isRun_along h (.revokeNamed hl) (fun _ => Iff.rfl) hw (List.Perm.refl way) hr
    | subtree accepts =>
      obtain ⟨privileges, hl, hr⟩ := named_descend_eq_ok h (.revoke who) rfl hp
      exact isRun_subtree h (.revokeNamed hl) (fun _ => Iff.rfl) hr
  | clear path scope =>
    cases scope with
    | node =>
      refine isRun_node .clear (fun _ => Iff.rfl) ?_
      rw [← edit_run]
      exact Option.some.inj hp
    | ancestors target =>
      obtain ⟨way, hw, hr⟩ := climb_edit_eq_ok (e := .clear) h hp
      exact isRun_along h .clear (fun _ => Iff.rfl) hw (List.Perm.refl way) hr
    | subtree accepts =>
      exact isRun_subtree h .clear (fun _ => Iff.rfl) (descend_edit_eq_ok (e := .clear) h hp)

end Repository
end AclTree
