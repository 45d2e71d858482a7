/-
The order in which nodes are visited makes no difference. What an edit does on
a node depends on that node and the registry alone, so edits of two nodes
commute (`edit_comm`), and a run that succeeds makes of each of its nodes what
the edit alone would have made of it, in whatever order (`each_edit_perm`).
-/
import AclTree.Proofs.Engine.Visits
import AclTree.Proofs.Repository.Live

namespace AclTree

/-- A request on a node alone. -/
inductive Request.At (path : String) : Request → Prop where
  | grant {who privileges} : At path (.grant path who privileges)
  | revoke {who privileges} : At path (.revoke path who privileges)
  | grantNamed {who names} : At path (.grantNamed path .node who names)
  | revokeNamed {who names} : At path (.revokeNamed path .node who names)
  | clear : At path (.clear path .node)

namespace Repository

variable {r s : Repository} {settings settings' : Settings} {e : Edit} {path p q : String}

/-! ## Two nodes -/

/-- Edits of two nodes commute. -/
theorem edit_comm {e' : Edit} (hne : p ≠ q) :
    ((r.edit settings e p).2.edit settings' e' q).2 =
      ((r.edit settings' e' q).2.edit settings e p).2 := by
  refine ext_bare (fun path => ?_) (by simp only [bare_edit])
  by_cases hp : p = path
  · subst hp
    rw [find?_edit_of_ne (Ne.symm hne), (edit_after (Ne.symm hne)).2]
  by_cases hq : q = path
  · subst hq
    rw [(edit_after hne).2, find?_edit_of_ne hne]
  · rw [find?_edit_of_ne hq, find?_edit_of_ne hp, find?_edit_of_ne hp, find?_edit_of_ne hq]

/-- Either the request is an edit of the node or it fails at once, and the registry decides which. -/
def Settled (r : Repository) (settings : Settings) (request : Request) (path : String) : Prop :=
  (∃ e, ∀ s : Repository, s.findPrivilege? = r.findPrivilege? →
    s.perform settings request = some (s.edit settings e path)) ∨
  (∃ err, ∀ s : Repository, s.findPrivilege? = r.findPrivilege? →
    s.perform settings request = some (.error err, s))

theorem settled_named {request : Request} (names : List String) (act : List Privilege → Edit)
    (h : ∀ s : Repository, s.perform settings request = some (match s.lookup names with
      | .ok privileges => s.edit settings (act privileges) path
      | .error err => (.error err, s))) (r : Repository) : r.Settled settings request path := by
  have hlookup : ∀ s : Repository, s.findPrivilege? = r.findPrivilege? →
      s.lookup names = r.lookup names := by
    intro s hs
    unfold lookup
    rw [hs]
  cases hl : r.lookup names with
  | ok privileges => exact .inl ⟨act privileges, fun s hs => by rw [h s, hlookup s hs, hl]⟩
  | error err => exact .inr ⟨err, fun s hs => by rw [h s, hlookup s hs, hl]⟩

theorem settled {request : Request} (h : request.At path) (r : Repository) (settings : Settings) :
    r.Settled settings request path := by
  cases h with
  | grant => exact .inl ⟨_, fun s _ => congrArg some (grant_run settings path s _ _)⟩
  | revoke => exact .inl ⟨_, fun s _ => congrArg some (revoke_run settings path s _ _)⟩
  | @grantNamed who names =>
    refine settled_named names (.grant who) (fun s => ?_) r
    exact congrArg some (grantNamed_run settings path s who names)
  | @revokeNamed who names =>
    refine settled_named names (.revoke who) (fun s => ?_) r
    exact congrArg some (revokeNamed_run settings path s who names)
  | clear => exact .inl ⟨_, fun s _ => congrArg some (clear_run settings path s)⟩

/-- Carried out in either order, two requests come to the same. -/
def Commute (r : Repository) (settings settings' : Settings) (one two : Request) : Prop :=
  ∃ out out' r₁ r₂ s,
    r.perform settings one = some (out, r₁) ∧ r₁.perform settings' two = some (out', s) ∧
    r.perform settings' two = some (out', r₂) ∧ r₂.perform settings one = some (out, s)

theorem commute_of_ne {one two : Request} (hone : one.At p) (htwo : two.At q) (hne : p ≠ q) :
    r.Commute settings settings' one two := by
  have hkept : ∀ (settings : Settings) (e : Edit) (path : String),
      (r.edit settings e path).2.findPrivilege? = r.findPrivilege? :=
    fun settings e path => findPrivilege?_of_bare (bare_edit r settings e path)
  rcases settled hone r settings with ⟨e, hone⟩ | ⟨err, hone⟩ <;>
    rcases settled htwo r settings' with ⟨e', htwo⟩ | ⟨err', htwo⟩
  · have hp := hkept settings e p
    have hq := hkept settings' e' q
    refine ⟨(r.edit settings e p).1, (r.edit settings' e' q).1, (r.edit settings e p).2,
      (r.edit settings' e' q).2, ((r.edit settings' e' q).2.edit settings e p).2, hone r rfl, ?_,
      htwo r rfl, ?_⟩
    · rw [htwo _ hp]
      exact congrArg some (Prod.ext (edit_after hne).1 (edit_comm hne))
    · rw [hone _ hq]
      exact congrArg some (Prod.ext (edit_after (Ne.symm hne)).1 rfl)
  · exact ⟨(r.edit settings e p).1, .error err', (r.edit settings e p).2, r,
      (r.edit settings e p).2, hone r rfl, htwo _ (hkept settings e p), htwo r rfl, hone r rfl⟩
  · exact ⟨.error err, (r.edit settings' e' q).1, r, (r.edit settings' e' q).2,
      (r.edit settings' e' q).2, hone r rfl, htwo r rfl, htwo r rfl, hone _ (hkept settings' e' q)⟩
  · exact ⟨.error err, .error err', r, r, r, hone r rfl, htwo r rfl, htwo r rfl, hone r rfl⟩

/-! ## Runs -/

/-- A run succeeds if the edit would on each node alone. -/
theorem each_edit_of_alone {nodes : List String} (hn : nodes.Nodup)
    (h : ∀ q ∈ nodes, ∃ now, (r.edit settings e q).1 = .ok now) :
    ∃ changed s, Action.each ((Engine.mk host settings).edit e) nodes r = (.ok changed, s) := by
  induction nodes generalizing r with
  | nil => exact ⟨false, r, rfl⟩
  | cons path rest ih =>
    obtain ⟨hnot, hn⟩ := List.nodup_cons.1 hn
    obtain ⟨now, hnow⟩ := h path List.mem_cons_self
    have hfirst : (Engine.mk host settings).edit e path r =
        (.ok now, (r.edit settings e path).2) := by
      rw [edit_run]
      exact Prod.ext hnow rfl
    obtain ⟨later, s, hrest⟩ := ih (r := (r.edit settings e path).2) hn fun q hq => by
      have hne : path ≠ q := fun he => hnot (he ▸ hq)
      rw [(edit_after hne).1]
      exact h q (List.mem_cons_of_mem path hq)
    exact ⟨now || later, s, by rw [Action.each_cons_ok hfirst, hrest]; rfl⟩

/-- A run that succeeds does so with the same outcome in any order of its nodes. -/
theorem each_edit_perm {nodes order : List String} {changed : Bool} (hn : nodes.Nodup)
    (h : Action.each ((Engine.mk host settings).edit e) nodes r = (.ok changed, s))
    (hperm : order.Perm nodes) :
    Action.each ((Engine.mk host settings).edit e) order r = (.ok changed, s) := by
  have hn' : order.Nodup := hperm.nodup_iff.2 hn
  obtain ⟨halone, hchanged⟩ := each_edit_eq_ok hn h
  obtain ⟨changed', s', h'⟩ := each_edit_of_alone hn' fun q hq => (halone q (hperm.mem_iff.1 hq)).1
  obtain ⟨halone', hchanged'⟩ := each_edit_eq_ok hn' h'
  have hs : s' = s := by
    refine ext_bare (fun q => ?_) ((bare_each_edit h').trans (bare_each_edit h).symm)
    by_cases hq : q ∈ nodes
    · rw [(halone q hq).2, (halone' q (hperm.mem_iff.2 hq)).2]
    · rw [find?_each_edit h hq, find?_each_edit h' fun hm => hq (hperm.mem_iff.1 hm)]
  have hsame : changed' = changed := by
    rw [Bool.eq_iff_iff, hchanged', hchanged]
    exact exists_congr fun q => and_congr_left fun _ => hperm.mem_iff
  rw [h', hs, hsame]

/-- A run over nodes did on each of them what the operation does there alone, from the start on, and
did nothing else; it would have come to the same in any order. -/
structure Independent (r : Repository) (settings : Settings) (e : Edit) (nodes : List String)
    (changed : Bool) (s : Repository) : Prop where
  visited : ∀ q ∈ nodes, ∃ now alone,
    (Engine.mk host settings).edit e q r = (.ok now, alone) ∧
      s.nodes.find? q = alone.nodes.find? q
  others : ∀ q, q ∉ nodes → s.nodes.find? q = r.nodes.find? q
  told : changed = true ↔
    ∃ q ∈ nodes, ∃ alone, (Engine.mk host settings).edit e q r = (.ok true, alone)
  anyOrder : ∀ order, order.Perm nodes →
    Action.each ((Engine.mk host settings).edit e) order r = (.ok changed, s)

theorem independent {nodes : List String} {changed : Bool} (hn : nodes.Nodup)
    (h : Action.each ((Engine.mk host settings).edit e) nodes r = (.ok changed, s)) :
    r.Independent settings e nodes changed s := by
  obtain ⟨halone, hchanged⟩ := each_edit_eq_ok hn h
  refine ⟨fun q hq => ?_, fun q hq => find?_each_edit h hq, ?_, fun order => each_edit_perm hn h⟩
  · obtain ⟨⟨now, hnow⟩, hfind⟩ := halone q hq
    refine ⟨now, (r.edit settings e q).2, ?_, hfind⟩
    rw [edit_run]
    exact Prod.ext hnow rfl
  · rw [hchanged]
    refine exists_congr fun q => and_congr_right fun _ => ?_
    rw [edit_run]
    exact ⟨fun ht => ⟨_, Prod.ext ht rfl⟩, fun ⟨_, ht⟩ => congrArg Prod.fst ht⟩

/-- **Order makes no difference**: a request that succeeds has done on each node that it visits what
the operation does there alone, and had come to the same in any other order. Requests on two single
nodes commute, under whatever settings each is carried out. -/
theorem Live.order_insensitive (h : r.Live) (settings : Settings) :
    (∀ request changed s, r.perform settings request = some (.ok changed, s) →
      ∃ e nodes, request.Asks r e ∧ nodes.Nodup ∧ (∀ q, q ∈ nodes ↔ request.Visits r q) ∧
        r.Independent settings e nodes changed s) ∧
    (∀ settings' one two p q, one.At p → two.At q → p ≠ q →
      r.Commute settings settings' one two) := by
  refine ⟨fun request changed s hp => ?_, fun settings' one two p q hone htwo hne => ?_⟩
  · obtain ⟨e, nodes, hasks, hn, hvisits, hr⟩ := h.isTree.perform_eq_ok hp
    exact ⟨e, nodes, hasks, hn, hvisits, independent hn hr⟩
  · exact commute_of_ne hone htwo hne

/-- A grant from a folder up to the root, and requests on both of them. -/
theorem order_insensitive_folder_and_root : ∃ r s : Repository, r.Live ∧
    r.perform {} (.grantNamed "/a" (.ancestors "/") ⟨"u"⟩ ["jcr:read"]) = some (.ok true, s) ∧
    (∃ e nodes, (Request.grantNamed "/a" (.ancestors "/") ⟨"u"⟩ ["jcr:read"]).Asks r e ∧
      nodes.Nodup ∧ (∀ q, q ∈ nodes ↔ r.Below "/" q ∧ r.Below q "/a") ∧
      r.Independent {} e nodes true s) ∧
    s.Commute {} { enforce := true } (.clear "/" .node)
      (.revokeNamed "/a" .node ⟨"admin"⟩ ["jcr:all"]) := by
  have hfolder : Repository.initial.addPath "/a" "folder" =
      .ok ("/a", Repository.initial.grow "/" "/a" "folder") := rfl
  have hlive := Live.addPath (.reachable .initial) hfolder
  obtain ⟨s, hs⟩ : ∃ s, (Repository.initial.grow "/" "/a" "folder").perform {}
      (.grantNamed "/a" (.ancestors "/") ⟨"u"⟩ ["jcr:read"]) = some (.ok true, s) := ⟨_, rfl⟩
  refine ⟨_, s, hlive, hs, (Live.order_insensitive hlive {}).1 _ _ _ hs, ?_⟩
  exact (Live.order_insensitive (hlive.perform hs) {}).2 _ _ _ "/" "/a" .clear .revokeNamed (by decide)

end Repository
end AclTree
