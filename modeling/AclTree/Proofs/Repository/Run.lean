/-
The engine on a repository, without the host in between: names are looked up
in the registry (`resolveAt_run`), and on a single node the engine does what
the edit says (`edit_run`). From this come runs over lists of nodes, and what
whole requests keep.
-/
import AclTree.Proofs.Engine.Alike
import AclTree.Proofs.Repository.Edit

namespace AclTree

namespace Engine

variable {σ : Type}

/-- Carries out an edit on a node of a host. -/
def edit (e : Engine σ) : Edit → String → Action σ Bool
  | .grant who privileges, path => e.grant path who privileges
  | .revoke who privileges, path => e.revoke path who privileges
  | .clear, path => e.clear path

end Engine

namespace Repository

/-- The descriptors of names, or the first name that there is none of. -/
def lookup (r : Repository) (names : List String) : Except AccessError (List Privilege) :=
  names.mapM fun name =>
    match r.findPrivilege? name with
    | some p => .ok p
    | none => .error (.unknownPrivilege name)

variable {r r' s : Repository} {settings : Settings} {path : String}

/-! ## Looking up -/

theorem lookup_cons_some {name : String} {names : List String} {p : Privilege}
    (h : r.findPrivilege? name = some p) :
    r.lookup (name :: names) = (r.lookup names).map (p :: ·) := by
  unfold lookup
  rw [List.mapM_cons, h]
  rfl

theorem lookup_cons_none {name : String} {names : List String} (h : r.findPrivilege? name = none) :
    r.lookup (name :: names) = .error (.unknownPrivilege name) := by
  unfold lookup
  rw [List.mapM_cons, h]
  rfl

theorem lookup_eq_ok {names : List String} {privileges : List Privilege} :
    r.lookup names = .ok privileges ↔
      List.Forall₂ (fun name p => r.findPrivilege? name = some p) names privileges := by
  unfold lookup
  rw [Except.mapM_eq_ok]
  refine iff_of_eq (congrArg (List.Forall₂ · names privileges) ?_)
  funext name p
  cases r.findPrivilege? name <;> simp

/-- What is looked up has the names it is looked up by. -/
theorem names_lookup {names : List String} {privileges : List Privilege}
    (h : r.lookup names = .ok privileges) : Privilege.names privileges = names := by
  rw [lookup_eq_ok] at h
  induction h with
  | nil => rfl
  | cons hp _ ih => rw [Privilege.names_cons, ih, name_of_findPrivilege? hp]

theorem exists_lookup {names : List String} (h : ∀ name ∈ names, (r.findPrivilege? name).isSome) :
    ∃ privileges, r.lookup names = .ok privileges := by
  induction names with
  | nil => exact ⟨[], rfl⟩
  | cons name names ih =>
    obtain ⟨p, hp⟩ := Option.isSome_iff_exists.1 (h name List.mem_cons_self)
    obtain ⟨ps, hps⟩ := ih fun n hn => h n (List.mem_cons_of_mem name hn)
    exact ⟨p :: ps, by rw [lookup_cons_some hp, hps]; rfl⟩

/-- A lookup fails for want of a name only. -/
theorem lookup_eq_error {names : List String} {e : AccessError} (h : r.lookup names = .error e) :
    ∃ name ∈ names, r.findPrivilege? name = none ∧ e = .unknownPrivilege name := by
  induction names with
  | nil => cases h
  | cons name names ih =>
    cases hf : r.findPrivilege? name with
    | none =>
      rw [lookup_cons_none hf] at h
      cases h
      exact ⟨name, List.mem_cons_self, hf, rfl⟩
    | some p =>
      rw [lookup_cons_some hf] at h
      cases hl : r.lookup names with
      | ok ps => rw [hl] at h; cases h
      | error e' =>
        rw [hl] at h
        cases h
        obtain ⟨n, hn, hfn, he⟩ := ih hl
        exact ⟨n, List.mem_cons_of_mem name hn, hfn, he⟩

/-- A lookup is told of the first name that there is none of. -/
theorem lookup_first_unknown {known rest : List String} {name : String}
    (hknown : ∀ n ∈ known, (r.findPrivilege? n).isSome) (h : r.findPrivilege? name = none) :
    r.lookup (known ++ name :: rest) = .error (.unknownPrivilege name) := by
  induction known with
  | nil => exact lookup_cons_none h
  | cons n known ih =>
    obtain ⟨p, hp⟩ := Option.isSome_iff_exists.1 (hknown n List.mem_cons_self)
    rw [List.cons_append, lookup_cons_some hp, ih fun m hm => hknown m (List.mem_cons_of_mem n hm)]
    rfl

theorem resolve_run (settings : Settings) (names : List String) (r : Repository) :
    (Engine.mk host settings).resolve names r = (r.lookup names, r) := by
  refine Action.mapM_reading (fun name => ?_) names
  rw [Action.bind_run]
  change (match r.findPrivilege? name with
    | some p => pure p
    | none => throw (AccessError.unknownPrivilege name) : Action Repository Privilege) r = _
  cases r.findPrivilege? name <;> rfl

theorem resolveAt_run (settings : Settings) (path : String) (names : List String)
    (r : Repository) : (Engine.mk host settings).resolveAt path names r = (r.lookup names, r) := by
  unfold Engine.resolveAt
  rw [Action.adapt_run, resolve_run]
  cases hl : r.lookup names with
  | ok privileges => rfl
  | error e =>
    obtain ⟨name, -, -, rfl⟩ := lookup_eq_error hl
    rfl

theorem resolveAt_eq_ok {path : String} {names : List String} {privileges : List Privilege}
    (h : (Engine.mk host settings).resolveAt path names r = (.ok privileges, s)) :
    s = r ∧ r.lookup names = .ok privileges := by
  rw [resolveAt_run] at h
  cases hl : r.lookup names with
  | error e => rw [hl] at h; cases h
  | ok found => rw [hl] at h; cases h; exact ⟨rfl, rfl⟩

/-! ## Edits of the engine -/

section Run

variable (settings : Settings) (path : String) (r : Repository)

theorem candidate_run :
    host.candidate path r = ((r.node path).map (·.policy.getD .empty), r) := by
  have happlicable : host.applicable path r = ((r.node path).map applicable, r) := rfl
  have happlied : host.applied path r = ((r.node path).map (·.policy.toList), r) := rfl
  unfold Host.candidate
  cases hn : r.node path with
  | error e =>
    rw [hn] at happlicable
    exact Action.bind_error happlicable
  | ok node =>
    rw [hn] at happlicable happlied
    rw [Action.bind_ok happlicable]
    cases hp : node.policy with
    | none => simp [applicable, Except.map, hp]
    | some acl =>
      simp only [applicable, hp]
      rw [Action.bind_ok happlied]
      simp [Except.map, hp]

theorem seed_run (acl : Acl) :
    (Engine.mk host settings).seed path acl r = (Edit.seeded settings r.findPrivilege? acl, r) := by
  unfold Engine.seed Edit.seeded
  split
  · rw [Action.bind_run, resolveAt_run]
    cases hf : r.findPrivilege? settings.allPrivilege with
    | none => rw [lookup_cons_none hf]
    | some p => rw [lookup_cons_some hf]; rfl
  · rfl

theorem applied_run : host.applied path r = ((r.node path).map (·.policy.toList), r) := rfl

theorem parent_run : host.parent path r = ((r.node path).map (·.parent), r) := rfl

theorem children_run : host.children path r = ((r.node path).map (·.children), r) := rfl

theorem setPolicy_run {node : Node} (hn : r.node path = .ok node) (acl : Acl) :
    host.setPolicy path acl r = (.ok (), r.withPolicy path (some acl)) := by
  have h : r.setPolicy path acl = .ok (r.withPolicy path (some acl)) := by
    unfold Repository.setPolicy
    rw [hn]
    rfl
  exact Host.writing_ok (f := fun r : Repository => r.setPolicy path acl) h

theorem removePolicy_run {node : Node} {bound : Acl} (hn : r.node path = .ok node)
    (hp : node.policy = some bound) :
    host.removePolicy path bound r = (.ok (), r.withPolicy path none) := by
  have h : r.removePolicy path bound = .ok (r.withPolicy path none) := by
    have hsame : bound.same bound = true := beq_self_eq_true _
    unfold Repository.removePolicy
    rw [hn]
    simp only [bind, Except.bind, hp, hsame]
    rfl
  exact Host.writing_ok (f := fun r : Repository => r.removePolicy path bound) h

theorem checked_write_run {node : Node} (hn : r.node path = .ok node) (operation : Operation)
    (names : List String) (acl : Acl) (changed : Bool) :
    (do
      (Engine.mk host settings).checkConsistency acl
      Engine.access path operation names (host.setPolicy path acl)
      pure changed : Action Repository Bool) r =
      match settings.check acl with
      | .ok _ => (.ok changed, r.withPolicy path (some acl))
      | .error e => (.error e, r) := by
  have hc := Engine.checkConsistency_run (Engine.mk host settings) acl r
  cases hcheck : settings.check acl with
  | error e =>
    rw [hcheck] at hc
    exact Action.bind_error hc
  | ok _ =>
    rw [hcheck] at hc
    rw [Action.bind_ok hc, Action.bind_ok (Engine.access_ok (setPolicy_run path r hn acl))]
    rfl

/-- A call that reads a node fails where there is none. -/
theorem access_missing {α β : Type} {call : HostCall Repository α} {f : Node → α}
    (hcall : call r = ((r.node path).map f, r)) (hc : r.contains path = false)
    (operation : Operation) (names : List String) (rest : α → Action Repository β) :
    (Engine.access path operation names call >>= rest) r =
      (.error (.repositoryAccess path operation names (.nodeNotFound path)), r) := by
  rw [node_eq_error hc] at hcall
  exact Action.bind_error (Engine.access_error hcall)

theorem access_found {α β : Type} {call : HostCall Repository α} {f : Node → α} {nd : Node}
    (hcall : call r = ((r.node path).map f, r)) (hf : r.nodes.find? path = some nd)
    (operation : Operation) (names : List String) (rest : α → Action Repository β) :
    (Engine.access path operation names call >>= rest) r = rest (f nd) r := by
  rw [node_eq_ok.2 hf] at hcall
  exact Action.bind_ok (Engine.access_ok hcall)

theorem grant_run (who : Principal) (privileges : List Privilege) :
    (Engine.mk host settings).grant path who privileges r =
      r.edit settings (.grant who privileges) path := by
  unfold Engine.grant
  split
  · rename_i hv
    rw [edit_void (e := .grant who privileges) hv]
    rfl
  rename_i hv
  have hv : (Edit.grant who privileges).isVoid = false := by simpa [Edit.isVoid] using hv
  cases hf : r.nodes.find? path with
  | none =>
    rw [edit_missing hv hf]
    exact access_missing path r (candidate_run path r) (contains_eq_false.2 hf) _ _ _
  | some nd =>
    have hn : r.node path = .ok nd := node_eq_ok.2 hf
    rw [access_found path r (candidate_run path r) hf, Action.bind_run, seed_run, edit_found hv hf]
    simp only [Edit.outcome]
    cases Edit.seeded settings r.findPrivilege? (nd.policy.getD .empty) with
    | error e => rfl
    | ok start =>
      obtain ⟨acl, seeded⟩ := start
      dsimp only
      rw [checked_write_run settings path r hn]
      simp only [bind, Except.bind]
      cases settings.check (acl.add who privileges).1 <;> rfl

theorem revoke_run (who : Principal) (privileges : List Privilege) :
    (Engine.mk host settings).revoke path who privileges r =
      r.edit settings (.revoke who privileges) path := by
  unfold Engine.revoke
  split
  · rename_i hv
    rw [edit_void (e := .revoke who privileges) hv]
    rfl
  rename_i hv
  have hv : (Edit.revoke who privileges).isVoid = false := by simpa [Edit.isVoid] using hv
  cases hf : r.nodes.find? path with
  | none =>
    rw [edit_missing hv hf]
    exact access_missing path r (applied_run path r) (contains_eq_false.2 hf) _ _ _
  | some nd =>
    have hn : r.node path = .ok nd := node_eq_ok.2 hf
    have hsame := withPolicy_same hf
    rw [access_found path r (applied_run path r) hf, edit_found hv hf]
    cases hp : nd.policy with
    | none =>
      rw [hp] at hsame
      simp only [Edit.outcome, pure, Except.pure, hsame]
      rfl
    | some bound =>
      rw [hp] at hsame
      simp only [Edit.outcome, Option.toList_some]
      cases hch : (bound.take who privileges).2 with
      | true =>
        simp only [if_true]
        rw [checked_write_run settings path r hn]
        cases settings.check (bound.take who privileges).1 <;> rfl
      | false =>
        simp only [pure, Except.pure, Bool.false_eq_true, if_false, hsame]
        rfl

theorem clear_run : (Engine.mk host settings).clear path r = r.edit settings .clear path := by
  unfold Engine.clear
  cases hf : r.nodes.find? path with
  | none =>
    rw [edit_missing rfl hf]
    exact access_missing path r (applied_run path r) (contains_eq_false.2 hf) _ _ _
  | some nd =>
    have hsame := withPolicy_same hf
    rw [access_found path r (applied_run path r) hf, edit_found rfl hf]
    cases hp : nd.policy with
    | none =>
      rw [hp] at hsame
      simp only [Edit.outcome, pure, Except.pure, hsame]
      rfl
    | some bound =>
      have hremove := removePolicy_run path r (node_eq_ok.2 hf) hp
      have hforM : [bound].forM (fun acl => Engine.access path .clear [] (host.removePolicy path acl)) r
          = (.ok (), r.withPolicy path none) := Action.bind_ok (Engine.access_ok hremove)
      exact Action.bind_ok hforM

/-- **The engine on a repository** does on a single node what the edit says. -/
theorem edit_run (edit : Edit) :
    (Engine.mk host settings).edit edit path r = r.edit settings edit path := by
  cases edit with
  | grant who privileges => exact grant_run settings path r who privileges
  | revoke who privileges => exact revoke_run settings path r who privileges
  | clear => exact clear_run settings path r

theorem grantNamed_run (who : Principal) (names : List String) :
    (Engine.mk host settings).grantNamed path who names r =
      match r.lookup names with
      | .ok privileges => r.edit settings (.grant who privileges) path
      | .error e => (.error e, r) := by
  unfold Engine.grantNamed
  split
  · rename_i hn
    rw [List.isEmpty_iff.1 hn]
    exact (edit_void (e := .grant who []) rfl).symm
  · have hlookup := resolveAt_run settings path names r
    cases hl : r.lookup names with
    | error e =>
      rw [hl] at hlookup
      exact Action.bind_error hlookup
    | ok privileges =>
      rw [hl] at hlookup
      rw [Action.bind_ok hlookup, grant_run]

theorem revokeNamed_run (who : Principal) (names : List String) :
    (Engine.mk host settings).revokeNamed path who names r =
      match r.lookup names with
      | .ok privileges => r.edit settings (.revoke who privileges) path
      | .error e => (.error e, r) := by
  unfold Engine.revokeNamed
  split
  · rename_i hn
    rw [List.isEmpty_iff.1 hn]
    exact (edit_void (e := .revoke who []) rfl).symm
  · have hlookup := resolveAt_run settings path names r
    cases hl : r.lookup names with
    | error e =>
      rw [hl] at hlookup
      exact Action.bind_error hlookup
    | ok privileges =>
      rw [hl] at hlookup
      rw [Action.bind_ok hlookup, revoke_run]

end Run

/-! ## Runs over nodes -/

section Each

variable {e : Edit} {paths : List String}

theorem each_edit_keeps {I : Repository → Prop}
    (h : ∀ path ∈ paths, ∀ r, I r → I (r.edit settings e path).2) :
    Keeps I (Action.each ((Engine.mk host settings).edit e) paths) :=
  .each fun path hp r hr => by rw [edit_run]; exact h path hp r hr

theorem edit_keeps_bare (path : String) :
    Keeps (fun s => s.bare = r.bare) ((Engine.mk host settings).edit e path) := by
  intro s hs
  rw [edit_run]
  exact (bare_edit s settings e path).trans hs

theorem bare_each_edit {out : Except AccessError Bool}
    (h : Action.each ((Engine.mk host settings).edit e) paths r = (out, r')) : r'.bare = r.bare := by
  have hkept : Keeps (fun s => s.bare = r.bare)
      (Action.each ((Engine.mk host settings).edit e) paths) :=
    .each fun path _ => edit_keeps_bare path
  have hbare := hkept r rfl
  rwa [h] at hbare

theorem each_edit_void (hv : e.isVoid = true) (r : Repository) :
    Action.each ((Engine.mk host settings).edit e) paths r = (.ok false, r) := by
  induction paths with
  | nil => rfl
  | cons path rest ih =>
    have hone : (Engine.mk host settings).edit e path r = (.ok false, r) := by
      rw [edit_run, edit_void hv]
    rw [Action.each_cons_ok hone, ih]
    rfl

/-- Nodes that are not visited stay as they are. -/
theorem find?_each_edit {out : Except AccessError Bool}
    (h : Action.each ((Engine.mk host settings).edit e) paths r = (out, r')) {q : String}
    (hq : q ∉ paths) : r'.nodes.find? q = r.nodes.find? q := by
  have hstep : ∀ path ∈ paths, ∀ s : Repository, s.nodes.find? q = r.nodes.find? q →
      (s.edit settings e path).2.nodes.find? q = r.nodes.find? q := by
    intro path hp s hs
    have hne : path ≠ q := fun he => hq (he ▸ hp)
    rw [find?_edit_of_ne hne, hs]
  have hkept := each_edit_keeps hstep r rfl
  rwa [h] at hkept

/-- A run that fails has left the node on which it fails, and those after it, as they were. -/
theorem each_edit_eq_error {err : AccessError}
    (h : Action.each ((Engine.mk host settings).edit e) paths r = (.error err, r')) :
    ∃ visited path left changed, paths = visited ++ path :: left ∧
      Action.each ((Engine.mk host settings).edit e) visited r = (.ok changed, r') ∧
      (Engine.mk host settings).edit e path r' = (.error err, r') := by
  obtain ⟨visited, path, left, changed, s, hp, hd, he⟩ := Action.each_eq_error h
  have hs : r' = s := edit_eq_error (by rw [← edit_run]; exact he)
  rw [← hs] at hd he
  exact ⟨visited, path, left, changed, hp, hd, he⟩

/-- **Runs that succeed**: each node ends up as the edit alone would have made it, and something
changed if that changed something anywhere. -/
theorem each_edit_eq_ok {changed : Bool} (hn : paths.Nodup)
    (h : Action.each ((Engine.mk host settings).edit e) paths r = (.ok changed, r')) :
    (∀ q ∈ paths, (∃ now, (r.edit settings e q).1 = .ok now) ∧
      r'.nodes.find? q = (r.edit settings e q).2.nodes.find? q) ∧
    (changed = true ↔ ∃ q ∈ paths, (r.edit settings e q).1 = .ok true) := by
  induction paths generalizing r changed with
  | nil =>
    cases h
    simp
  | cons path rest ih =>
    obtain ⟨hnot, hn⟩ := List.nodup_cons.1 hn
    obtain ⟨now, later, s, hv, hr, rfl⟩ := Action.each_cons_eq_ok.1 h
    obtain ⟨hrest, hlater⟩ := ih hn hr
    rw [edit_run] at hv
    -- What the first edit did is not seen at the other nodes.
    have hlocal : ∀ q ∈ rest, (s.edit settings e q).1 = (r.edit settings e q).1 ∧
        (s.edit settings e q).2.nodes.find? q = (r.edit settings e q).2.nodes.find? q := by
      intro q hq
      have hne : path ≠ q := fun he => hnot (he ▸ hq)
      have hs : (r.edit settings e path).2 = s := congrArg Prod.snd hv
      exact hs ▸ edit_after hne
    constructor
    · intro q hq
      rcases List.mem_cons.1 hq with rfl | hq
      · refine ⟨⟨now, by rw [hv]⟩, ?_⟩
        rw [find?_each_edit hr hnot, hv]
      · obtain ⟨hok, hfind⟩ := hrest q hq
        rw [(hlocal q hq).1] at hok
        rw [(hlocal q hq).2] at hfind
        exact ⟨hok, hfind⟩
    · rw [Bool.or_eq_true, hlater, List.exists_mem_cons_iff, hv]
      refine or_congr (by simp) (exists_congr fun q => and_congr_right fun hq => ?_)
      rw [(hlocal q hq).1]

end Each

/-! ## Whole requests -/

theorem nodesAlike_self {I : Repository → Prop}
    (h : ∀ r e path, I r → I (r.edit settings e path).2) :
    NodesAlike settings (fun r s => r = s ∧ I r) host host where
  root := rfl
  parent _ := relates_self.2 fun _ hr => hr
  children _ := relates_self.2 fun _ hr => hr
  kind _ := relates_self.2 fun _ hr => hr
  privilege _ := relates_self.2 fun _ hr => hr
  grant path who privileges := relates_self.2 fun r hr => by
    rw [grant_run]
    exact h r _ path hr
  revoke path who privileges := relates_self.2 fun r hr => by
    rw [revoke_run]
    exact h r _ path hr
  clear path := relates_self.2 fun r hr => by
    rw [clear_run]
    exact h r _ path hr

/-- What every edit keeps, every request keeps, whether it succeeds or fails. -/
theorem perform_keeps {I : Repository → Prop}
    (h : ∀ r e path, I r → I (r.edit settings e path).2) {request : Request}
    {out : Except AccessError Bool} (hr : I r) (hp : r.perform settings request = some (out, r')) :
    I r' :=
  ((nodesAlike_self h).perform r.size request).keeps hr hp

theorem bare_perform {request : Request} {out : Except AccessError Bool}
    (hp : r.perform settings request = some (out, r')) : r'.bare = r.bare := by
  refine perform_keeps (I := fun s => s.bare = r.bare) (fun s e path hs => ?_) rfl hp
  rw [bare_edit, hs]

end Repository
end AclTree
