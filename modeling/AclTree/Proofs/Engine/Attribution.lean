/-
The failures that errors tell of. An error that comes from a host names a node,
an operation and privileges; which ones is told by the calls that were made
(`Engine.Attributed`): mostly it is the node that the last call was for, with
the request's operation and names, but kinds are laid to the node whose children
are listed and lookups of privileges to the node that they were made for.
-/
import AclTree.Proofs.Engine.Calls
import AclTree.Proofs.Engine.Stages
import AclTree.Proofs.Host.Lookups

namespace AclTree

open Host (Call Recorded)

variable {σ : Type}

namespace Engine

/-- The host's failures that an error of the request may tell of, by the calls that were made from `s`
on, with the node, the operation, the privileges and the failure that are told. -/
inductive Attributed (host : Host σ) (settings : Settings) (request : Request) (s : σ) :
    List Call → String → Operation → List String → RepositoryError → Prop where
  /-- The last call was for a node and has failed. -/
  | call {before : List Call} {call : Call} {path : String} {e : RepositoryError} :
      call.node? = some path → host.failure call (host.reached s before) = some e →
      Attributed host settings request s (before ++ [call]) path request.operation request.names e
  /-- The kind of a child was asked for. The node is the one whose children these are. -/
  | kind {before calls : List Call} {path : String} {children : List String}
      {e : RepositoryError} :
      (host.children path (host.reached s before)).1 = .ok children →
      host.Sweep (host.reached s (before ++ [.children path])) (children.map .kind) calls (some e) →
      Attributed host settings request s (before ++ .children path :: calls) path request.operation
        request.names e
  /-- A name of the request was looked up, those before it with success. Before all of them no more
  than parents were asked for. -/
  | lookup {before : List Call} {found left : List String} {name : String} {ps : List Privilege}
      {e : RepositoryError} :
      (∀ call ∈ before, call.isParent = true) → request.names = found ++ name :: left →
      host.Yields (host.reached s before) found ps →
      (host.privilege name (host.reached s (before ++ found.map .privilege))).1 = .error e →
      Attributed host settings request s (before ++ (found ++ [name]).map .privilege) request.start
        .resolve request.names e
  /-- A list without entries was found, and the administrator's privilege looked up. -/
  | seed {before calls : List Call} {path : String} {acl : Acl} {e : RepositoryError} :
      host.Candidate path (host.reached s before) calls (.ok acl) → acl.isEmpty = true →
      (host.privilege settings.allPrivilege (host.reached s (before ++ calls))).1 = .error e →
      Attributed host settings request s (before ++ calls ++ [.privilege settings.allPrivilege]) path
        .resolve [settings.allPrivilege] e
  /-- No call has failed, but a grant found neither an applicable list nor an applied one. -/
  | noCandidate {before : List Call} {path : String} :
      request.operation = .grant →
      (host.applicable path (host.reached s before)).1 = .ok [] →
      (host.applied path (host.reached s (before ++ [.applicable path]))).1 = .ok [] →
      Attributed host settings request s (before ++ [.applicable path, .applied path]) path
        request.operation request.names (.noPolicyCandidate path)
  /-- No call has failed, but a node below the root has no parent. -/
  | noParent {before : List Call} {path : String} :
      path ≠ host.root → (host.parent path (host.reached s before)).1 = .ok none →
      Attributed host settings request s (before ++ [.parent path]) path request.operation
        request.names (.invalidPath path)

/-- An error of the host's making tells of one of these failures. -/
def Blamed (host : Host σ) (settings : Settings) (request : Request) (s : σ) :
    AccessError → List Call → Prop
  | .repositoryAccess path operation names e, calls =>
    ∃ node, path = some node ∧ Attributed host settings request s calls node operation names e
  | _, _ => True

variable {host : Host σ} {settings : Settings} {request : Request} {s : σ} {path : String}
  {before calls : List Call} {err : AccessError}

/-! ## Single nodes -/

theorem blamed_call {call : Call} {e : RepositoryError} {operation : Operation}
    {names : List String} (ho : operation = request.operation) (hn : names = request.names)
    (hnode : call.node? = some path) (hf : host.failure call (host.reached s before) = some e) :
    Blamed host settings request s (.repositoryAccess path operation names e)
      (before ++ [call]) := by
  subst ho hn
  exact ⟨path, rfl, .call hnode hf⟩

/-- Calls for one node, up to the first failure. -/
theorem sweep_blamed {planned : List Call} {failure : Option RepositoryError} {e : RepositoryError}
    {operation : Operation} {names : List String} (ho : operation = request.operation)
    (hn : names = request.names) (hnode : ∀ call ∈ planned, call.node? = some path)
    (hs : host.Sweep (host.reached s before) planned calls failure) (hf : failure = some e) :
    Blamed host settings request s (.repositoryAccess path operation names e) (before ++ calls) := by
  generalize hfrom : host.reached s before = s₀ at hs
  induction hs generalizing before with
  | done => cases hf
  | stop hstop =>
    cases hf
    rw [← hfrom] at hstop
    exact blamed_call ho hn (hnode _ List.mem_cons_self) hstop
  | @next s₀ call left calls out hcall _ ih =>
    rw [List.append_cons]
    exact ih (fun other hc => hnode other (List.mem_cons_of_mem call hc)) hf
      (Host.reached_snoc.trans (congrArg _ hfrom))

theorem candidate_blamed {e : RepositoryError} {names : List String}
    (ho : request.operation = .grant) (hn : names = request.names)
    (h : host.Candidate path (host.reached s before) calls (.error e)) :
    Blamed host settings request s (.repositoryAccess path .grant names e) (before ++ calls) := by
  cases h with
  | applicableFailed hfail => exact blamed_call ho.symm hn rfl (Host.failed_eq_some.2 hfail)
  | appliedFailed _ hfail =>
    rw [← Host.reached_snoc] at hfail
    rw [List.append_cons]
    exact blamed_call ho.symm hn rfl (Host.failed_eq_some.2 hfail)
  | nothing hnil hnil' =>
    rw [← Host.reached_snoc] at hnil'
    subst hn
    rw [← ho]
    exact ⟨path, rfl, .noCandidate ho hnil hnil'⟩

theorem seeding_blamed {c : List Call} {acl : Acl}
    (hc : host.Candidate path (host.reached s before) c (.ok acl))
    (h : Seeding host settings path acl (host.reached s (before ++ c)) calls (.error err)) :
    Blamed host settings request s err (before ++ c ++ calls) := by
  cases h with
  | failed hempty hr =>
    cases hr with
    | unknown => trivial
    | failed hsplit hy hfail =>
      obtain ⟨rfl, hname⟩ | ⟨-, hnil⟩ := List.append_eq_singleton_iff.1 hsplit.symm
      · cases hname
        exact ⟨path, rfl, .seed hc hempty hfail⟩
      · cases hnil

theorem check_not_blamed {acl : Acl} (h : settings.check acl = .error err) (calls : List Call) :
    Blamed host settings request s err calls := by
  unfold Settings.check Acl.checkNotFrozen at h
  split at h
  · split at h
    · cases h
      trivial
    · cases h
  · cases h

theorem told_blamed {call : Call} {operation : Operation} {names : List String} {changed : Bool}
    (ho : operation = request.operation) (hn : names = request.names)
    (hnode : call.node? = some path)
    (hout : told path operation names changed (host.failure call (host.reached s before)) =
      .error err) :
    Blamed host settings request s err (before ++ [call]) := by
  obtain ⟨e, hf, rfl⟩ := told_eq_error hout
  exact blamed_call ho hn hnode hf

section Nodes

variable {who : Principal} {privileges : List Privilege}

theorem granting_blamed (ho : request.operation = .grant)
    (hn : Privilege.names privileges = request.names)
    (h : Granting host settings path who privileges (host.reached s before) calls (.error err)) :
    Blamed host settings request s err (before ++ calls) := by
  generalize hout : (Except.error err : Except AccessError Bool) = out at h
  cases h with
  | idle => cases hout
  | unread _ hc =>
    cases hout
    exact candidate_blamed ho hn hc
  | unseeded _ hc hs =>
    cases hout
    rw [← Host.reached_append] at hs
    rw [← List.append_assoc]
    exact seeding_blamed hc hs
  | refused _ _ _ hcheck =>
    cases hout
    exact check_not_blamed hcheck _
  | wrote =>
    rw [← List.append_assoc]
    rw [← Host.reached_append] at hout
    exact told_blamed ho.symm hn rfl hout.symm

theorem revoking_blamed (ho : request.operation = .revoke)
    (hn : Privilege.names privileges = request.names)
    (h : Revoking host settings path who privileges (host.reached s before) calls (.error err)) :
    Blamed host settings request s err (before ++ calls) := by
  generalize hout : (Except.error err : Except AccessError Bool) = out at h
  cases h with
  | idle => cases hout
  | unbound => cases hout
  | unchanged => cases hout
  | unread _ hfail =>
    cases hout
    exact blamed_call ho.symm hn rfl (Host.failed_eq_some.2 hfail)
  | refused _ _ _ hcheck =>
    cases hout
    exact check_not_blamed hcheck _
  | wrote =>
    rw [← Host.reached_snoc] at hout
    rw [List.append_cons]
    exact told_blamed ho.symm hn rfl hout.symm

theorem clearing_blamed (ho : request.operation = .clear) (hn : request.names = [])
    (h : Clearing host path (host.reached s before) calls (.error err)) :
    Blamed host settings request s err (before ++ calls) := by
  generalize hout : (Except.error err : Except AccessError Bool) = out at h
  cases h with
  | unread hfail =>
    cases hout
    exact blamed_call ho.symm hn.symm rfl (Host.failed_eq_some.2 hfail)
  | @swept bound calls failure _ hs =>
    obtain ⟨e, hf, rfl⟩ := told_eq_error hout.symm
    have hnode : ∀ call ∈ bound.map (Call.removePolicy path), call.node? = some path := by
      simp [Call.node?]
    rw [← Host.reached_snoc] at hs
    rw [List.append_cons]
    exact sweep_blamed ho.symm hn.symm hnode hs hf

theorem rising_blamed {operation : Operation} {names : List String}
    (ho : operation = request.operation) (hn : names = request.names) (hne : path ≠ host.root)
    (h : Rising host operation names path (host.reached s before) calls (.error err)) :
    Blamed host settings request s err (before ++ calls) := by
  cases h with
  | failed hfail => exact blamed_call ho hn rfl (Host.failed_eq_some.2 hfail)
  | none hnone =>
    subst ho hn
    exact ⟨path, rfl, .noParent hne hnone⟩

theorem listing_blamed {operation : Operation} {names : List String}
    (ho : operation = request.operation) (hn : names = request.names)
    (h : Listing host operation names path (host.reached s before) calls (.error err)) :
    Blamed host settings request s err (before ++ calls) := by
  generalize hout : (Except.error err : Except AccessError (List String)) = out at h
  cases h with
  | failed hfail =>
    cases hout
    exact blamed_call ho hn rfl (Host.failed_eq_some.2 hfail)
  | swept hchildren hs =>
    obtain ⟨e, rfl, rfl⟩ := told_eq_error hout.symm
    subst ho hn
    rw [← Host.reached_snoc] at hs
    exact ⟨path, rfl, .kind hchildren hs⟩

theorem resolving_blamed {names : List String} (hn : names = request.names)
    (hp : ∀ call ∈ before, call.isParent = true)
    (h : host.Resolving (.repositoryAccess (some request.start) .resolve names) names
      (host.reached s before) calls (.error err)) :
    Blamed host settings request s err (before ++ calls) := by
  cases h with
  | unknown => trivial
  | failed hsplit hy hfail =>
    subst hn
    rw [← Host.reached_append] at hfail
    exact ⟨request.start, rfl, .lookup hp hsplit hy hfail⟩

end Nodes

/-! ## Requests -/

/-- The record of calls that were made from `s` on, all of them in `P`. -/
structure Tracked (host : Host σ) (s : σ) (P : Call → Prop) (t : Recorded σ) : Prop where
  made : t = host.made { state := s } t.calls
  calls : ∀ call ∈ t.calls, P call

/-- The request fails with an error that tells of a failure, or that is not of the host's making. -/
def Blames (host : Host σ) (settings : Settings) (request : Request) (s : σ) (err : AccessError)
    (u : Recorded σ) : Prop :=
  Tracked host s (fun _ => True) u ∧ Blamed host settings request s err u.calls

variable {P : Call → Prop} {ed : Edit} {operation : Operation} {names : List String}

theorem Tracked.state {t : Recorded σ} (h : Tracked host s P t) :
    t.state = host.reached s t.calls := by
  have hstate := congrArg Recorded.state h.made
  rwa [Host.made_state] at hstate

theorem Tracked.append {t : Recorded σ} (h : Tracked host s P t) (hc : ∀ call ∈ calls, P call) :
    Tracked host s P (host.made t calls) where
  made := by
    rw [Host.made_calls, Host.made_append, ← h.made]
  calls := by
    rw [Host.made_calls]
    exact List.forall_mem_append.2 ⟨h.calls, hc⟩

theorem Tracked.weaken {t : Recorded σ} (h : Tracked host s P t) :
    Tracked host s (fun _ => True) t :=
  ⟨h.made, fun _ _ => trivial⟩

/-- Work that is known call by call blames as its calls do. -/
theorem traces_blame {α : Type} {R : σ → List Call → Except AccessError α → Prop}
    {x : Action (Recorded σ) α} (hx : host.Traces R x)
    (hP : ∀ s calls out, R s calls out → ∀ call ∈ calls, P call)
    (hR : ∀ before calls err, (∀ call ∈ before, P call) →
      R (host.reached s before) calls (.error err) →
      Blamed host settings request s err (before ++ calls)) :
    Action.Triple (Tracked host s P) x (fun _ => Tracked host s P)
      (Blames host settings request s) := by
  intro t ht
  obtain ⟨calls, out, hr, hrun⟩ := hx t
  rw [hrun]
  have htracked := ht.append (hP _ _ _ hr)
  cases out with
  | ok a => exact htracked
  | error err =>
    rw [ht.state] at hr
    refine ⟨htracked.weaken, ?_⟩
    rw [Host.made_calls]
    exact hR t.calls calls err ht.calls hr

/-- The edit is of the request's kind and for its privileges. -/
structure Suits (request : Request) (ed : Edit) : Prop where
  operation : ed.operation = request.operation
  names : Privilege.names ed.privileges = request.names

theorem suits_act {privileges : List Privilege}
    (h : request.looksUp = false ∨ Privilege.names privileges = request.names) :
    Suits request (request.act privileges) := by
  cases request with
  | grant | revoke | clear => exact ⟨rfl, rfl⟩
  | grantNamed | revokeNamed => exact ⟨rfl, h.resolve_left nofun⟩

theorem edit_blames (h : Suits request ed) (path : String) :
    Action.Triple (Tracked host s fun _ => True) ((mk host.recording settings).edit ed path)
      (fun _ => Tracked host s fun _ => True) (Blames host settings request s) := by
  cases ed with
  | grant who privileges =>
    exact traces_blame (grant_traces host settings path who privileges) (fun _ _ _ _ _ _ => trivial)
      fun _ _ _ _ hg => granting_blamed h.operation.symm h.names hg
  | revoke who privileges =>
    exact traces_blame (revoke_traces host settings path who privileges) (fun _ _ _ _ _ _ => trivial)
      fun _ _ _ _ hr => revoking_blamed h.operation.symm h.names hr
  | clear =>
    exact traces_blame (clear_traces host settings path) (fun _ _ _ _ _ _ => trivial)
      fun _ _ _ _ hc => clearing_blamed h.operation.symm h.names.symm hc

theorem parentOf_blames (ho : operation = request.operation) (hn : names = request.names)
    (hP : ∀ path, P (.parent path)) (path : String) (hne : path ≠ host.root) :
    Action.Triple (Tracked host s P) ((mk host.recording settings).parentOf operation names path)
      (fun _ => Tracked host s P) (Blames host settings request s) := by
  refine traces_blame (parentOf_traces host settings operation names path) ?_
    fun _ _ _ _ hr => rising_blamed ho hn hne hr
  rintro _ _ _ (_ | _ | _) <;> exact List.forall_mem_singleton.2 (hP path)

theorem matchingChildren_blames (ho : operation = request.operation) (hn : names = request.names)
    (accepts : String → Bool) (path : String) :
    Action.Triple (Tracked host s fun _ => True)
      ((mk host.recording settings).matchingChildren operation names accepts path)
      (fun _ => Tracked host s fun _ => True) (Blames host settings request s) :=
  traces_blame (matchingChildren_traces host settings operation names accepts path)
    (fun _ _ _ _ _ _ => trivial) fun _ _ _ _ hl => listing_blamed ho hn hl

theorem spread_blames (limit : Nat) (way : List String) (h : Suits request ed) :
    Walk.Triple (Tracked host s fun _ => True)
      ((mk host.recording settings).spread limit request way ed)
      (fun _ => Tracked host s fun _ => True) (Blames host settings request s) :=
  spread_triple (edit_blames h)
    (fun path hne => parentOf_blames rfl rfl (fun _ => trivial) path hne)
    (matchingChildren_blames rfl h.names) (fun _ _ _ ht => ⟨ht, trivial⟩) way

/-! ## Lookups of names -/

end Engine

/-- Descriptors come under the names that were asked for. -/
def Host.AnswersByName (host : Host σ) : Prop :=
  ∀ name s p, (host.privilege name s).1 = .ok (some p) → p.name = name

theorem Host.Yields.names_eq {host : Host σ} (hname : host.AnswersByName) {s : σ}
    {names : List String} {ps : List Privilege} (h : host.Yields s names ps) :
    Privilege.names ps = names := by
  induction h with
  | nil => rfl
  | @cons s name rest p ps hp _ ih =>
    change p.name :: Privilege.names ps = name :: rest
    rw [hname name s p hp, ih]

namespace Engine

variable {host : Host σ} {settings : Settings} {request : Request} {s : σ}

/-- What is looked up at first goes by the request's names. -/
theorem resolveAt_blames (request : Request) (hname : host.AnswersByName) :
    Action.Triple (Tracked host s fun call => call.isParent = true)
      ((mk host.recording settings).resolveAt request.start request.names)
      (fun ps t => Tracked host s (fun _ => True) t ∧ Privilege.names ps = request.names)
      (Blames host settings request s) := by
  intro t ht
  obtain ⟨calls, out, hr, hrun⟩ := resolveAt_traces host settings request.start request.names t
  rw [hrun]
  have htracked : Tracked host s (fun _ => True) (host.made t calls) :=
    ht.weaken.append fun _ _ => trivial
  cases out with
  | ok ps =>
    cases hr with
    | found hy => exact ⟨htracked, hy.names_eq hname⟩
  | error err =>
    rw [ht.state] at hr
    refine ⟨htracked, ?_⟩
    rw [Host.made_calls]
    exact resolving_blamed rfl ht.calls hr

theorem perform_blames (hname : host.AnswersByName) (settings : Settings) (limit : Nat)
    (request : Request) (s : σ) :
    Walk.Triple (Tracked host s fun call => call.isParent = true)
      ((mk host.recording settings).perform limit request)
      (fun _ t => ∃ privileges, Tracked host s (fun _ => True) t ∧
        Suits request (request.act privileges)) (Blames host settings request s) := by
  refine perform_triple
    (J := fun privileges t => Tracked host s (fun _ => True) t ∧ Suits request (request.act privileges))
    (ready_triple (fun path hne => parentOf_blames rfl rfl (fun _ => rfl) path hne)
      fun _ _ _ ht => ⟨ht.weaken, trivial⟩)
    ((resolveAt_blames request hname).mono fun _ _ ⟨ht, hn⟩ => ⟨ht, suits_act (.inr hn)⟩)
    (fun hidle t ht => ⟨ht.weaken, suits_act (hidle.imp id Eq.symm)⟩) fun privileges way => ?_
  exact .given fun hsuits => (spread_blames limit way hsuits).mono (fun _ => id)
    (fun _ _ ht => ⟨ht, hsuits⟩) fun _ _ => id

/-- **Where errors come from**, on any host that gives descriptors under the names asked for: an error
of a request that tells of the host names a node, and what it tells is what the calls have come to. -/
theorem attributed (hname : host.AnswersByName) {limit : Nat} {s s' : σ} {path : Option String}
    {operation : Operation} {names : List String} {e : RepositoryError}
    (h : (mk host settings).perform limit request s =
      some (.error (.repositoryAccess path operation names e), s')) :
    ∃ t node, (mk host.recording settings).perform limit request { state := s } =
        some (.error (.repositoryAccess path operation names e), t) ∧
      t = host.made { state := s } t.calls ∧ t.state = s' ∧ path = some node ∧
      Attributed host settings request s t.calls node operation names e := by
  obtain ⟨t, ht, hstate⟩ := perform_recording h
  have hstart : Tracked host s (fun call => call.isParent = true) { state := s } :=
    ⟨rfl, List.forall_mem_nil _⟩
  obtain ⟨htracked, node, hpath, ha⟩ :=
    perform_blames hname settings limit request s _ _ _ hstart ht
  exact ⟨t, node, ht, htracked.made, hstate, hpath, ha⟩

/-- The folder's kind is not to be had, once the root has been written. It is the root that is told. -/
theorem attributed_failing_kind : ∃ (down : Host Repository) (r s : Repository)
    (t : Recorded Repository) (node : String),
    (mk down {}).perform 2 (.grantNamed "/" (.subtree fun _ => true) ⟨"u"⟩ ["jcr:read"]) r =
      some (.error (.repositoryAccess (some "/") .grant ["jcr:read"] (.storage "Down")), s) ∧
    t.calls.getLast?.map (·.node?) = some none ∧ some "/" = some node ∧
    Attributed down {} (.grantNamed "/" (.subtree fun _ => true) ⟨"u"⟩ ["jcr:read"]) r t.calls node
      .grant ["jcr:read"] (.storage "Down") := by
  have hname : Host.AnswersByName { Repository.host with
      kind := fun _ r => (.error (.storage "Down"), r) } := by
    intro name r p hp
    have hfind : r.findPrivilege? name = some p := Except.ok.inj hp
    unfold Repository.findPrivilege? at hfind
    have hbeq := List.find?_some hfind
    exact beq_iff_eq.1 hbeq
  have hfails : (mk { Repository.host with
        kind := fun _ r => (.error (.storage "Down"), r) } {}).perform 2
      (.grantNamed "/" (.subtree fun _ => true) ⟨"u"⟩ ["jcr:read"])
      (Repository.initial.grow "/" "/a" "folder") =
      some (.error (.repositoryAccess (some "/") .grant ["jcr:read"] (.storage "Down")), _) := rfl
  obtain ⟨t, node, ht, -, -, hnode, ha⟩ := attributed hname hfails
  cases ht
  exact ⟨_, _, _, _, node, hfails, rfl, hnode, ha⟩

end Engine
end AclTree
