/-
What work on single nodes asks of a host, call by call, whatever the host
answers and wherever it fails. For each piece of work a relation tells from
which state which calls are made and what comes of them, and on the recorded
host the work runs in one of these ways (`Host.Traces`). What is to be said of
single nodes on any host is read off these relations.
-/
import AclTree.Proofs.Host.Calls

namespace AclTree

variable {ε σ α : Type}

/-- The work makes calls and comes to an outcome in one of the ways that `R` has from the state. -/
def Host.Traces (host : Host σ) (R : σ → List Host.Call → Except ε α → Prop)
    (x : ExceptT ε (StateM (Host.Recorded σ)) α) : Prop :=
  ∀ t, ∃ calls out, R t.state calls out ∧ x t = (out, host.made t calls)

/-- What is told of calls at a node of which the last may have failed. -/
def Engine.told (path : String) (operation : Operation) (names : List String) (a : α) :
    Option RepositoryError → Except AccessError α
  | none => .ok a
  | some e => .error (.repositoryAccess path operation names e)

theorem Engine.told_eq_error {path : String} {operation : Operation} {names : List String} {a : α}
    {failure : Option RepositoryError} {err : AccessError}
    (h : Engine.told path operation names a failure = .error err) :
    ∃ e, failure = some e ∧ err = .repositoryAccess path operation names e := by
  cases failure with
  | none => cases h
  | some e => exact ⟨e, rfl, (Except.error.inj h).symm⟩

/-- The lookup of one name, with the way in which its failure is told. -/
def Engine.lookup (host : Host σ) (fail : RepositoryError → AccessError) (name : String) :
    Action σ Privilege := do
  match ← ExceptT.adapt fail (host.privilege name) with
  | some p => pure p
  | none => throw (.unknownPrivilege name)

open Host (Call Recorded)

section Lookup

variable {host : Host σ} {fail : RepositoryError → AccessError} {name : String} {s : σ}

theorem Host.adapt_privilege_run {out : Except RepositoryError (Option Privilege)}
    (h : (host.privilege name s).1 = out) :
    ExceptT.adapt fail (host.privilege name) s =
      (out.mapError fail, host.after (.privilege name) s) := by
  rw [Action.adapt_run, h]
  rfl

theorem Engine.lookup_found {p : Privilege} (h : (host.privilege name s).1 = .ok (some p)) :
    Engine.lookup host fail name s = (.ok p, host.after (.privilege name) s) :=
  Action.bind_ok (Host.adapt_privilege_run h)

theorem Engine.lookup_unknown (h : (host.privilege name s).1 = .ok none) :
    Engine.lookup host fail name s =
      (.error (.unknownPrivilege name), host.after (.privilege name) s) :=
  Action.bind_ok (Host.adapt_privilege_run h)

theorem Engine.lookup_failed {e : RepositoryError} (h : (host.privilege name s).1 = .error e) :
    Engine.lookup host fail name s = (.error (fail e), host.after (.privilege name) s) :=
  Action.bind_error (Host.adapt_privilege_run h)

end Lookup

/-! ## Lists of a node -/

namespace Host

variable (host : Host σ)

/-- The calls for the list that a grant starts from. -/
inductive Candidate (path : String) (s : σ) : List Call → Except RepositoryError Acl → Prop where
  | applicable {acl : Acl} {rest : List Acl} :
      (host.applicable path s).1 = .ok (acl :: rest) →
      Candidate path s [.applicable path] (.ok acl)
  | applicableFailed {e : RepositoryError} :
      (host.applicable path s).1 = .error e → Candidate path s [.applicable path] (.error e)
  | applied {acl : Acl} {rest : List Acl} :
      (host.applicable path s).1 = .ok [] →
      (host.applied path (host.after (.applicable path) s)).1 = .ok (acl :: rest) →
      Candidate path s [.applicable path, .applied path] (.ok acl)
  | appliedFailed {e : RepositoryError} :
      (host.applicable path s).1 = .ok [] →
      (host.applied path (host.after (.applicable path) s)).1 = .error e →
      Candidate path s [.applicable path, .applied path] (.error e)
  | nothing :
      (host.applicable path s).1 = .ok [] →
      (host.applied path (host.after (.applicable path) s)).1 = .ok [] →
      Candidate path s [.applicable path, .applied path] (.error (.noPolicyCandidate path))

theorem candidate_traces (path : String) :
    host.Traces (host.Candidate path) (host.recording.candidate path) := by
  intro t
  have happlicable : host.recording.applicable path t =
      ((host.applicable path t.state).1, host.made t [.applicable path]) := rfl
  have happlied : host.recording.applied path (host.made t [.applicable path]) =
      ((host.applied path (host.after (.applicable path) t.state)).1,
        host.made t [.applicable path, .applied path]) := rfl
  unfold Host.candidate
  rcases hout : (host.applicable path t.state).1 with e | _ | ⟨acl, rest⟩ <;>
    rw [hout] at happlicable
  · exact ⟨_, _, .applicableFailed hout, Action.bind_error happlicable⟩
  · rcases hout' : (host.applied path (host.after (.applicable path) t.state)).1 with
      e | _ | ⟨acl, rest⟩ <;> rw [hout'] at happlied
    · exact ⟨_, _, .appliedFailed hout hout',
        (Action.bind_ok happlicable).trans (Action.bind_error happlied)⟩
    · exact ⟨_, _, .nothing hout hout', (Action.bind_ok happlicable).trans (Action.bind_ok happlied)⟩
    · exact ⟨_, _, .applied hout hout', (Action.bind_ok happlicable).trans (Action.bind_ok happlied)⟩
  · exact ⟨_, _, .applicable hout, Action.bind_ok happlicable⟩

/-! ## Names of privileges -/

/-- From the state on, the host has a descriptor for each of the names. -/
inductive Yields : σ → List String → List Privilege → Prop where
  | nil {s : σ} : Yields s [] []
  | cons {s : σ} {name : String} {rest : List String} {p : Privilege} {ps : List Privilege} :
      (host.privilege name s).1 = .ok (some p) → Yields (host.after (.privilege name) s) rest ps →
      Yields s (name :: rest) (p :: ps)

/-- The lookups of names, one after the other, up to the first that there is no descriptor of. `fail`
tells of a lookup that failed. -/
inductive Resolving (fail : RepositoryError → AccessError) (names : List String) (s : σ) :
    List Call → Except AccessError (List Privilege) → Prop where
  | found {ps : List Privilege} :
      host.Yields s names ps → Resolving fail names s (names.map .privilege) (.ok ps)
  | unknown {before left : List String} {name : String} {ps : List Privilege} :
      names = before ++ name :: left → host.Yields s before ps →
      (host.privilege name (host.reached s (before.map .privilege))).1 = .ok none →
      Resolving fail names s ((before ++ [name]).map .privilege) (.error (.unknownPrivilege name))
  | failed {before left : List String} {name : String} {ps : List Privilege} {e : RepositoryError} :
      names = before ++ name :: left → host.Yields s before ps →
      (host.privilege name (host.reached s (before.map .privilege))).1 = .error e →
      Resolving fail names s ((before ++ [name]).map .privilege) (.error (fail e))

variable {host}

/-- After a name that was found, the others are looked up. -/
theorem Resolving.cons {fail : RepositoryError → AccessError} {name : String} {names : List String}
    {s : σ} {p : Privilege} {calls : List Call} {out : Except AccessError (List Privilege)}
    (hp : (host.privilege name s).1 = .ok (some p))
    (h : host.Resolving fail names (host.after (.privilege name) s) calls out) :
    host.Resolving fail (name :: names) s (.privilege name :: calls) (out.map (p :: ·)) := by
  cases h with
  | found hy => exact .found (.cons hp hy)
  | @unknown before left _ _ hn hy hnone =>
    have hn' : name :: names = (name :: before) ++ _ :: left := congrArg (name :: ·) hn
    exact .unknown hn' (.cons hp hy) hnone
  | @failed before left _ _ _ hn hy he =>
    have hn' : name :: names = (name :: before) ++ _ :: left := congrArg (name :: ·) hn
    exact .failed hn' (.cons hp hy) he

variable (host)

/-- Names are looked up as `Resolving` tells, also by a `fail` that knows more names than these. -/
theorem mapM_resolving (fail : RepositoryError → AccessError) (names : List String) :
    host.Traces (host.Resolving fail names)
      (names.mapM (Engine.lookup host.recording fail)) := by
  induction names with
  | nil => exact fun t => ⟨[], .ok [], .found .nil, rfl⟩
  | cons name rest ih =>
    intro t
    rw [List.mapM_cons]
    have hsplit : name :: rest = [] ++ name :: rest := rfl
    rcases hout : (host.recording.privilege name t).1 with e | _ | p
    · exact ⟨_, _, .failed hsplit .nil hout, Action.bind_error (Engine.lookup_failed hout)⟩
    · exact ⟨_, _, .unknown hsplit .nil hout, Action.bind_error (Engine.lookup_unknown hout)⟩
    · obtain ⟨calls, out, hr, hrest⟩ := ih (host.made t [.privilege name])
      refine ⟨_, _, .cons hout hr, (Action.bind_ok (Engine.lookup_found hout)).trans ?_⟩
      refine (Action.bind_run _ _ (host.made t [.privilege name])).trans ?_
      rw [hrest]
      cases out <;> rfl

/-! ## Calls in a row -/

/-- The planned calls, made for a node in order up to the first failure. What is told of them if all
succeed is left open. -/
def Sweeping (path : String) (operation : Operation) (names : List String)
    (planned : List Call) (s : σ) (calls : List Call) (out : Except AccessError α) : Prop :=
  ∃ failure a, host.Sweep s planned calls failure ∧ out = Engine.told path operation names a failure

theorem filterAuxM_sweeping (path : String) (operation : Operation) (names : List String)
    (accepts : String → Bool) (children kept : List String) :
    host.Traces (host.Sweeping path operation names (children.map .kind))
      (List.filterAuxM (fun child => do
        let kind ← Engine.access path operation names (host.recording.kind child)
        pure (accepts kind)) children kept) := by
  induction children generalizing kept with
  | nil => exact fun t => ⟨[], .ok kept, ⟨none, kept, .done, rfl⟩, rfl⟩
  | cons child rest ih =>
    intro t
    have hcall : host.recording.kind child t =
        ((host.kind child t.state).1, host.made t [.kind child]) := rfl
    rcases hout : (host.kind child t.state).1 with e | kind <;> rw [hout] at hcall
    · exact ⟨_, _, ⟨some e, kept, .stop (failed_eq_some.2 hout), rfl⟩,
        Action.bind_error (Action.bind_error (Engine.access_error hcall))⟩
    · obtain ⟨calls, out, ⟨failure, left, hs, hout'⟩, hrest⟩ :=
        ih (cond (accepts kind) (child :: kept) kept) (host.made t [.kind child])
      have hhead : (Engine.access path operation names (host.recording.kind child) >>=
          fun kind => pure (accepts kind)) t = (.ok (accepts kind), host.made t [.kind child]) :=
        Action.bind_ok (Engine.access_ok hcall)
      exact ⟨_, _, ⟨failure, left, .next (failed_eq_none.2 ⟨kind, hout⟩) hs, hout'⟩,
        (Action.bind_ok hhead).trans hrest⟩

theorem forM_sweeping (path : String) (bound : List Acl) :
    host.Traces (host.Sweeping path .clear [] (bound.map (.removePolicy path)))
      (bound.forM fun acl => Engine.access path .clear [] (host.recording.removePolicy path acl)) := by
  induction bound with
  | nil => exact fun t => ⟨[], .ok (), ⟨none, (), .done, rfl⟩, rfl⟩
  | cons acl rest ih =>
    intro t
    have hcall : host.recording.removePolicy path acl t =
        ((host.removePolicy path acl t.state).1, host.made t [.removePolicy path acl]) := rfl
    rcases hout : (host.removePolicy path acl t.state).1 with e | _ <;> rw [hout] at hcall
    · exact ⟨_, _, ⟨some e, (), .stop (failed_eq_some.2 hout), rfl⟩,
        Action.bind_error (Engine.access_error hcall)⟩
    · obtain ⟨calls, out, ⟨failure, _, hs, hout'⟩, hrest⟩ := ih (host.made t [.removePolicy path acl])
      exact ⟨_, _, ⟨failure, (), .next (failed_eq_none.2 ⟨_, hout⟩) hs, hout'⟩,
        (Action.bind_ok (Engine.access_ok hcall)).trans hrest⟩

end Host

/-! ## The engine -/

namespace Engine

variable (host : Host σ) (settings : Settings)

/-- The lookup of a node's parent. -/
inductive Rising (operation : Operation) (names : List String) (path : String) (s : σ) :
    List Call → Except AccessError String → Prop where
  | found {parent : String} :
      (host.parent path s).1 = .ok (some parent) →
      Rising operation names path s [.parent path] (.ok parent)
  | failed {e : RepositoryError} :
      (host.parent path s).1 = .error e →
      Rising operation names path s [.parent path]
        (.error (.repositoryAccess path operation names e))
  | none :
      (host.parent path s).1 = .ok none →
      Rising operation names path s [.parent path]
        (.error (.repositoryAccess path operation names (.invalidPath path)))

/-- The children of a node and then their kinds. Which of them are kept is not told. -/
inductive Listing (operation : Operation) (names : List String) (path : String) (s : σ) :
    List Call → Except AccessError (List String) → Prop where
  | failed {e : RepositoryError} :
      (host.children path s).1 = .error e →
      Listing operation names path s [.children path]
        (.error (.repositoryAccess path operation names e))
  | swept {children kept : List String} {calls : List Call} {failure : Option RepositoryError} :
      (host.children path s).1 = .ok children →
      host.Sweep (host.after (.children path) s) (children.map .kind) calls failure →
      Listing operation names path s (.children path :: calls)
        (told path operation names kept failure)

/-- A list without entries is given to the administrator, whose privilege is looked up for it. -/
inductive Seeding (path : String) (acl : Acl) (s : σ) :
    List Call → Except AccessError (Acl × Bool) → Prop where
  | kept : acl.isEmpty = false → Seeding path acl s [] (.ok (acl, false))
  | seeded {calls : List Call} {all : List Privilege} :
      acl.isEmpty = true →
      host.Resolving (.repositoryAccess (some path) .resolve [settings.allPrivilege])
        [settings.allPrivilege] s calls (.ok all) →
      Seeding path acl s calls (.ok (acl.add ⟨settings.admin⟩ all))
  | failed {calls : List Call} {err : AccessError} :
      acl.isEmpty = true →
      host.Resolving (.repositoryAccess (some path) .resolve [settings.allPrivilege])
        [settings.allPrivilege] s calls (.error err) →
      Seeding path acl s calls (.error err)

/-- The calls of a grant: for the list, for the administrator's privilege, and the write. -/
inductive Granting (path : String) (who : Principal) (privileges : List Privilege) (s : σ) :
    List Call → Except AccessError Bool → Prop where
  | idle : privileges = [] → Granting path who privileges s [] (.ok false)
  | unread {calls : List Call} {e : RepositoryError} :
      privileges ≠ [] → host.Candidate path s calls (.error e) →
      Granting path who privileges s calls
        (.error (.repositoryAccess path .grant (Privilege.names privileges) e))
  | unseeded {calls calls' : List Call} {found : Acl} {err : AccessError} :
      privileges ≠ [] → host.Candidate path s calls (.ok found) →
      Seeding host settings path found (host.reached s calls) calls' (.error err) →
      Granting path who privileges s (calls ++ calls') (.error err)
  | refused {calls calls' : List Call} {found acl : Acl} {new : Bool} {err : AccessError} :
      privileges ≠ [] → host.Candidate path s calls (.ok found) →
      Seeding host settings path found (host.reached s calls) calls' (.ok (acl, new)) →
      settings.check (acl.add who privileges).1 = .error err →
      Granting path who privileges s (calls ++ calls') (.error err)
  | wrote {calls calls' : List Call} {found acl : Acl} {new : Bool} :
      privileges ≠ [] → host.Candidate path s calls (.ok found) →
      Seeding host settings path found (host.reached s calls) calls' (.ok (acl, new)) →
      settings.check (acl.add who privileges).1 = .ok () →
      Granting path who privileges s
        (calls ++ calls' ++ [.setPolicy path (acl.add who privileges).1])
        (told path .grant (Privilege.names privileges) (new || (acl.add who privileges).2)
          (host.failure (.setPolicy path (acl.add who privileges).1)
            (host.reached s (calls ++ calls'))))

/-- The calls of a revoke: for the list, and the write if there is something to take. -/
inductive Revoking (path : String) (who : Principal) (privileges : List Privilege) (s : σ) :
    List Call → Except AccessError Bool → Prop where
  | idle : privileges = [] → Revoking path who privileges s [] (.ok false)
  | unread {e : RepositoryError} :
      privileges ≠ [] → (host.applied path s).1 = .error e →
      Revoking path who privileges s [.applied path]
        (.error (.repositoryAccess path .revoke (Privilege.names privileges) e))
  | unbound :
      privileges ≠ [] → (host.applied path s).1 = .ok [] →
      Revoking path who privileges s [.applied path] (.ok false)
  | unchanged {bound : Acl} {rest : List Acl} :
      privileges ≠ [] → (host.applied path s).1 = .ok (bound :: rest) →
      (bound.take who privileges).2 = false →
      Revoking path who privileges s [.applied path] (.ok false)
  | refused {bound : Acl} {rest : List Acl} {err : AccessError} :
      privileges ≠ [] → (host.applied path s).1 = .ok (bound :: rest) →
      (bound.take who privileges).2 = true →
      settings.check (bound.take who privileges).1 = .error err →
      Revoking path who privileges s [.applied path] (.error err)
  | wrote {bound : Acl} {rest : List Acl} :
      privileges ≠ [] → (host.applied path s).1 = .ok (bound :: rest) →
      (bound.take who privileges).2 = true →
      settings.check (bound.take who privileges).1 = .ok () →
      Revoking path who privileges s [.applied path, .setPolicy path (bound.take who privileges).1]
        (told path .revoke (Privilege.names privileges) true
          (host.failure (.setPolicy path (bound.take who privileges).1)
            (host.after (.applied path) s)))

/-- The calls of a clear: for the lists, and then to unbind them. -/
inductive Clearing (path : String) (s : σ) : List Call → Except AccessError Bool → Prop where
  | unread {e : RepositoryError} :
      (host.applied path s).1 = .error e →
      Clearing path s [.applied path] (.error (.repositoryAccess path .clear [] e))
  | swept {bound : List Acl} {calls : List Call} {failure : Option RepositoryError} :
      (host.applied path s).1 = .ok bound →
      host.Sweep (host.after (.applied path) s) (bound.map (.removePolicy path)) calls failure →
      Clearing path s (.applied path :: calls) (told path .clear [] (!bound.isEmpty) failure)

theorem resolveAt_traces (path : String) (names : List String) :
    host.Traces (host.Resolving (.repositoryAccess (some path) .resolve names) names)
      ((mk host.recording settings).resolveAt path names) := by
  intro t
  obtain ⟨calls, out, hr, hrun⟩ :=
    host.mapM_resolving (.repositoryAccess none .resolve names) names t
  refine ⟨calls, out.mapError (.atPath path), ?_, ?_⟩
  · cases hr with
    | found hy => exact .found hy
    | unknown hn hy hnone => exact .unknown hn hy hnone
    | failed hn hy he => exact .failed hn hy he
  · exact congrArg (fun run => (run.1.mapError (AccessError.atPath path), run.2)) hrun

theorem Rising.run {operation : Operation} {names : List String} {path : String} {t : Recorded σ}
    {calls : List Call} {out : Except AccessError String}
    (h : Rising host operation names path t.state calls out) :
    (mk host.recording settings).parentOf operation names path t = (out, host.made t calls) := by
  have hcall : host.recording.parent path t =
      ((host.parent path t.state).1, host.made t [.parent path]) := rfl
  cases h with
  | found hout => rw [hout] at hcall; exact Action.bind_ok (access_ok hcall)
  | failed hout => rw [hout] at hcall; exact Action.bind_error (access_error hcall)
  | none hout => rw [hout] at hcall; exact Action.bind_ok (access_ok hcall)

theorem parentOf_traces (operation : Operation) (names : List String) (path : String) :
    host.Traces (Rising host operation names path)
      ((mk host.recording settings).parentOf operation names path) := by
  intro t
  rcases hout : (host.parent path t.state).1 with e | _ | parent
  · exact ⟨_, _, .failed hout, Rising.run host settings (.failed hout)⟩
  · exact ⟨_, _, .none hout, Rising.run host settings (.none hout)⟩
  · exact ⟨_, _, .found hout, Rising.run host settings (.found hout)⟩

theorem matchingChildren_traces (operation : Operation) (names : List String)
    (accepts : String → Bool) (path : String) :
    host.Traces (Listing host operation names path)
      ((mk host.recording settings).matchingChildren operation names accepts path) := by
  intro t
  have hcall : host.recording.children path t =
      ((host.children path t.state).1, host.made t [.children path]) := rfl
  rcases hout : (host.children path t.state).1 with e | children <;> rw [hout] at hcall
  · exact ⟨_, _, .failed hout, Action.bind_error (access_error hcall)⟩
  obtain ⟨calls, out, ⟨failure, kept, hs, rfl⟩, hrun⟩ := host.filterAuxM_sweeping path
    operation names accepts children [] (host.made t [.children path])
  have hlisting : Listing host operation names path t.state (.children path :: calls)
      (told path operation names kept.reverse failure) := .swept hout hs
  refine ⟨_, _, hlisting, (Action.bind_ok (access_ok hcall)).trans ?_⟩
  unfold List.filterM
  rw [Action.bind_run, hrun]
  cases failure <;> rfl

theorem seed_traces (path : String) (acl : Acl) :
    host.Traces (Seeding host settings path acl) ((mk host.recording settings).seed path acl) := by
  intro t
  unfold seed
  by_cases he : acl.isEmpty = true
  · obtain ⟨calls, out, hr, hrun⟩ :=
      resolveAt_traces host settings path [settings.allPrivilege] t
    rw [if_pos he]
    cases out with
    | error err => exact ⟨calls, _, .failed he hr, Action.bind_error hrun⟩
    | ok all => exact ⟨calls, _, .seeded he hr, Action.bind_ok hrun⟩
  · rw [if_neg he]
    exact ⟨[], _, .kept (Bool.not_eq_true _ ▸ he), rfl⟩

section Writes

variable {settings} {acl : Acl}

theorem checkConsistency_eq {τ : Type} (host : Host τ) {out : Except AccessError Unit}
    (hc : settings.check acl = out) (t : τ) :
    (mk host settings).checkConsistency acl t = (out, t) := by
  rw [checkConsistency_run, hc]

/-- A list that passes the check is written. -/
theorem checked_write_run (path : String) (operation : Operation) (names : List String)
    (changed : Bool) (t : Recorded σ) (hc : settings.check acl = .ok ()) :
    (do
      (mk host.recording settings).checkConsistency acl
      access path operation names (host.recording.setPolicy path acl)
      pure changed : Action (Recorded σ) Bool) t =
      (told path operation names changed (host.failure (.setPolicy path acl) t.state),
        host.made t [.setPolicy path acl]) := by
  have hcall : host.recording.setPolicy path acl t =
      ((host.setPolicy path acl t.state).1, host.made t [.setPolicy path acl]) := rfl
  rw [Action.bind_ok (checkConsistency_eq host.recording hc t), Host.failure]
  rcases hout : (host.setPolicy path acl t.state).1 with e | _ <;> rw [hout] at hcall
  · exact Action.bind_error (access_error hcall)
  · exact Action.bind_ok (access_ok hcall)

end Writes

theorem grant_traces (path : String) (who : Principal) (privileges : List Privilege) :
    host.Traces (Granting host settings path who privileges)
      ((mk host.recording settings).grant path who privileges) := by
  intro t
  unfold grant
  by_cases hne : privileges = []
  · rw [hne, if_pos List.isEmpty_nil]
    exact ⟨[], _, .idle rfl, rfl⟩
  rw [if_neg (by simpa using hne)]
  obtain ⟨calls, found, hcandidate, hrun⟩ := host.candidate_traces path t
  cases found with
  | error e => exact ⟨calls, _, .unread hne hcandidate, Action.bind_error (access_error hrun)⟩
  | ok found =>
  obtain ⟨calls', seeded, hseed, hrun'⟩ := seed_traces host settings path found (host.made t calls)
  rw [Host.made_state] at hseed
  rw [← Host.made_append] at hrun'
  rw [Action.bind_ok (access_ok hrun)]
  cases seeded with
  | error err => exact ⟨_, _, .unseeded hne hcandidate hseed, Action.bind_error hrun'⟩
  | ok seeded =>
  rw [Action.bind_ok hrun']
  cases hc : settings.check (seeded.1.add who privileges).1 with
  | error err =>
    exact ⟨_, _, .refused hne hcandidate hseed hc,
      Action.bind_error (checkConsistency_eq host.recording hc _)⟩
  | ok _ =>
    have hwrite := checked_write_run host path .grant (Privilege.names privileges)
      (seeded.2 || (seeded.1.add who privileges).2) (host.made t (calls ++ calls')) hc
    rw [Host.made_state, ← Host.made_append] at hwrite
    exact ⟨_, _, .wrote hne hcandidate hseed hc, hwrite⟩

theorem revoke_traces (path : String) (who : Principal) (privileges : List Privilege) :
    host.Traces (Revoking host settings path who privileges)
      ((mk host.recording settings).revoke path who privileges) := by
  intro t
  unfold revoke
  by_cases hne : privileges = []
  · rw [hne, if_pos List.isEmpty_nil]
    exact ⟨[], _, .idle rfl, rfl⟩
  rw [if_neg (by simpa using hne)]
  have hcall : host.recording.applied path t =
      ((host.applied path t.state).1, host.made t [.applied path]) := rfl
  rcases hout : (host.applied path t.state).1 with e | _ | ⟨bound, rest⟩ <;> rw [hout] at hcall
  · exact ⟨_, _, .unread hne hout, Action.bind_error (access_error hcall)⟩
  · exact ⟨_, _, .unbound hne hout, Action.bind_ok (access_ok hcall)⟩
  rw [Action.bind_ok (access_ok hcall)]
  dsimp only
  cases hch : (bound.take who privileges).2 with
  | false => exact ⟨_, _, .unchanged hne hout hch, rfl⟩
  | true =>
  rw [if_pos rfl]
  cases hc : settings.check (bound.take who privileges).1 with
  | error err =>
    exact ⟨_, _, .refused hne hout hch hc, Action.bind_error (checkConsistency_eq host.recording hc _)⟩
  | ok _ =>
    exact ⟨_, _, .wrote hne hout hch hc,
      checked_write_run host path .revoke _ _ (host.made t [.applied path]) hc⟩

theorem clear_traces (path : String) :
    host.Traces (Clearing host path) ((mk host.recording settings).clear path) := by
  intro t
  have hcall : host.recording.applied path t =
      ((host.applied path t.state).1, host.made t [.applied path]) := rfl
  rcases hout : (host.applied path t.state).1 with e | bound <;> rw [hout] at hcall
  · exact ⟨_, _, .unread hout, Action.bind_error (access_error hcall)⟩
  obtain ⟨calls, out, ⟨failure, _, hs, rfl⟩, hrun⟩ :=
    host.forM_sweeping path bound (host.made t [.applied path])
  refine ⟨_, _, .swept hout hs, (Action.bind_ok (access_ok hcall)).trans ?_⟩
  rw [Action.bind_run, hrun]
  cases failure <;> rfl

end Engine
end AclTree
