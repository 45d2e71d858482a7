/-
Grants and revokes on a single node of any host, told by the lists that they
write (`Acl.granted`, `Acl.revoked`) and not by how these are come to. Nothing is
asked of the lists that the host has: entries may be of one principal, be equal
to one another, hold a privilege twice or none. A grant that succeeds has
written, also the list that it found (`Engine.grant_exact`); a revoke writes just
where an entry loses something (`Engine.revoke_exact`).
-/
import AclTree.Proofs.Acl.ClosedForms
import AclTree.Proofs.Acl.Idempotence
import AclTree.Proofs.Engine.Calls
import AclTree.Repository.Host

namespace AclTree

open Host (Call Recorded)

variable {σ : Type} {host : Host σ} {settings : Settings} {path : String} {who : Principal}
  {privileges : List Privilege} {s : σ} {t u : Recorded σ}

/-- One name is looked up by one call. -/
theorem Host.Resolving.single {fail : RepositoryError → AccessError} {name : String}
    {calls : List Call} {ps : List Privilege} (h : host.Resolving fail [name] s calls (.ok ps)) :
    ∃ p, (host.privilege name s).1 = .ok (some p) ∧ calls = [.privilege name] ∧ ps = [p] := by
  cases h with
  | found hy =>
    cases hy with
    | @cons _ _ _ p _ hp hy =>
      cases hy
      exact ⟨p, hp, rfl, rfl⟩

namespace Engine

/-- The entries that a grant adds to, and the calls for them: those of the list that it found, or, if
that has none, one that gives the administrator what the host has for the settings' privilege. -/
inductive Ground (host : Host σ) (settings : Settings) (found : Acl) (s : σ) :
    List Call → List Entry → Prop where
  | found : found.entries ≠ [] → Ground host settings found s [] found.entries
  | seeded {all : Privilege} :
      found.entries = [] → (host.privilege settings.allPrivilege s).1 = .ok (some all) →
      Ground host settings found s [.privilege settings.allPrivilege] [⟨⟨settings.admin⟩, [all]⟩]

/-- The administrator alone is given a list, and that is told, just where there was none. -/
theorem Seeding.ground {found : Acl} {calls : List Call} {seeded : Acl × Bool}
    (h : Seeding host settings path found s calls (.ok seeded)) :
    Ground host settings found s calls seeded.1.entries ∧
      ((seeded = (found, false)) ∨ (seeded.2 = true ∧ found.isEmpty = true)) := by
  cases h with
  | kept he => exact ⟨.found (by simpa [Acl.isEmpty] using he), .inl rfl⟩
  | seeded he hr =>
    obtain ⟨all, hall, rfl, rfl⟩ := hr.single
    obtain ⟨entries⟩ := found
    obtain rfl : entries = [] := List.isEmpty_iff.1 he
    exact ⟨.seeded rfl hall, .inr ⟨rfl, rfl⟩⟩

/-- What is told of a grant is whether it wrote another list than the one that it found. -/
theorem told_iff_ne (who : Principal) {found : Acl} {seeded : Acl × Bool} (hne : privileges ≠ [])
    (h : seeded = (found, false) ∨ (seeded.2 = true ∧ found.isEmpty = true)) :
    (seeded.2 || (seeded.1.add who privileges).2) = true ↔
      (seeded.1.add who privileges).1 ≠ found := by
  rcases h with rfl | ⟨htold, hempty⟩
  · exact Acl.add_changed_iff_ne found who privileges
  · refine iff_of_true (by rw [htold]; rfl) ?_
    rintro rfl
    rw [Acl.isEmpty_add _ _ hne] at hempty
    cases hempty

/-- **Exact grant**: a grant that succeeds has made one write, its last call, of the list that it found
with the privileges added: an empty list is given to the administrator first, and then the first entry
of the principal gets what it lacks, or the principal a new entry at the end. It is written also if
it is the list that was found, and just that is what the answer tells. -/
theorem grant_exact (host : Host σ) (settings : Settings) (path : String) (who : Principal)
    (privileges : List Privilege) (hne : privileges ≠ []) (t u : Recorded σ) (changed : Bool)
    (h : (mk host.recording settings).grant path who privileges t = (.ok changed, u)) :
    ∃ calls found calls' base,
      host.Candidate path t.state calls (.ok found) ∧
      Ground host settings found (host.reached t.state calls) calls' base ∧
      u = host.made t (calls ++ calls' ++ [.setPolicy path ⟨Acl.granted who privileges base⟩]) ∧
      (host.setPolicy path ⟨Acl.granted who privileges base⟩
        (host.reached t.state (calls ++ calls'))).1 = .ok () ∧
      (changed = true ↔ ⟨Acl.granted who privileges base⟩ ≠ found) := by
  obtain ⟨calls, out, hg, hrun⟩ := grant_traces host settings path who privileges t
  rw [hrun] at h
  cases hg with
  | idle hnil => exact absurd hnil hne
  | unread => cases h
  | unseeded => cases h
  | refused => cases h
  | @wrote calls calls' found acl new _ hcandidate hseed _ =>
    obtain ⟨hground, hseeded⟩ := hseed.ground
    have htold := told_iff_ne who hne hseeded
    rw [Acl.add_eq_granted acl who hne] at h htold
    cases hf : host.failure (.setPolicy path ⟨Acl.granted who privileges acl.entries⟩)
        (host.reached t.state (calls ++ calls')) with
    | some e => rw [hf] at h; cases h
    | none =>
      rw [hf] at h
      cases h
      obtain ⟨_, hwritten⟩ := Host.failed_eq_none.1 hf
      exact ⟨calls, found, calls', acl.entries, hcandidate, hground, rfl, hwritten, htold⟩

/-- The administrator is granted a repeated name on a node without a list, and keeps the descriptor
that it was given first. -/
theorem grant_exact_seeded_admin : ∃ (u : Recorded Repository) (calls : List Call) (found : Acl)
    (calls' : List Call) (base : List Entry),
    (mk Repository.host.recording {}).grant "/" ⟨"admin"⟩
      [.simple "x", .aggregate "jcr:all" [], .aggregate "x" []]
      { state := Repository.initial } = (.ok true, u) ∧
    Repository.host.Candidate "/" Repository.initial calls (.ok found) ∧
    Ground Repository.host {} found (Repository.host.reached Repository.initial calls) calls' base ∧
    Acl.granted ⟨"admin"⟩ [.simple "x", .aggregate "jcr:all" [], .aggregate "x" []] base =
      [⟨⟨"admin"⟩, [Privilege.all, .simple "x"]⟩] ∧
    ⟨Acl.granted ⟨"admin"⟩ [.simple "x", .aggregate "jcr:all" [], .aggregate "x" []] base⟩ ≠
      found := by
  have hrun : (mk Repository.host.recording {}).grant "/" ⟨"admin"⟩
      [.simple "x", .aggregate "jcr:all" [], .aggregate "x" []]
      { state := Repository.initial } = (.ok true, _) := rfl
  obtain ⟨calls, found, calls', base, hcandidate, hground, -, -, htold⟩ :=
    grant_exact _ _ _ _ _ (List.cons_ne_nil _ _) _ _ _ hrun
  refine ⟨_, calls, found, calls', base, hrun, hcandidate, hground, ?_, htold.1 rfl⟩
  cases hcandidate with
  | applied hnone => cases hnone
  | applicable hfound =>
    cases hfound
    cases hground with
    | found hentries => exact absurd rfl hentries
    | seeded _ hall =>
      cases hall
      rfl

/-- **Exact revoke**: on a node with a list, a revoke writes the list without what is taken, if an entry
of the principal loses something by it, and else writes nothing; which of the two it was, it tells.
Several bound lists are not looked at beyond the first. -/
theorem revoke_exact (host : Host σ) (settings : Settings) (path : String) (who : Principal)
    (privileges : List Privilege) (hne : privileges ≠ []) (t : Recorded σ) (bound : Acl)
    (rest : List Acl) (hbound : (host.applied path t.state).1 = .ok (bound :: rest)) :
    ((∃ e ∈ bound.entries, e.Loses who (Privilege.names privileges)) →
      settings.Allows (bound.revoked who (Privilege.names privileges)) →
      (host.setPolicy path (bound.revoked who (Privilege.names privileges))
        (host.after (.applied path) t.state)).1 = .ok () →
      (mk host.recording settings).revoke path who privileges t =
        (.ok true, host.made t [.applied path,
          .setPolicy path (bound.revoked who (Privilege.names privileges))])) ∧
    ((¬ ∃ e ∈ bound.entries, e.Loses who (Privilege.names privileges)) →
      (mk host.recording settings).revoke path who privileges t =
        (.ok false, host.made t [.applied path])) := by
  obtain ⟨calls, out, hr, hrun⟩ := revoke_traces host settings path who privileges t
  rw [hrun, ← Acl.take_changed_iff_loses, ← Acl.take_eq_revoked, ← Settings.check_eq_ok]
  cases hr with
  | idle hnil => exact absurd hnil hne
  | unread _ hout => rw [hbound] at hout; cases hout
  | unbound _ hout => rw [hbound] at hout; cases hout
  | unchanged _ hout hch =>
    rw [hbound] at hout
    cases hout
    exact ⟨fun h => absurd (hch.symm.trans h) nofun, fun _ => rfl⟩
  | refused _ hout hch hc =>
    rw [hbound] at hout
    cases hout
    exact ⟨fun _ h => absurd (hc.symm.trans h) nofun, fun h => absurd hch h⟩
  | wrote _ hout hch _ =>
    rw [hbound] at hout
    cases hout
    refine ⟨fun _ _ hwritten => ?_, fun h => absurd hch h⟩
    rw [Host.failure, Host.failed_eq_none.2 ⟨_, hwritten⟩]
    rfl

/-- Of entries with one principal and one name, and of entries with repeated privileges and with none,
what is left. -/
theorem revoke_exact_repeated_entries : ∃ (r : Repository) (bound : Acl),
    (Repository.host.applied "/" r).1 = .ok [bound] ∧
    bound.principals = ["u", "v", "u", "u", "u"] ∧
    (mk Repository.host.recording { modifyPrivilege := "b", enforce := true }).revoke "/" ⟨"u"⟩
      [.simple "a"] { state := r } =
      (.ok true, Repository.host.made { state := r } [.applied "/", .setPolicy "/"
        ⟨[⟨⟨"v"⟩, [.simple "a"]⟩, ⟨⟨"u"⟩, []⟩, ⟨⟨"u"⟩, [.simple "b"]⟩, ⟨⟨"u"⟩, [.simple "b"]⟩]⟩]) := by
  have hbound : (Repository.host.applied "/" (Repository.initial.withPolicy "/" (some
      ⟨[⟨⟨"u"⟩, [.simple "a", .simple "b", .simple "a"]⟩, ⟨⟨"v"⟩, [.simple "a"]⟩,
        ⟨⟨"u"⟩, [.aggregate "a" []]⟩, ⟨⟨"u"⟩, []⟩,
        ⟨⟨"u"⟩, [.simple "b", .simple "b", .simple "a"]⟩]⟩))).1 = .ok [_] := rfl
  exact ⟨_, _, hbound, rfl, (revoke_exact _ _ "/" ⟨"u"⟩ [.simple "a"] (List.cons_ne_nil _ _)
    { state := _ } _ [] hbound).1 ⟨_, List.mem_cons_self, rfl, "a", List.mem_cons_self,
      List.mem_cons_self⟩ (fun _ => rfl) rfl⟩

end Engine
end AclTree
