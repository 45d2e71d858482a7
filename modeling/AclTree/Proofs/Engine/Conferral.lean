/-
What a grant lets a principal do: which names its first entry grants once the
list is written. The descriptors that were given do not all come to be there,
for one that has the name of another is dropped for it (`Privilege.Kept`), and
with it what it alone implies (`Engine.grant_confers`).
-/
import AclTree.Proofs.Acl.Kept
import AclTree.Proofs.Engine.Exact
import AclTree.Proofs.Repository.Live

namespace AclTree.Engine

open Host (Call Recorded)
open Privilege (Kept)

variable {σ : Type}

/-- The name is granted, or the descriptor that implies it was dropped for one that does not. -/
theorem grants_or_dropped {who : Principal} {privileges : List Privilege} {base : List Entry}
    {e : Entry} (he : Acl.entryFor ⟨Acl.granted who privileges base⟩ who.name = some e)
    {p : Privilege} (hp : p ∈ privileges) (name : String) :
    e.grants name = true ∨ ∃ q, Kept (Acl.firstHeld ⟨base⟩ who.name) privileges q ∧
      q.name = p.name ∧ q.implies name = false := by
  obtain ⟨q, hq, hname⟩ := Privilege.exists_kept (Acl.firstHeld ⟨base⟩ who.name)
    (.inr (List.mem_map_of_mem hp))
  cases hqi : q.implies name with
  | true => exact .inl ((Acl.grants_granted he).2 ⟨q, hq, hqi⟩)
  | false => exact .inr ⟨q, hq, hname, hqi⟩

theorem grants_name {who : Principal} {privileges : List Privilege} {base : List Entry}
    {e : Entry} (he : Acl.entryFor ⟨Acl.granted who privileges base⟩ who.name = some e)
    {p : Privilege} (hp : p ∈ privileges) : e.grants p.name = true := by
  obtain ⟨q, hq, hname⟩ := Privilege.exists_kept (Acl.firstHeld ⟨base⟩ who.name)
    (.inr (List.mem_map_of_mem hp))
  exact (Acl.grants_granted he).2 ⟨q, hq, hname ▸ q.implies_name⟩

/-- **What a grant confers**: after a grant that succeeds, the principal's first entry in the list that
was written grants just the names that the kept descriptors imply. Every name that was given is
among them. What else a given descriptor implies is missing only if that was dropped for one of the
same name, held before or given earlier, which does not imply it. -/
theorem grant_confers (host : Host σ) (settings : Settings) (path : String) (who : Principal)
    (privileges : List Privilege) (hne : privileges ≠ []) (t u : Recorded σ) (changed : Bool)
    (h : (mk host.recording settings).grant path who privileges t = (.ok changed, u)) :
    ∃ calls found calls' base written e,
      host.Candidate path t.state calls (.ok found) ∧
      Ground host settings found (host.reached t.state calls) calls' base ∧
      u = host.made t (calls ++ calls' ++ [.setPolicy path written]) ∧
      written.entryFor who.name = some e ∧
      (∀ name, e.grants name = true ↔
        ∃ p, Kept (Acl.firstHeld ⟨base⟩ who.name) privileges p ∧ p.implies name = true) ∧
      ∀ p ∈ privileges, e.grants p.name = true ∧ ∀ name, p.implies name = true →
        e.grants name = true ∨ ∃ q, Kept (Acl.firstHeld ⟨base⟩ who.name) privileges q ∧
          q.name = p.name ∧ q.implies name = false := by
  obtain ⟨calls, out, hg, hrun⟩ := grant_traces host settings path who privileges t
  rw [hrun] at h
  obtain ⟨hout, rfl⟩ := Prod.mk.inj h
  cases hg with
  | idle hnil => exact absurd hnil hne
  | unread => cases hout
  | unseeded => cases hout
  | refused => cases hout
  | @wrote calls calls' found acl new _ hcandidate hseed _ =>
    have hentry := Acl.entryFor_granted who privileges acl.entries
    rw [Acl.add_eq_granted acl who hne]
    exact ⟨calls, found, calls', acl.entries, _, _, hcandidate, hseed.ground.1, rfl, hentry,
      fun _ => Acl.grants_granted hentry,
      fun p hp => ⟨grants_name hentry hp, fun name _ => grants_or_dropped hentry hp name⟩⟩

/-- The aggregate that is given under a held name is dropped, and of what is given twice the first is
kept. -/
theorem grant_confers_beside_held : ∃ (r : Repository) (u : Recorded Repository) (written : Acl)
    (e : Entry),
    r.policyAt "/" = some ⟨[⟨⟨"u"⟩, [.simple "own"]⟩]⟩ ∧
    (mk Repository.host.recording {}).grant "/" ⟨"u"⟩
      [.aggregate "own" [.simple "part"], .aggregate "x" [.simple "y"], .simple "x"]
      { state := r } = (.ok true, u) ∧
    u.calls = [.applicable "/", .applied "/", .setPolicy "/" written] ∧
    written.entryFor "u" = some e ∧
    e.grants "own" = true ∧ e.grants "y" = true ∧ e.grants "part" = false := by
  have hrun : (mk Repository.host.recording {}).grant "/" ⟨"u"⟩
      [.aggregate "own" [.simple "part"], .aggregate "x" [.simple "y"], .simple "x"]
      { state := Repository.initial.withPolicy "/" (some ⟨[⟨⟨"u"⟩, [.simple "own"]⟩]⟩) } =
        (.ok true, _) := rfl
  obtain ⟨calls, found, calls', base, written, e, hcandidate, hground, hu, he, hgrants, hgiven⟩ :=
    grant_confers _ _ _ _ _ (List.cons_ne_nil _ _) _ _ _ hrun
  cases hcandidate with
  | applicable hfound => cases hfound
  | applied hnone hfound =>
    cases hfound
    cases hground with
    | seeded hentries => cases hentries
    | found _ =>
      have hcalls := congrArg Recorded.calls hu
      have hown := (hgiven (.aggregate "own" [.simple "part"]) List.mem_cons_self).1
      refine ⟨_, _, written, e, rfl, hrun, hcalls, he, hown, ?_, ?_⟩
      · exact (hgrants "y").2 ⟨.aggregate "x" [.simple "y"],
          .first [.aggregate "own" [.simple "part"]] rfl (by decide) (by decide), rfl⟩
      · rw [← Bool.not_eq_true, hgrants]
        rintro ⟨p, hp, hi⟩
        have hkept : p ∈ [Privilege.simple "own", .aggregate "x" [.simple "y"]] :=
          Privilege.mem_merge.2 hp
        rcases List.mem_pair.1 hkept with rfl | rfl <;> cases hi

/-- A folder whose list only "u" is on, with a privilege of one name. -/
def owned : Fixture where
  privileges := [{ name := "own" }]
  nodes := [{ path := "/a", kind := "folder", acl := [⟨"u", ["own"]⟩] }]

/-- The privilege to change access control is given inside a descriptor of the held name, and not
granted: the list stays frozen. -/
theorem grant_drops_constituents : ∃ (r s : Repository) (acl : Acl) (e : Entry),
    owned.load = .ok r ∧
    r.perform {} (.grant "/a" ⟨"u"⟩
      [.aggregate "own" [.simple "jcr:modifyAccessControl"], .simple "jcr:read"]) =
        some (.ok true, s) ∧
    s.policyAt "/a" = some acl ∧ acl.entryFor "u" = some e ∧
    (Privilege.aggregate "own" [.simple "jcr:modifyAccessControl"]).implies
      "jcr:modifyAccessControl" = true ∧
    e.grants "jcr:modifyAccessControl" = false ∧
    acl.checkNotFrozen "jcr:modifyAccessControl" = .error (.frozenAcl ["u"]) :=
  ⟨_, _, _, _, rfl, rfl, rfl, rfl, rfl, rfl, rfl⟩

end AclTree.Engine
