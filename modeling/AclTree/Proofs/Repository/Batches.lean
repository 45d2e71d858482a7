/-
Granting or revoking in two steps or in one, where frozen lists are not refused.
Two grants succeed together exactly if one grant of both lists does, and leave
what it leaves (`grant_append_eq_ok`): the administrator is put on a list without
entries by the first of them only. Revokes do as well where the principal has one
entry at most.
-/
import AclTree.Proofs.Acl.Batches
import AclTree.Proofs.Acl.Idempotence
import AclTree.Proofs.Repository.Outcomes

namespace AclTree.Repository

variable {r s : Repository} {settings : Settings} {path : String}

theorem edit_grant_append_eq_ok (hlenient : settings.enforce = false)
    (hc : r.contains path = true) (who : Principal) (first second : List Privilege) {changed : Bool} :
    r.edit settings (.grant who (first ++ second)) path = (.ok changed, s) ↔
      ∃ now later t, r.edit settings (.grant who first) path = (.ok now, t) ∧
        t.edit settings (.grant who second) path = (.ok later, s) ∧ changed = (now || later) := by
  by_cases hfirst : first = []
  · have hvoid : r.edit settings (.grant who []) path = (.ok false, r) := edit_void rfl
    rw [hfirst, List.nil_append, hvoid]
    constructor
    · exact fun h => ⟨false, changed, r, rfl, h, rfl⟩
    · rintro ⟨_, later, _, ⟨⟩, h, rfl⟩
      exact h
  have hboth : first ++ second ≠ [] := List.append_ne_nil_of_left_ne_nil hfirst second
  rcases base_or_unseeded r settings path with ⟨base, hb⟩ | ⟨hempty, hnone⟩
  · have hone := edit_grant_lenient hfirst hc hlenient hb who
    have hall := edit_grant_lenient hboth hc hlenient hb who
    -- The second grant finds the list of the first one, which has entries.
    have htwo := edit_grant_bound hlenient (policyAt_bound hc (Acl.add ⟨base⟩ who first).1)
      (by simpa [Acl.isEmpty] using Acl.isEmpty_add ⟨base⟩ who hfirst) who second
    rw [withPolicy_withPolicy] at htwo
    rw [Acl.add_append, ← Bool.or_assoc] at hall
    rw [hone, hall]
    constructor
    · intro h
      cases h
      exact ⟨_, _, _, rfl, htwo, rfl⟩
    · rintro ⟨_, _, _, ⟨⟩, h, rfl⟩
      rw [htwo] at h
      cases h
      rfl
  · rw [edit_grant_unseeded hboth hc hempty hnone, edit_grant_unseeded hfirst hc hempty hnone]
    constructor
    · intro h
      cases h
    · rintro ⟨_, _, _, ⟨⟩, -⟩

theorem edit_revoke_append (hlenient : settings.enforce = false) (hc : r.contains path = true)
    (hnodup : ∀ acl, r.policyAt path = some acl → acl.principals.Nodup) (who : Principal)
    (first second : List Privilege) :
    ∃ now later t s, r.edit settings (.revoke who first) path = (.ok now, t) ∧
      t.edit settings (.revoke who second) path = (.ok later, s) ∧
      r.edit settings (.revoke who (first ++ second)) path = (.ok (now || later), s) := by
  cases hp : r.policyAt path with
  | none =>
    have hidle := edit_revoke_unbound hc hp settings who
    exact ⟨false, false, r, r, hidle first, hidle second, hidle (first ++ second)⟩
  | some bound =>
    have hone := edit_revoke_lenient hlenient hp who first
    have htwo := edit_revoke_lenient hlenient (policyAt_bound hc (bound.take who first).1) who second
    have hall := edit_revoke_lenient hlenient hp who (first ++ second)
    rw [withPolicy_withPolicy] at htwo
    rw [Acl.take_append (hnodup bound hp)] at hall
    exact ⟨_, _, _, _, hone, htwo, hall⟩

/-- **Batching**: where frozen lists are not refused, two grants on a node are one grant of both lists,
and two revokes are one revoke where principals have one entry at most. The repository that is left
is the same, with all entries and privileges in the same order, and a change is told of if either
step tells of one. -/
theorem batched (r : Repository) (settings : Settings) (hlenient : settings.enforce = false)
    (path : String) (hc : r.contains path = true) (who : Principal) (first second : List Privilege) :
    (∀ changed s, (Engine.mk host settings).grant path who (first ++ second) r = (.ok changed, s) ↔
      ∃ now later t, (Engine.mk host settings).grant path who first r = (.ok now, t) ∧
        (Engine.mk host settings).grant path who second t = (.ok later, s) ∧
        changed = (now || later)) ∧
    ((∀ acl, r.policyAt path = some acl → acl.principals.Nodup) →
      ∃ now later t s, (Engine.mk host settings).revoke path who first r = (.ok now, t) ∧
        (Engine.mk host settings).revoke path who second t = (.ok later, s) ∧
        (Engine.mk host settings).revoke path who (first ++ second) r =
          (.ok (now || later), s)) := by
  simp only [grant_run, revoke_run]
  exact ⟨fun _ _ => edit_grant_append_eq_ok hlenient hc who first second,
    fun hnodup => edit_revoke_append hlenient hc hnodup who first second⟩

/-- The administrator is put on the list once, and of the descriptors of one name the first is kept.
What is left of an entry moves behind the others, and is gone after the second revoke. -/
theorem batched_first_grant : ∃ r s t u v : Repository,
    (Engine.mk host {}).grant "/" ⟨"u"⟩ [.aggregate "own" [.simple "part"]] initial =
      (.ok true, r) ∧
    (Engine.mk host {}).grant "/" ⟨"u"⟩ [.simple "own", .simple "x"] r = (.ok true, s) ∧
    (Engine.mk host {}).grant "/" ⟨"u"⟩
      [.aggregate "own" [.simple "part"], .simple "own", .simple "x"] initial = (.ok true, s) ∧
    s.entriesAt "/" = [⟨⟨"admin"⟩, (initial.findPrivilege? "jcr:all").toList⟩,
      ⟨⟨"u"⟩, [.aggregate "own" [.simple "part"], .simple "x"]⟩] ∧
    t.policyAt "/" = some ⟨[⟨⟨"u"⟩, [.simple "own", .simple "x"]⟩, ⟨⟨"v"⟩, [.simple "y"]⟩]⟩ ∧
    (Engine.mk host {}).revoke "/" ⟨"u"⟩ [.simple "own"] t = (.ok true, u) ∧
    u.policyAt "/" = some ⟨[⟨⟨"v"⟩, [.simple "y"]⟩, ⟨⟨"u"⟩, [.simple "x"]⟩]⟩ ∧
    (Engine.mk host {}).revoke "/" ⟨"u"⟩ [.simple "x", .simple "own"] u = (.ok true, v) ∧
    (Engine.mk host {}).revoke "/" ⟨"u"⟩ [.simple "own", .simple "x", .simple "own"] t =
      (.ok true, v) ∧
    v.policyAt "/" = some ⟨[⟨⟨"v"⟩, [.simple "y"]⟩]⟩ := by
  let r := ((Engine.mk host {}).grant "/" ⟨"u"⟩ [.aggregate "own" [.simple "part"]] initial).2
  let t := initial.withPolicy "/"
    (some ⟨[⟨⟨"u"⟩, [.simple "own", .simple "x"]⟩, ⟨⟨"v"⟩, [.simple "y"]⟩]⟩)
  have hone : (Engine.mk host {}).grant "/" ⟨"u"⟩ [.aggregate "own" [.simple "part"]] initial =
      (.ok true, r) := rfl
  have htwo : (Engine.mk host {}).grant "/" ⟨"u"⟩ [.simple "own", .simple "x"] r = (.ok true, _) :=
    rfl
  have hall := ((batched initial {} rfl "/" rfl ⟨"u"⟩ _ _).1 _ _).2 ⟨_, _, _, hone, htwo, rfl⟩
  have hnodup : ∀ acl, t.policyAt "/" = some acl → acl.principals.Nodup := by
    intro acl ha
    cases ha
    decide
  obtain ⟨now, later, u, v, hfirst, hsecond, hboth⟩ := (batched t {} rfl "/" rfl ⟨"u"⟩
    [.simple "own"] [.simple "x", .simple "own"]).2 hnodup
  cases hfirst
  cases hsecond
  exact ⟨_, _, _, _, _, hone, htwo, hall, rfl, rfl, rfl, rfl, rfl, hboth, rfl⟩

end AclTree.Repository
