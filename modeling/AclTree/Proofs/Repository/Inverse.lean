/-
Grants and revokes that undo each other, where frozen lists are not refused and
the list is in the form that the engine keeps. The order of entries, and of
privileges in an entry, is not undone: the entry that was changed stands last.
-/
import AclTree.Proofs.Acl.Inverse
import AclTree.Proofs.Repository.Outcomes

namespace AclTree.Repository

open Privilege (names)

variable {r : Repository} {settings : Settings} {path : String} {bound : Acl}

section Steps

variable (hlenient : settings.enforce = false) (hp : r.policyAt path = some bound)
include hlenient hp

theorem edit_grant_revoke (hentries : bound.entries ≠ []) (who : Principal)
    (given taken : List Privilege) :
    ∃ s, r.edit settings (.grant who given) path = (.ok (bound.add who given).2, s) ∧
      s.edit settings (.revoke who taken) path =
        (.ok ((bound.add who given).1.take who taken).2,
          r.withPolicy path (some ((bound.add who given).1.take who taken).1)) := by
  have hrevoke := edit_revoke_lenient hlenient
    (policyAt_bound (contains_of_policyAt hp) (bound.add who given).1) who taken
  rw [withPolicy_withPolicy] at hrevoke
  exact ⟨_, edit_grant_bound hlenient hp hentries who given, hrevoke⟩

theorem edit_revoke_grant (who : Principal) (taken : List Privilege) :
    ∃ s, r.edit settings (.revoke who taken) path = (.ok (bound.take who taken).2, s) ∧
      s.policyAt path = some (bound.take who taken).1 ∧
      ((bound.take who taken).1.entries ≠ [] → ∀ given,
        s.edit settings (.grant who given) path =
          (.ok ((bound.take who taken).1.add who given).2,
            r.withPolicy path (some ((bound.take who taken).1.add who given).1))) := by
  have hbound := policyAt_bound (contains_of_policyAt hp) (bound.take who taken).1
  refine ⟨_, edit_revoke_lenient hlenient hp who taken, hbound, fun hentries given => ?_⟩
  have hgrant := edit_grant_bound hlenient hbound hentries who given
  rwa [withPolicy_withPolicy] at hgrant

end Steps

/-- **Grants and revokes undo each other.** What a principal is given that it held nothing of is
revoked without a trace if the principal was not on the list; otherwise its entry is as it was, and
last. If what is revoked was held, and somebody is left on the list, then a grant of it gives the
entry the descriptors that it had, in some order, at the end of the list. -/
theorem undone (r : Repository) (settings : Settings) (hlenient : settings.enforce = false)
    (path : String) (bound : Acl) (hp : r.policyAt path = some bound) (hcanonical : bound.Canonical)
    (hentries : bound.entries ≠ []) (who : Principal) (privileges : List Privilege)
    (hne : privileges ≠ []) :
    ((∀ e ∈ bound.entries, e.principal ≠ who) →
      ∃ s, (Engine.mk host settings).grant path who privileges r = (.ok true, s) ∧
        (Engine.mk host settings).revoke path who privileges s = (.ok true, r)) ∧
    ∀ before e after, bound.entries = before ++ e :: after → e.principal = who →
      ((∀ n ∈ e.privilegeNames, n ∉ names privileges) →
        ∃ s, (Engine.mk host settings).grant path who privileges r = (.ok true, s) ∧
          (Engine.mk host settings).revoke path who privileges s =
            (.ok true, r.withPolicy path (some ⟨before ++ after ++ [e]⟩))) ∧
      ((∀ n ∈ names privileges, n ∈ e.privilegeNames) →
        ∃ s left, (Engine.mk host settings).revoke path who privileges r = (.ok true, s) ∧
          s.policyAt path = some left ∧
          (left.entries ≠ [] → ∀ back,
            (∀ p, p ∈ back ↔ p ∈ e.privileges ∧ p.name ∈ names privileges) →
            ∃ again, again.Perm e.privileges ∧
              (Engine.mk host settings).grant path who back s =
                (.ok true, r.withPolicy path (some ⟨before ++ after ++ [⟨who, again⟩]⟩)))) := by
  simp only [grant_run, revoke_run]
  refine ⟨fun habsent => ?_, fun before e after hs he => ?_⟩
  · obtain ⟨hadd, htake⟩ := Acl.take_add_of_absent hne habsent
    obtain ⟨s, hgrant, hrevoke⟩ := edit_grant_revoke hlenient hp hentries who privileges privileges
    have hsame := withPolicy_policyAt (contains_of_policyAt hp)
    rw [hp] at hsame
    rw [hadd] at hgrant
    rw [htake, hsame] at hrevoke
    exact ⟨s, hgrant, hrevoke⟩
  have hmem : e ∈ bound.entries := by simp [hs]
  have hrest : ∀ x ∈ before ++ after, x.principal ≠ who :=
    he ▸ Acl.ne_of_split hcanonical.principals hs
  have hnodup := hcanonical.names e hmem
  refine ⟨fun hlacks => ?_, fun hholds => ?_⟩
  · obtain ⟨hadd, htake⟩ :=
      Acl.take_add_of_split hne hs hrest he (hcanonical.nonempty e hmem) hnodup hlacks
    obtain ⟨s, hgrant, hrevoke⟩ := edit_grant_revoke hlenient hp hentries who privileges privileges
    rw [hadd] at hgrant
    rw [htake] at hrevoke
    exact ⟨s, hgrant, hrevoke⟩
  · obtain ⟨s, hrevoke, hleft, hgrant⟩ := edit_revoke_grant hlenient hp who privileges
    have hchanged : (bound.take who privileges).2 = true := by
      rw [Acl.take_of_split hs hrest (Acl.touched_of_holds hne he hholds)]
    rw [hchanged] at hrevoke
    refine ⟨s, _, hrevoke, hleft, fun hsome back hback => ?_⟩
    refine ⟨_, Privilege.merge_without_perm hnodup hback, ?_⟩
    rw [hgrant hsome, Acl.add_take hne hs hrest he hnodup hholds hback]

/-- Of three principals, one was not on the list and is not again, one stands last with what it held,
and one stands last with what it held in another order. -/
theorem undone_beside_others : ∃ r s t u v : Repository,
    r.policyAt "/" =
      some ⟨[⟨⟨"u"⟩, [.simple "own", .aggregate "x" [.simple "y"]]⟩, ⟨⟨"v"⟩, [.simple "z"]⟩]⟩ ∧
    (Engine.mk host {}).grant "/" ⟨"w"⟩ [.simple "x", .simple "own"] r = (.ok true, s) ∧
    (Engine.mk host {}).revoke "/" ⟨"w"⟩ [.simple "x", .simple "own"] s = (.ok true, r) ∧
    (Engine.mk host {}).grant "/" ⟨"u"⟩ [.simple "y", .simple "y"] r = (.ok true, t) ∧
    (Engine.mk host {}).revoke "/" ⟨"u"⟩ [.simple "y", .simple "y"] t = (.ok true, u) ∧
    u.policyAt "/" =
      some ⟨[⟨⟨"v"⟩, [.simple "z"]⟩, ⟨⟨"u"⟩, [.simple "own", .aggregate "x" [.simple "y"]]⟩]⟩ ∧
    (Engine.mk host {}).revoke "/" ⟨"u"⟩ [.simple "own"] r = (.ok true, v) ∧
    ∃ again, again.Perm [.simple "own", .aggregate "x" [.simple "y"]] ∧
      (Engine.mk host {}).grant "/" ⟨"u"⟩ [.simple "own"] v =
        (.ok true, r.withPolicy "/" (some ⟨[⟨⟨"v"⟩, [.simple "z"]⟩, ⟨⟨"u"⟩, again⟩]⟩)) := by
  let bound : Acl :=
    ⟨[⟨⟨"u"⟩, [.simple "own", .aggregate "x" [.simple "y"]]⟩, ⟨⟨"v"⟩, [.simple "z"]⟩]⟩
  let r := initial.withPolicy "/" (some bound)
  have hcanonical : bound.Canonical := ⟨by decide, by decide, by decide⟩
  have hundone := fun who privileges => undone r {} rfl "/" bound rfl hcanonical
    (List.cons_ne_nil _ _) ⟨who⟩ privileges
  obtain ⟨s, hgrant, hrevoke⟩ :=
    (hundone "w" [.simple "x", .simple "own"] (List.cons_ne_nil _ _)).1 (by decide)
  obtain ⟨t, hgrant', hrevoke'⟩ := ((hundone "u" [.simple "y", .simple "y"]
    (List.cons_ne_nil _ _)).2 [] _ _ rfl rfl).1 (by decide)
  obtain ⟨v, left, htake, hleft, hback⟩ := ((hundone "u" [.simple "own"]
    (List.cons_ne_nil _ _)).2 [] _ _ rfl rfl).2 (by decide)
  have hsome : left.entries ≠ [] := by
    cases htake
    cases hleft
    exact List.cons_ne_nil _ _
  obtain ⟨again, hperm, hagain⟩ := hback hsome [.simple "own"] fun p => by
    rw [List.mem_singleton, List.mem_pair]
    constructor
    · rintro rfl
      exact ⟨.inl rfl, by decide⟩
    · rintro ⟨rfl | rfl, hname⟩
      · rfl
      · exact absurd hname (by decide)
  exact ⟨r, s, t, _, v, rfl, hgrant, hrevoke, hgrant', hrevoke', rfl, htake, again, hperm, hagain⟩

end AclTree.Repository
