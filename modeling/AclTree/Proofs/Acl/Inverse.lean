/-
Taking what was added, and adding what was taken. Taking leaves the list that
was there before, but for the place of the entry that was changed, which moves
to the end (`take_add_of_split`). Adding gives an entry what it had before, and
puts it at the end in any case (`add_take`).
-/
import AclTree.Proofs.Acl.Canonical
import AclTree.Proofs.Acl.ClosedForms

namespace AclTree

namespace Privilege

theorem beyond_append_of_names {avoided : List String} {ps qs : List Privilege}
    (h : ∀ q ∈ qs, q.name ∈ avoided) : beyond avoided (ps ++ qs) = beyond avoided ps := by
  have hnone : qs.filter (·.name ∉ avoided) = [] := List.filter_eq_nil_iff.2 (by simpa using h)
  unfold beyond
  rw [List.filter_append, hnone, List.append_nil]

/-- Of what was merged into a list, what was held before can be told by its names. -/
theorem beyond_merge {held more : List Privilege} (hnodup : (names held).Nodup)
    (h : ∀ n ∈ names held, n ∉ names more) : beyond (names more) (merge held more) = held := by
  rw [merge_eq_append, beyond_append_of_names, beyond_eq_self hnodup h]
  exact fun q hq => (mem_names_beyond.1 (List.mem_map_of_mem hq)).1

theorem dedup_eq_self {ps : List Privilege} (h : (names ps).Nodup) : dedup ps = ps := by
  rw [dedup_eq_beyond, beyond_eq_self h fun _ _ => List.not_mem_nil]

theorem nodup_names_without {ps : List Privilege} (h : (names ps).Nodup) (removed : List Privilege) :
    (names (without ps removed)).Nodup := h.sublist (List.filter_sublist.map _)

/-- Putting back all that was taken gives the same descriptors again, in another order perhaps. -/
theorem merge_without_perm {ps removed back : List Privilege} (hnodup : (names ps).Nodup)
    (hback : ∀ p, p ∈ back ↔ p ∈ ps ∧ p.name ∈ names removed) :
    (merge (without ps removed) back).Perm ps := by
  have hmerged : (names (merge (without ps removed) back)).Nodup :=
    nodup_names_merge back (nodup_names_without hnodup removed)
  have hsub : ∀ p ∈ merge (without ps removed) back, p ∈ ps := by
    intro p hp
    obtain ⟨added, hm, hadded⟩ := exists_merge (without ps removed) back
    rw [hm] at hp
    rcases List.mem_append.1 hp with hp | hp
    · exact (List.mem_filter.1 hp).1
    · exact ((hback p).1 (hadded.subset hp)).1
  refine (List.perm_ext_iff_of_nodup hmerged.of_map hnodup.of_map).2 fun p => ⟨hsub p, fun hp => ?_⟩
  have hname : p.name ∈ names (merge (without ps removed) back) := by
    rw [mem_names_merge]
    by_cases hr : p.name ∈ names removed
    · exact .inr (List.mem_map_of_mem ((hback p).2 ⟨hp, hr⟩))
    · exact .inl (mem_names_without.2 ⟨List.mem_map_of_mem hp, hr⟩)
  obtain ⟨q, hq, he⟩ := mem_names.1 hname
  exact List.inj_on_of_nodup_map hnodup (hsub q hq) hp he ▸ hq

end Privilege

namespace Acl

open Privilege (names without merge)

variable {acl : Acl} {who : Principal} {privileges : List Privilege} {before after : List Entry}
  {e : Entry}

/-! ## Taking what was added -/

/-- A principal that was not on the list is not on it again. -/
theorem take_add_of_absent (hp : privileges ≠ []) (hn : ∀ x ∈ acl.entries, x.principal ≠ who) :
    (acl.add who privileges).2 = true ∧
      (acl.add who privileges).1.take who privileges = (acl, true) := by
  obtain ⟨p, rest, rfl⟩ := List.exists_cons_of_ne_nil hp
  rcases add_cases acl who hp with ⟨before, e, after, hs, -, he, -⟩ | ⟨-, ha⟩
  · exact absurd he (hn e (by simp [hs]))
  have htouched : touched who (p :: rest) (Entry.of who (p :: rest)) = true :=
    touched_iff.2 ⟨rfl, p.name, Privilege.mem_names_dedup.2 (by simp), by simp⟩
  have hnone : remainder (p :: rest) (Entry.of who (p :: rest)) = none := by
    rw [remainder_eq, if_neg]
    rintro ⟨n, hn, hleft⟩
    exact hleft (Privilege.mem_names_dedup.1 hn)
  have htake : Acl.take ⟨acl.entries ++ [Entry.of who (p :: rest)]⟩ who (p :: rest) = _ :=
    take_of_split rfl (by simpa using hn) htouched
  rw [ha, htake, hnone]
  simp

/-- An entry that held nothing of what was added is the same again, and last. -/
theorem take_add_of_split (hp : privileges ≠ []) (hs : acl.entries = before ++ e :: after)
    (hrest : ∀ x ∈ before ++ after, x.principal ≠ who) (he : e.principal = who)
    (hheld : e.privileges ≠ []) (hnodup : e.privilegeNames.Nodup)
    (hlacks : ∀ n ∈ e.privilegeNames, n ∉ names privileges) :
    (acl.add who privileges).2 = true ∧
      (acl.add who privileges).1.take who privileges = (⟨before ++ after ++ [e]⟩, true) := by
  have hadd := add_of_split hs (fun x hx => hrest x (List.mem_append_left _ hx)) he hp
  obtain ⟨p, hpmem⟩ := List.exists_mem_of_ne_nil _ hp
  obtain ⟨q, hq⟩ := List.exists_mem_of_ne_nil _ hheld
  have hname : p.name ∈ names privileges := List.mem_map_of_mem hpmem
  have htouched : touched who privileges ⟨who, merge e.privileges privileges⟩ = true :=
    touched_iff.2 ⟨rfl, p.name, Privilege.mem_names_merge.2 (.inr hname), hname⟩
  have hleft : remainder privileges ⟨who, merge e.privileges privileges⟩ = some e := by
    have hqname : q.name ∈ e.privilegeNames := List.mem_map_of_mem hq
    rw [remainder_eq, if_pos ⟨q.name, Privilege.mem_names_merge.2 (.inl hqname), hlacks _ hqname⟩,
      Privilege.beyond_merge hnodup hlacks, ← he]
  rw [hadd, take_of_split rfl hrest htouched, hleft]
  refine ⟨List.any_eq_true.2 ⟨p, hpmem, ?_⟩, rfl⟩
  have hnot : p.name ∉ names e.privileges := fun hn => hlacks p.name hn hname
  simpa using hnot

/-! ## Adding what was taken -/

theorem touched_of_holds (hp : privileges ≠ []) (he : e.principal = who)
    (hholds : ∀ n ∈ names privileges, n ∈ e.privilegeNames) : touched who privileges e = true := by
  obtain ⟨p, hp⟩ := List.exists_mem_of_ne_nil _ hp
  have hname : p.name ∈ names privileges := List.mem_map_of_mem hp
  exact touched_iff.2 ⟨he, p.name, hholds _ hname, hname⟩

/-- Adding the descriptors that were taken from an entry gives the entry all that it had, at the end
of the list. -/
theorem add_take (hp : privileges ≠ []) (hs : acl.entries = before ++ e :: after)
    (hrest : ∀ x ∈ before ++ after, x.principal ≠ who) (he : e.principal = who)
    (hnodup : e.privilegeNames.Nodup) (hholds : ∀ n ∈ names privileges, n ∈ e.privilegeNames)
    {back : List Privilege}
    (hback : ∀ p, p ∈ back ↔ p ∈ e.privileges ∧ p.name ∈ names privileges) :
    (acl.take who privileges).1.add who back =
      (⟨before ++ after ++ [⟨who, merge (without e.privileges privileges) back⟩]⟩, true) := by
  obtain ⟨p, hpmem⟩ := List.exists_mem_of_ne_nil _ hp
  have hname : p.name ∈ names privileges := List.mem_map_of_mem hpmem
  obtain ⟨q, hq, hqname⟩ := Privilege.mem_names.1 (hholds _ hname)
  have hqback : q ∈ back := (hback q).2 ⟨hq, hqname ▸ hname⟩
  have hne : back ≠ [] := List.ne_nil_of_mem hqback
  rw [take_of_split hs hrest (touched_of_holds hp he hholds)]
  unfold remainder
  split
  · -- Nothing is left, so there is a new entry for what is put back.
    rename_i hempty
    rw [List.isEmpty_iff.1 hempty, Option.toList_none, List.append_nil]
    rcases add_cases ⟨before ++ after⟩ who hne with ⟨_, f, _, hf, -, hfw, -⟩ | ⟨-, ha⟩
    · exact absurd hfw (hrest f (by simp only at hf; simp [hf]))
    · exact ha
  · have hgone : q.name ∉ names (without e.privileges privileges) :=
      fun hn => (Privilege.mem_names_without.1 hn).2 (hqname ▸ hname)
    rw [Option.toList_some, Entry.of, he, Privilege.dedup_eq_self (Privilege.nodup_names_without hnodup _),
      add_of_split rfl hrest rfl hne]
    refine Prod.ext rfl (List.any_eq_true.2 ⟨q, hqback, ?_⟩)
    simpa using hgone

end Acl
end AclTree
