/-
Changing a list in two steps or in one. Adding two lists of privileges one after
the other is adding them as one list, for every list (`add_append`). Taking is
too where a principal has one entry at most (`take_append`): whichever step
changes that entry, what is left of it ends up last.
-/
import AclTree.Proofs.Acl.Canonical
import AclTree.Proofs.Acl.ClosedForms

namespace AclTree

theorem Privilege.merge_append (held first second : List Privilege) :
    merge held (first ++ second) = merge (merge held first) second :=
  List.foldl_append

namespace Acl

open Privilege (beyond names)

variable {acl : Acl} {who : Principal} {first second : List Privilege} {e : Entry}

/-! ## Adding -/

theorem any_not_holds_append (held first second : List Privilege) :
    ((first ++ second).any fun p => !Privilege.holds held p.name) =
      ((first.any fun p => !Privilege.holds held p.name) ||
        second.any fun p => !Privilege.holds (Privilege.merge held first) p.name) := by
  rw [Bool.eq_iff_iff, List.any_append]
  simp only [Bool.or_eq_true, List.any_eq_true, Bool.not_eq_true', Privilege.holds_eq_false,
    Privilege.mem_names_merge, not_or]
  constructor
  · rintro (hfirst | ⟨p, hp, hheld⟩)
    · exact .inl hfirst
    -- What only the second list has of a name was not added by the first one.
    · by_cases hgiven : p.name ∈ names first
      · obtain ⟨q, hq, he⟩ := Privilege.mem_names.1 hgiven
        exact .inl ⟨q, hq, he ▸ hheld⟩
      · exact .inr ⟨p, hp, hheld, hgiven⟩
  · rintro (hfirst | ⟨p, hp, hheld, -⟩)
    · exact .inl hfirst
    · exact .inr ⟨p, hp, hheld⟩

/-- **Adding in two steps** makes the list that adding in one makes, and one of the steps changes
something if that does. -/
theorem add_append (acl : Acl) (who : Principal) (first second : List Privilege) :
    acl.add who (first ++ second) = (((acl.add who first).1.add who second).1,
      (acl.add who first).2 || ((acl.add who first).1.add who second).2) := by
  by_cases hfirst : first = []
  · rw [hfirst]
    rfl
  by_cases hsecond : second = []
  · rw [hsecond, List.append_nil, add_nil, Bool.or_false]
  have hboth : first ++ second ≠ [] := List.append_ne_nil_of_left_ne_nil hfirst second
  rcases add_cases acl who hfirst with ⟨before, e, after, hs, hb, he, ha⟩ | ⟨hn, ha⟩ <;> rw [ha]
  · rw [add_of_split hs hb he hboth, add_of_split rfl hb rfl hsecond, Privilege.merge_append,
      any_not_holds_append]
  · rcases add_cases acl who hboth with ⟨before, e, after, hs, -, he, -⟩ | ⟨-, ha⟩
    · exact absurd he (hn e (by simp [hs]))
    · rw [ha, add_of_split rfl hn rfl hsecond, Entry.of, Privilege.dedup, Privilege.merge_append]
      rfl

/-! ## Taking away -/

theorem touched_append :
    touched who (first ++ second) e = (touched who first e || touched who second e) := by
  rw [Bool.eq_iff_iff, Bool.or_eq_true]
  simp only [touched_iff, Privilege.names_append, List.mem_append]
  constructor
  · rintro ⟨hw, n, hn, hr | hr⟩
    · exact .inl ⟨hw, n, hn, hr⟩
    · exact .inr ⟨hw, n, hn, hr⟩
  · rintro (⟨hw, n, hn, hr⟩ | ⟨hw, n, hn, hr⟩)
    · exact ⟨hw, n, hn, .inl hr⟩
    · exact ⟨hw, n, hn, .inr hr⟩

/-- What is left of an entry after two steps is what the second leaves of what the first leaves. -/
theorem remainder_append (first second : List Privilege) (e : Entry) :
    remainder (first ++ second) e = (remainder first e).bind (remainder second) := by
  rw [remainder_eq, remainder_eq first, Privilege.names_append]
  by_cases hfirst : ∃ n ∈ e.privilegeNames, n ∉ names first
  · rw [if_pos hfirst, Option.bind_some, remainder_eq]
    refine if_congr ?_ (by rw [Privilege.beyond_beyond]) rfl
    unfold Entry.privilegeNames
    simp only [Privilege.mem_names_beyond, List.mem_append, not_or, and_assoc]
  · rw [if_neg hfirst, Option.bind_none, if_neg]
    rintro ⟨n, hn, hleft⟩
    exact hfirst ⟨n, hn, fun hr => hleft (List.mem_append_left _ hr)⟩

theorem remainder_append_of_untouched (hw : e.principal = who) (he : touched who first e = false) :
    remainder (first ++ second) e = remainder second e := by
  have hnone : ∀ n ∈ e.privilegeNames, n ∉ names first := by
    intro n hn hr
    rw [touched_iff.2 ⟨hw, n, hn, hr⟩] at he
    cases he
  have hbeyond : beyond (names (first ++ second)) e.privileges = beyond (names second) e.privileges := by
    refine Privilege.beyond_congr fun p hp => ?_
    rw [Privilege.names_append, List.mem_append]
    exact or_iff_right (hnone p.name (List.mem_map_of_mem hp))
  rw [remainder_eq, remainder_eq, hbeyond]
  refine if_congr (exists_congr fun n => and_congr_right fun hn => ?_) rfl rfl
  rw [Privilege.names_append, List.mem_append, not_or]
  exact and_iff_right (hnone n hn)

/-- What a step has left of an entry stays as it is in a step that does not touch it. -/
theorem remainder_remainder {f : Entry} (hr : remainder first e = some f) (hw : f.principal = who)
    (hf : touched who second f = false) : remainder second f = some f := by
  obtain ⟨hleft, rfl⟩ := remainder_eq_some.1 hr
  refine remainder_eq_self (Privilege.dedup_ne_nil hleft) (Privilege.nodup_names_dedup _) ?_
  intro n hn hmem
  rw [touched_iff.2 ⟨hw, n, hn, hmem⟩] at hf
  cases hf

theorem take_append_of_untouched (h : ∀ e ∈ acl.entries, touched who first e = false) :
    acl.take who (first ++ second) = acl.take who second := by
  have htouched : ∀ e ∈ acl.entries, touched who (first ++ second) e = touched who second e :=
    fun e he => by rw [touched_append, h e he, Bool.false_or]
  have hchanged : (acl.take who (first ++ second)).2 = (acl.take who second).2 := by
    rw [take_changed, take_changed, Bool.eq_iff_iff, List.any_eq_true, List.any_eq_true]
    exact exists_congr fun e => and_congr_right fun he => by rw [htouched e he]
  have hentries : (acl.take who (first ++ second)).1.entries = (acl.take who second).1.entries := by
    rw [take_entries, take_entries, List.filter_congr htouched,
      List.filter_congr fun e he => congrArg (!·) (htouched e he)]
    refine congrArg (_ ++ ·) (List.filterMap_congr fun e he => ?_)
    obtain ⟨he, ht⟩ := List.mem_filter.1 he
    exact remainder_append_of_untouched (touched_iff.1 ht).1 (h e he)
  exact Prod.ext (congrArg Acl.mk hentries) hchanged

/-- **Taking in two steps** leaves the list that taking in one leaves, in the same order, where a
principal has one entry at most. -/
theorem take_append (h : acl.principals.Nodup) (who : Principal) (first second : List Privilege) :
    acl.take who (first ++ second) = (((acl.take who first).1.take who second).1,
      (acl.take who first).2 || ((acl.take who first).1.take who second).2) := by
  by_cases huntouched : ∀ e ∈ acl.entries, touched who first e = false
  · rw [take_append_of_untouched huntouched, take_of_untouched huntouched, Bool.false_or]
  simp only [not_forall, Bool.not_eq_false] at huntouched
  obtain ⟨e, he, ht⟩ := huntouched
  obtain ⟨before, after, hs⟩ := List.append_of_mem he
  have hw : e.principal = who := (touched_iff.1 ht).1
  have hrest : ∀ x ∈ before ++ after, x.principal ≠ who := hw ▸ ne_of_split h hs
  have hboth : touched who (first ++ second) e = true := by rw [touched_append, ht, Bool.true_or]
  rw [take_of_split hs hrest ht, take_of_split hs hrest hboth, remainder_append]
  cases hr : remainder first e with
  | none =>
    rw [take_of_untouched]
    · rfl
    · simpa using fun x hx => touched_of_ne (hrest x hx)
  | some f =>
    -- What is left stands last, so there is nothing behind it to be passed by.
    have hf : f.principal = who := by
      obtain ⟨-, rfl⟩ := remainder_eq_some.1 hr
      exact hw
    have hlast : ∀ x ∈ (before ++ after) ++ [], x.principal ≠ who := by simpa using hrest
    cases hsecond : touched who second f with
    | true =>
      have htake : Acl.take ⟨before ++ after ++ [f]⟩ who second = _ := take_of_split rfl hlast hsecond
      rw [Option.bind_some, Option.toList_some, htake, List.append_nil]
      rfl
    | false =>
      rw [Option.bind_some, remainder_remainder hr hf hsecond, Option.toList_some, take_of_untouched]
      · rfl
      · intro x hx
        rcases List.mem_append.1 hx with hx | hx
        · exact touched_of_ne (hrest x hx)
        · rw [List.mem_singleton.1 hx, hsecond]

end Acl
end AclTree
