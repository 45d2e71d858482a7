/-
What granting and revoking make of a list, entry by entry and without the steps
that lead there. `Acl.granted` extends the first entry of the principal or puts
one at the end; `Acl.revoked` keeps in place what loses nothing and puts what is
left of the other entries behind. Adding and taking come to just these lists
(`add_eq_granted`, `take_eq_revoked`), whatever entries there are.
-/
import AclTree.Proofs.Acl.Entries

namespace AclTree

namespace Privilege

/-- Those of the privileges that have none of the names, the first of each name. -/
def beyond (names : List String) (privileges : List Privilege) : List Privilege :=
  (privileges.filter (·.name ∉ names)).eraseDupsBy same

theorem beyond_cons_of_mem {names : List String} {p : Privilege} (h : p.name ∈ names)
    (more : List Privilege) : beyond names (p :: more) = beyond names more := by
  unfold beyond
  rw [List.filter_cons_of_neg (by simpa using h)]

theorem beyond_cons_of_not_mem {names : List String} {p : Privilege} (h : p.name ∉ names)
    (more : List Privilege) : beyond names (p :: more) = p :: beyond (names ++ [p.name]) more := by
  unfold beyond
  rw [List.filter_cons_of_pos (by simpa using h), List.eraseDupsBy_cons, List.filter_filter]
  congr 3
  funext q
  simp [same, and_comm]

/-- It matters only which of the privileges have one of the names. -/
theorem beyond_congr {names names' : List String} {privileges : List Privilege}
    (h : ∀ p ∈ privileges, p.name ∈ names ↔ p.name ∈ names') :
    beyond names privileges = beyond names' privileges := by
  have hfilter : privileges.filter (·.name ∉ names) = privileges.filter (·.name ∉ names') :=
    List.filter_congr fun p hp => by simp [h p hp]
  unfold beyond
  rw [hfilter]

theorem mem_names_beyond {avoided : List String} {privileges : List Privilege} {n : String} :
    n ∈ names (beyond avoided privileges) ↔ n ∈ names privileges ∧ n ∉ avoided := by
  induction privileges generalizing avoided with
  | nil => simp [beyond]
  | cons p privileges ih =>
    by_cases hp : p.name ∈ avoided
    · rw [beyond_cons_of_mem hp, ih, names_cons, List.mem_cons]
      refine and_congr_left fun hn => (or_iff_right ?_).symm
      rintro rfl
      exact hn hp
    · rw [beyond_cons_of_not_mem hp, names_cons, names_cons, List.mem_cons, List.mem_cons, ih,
        List.mem_append, List.mem_singleton]
      by_cases he : n = p.name
      · simp [he, hp]
      · simp [he]

/-- Names can be left out one after another. -/
theorem beyond_beyond (first second : List String) (privileges : List Privilege) :
    beyond second (beyond first privileges) = beyond (first ++ second) privileges := by
  induction privileges generalizing first second with
  | nil => simp [beyond]
  | cons p privileges ih =>
    by_cases hfirst : p.name ∈ first
    · rw [beyond_cons_of_mem hfirst, beyond_cons_of_mem (List.mem_append_left _ hfirst), ih]
    rw [beyond_cons_of_not_mem hfirst]
    by_cases hsecond : p.name ∈ second
    · rw [beyond_cons_of_mem hsecond, beyond_cons_of_mem (List.mem_append_right _ hsecond), ih]
      refine beyond_congr fun q _ => ?_
      simp only [List.mem_append, List.mem_singleton]
      constructor
      · rintro ((h | h) | h)
        · exact .inl h
        · exact .inr (h ▸ hsecond)
        · exact .inr h
      · rintro (h | h)
        · exact .inl (.inl h)
        · exact .inr h
    · rw [beyond_cons_of_not_mem hsecond, beyond_cons_of_not_mem (by simp [hfirst, hsecond]), ih]
      refine congrArg (p :: ·) (beyond_congr fun q _ => ?_)
      simp only [List.mem_append, List.mem_singleton]
      tauto

theorem beyond_eq_self {avoided : List String} {privileges : List Privilege}
    (hnodup : (names privileges).Nodup) (h : ∀ n ∈ names privileges, n ∉ avoided) :
    beyond avoided privileges = privileges := by
  induction privileges generalizing avoided with
  | nil => simp [beyond]
  | cons p privileges ih =>
    rw [names_cons, List.nodup_cons] at hnodup
    obtain ⟨hp, hrest⟩ := List.forall_mem_cons.1 h
    rw [beyond_cons_of_not_mem hp, ih hnodup.2]
    intro n hn hmem
    rcases List.mem_append.1 hmem with hmem | hmem
    · exact hrest n hn hmem
    · exact hnodup.1 (List.mem_singleton.1 hmem ▸ hn)

/-- What is held stays, and behind it comes what it lacks. -/
theorem merge_eq_append (held more : List Privilege) :
    merge held more = held ++ beyond (names held) more := by
  -- What is added is held when the next one comes, so this is shown for all that may be held.
  induction more generalizing held with
  | nil => exact (List.append_nil held).symm
  | cons p more ih =>
    rw [merge_cons]
    by_cases hp : p.name ∈ names held
    · rw [if_pos (holds_iff.2 hp), ih, beyond_cons_of_mem hp]
    · rw [if_neg (fun h => hp (holds_iff.1 h)), ih, beyond_cons_of_not_mem hp, names_append,
        List.append_assoc]
      rfl

theorem merge_eq_self {held more : List Privilege} :
    merge held more = held ↔ ∀ p ∈ more, p.name ∈ names held := by
  constructor
  · intro h p hp
    have hmerged : p.name ∈ names (merge held more) :=
      mem_names_merge.2 (.inr (List.mem_map_of_mem hp))
    rwa [h] at hmerged
  · intro h
    refine merge_of_names fun n hn => ?_
    obtain ⟨p, hp, rfl⟩ := mem_names.1 hn
    exact h p hp

theorem dedup_eq_beyond (ps : List Privilege) : dedup ps = beyond [] ps :=
  merge_eq_append [] ps

theorem dedup_without (ps removed : List Privilege) :
    dedup (without ps removed) = beyond (names removed) ps := by
  rw [dedup_eq_beyond]
  unfold beyond without
  rw [List.filter_filter]
  congr 2
  funext p
  rw [Bool.eq_iff_iff]
  simp

end Privilege

/-- The entry is the principal's and holds a privilege with one of the names. -/
def Entry.Loses (who : Principal) (names : List String) (e : Entry) : Prop :=
  e.principal = who ∧ ∃ n ∈ e.privilegeNames, n ∈ names

instance (who : Principal) (names : List String) (e : Entry) : Decidable (e.Loses who names) :=
  inferInstanceAs (Decidable (_ ∧ _))

namespace Acl

open Privilege (beyond names)

/-- The entries after a grant: the principal's first entry, with what it lacks behind what it holds,
or a new entry at the end. -/
def granted (who : Principal) (privileges : List Privilege) : List Entry → List Entry
  | [] => [⟨who, beyond [] privileges⟩]
  | e :: rest =>
    if e.principal = who then
      ⟨who, e.privileges ++ beyond e.privilegeNames privileges⟩ :: rest
    else
      e :: granted who privileges rest

/-- The list after a revoke: the entries that lose nothing, and behind them, of those that lose
something and not everything, entries with the rest. -/
def revoked (acl : Acl) (who : Principal) (names : List String) : Acl :=
  ⟨acl.entries.filter (fun e => ¬ e.Loses who names) ++
    (acl.entries.filter fun e => e.Loses who names ∧ ∃ n ∈ e.privilegeNames, n ∉ names).map
      fun e => ⟨who, beyond names e.privileges⟩⟩

variable {acl : Acl} {who : Principal} {privileges removed : List Privilege}

/-! ## Adding -/

theorem granted_of_split {before after : List Entry} {e : Entry}
    (hb : ∀ x ∈ before, x.principal ≠ who) (he : e.principal = who) :
    granted who privileges (before ++ e :: after) =
      before ++ ⟨who, Privilege.merge e.privileges privileges⟩ :: after := by
  induction before with
  | nil => rw [List.nil_append, granted, if_pos he, Privilege.merge_eq_append]; rfl
  | cons x before ih =>
    obtain ⟨hx, hb⟩ := List.forall_mem_cons.1 hb
    rw [List.cons_append, granted, if_neg hx, ih hb]
    rfl

theorem granted_of_absent {entries : List Entry} (h : ∀ x ∈ entries, x.principal ≠ who) :
    granted who privileges entries = entries ++ [Entry.of who privileges] := by
  induction entries with
  | nil => rw [granted, Entry.of, Privilege.dedup_eq_beyond]; rfl
  | cons x rest ih =>
    obtain ⟨hx, hrest⟩ := List.forall_mem_cons.1 h
    rw [granted, if_neg hx, ih hrest]
    rfl

theorem add_eq_granted (acl : Acl) (who : Principal) (hp : privileges ≠ []) :
    (acl.add who privileges).1 = ⟨granted who privileges acl.entries⟩ := by
  rcases add_cases acl who hp with ⟨before, e, after, hs, hb, he, ha⟩ | ⟨hn, ha⟩ <;> rw [ha]
  · rw [hs, granted_of_split hb he]
  · rw [granted_of_absent hn]

/-- Adding tells of a change exactly if it makes another list. -/
theorem add_changed_iff_ne (acl : Acl) (who : Principal) (privileges : List Privilege) :
    (acl.add who privileges).2 = true ↔ (acl.add who privileges).1 ≠ acl := by
  by_cases hp : privileges = []
  · subst hp
    simp
  rcases add_cases acl who hp with ⟨before, e, after, hs, -, he, ha⟩ | ⟨-, ha⟩ <;> rw [ha]
  · have hsame : (⟨before ++ ⟨who, Privilege.merge e.privileges privileges⟩ :: after⟩ : Acl) = acl ↔
        Privilege.merge e.privileges privileges = e.privileges := by
      rcases acl with ⟨entries⟩
      rcases e with ⟨principal, held⟩
      cases he
      cases hs
      simp
    rw [ne_eq, hsame, Privilege.merge_eq_self]
    simp
  · -- A new entry makes the list longer.
    refine iff_of_true rfl fun h => ?_
    have hlength := congrArg (fun a : Acl => a.entries.length) h
    simp at hlength

/-! ## Taking away -/

theorem touched_eq_loses (who : Principal) (removed : List Privilege) (e : Entry) :
    touched who removed e = decide (e.Loses who (names removed)) := by
  rw [Bool.eq_iff_iff, touched_iff, decide_eq_true_iff]
  rfl

theorem isEmpty_without {e : Entry} :
    (Privilege.without e.privileges removed).isEmpty = false ↔
      ∃ n ∈ e.privilegeNames, n ∉ names removed := by
  rw [List.isEmpty_eq_false_iff, ne_eq, ← Privilege.names_eq_nil,
    List.eq_nil_iff_forall_not_mem]
  simp [Entry.privilegeNames]

theorem remainder_eq (removed : List Privilege) (e : Entry) :
    remainder removed e = if ∃ n ∈ e.privilegeNames, n ∉ names removed then
      some ⟨e.principal, beyond (names removed) e.privileges⟩ else none := by
  unfold remainder
  by_cases hleft : ∃ n ∈ e.privilegeNames, n ∉ names removed
  · rw [if_pos hleft, isEmpty_without.2 hleft, Entry.of, Privilege.dedup_without]
    rfl
  · have hnone : (Privilege.without e.privileges removed).isEmpty = true := by
      rw [← Bool.not_eq_false]
      exact fun h => hleft (isEmpty_without.1 h)
    rw [if_neg hleft, if_pos hnone]

theorem remainder_eq_self {e : Entry} (hne : e.privileges ≠ []) (hnodup : e.privilegeNames.Nodup)
    (h : ∀ n ∈ e.privilegeNames, n ∉ names removed) : remainder removed e = some e := by
  obtain ⟨p, rest, hp⟩ := List.exists_cons_of_ne_nil hne
  have hfirst : p.name ∈ e.privilegeNames := by simp [Entry.privilegeNames, hp]
  rw [remainder_eq, if_pos ⟨p.name, hfirst, h _ hfirst⟩, Privilege.beyond_eq_self hnodup h]

/-- What is left of the entries that lose something, as a list. -/
theorem filterMap_remainder (entries : List Entry) :
    (entries.filter (touched who removed)).filterMap (remainder removed) =
      (entries.filter fun e => e.Loses who (names removed) ∧
        ∃ n ∈ e.privilegeNames, n ∉ names removed).map
          fun e => ⟨who, beyond (names removed) e.privileges⟩ := by
  rw [← List.filterMap_eq_map', List.filterMap_filter, List.filterMap_filter]
  refine List.filterMap_congr fun e _ => ?_
  rw [touched_eq_loses, remainder_eq]
  by_cases hl : e.Loses who (names removed)
  · simp [hl, hl.1]
  · simp [hl]

/-- **Taking** comes to the list without what is taken. -/
theorem take_eq_revoked (acl : Acl) (who : Principal) (removed : List Privilege) :
    (acl.take who removed).1 = acl.revoked who (names removed) := by
  have hkept : acl.entries.filter (!touched who removed ·) =
      acl.entries.filter (fun e => ¬ e.Loses who (names removed)) :=
    List.filter_congr fun e _ => by simp [touched_eq_loses]
  have hentries : (acl.take who removed).1.entries = (acl.revoked who (names removed)).entries := by
    rw [take_entries, hkept, filterMap_remainder]
    rfl
  exact congrArg Acl.mk hentries

theorem take_changed_iff_loses (acl : Acl) (who : Principal) (removed : List Privilege) :
    (acl.take who removed).2 = true ↔ ∃ e ∈ acl.entries, e.Loses who (names removed) := by
  rw [take_changed, List.any_eq_true]
  simp only [touched_iff, Entry.Loses]

end Acl
end AclTree
