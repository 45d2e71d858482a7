/-
What `Acl.add` and `Acl.take` make of the entries of a list, whatever these
are: `add_cases` tells where the privileges go, `take_entries` what is kept in
place and what moves to the end. Lists with several entries of one principal
or with repeated privileges are not ruled out.
-/
import AclTree.Acl
import AclTree.Proofs.Privilege

namespace AclTree.Acl

open Privilege (names without)

/-! ## Adding -/

theorem modifyFirst_split {who : Principal} (f : Entry → Entry) {before after : List Entry}
    {e : Entry} (hb : ∀ x ∈ before, x.principal ≠ who) (he : e.principal = who) :
    modifyFirst who f (before ++ e :: after) = before ++ f e :: after := by
  induction before with
  | nil => simp [modifyFirst, he]
  | cons x before ih =>
    rw [List.cons_append, modifyFirst, if_neg (hb x (by simp)),
      ih fun y hy => hb y (List.mem_cons_of_mem x hy)]
    rfl

@[simp] theorem add_nil (acl : Acl) (who : Principal) : acl.add who [] = (acl, false) := rfl

/-- Privileges are added behind those of the principal's first entry, if it has one. -/
theorem add_of_split {acl : Acl} {who : Principal} {privileges : List Privilege}
    {before after : List Entry} {e : Entry} (hs : acl.entries = before ++ e :: after)
    (hb : ∀ x ∈ before, x.principal ≠ who) (he : e.principal = who) (hp : privileges ≠ []) :
    acl.add who privileges = (⟨before ++ ⟨who, Privilege.merge e.privileges privileges⟩ :: after⟩,
      privileges.any fun p => !Privilege.holds e.privileges p.name) := by
  have hne : privileges.isEmpty = false := by simpa using hp
  have hf : acl.entries.find? (·.principal == who) = some e :=
    List.find?_eq_some_iff_append.2 ⟨by simpa using he, before, after, hs, by simpa using hb⟩
  unfold add
  rw [hne, if_neg Bool.false_ne_true, hf]
  dsimp only
  rw [hs, modifyFirst_split _ hb he, he]

/-- Where added privileges go: behind those of the principal's first entry, or into a new entry at
the end if it has none. -/
theorem add_cases (acl : Acl) (who : Principal) {privileges : List Privilege}
    (hp : privileges ≠ []) :
    (∃ before e after, acl.entries = before ++ e :: after ∧
      (∀ x ∈ before, x.principal ≠ who) ∧ e.principal = who ∧
      acl.add who privileges = (⟨before ++ ⟨who, Privilege.merge e.privileges privileges⟩ :: after⟩,
        privileges.any fun p => !Privilege.holds e.privileges p.name)) ∨
    ((∀ x ∈ acl.entries, x.principal ≠ who) ∧
      acl.add who privileges = (⟨acl.entries ++ [Entry.of who privileges]⟩, true)) := by
  cases hf : acl.entries.find? (·.principal == who) with
  | none =>
    refine .inr ⟨fun x hx => by simpa using List.find?_eq_none.1 hf x hx, ?_⟩
    have hne : privileges.isEmpty = false := by simpa using hp
    unfold add
    rw [hne, if_neg Bool.false_ne_true, hf]
  | some e =>
    obtain ⟨he, before, after, hs, hb⟩ := List.find?_eq_some_iff_append.1 hf
    have he : e.principal = who := by simpa using he
    have hb : ∀ x ∈ before, x.principal ≠ who := by simpa using hb
    exact .inl ⟨before, e, after, hs, hb, he, add_of_split hs hb he hp⟩

/-! ## Taking away -/

/-- An entry of the principal that holds some of the privileges. -/
def touched (who : Principal) (removed : List Privilege) (e : Entry) : Bool :=
  e.principal == who && e.privileges.any fun p => Privilege.holds removed p.name

/-- What is left of an entry, if anything is. -/
def remainder (removed : List Privilege) (e : Entry) : Option Entry :=
  if (without e.privileges removed).isEmpty then none
  else some (Entry.of e.principal (without e.privileges removed))

variable {who : Principal} {removed : List Privilege}

theorem touched_iff {e : Entry} :
    touched who removed e = true ↔
      e.principal = who ∧ ∃ n ∈ e.privilegeNames, n ∈ names removed := by
  simp only [touched, Bool.and_eq_true, beq_iff_eq, List.any_eq_true, Privilege.holds_iff,
    Entry.privilegeNames, names, List.mem_map]
  constructor
  · rintro ⟨hw, p, hp, hr⟩
    exact ⟨hw, p.name, ⟨p, hp, rfl⟩, hr⟩
  · rintro ⟨hw, _, ⟨p, hp, rfl⟩, hr⟩
    exact ⟨hw, p, hp, hr⟩

theorem same_iff {e f : Entry} :
    e.same f = true ↔ e.principal = f.principal ∧ e.privilegeNames = f.privilegeNames := by
  simp [Entry.same]

theorem touched_of_same {e f : Entry} (h : e.same f = true) :
    touched who removed f = touched who removed e := by
  obtain ⟨hp, hn⟩ := same_iff.1 h
  rw [Bool.eq_iff_iff, touched_iff, touched_iff, hp, hn]

/-- The first entry that is the same as a touched one is not among untouched ones. -/
theorem eraseP_same {e : Entry} {kept rest : List Entry} (he : touched who removed e = true)
    (hk : ∀ x ∈ kept, touched who removed x = false) :
    (kept ++ e :: rest).eraseP e.same = kept ++ rest := by
  rw [List.eraseP_append_right, List.eraseP_cons_of_pos]
  · exact same_iff.2 ⟨rfl, rfl⟩
  · intro x hx hs
    rw [← touched_of_same hs, hk x hx] at he
    cases he

theorem reduce_untouched {e : Entry} {l : List Entry} (hw : e.principal = who)
    (he : touched who removed e = false) : reduce removed ⟨l⟩ e = ⟨l⟩ := by
  have hlen : (without e.privileges removed).length = e.privileges.length := by
    refine Privilege.length_without.2 fun p hp hr => ?_
    rw [touched_iff.2 ⟨hw, p.name, List.mem_map_of_mem hp, hr⟩] at he
    cases he
  unfold reduce
  rw [if_pos hlen]

theorem reduce_touched {e : Entry} {kept rest : List Entry} (he : touched who removed e = true)
    (hk : ∀ x ∈ kept, touched who removed x = false) :
    reduce removed ⟨kept ++ e :: rest⟩ e = ⟨kept ++ rest ++ (remainder removed e).toList⟩ := by
  have hlen : (without e.privileges removed).length ≠ e.privileges.length := by
    obtain ⟨_, n, hn, hr⟩ := touched_iff.1 he
    obtain ⟨p, hp, rfl⟩ := Privilege.mem_names.1 hn
    exact fun h => Privilege.length_without.1 h p hp hr
  have herase : erase ⟨kept ++ e :: rest⟩ e = ⟨kept ++ rest⟩ := by
    unfold erase
    rw [eraseP_same he hk]
  unfold reduce
  rw [if_neg hlen, herase]
  unfold remainder
  split
  · simp
  · simp [push]

/-- The entries processed so far stand in `kept` if nothing was taken from them, and what is left
of the others stands in `moved`. -/
theorem foldl_reduce (rest : List Entry) : ∀ kept moved : List Entry,
    (∀ x ∈ kept, touched who removed x = false) →
    (rest.filter (·.principal == who)).foldl (reduce removed) ⟨kept ++ rest ++ moved⟩ =
      ⟨kept ++ rest.filter (!touched who removed ·) ++ moved ++
        (rest.filter (touched who removed)).filterMap (remainder removed)⟩ := by
  induction rest with
  | nil => intro kept moved _; simp
  | cons e rest ih =>
    intro kept moved hk
    by_cases he : touched who removed e = true
    · have hw : (e.principal == who) = true := beq_iff_eq.2 (touched_iff.1 he).1
      have hstep : reduce removed ⟨kept ++ e :: rest ++ moved⟩ e =
          ⟨kept ++ rest ++ (moved ++ (remainder removed e).toList)⟩ := by
        rw [List.append_assoc, List.cons_append, reduce_touched he hk]
        simp
      simp only [List.filter_cons, hw, he, if_true, List.foldl_cons, hstep, ih _ _ hk,
        List.filterMap_cons]
      cases remainder removed e <;> simp
    · have he : touched who removed e = false := by simpa using he
      have hk' : ∀ x ∈ kept ++ [e], touched who removed x = false := by
        intro x hx
        rcases List.mem_append.1 hx with hx | hx
        · exact hk x hx
        · rw [List.mem_singleton.1 hx]; exact he
      have hstep : (List.filter (·.principal == who) (e :: rest)).foldl (reduce removed)
          ⟨kept ++ e :: rest ++ moved⟩ =
          (rest.filter (·.principal == who)).foldl (reduce removed) ⟨kept ++ [e] ++ rest ++ moved⟩ := by
        by_cases hw : e.principal = who
        · simp only [List.filter_cons, beq_iff_eq.2 hw, if_true, List.foldl_cons,
            reduce_untouched hw he]
          simp
        · have hw : (e.principal == who) = false := by simpa using hw
          simp [hw]
      rw [hstep, ih _ _ hk']
      simp [he]

/-- **What taking leaves**: the entries that hold none of the privileges, or are not the
principal's, in place; behind them what is left of the others. -/
theorem take_entries (acl : Acl) (who : Principal) (removed : List Privilege) :
    (acl.take who removed).1.entries =
      acl.entries.filter (!touched who removed ·) ++
        (acl.entries.filter (touched who removed)).filterMap (remainder removed) := by
  have h : (acl.entries.filter (·.principal == who)).foldl (reduce removed) ⟨[] ++ acl.entries ++ []⟩ =
      _ := foldl_reduce acl.entries [] [] (by simp)
  simp only [List.nil_append, List.append_nil] at h
  exact congrArg Acl.entries h

/-- Taking changes a list exactly if an entry of the principal holds one of the privileges. -/
theorem take_changed (acl : Acl) (who : Principal) (removed : List Privilege) :
    (acl.take who removed).2 = acl.entries.any (touched who removed) := by
  change (acl.entries.filter (·.principal == who)).any _ = _
  rw [List.any_filter]
  rfl

theorem take_eq_self {acl : Acl} (h : (acl.take who removed).2 = false) :
    (acl.take who removed).1 = acl := by
  have huntouched : ∀ e ∈ acl.entries, touched who removed e = false := by
    rw [take_changed] at h
    simpa using h
  have hentries : (acl.take who removed).1.entries = acl.entries := by
    rw [take_entries, List.filter_eq_self.2 (by simpa using huntouched),
      List.filter_eq_nil_iff.2 (by simpa using huntouched)]
    simp
  exact congrArg Acl.mk hentries

theorem take_of_untouched {acl : Acl} (h : ∀ e ∈ acl.entries, touched who removed e = false) :
    acl.take who removed = (acl, false) := by
  have hchanged : (acl.take who removed).2 = false := by
    rw [take_changed, List.any_eq_false]
    exact fun e he => by simp [h e he]
  exact Prod.ext (take_eq_self hchanged) hchanged

theorem take_nil (acl : Acl) (who : Principal) : acl.take who [] = (acl, false) :=
  take_of_untouched fun e _ => by simp [touched, Privilege.holds]

theorem touched_of_ne {e : Entry} (h : e.principal ≠ who) : touched who removed e = false := by
  simp [touched, h]

theorem filter_untouched {l : List Entry} (h : ∀ x ∈ l, x.principal ≠ who) :
    l.filter (!touched who removed ·) = l :=
  List.filter_eq_self.2 fun x hx => by simp [touched_of_ne (h x hx)]

theorem filter_touched {l : List Entry} (h : ∀ x ∈ l, x.principal ≠ who) :
    l.filter (touched who removed) = [] :=
  List.filter_eq_nil_iff.2 fun x hx => by simp [touched_of_ne (h x hx)]

/-- Of a principal that has no other entry, what is left of the entry moves to the end. -/
theorem take_of_split {acl : Acl} {before after : List Entry} {e : Entry}
    (hs : acl.entries = before ++ e :: after) (hrest : ∀ x ∈ before ++ after, x.principal ≠ who)
    (he : touched who removed e = true) :
    acl.take who removed = (⟨before ++ after ++ (remainder removed e).toList⟩, true) := by
  have hchanged : (acl.take who removed).2 = true := by
    rw [take_changed, List.any_eq_true]
    exact ⟨e, by simp [hs], he⟩
  obtain ⟨hbefore, hafter⟩ := List.forall_mem_append.1 hrest
  have hentries : (acl.take who removed).1.entries =
      before ++ after ++ (remainder removed e).toList := by
    rw [take_entries, hs, List.filter_append, List.filter_append, List.filter_cons_of_pos he,
      List.filter_cons_of_neg (by simp [he]), filter_untouched hbefore, filter_untouched hafter,
      filter_touched hbefore, filter_touched hafter, List.nil_append]
    cases hr : remainder removed e <;> simp [hr]
  exact Prod.ext (congrArg Acl.mk hentries) hchanged

end AclTree.Acl
