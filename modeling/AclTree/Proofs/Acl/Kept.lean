/-
Which descriptors an entry has after more were merged into it. One descriptor
stands for each name (`Privilege.Kept`): the one that was held, or else the
first that was given. What the others would have granted beyond it is not
granted.
-/
import AclTree.Proofs.Acl.Canonical
import AclTree.Proofs.Acl.ClosedForms

namespace AclTree

namespace Privilege

/-- After `given` was merged into `held`, the descriptor stands for its name. -/
inductive Kept (held given : List Privilege) (p : Privilege) : Prop where
  | held : p ∈ held → Kept held given p
  | first (before : List Privilege) {after : List Privilege} :
      given = before ++ p :: after → p.name ∉ names held → p.name ∉ names before →
      Kept held given p

variable {held given : List Privilege} {p q : Privilege}

theorem kept_nil : Kept held [] p ↔ p ∈ held := by
  constructor
  · rintro (h | ⟨_, hs, -, -⟩)
    · exact h
    · exact absurd hs.symm (List.append_ne_nil_of_right_ne_nil _ (List.cons_ne_nil _ _))
  · exact .held

/-- What comes behind a descriptor of a held name is kept as if that had not come. -/
theorem kept_cons_of_mem (h : q.name ∈ names held) : Kept held (q :: given) p ↔ Kept held given p := by
  constructor
  · rintro (hp | @⟨before, after, hs, hheld, hbefore⟩)
    · exact .held hp
    · cases before with
      | nil =>
        cases hs
        exact absurd h hheld
      | cons x before =>
        cases hs
        exact .first before rfl hheld fun hn => hbefore (List.mem_cons_of_mem _ hn)
  · rintro (hp | @⟨before, after, rfl, hheld, hbefore⟩)
    · exact .held hp
    · refine .first (q :: before) rfl hheld fun hn => ?_
      rcases List.mem_cons.1 hn with hn | hn
      · exact hheld (hn ▸ h)
      · exact hbefore hn

/-- A descriptor of a new name is held when the next one comes. -/
theorem kept_cons_of_not_mem (h : q.name ∉ names held) :
    Kept held (q :: given) p ↔ Kept (held ++ [q]) given p := by
  constructor
  · rintro (hp | @⟨before, after, hs, hheld, hbefore⟩)
    · exact .held (List.mem_append_left _ hp)
    · cases before with
      | nil =>
        cases hs
        exact .held (by simp)
      | cons x before =>
        cases hs
        rw [names_cons, List.mem_cons, not_or] at hbefore
        exact .first before rfl (by simp [hheld, hbefore.1]) hbefore.2
  · rintro (hp | @⟨before, after, rfl, hheld, hbefore⟩)
    · rcases List.mem_append.1 hp with hp | hp
      · exact .held hp
      · rw [List.mem_singleton.1 hp]
        exact .first [] rfl h List.not_mem_nil
    · rw [names_append, List.mem_append, not_or] at hheld
      refine .first (q :: before) rfl hheld.1 ?_
      rw [names_cons, List.mem_cons, not_or]
      exact ⟨fun he => hheld.2 (by simp [he]), hbefore⟩

theorem mem_merge : p ∈ merge held given ↔ Kept held given p := by
  induction given generalizing held with
  | nil => exact kept_nil.symm
  | cons q given ih =>
    rw [merge_cons]
    by_cases hq : q.name ∈ names held
    · rw [if_pos (holds_iff.2 hq), ih, kept_cons_of_mem hq]
    · rw [if_neg fun h => hq (holds_iff.1 h), ih, kept_cons_of_not_mem hq]

/-- Each name that is held or given has a descriptor that stands for it. -/
theorem exists_kept (held : List Privilege) {name : String} (h : name ∈ names held ∨ name ∈ names given) :
    ∃ q, Kept held given q ∧ q.name = name := by
  obtain ⟨q, hq, hname⟩ := mem_names.1 (mem_names_merge.2 h)
  exact ⟨q, mem_merge.1 hq, hname⟩

theorem implies_name (p : Privilege) : p.implies p.name = true :=
  (implies_iff_nested _ p).2 ⟨p, mem_nested_self p, rfl⟩

end Privilege

theorem Entry.grants_iff {e : Entry} {name : String} :
    e.grants name = true ↔ ∃ p ∈ e.privileges, p.implies name = true :=
  Privilege.impliesAny_iff

namespace Acl

open Privilege (Kept)

/-- What the principal's first entry holds; nothing if it has no entry. -/
def firstHeld (acl : Acl) (name : String) : List Privilege := (acl.entryFor name).elim [] (·.privileges)

variable {who : Principal} {privileges : List Privilege} {e : Entry}

/-- After a grant the principal's first entry has what it held, with what was given merged in. -/
theorem entryFor_granted (who : Principal) (privileges : List Privilege) (entries : List Entry) :
    entryFor ⟨granted who privileges entries⟩ who.name =
      some ⟨who, Privilege.merge (firstHeld ⟨entries⟩ who.name) privileges⟩ := by
  induction entries with
  | nil =>
    have hmerge := Privilege.merge_eq_append [] privileges
    simp only [firstHeld, entryFor, granted, List.find?_nil, Option.elim_none, hmerge]
    simp
  | cons e rest ih =>
    rw [granted]
    by_cases he : e.principal = who
    · have hfirst : firstHeld ⟨e :: rest⟩ who.name = e.privileges := by
        simp [firstHeld, entryFor, he]
      rw [if_pos he, hfirst, Privilege.merge_eq_append]
      simp [entryFor, Entry.privilegeNames]
    · have hname : (e.principal.name == who.name) = false :=
        beq_eq_false_iff_ne.2 (name_ne_of_principal he)
      have hfirst : firstHeld ⟨e :: rest⟩ who.name = firstHeld ⟨rest⟩ who.name := by
        simp [firstHeld, entryFor, hname]
      rw [if_neg he, hfirst, ← ih]
      simp [entryFor, hname]

/-- The entry grants what the descriptors that are kept imply, and no more. -/
theorem grants_granted {name : String} {entries : List Entry}
    (he : entryFor ⟨granted who privileges entries⟩ who.name = some e) :
    e.grants name = true ↔
      ∃ p, Kept (firstHeld ⟨entries⟩ who.name) privileges p ∧ p.implies name = true := by
  rw [entryFor_granted] at he
  cases he
  simp only [Entry.grants_iff, Privilege.mem_merge]

end Acl
end AclTree
