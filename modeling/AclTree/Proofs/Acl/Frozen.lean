/-
When a list is frozen, told by the names that occur in its entries. The check
finds the one it looks for wherever that stands, so a list may be put in another
order, and what is added to one that passed cannot make it fail
(`frozen_exactly`).
-/
import AclTree.Proofs.Acl.Holds
import AclTree.Proofs.Privilege.Occurrence

namespace AclTree

namespace Entry

/-- An entry of the same principal, with its privileges in another order. -/
structure Rearranged (e f : Entry) : Prop where
  principal : e.principal = f.principal
  privileges : Reordered Privilege.Rearranged e.privileges f.privileges

/-- An entry of the same principal with more privileges, or more in them. -/
structure Enlarged (e f : Entry) : Prop where
  principal : e.principal = f.principal
  privileges : Extended Privilege.Enlarged e.privileges f.privileges

end Entry

namespace Acl

variable {acl other : Acl} {modify : String} {p q : Privilege}

/-- The same list in another order: of entries, of their privileges and of the constituents. -/
def Rearranged (acl other : Acl) : Prop := Reordered Entry.Rearranged acl.entries other.entries

/-- A list to which entries were added, or privileges to its entries, or constituents to these. -/
def Enlarged (acl other : Acl) : Prop := Extended Entry.Enlarged acl.entries other.entries

/-! ## What passes -/

theorem checkNotFrozen_eq_ok : acl.checkNotFrozen modify = .ok () ↔ acl.isFrozen modify = false := by
  unfold checkNotFrozen
  cases acl.isFrozen modify <;> simp

theorem checkNotFrozen_eq_ok_iff :
    acl.checkNotFrozen modify = .ok () ↔
      acl.entries = [] ∨ ∃ p, acl.Holds p ∧ p.implies modify = true := by
  rw [checkNotFrozen_eq_ok, isFrozen_eq_false_iff, isEmpty, List.isEmpty_iff]

/-- A list that does not pass is refused with the principal of each entry. -/
theorem checkNotFrozen_cases (acl : Acl) (modify : String) :
    acl.checkNotFrozen modify = .ok () ∨
      acl.checkNotFrozen modify = .error (.frozenAcl acl.principals) := by
  unfold checkNotFrozen
  split
  · exact .inr rfl
  · exact .inl rfl

/-! ## Lists that hold as much -/

theorem Rearranged.holds (h : acl.Rearranged other) (hp : acl.Holds p) :
    ∃ q, other.Holds q ∧ p.Rearranged q := by
  obtain ⟨e, he, hp⟩ := hp
  obtain ⟨f, hf, hef⟩ := (Reordered.extended h).exists_of_mem he
  obtain ⟨q, hq, hpq⟩ := hef.privileges.extended.exists_of_mem hp
  exact ⟨q, ⟨f, hf, hq⟩, hpq⟩

theorem Rearranged.holds_back (h : acl.Rearranged other) (hq : other.Holds q) :
    ∃ p, acl.Holds p ∧ p.Rearranged q := by
  obtain ⟨f, hf, hq⟩ := hq
  obtain ⟨e, he, hef⟩ := Reordered.exists_of_mem h hf
  obtain ⟨p, hp, hpq⟩ := hef.privileges.exists_of_mem hq
  exact ⟨p, ⟨e, he, hp⟩, hpq⟩

theorem Enlarged.holds (h : acl.Enlarged other) (hp : acl.Holds p) :
    ∃ q, other.Holds q ∧ p.Enlarged q := by
  obtain ⟨e, he, hp⟩ := hp
  obtain ⟨f, hf, hef⟩ := Extended.exists_of_mem h he
  obtain ⟨q, hq, hpq⟩ := hef.privileges.exists_of_mem hp
  exact ⟨q, ⟨f, hf, hq⟩, hpq⟩

theorem Rearranged.entries_eq_nil (h : acl.Rearranged other) :
    acl.entries = [] ↔ other.entries = [] := by
  obtain ⟨matched, hmatched, hperm⟩ := h
  rw [← List.length_eq_zero_iff, ← List.length_eq_zero_iff, hmatched.length_eq, hperm.length_eq]

theorem Rearranged.checkNotFrozen_iff (h : acl.Rearranged other) :
    acl.checkNotFrozen modify = .ok () ↔ other.checkNotFrozen modify = .ok () := by
  rw [checkNotFrozen_eq_ok_iff, checkNotFrozen_eq_ok_iff, h.entries_eq_nil]
  refine or_congr_right ⟨?_, ?_⟩
  · rintro ⟨p, hp, hi⟩
    obtain ⟨q, hq, hpq⟩ := h.holds hp
    exact ⟨q, hq, hpq.implies_iff.1 hi⟩
  · rintro ⟨q, hq, hi⟩
    obtain ⟨p, hp, hpq⟩ := h.holds_back hq
    exact ⟨p, hp, hpq.implies_iff.2 hi⟩

theorem Enlarged.checkNotFrozen (h : acl.Enlarged other)
    (hempty : acl.entries = [] → other.entries = [])
    (hacl : acl.checkNotFrozen modify = .ok ()) : other.checkNotFrozen modify = .ok () := by
  rw [checkNotFrozen_eq_ok_iff] at hacl ⊢
  refine hacl.imp hempty ?_
  rintro ⟨p, hp, hi⟩
  obtain ⟨q, hq, hpq⟩ := h.holds hp
  exact ⟨q, hq, hpq.implies hi⟩

/-- **The check looks for one name**, in every descriptor at every depth, as implication does. A list
passes if it has no entries or the name occurs in it; any other is refused with the principals of
its entries. In which order things stand makes no difference. What is added to a list that passes
makes none that is refused, if entries are added only to a list that has some. -/
theorem frozen_exactly :
    (∀ (p : Privilege) (name : String),
      p.implies name = true ↔ ∃ q : Privilege, q.OccursIn p ∧ q.name = name) ∧
    ∀ (acl : Acl) (modify : String),
      (acl.checkNotFrozen modify = .ok () ↔ acl.entries = [] ∨
        ∃ e ∈ acl.entries, ∃ p ∈ e.privileges, ∃ q : Privilege, q.OccursIn p ∧ q.name = modify) ∧
      (acl.checkNotFrozen modify ≠ .ok () →
        acl.checkNotFrozen modify = .error (.frozenAcl (acl.entries.map (·.principal.name)))) ∧
      (∀ other, acl.Rearranged other →
        (acl.checkNotFrozen modify = .ok () ↔ other.checkNotFrozen modify = .ok ())) ∧
      ∀ other, acl.Enlarged other → (acl.entries = [] → other.entries = []) →
        acl.checkNotFrozen modify = .ok () → other.checkNotFrozen modify = .ok () := by
  refine ⟨fun p name => Privilege.implies_iff_occurs, fun acl modify =>
    ⟨?_, (checkNotFrozen_cases acl modify).resolve_left, fun other h => h.checkNotFrozen_iff,
      fun other h => h.checkNotFrozen⟩⟩
  rw [checkNotFrozen_eq_ok_iff]
  simp only [Holds, Privilege.implies_iff_occurs]
  refine or_congr_right ⟨?_, ?_⟩
  · rintro ⟨p, ⟨e, he, hp⟩, ho⟩
    exact ⟨e, he, p, hp, ho⟩
  · rintro ⟨e, he, p, hp, ho⟩
    exact ⟨p, ⟨e, he, hp⟩, ho⟩

/-- A privilege with a name two levels down, beside an aggregate of nothing. -/
def deep : Privilege := .aggregate "own" [.aggregate "none" [], .aggregate "x" [.simple "modify"]]

/-- The same, turned around. -/
def turned : Privilege := .aggregate "own" [.aggregate "x" [.simple "modify"], .aggregate "none" []]

/-- And with something in what was an aggregate of nothing. -/
def grown : Privilege :=
  .aggregate "own" [.aggregate "x" [.simple "modify"], .aggregate "none" [.simple "y"]]

theorem deep_rearranged : deep.Rearranged turned :=
  .aggregate "own" (.cons (.refl _) (.cons (.refl _) .nil)) (.swap ..)

theorem turned_enlarged : turned.Enlarged grown := by
  have hnone : (Privilege.aggregate "none" []).Enlarged (.aggregate "none" [.simple "y"]) :=
    ⟨rfl, .nil, List.nil_subperm⟩
  exact ⟨rfl, .cons (.refl _) (.cons hnone .nil), .refl _⟩

/-- A list passes by the name two levels down, also when its entries and their constituents are turned
around, and when there are more of them. With an aggregate of nothing alone it is refused. -/
theorem frozen_exactly_deep :
    checkNotFrozen ⟨[⟨⟨"u"⟩, [deep]⟩, ⟨⟨"v"⟩, []⟩]⟩ "modify" = .ok () ∧
    checkNotFrozen ⟨[⟨⟨"v"⟩, []⟩, ⟨⟨"u"⟩, [turned]⟩]⟩ "modify" = .ok () ∧
    checkNotFrozen ⟨[⟨⟨"v"⟩, []⟩, ⟨⟨"w"⟩, []⟩, ⟨⟨"u"⟩, [grown]⟩]⟩ "modify" = .ok () ∧
    checkNotFrozen ⟨[⟨⟨"u"⟩, [.aggregate "none" []]⟩, ⟨⟨"v"⟩, []⟩, ⟨⟨"u"⟩, []⟩]⟩ "modify" =
      .error (.frozenAcl ["u", "v", "u"]) := by
  have hrearranged : Rearranged ⟨[⟨⟨"u"⟩, [deep]⟩, ⟨⟨"v"⟩, []⟩]⟩ ⟨[⟨⟨"v"⟩, []⟩, ⟨⟨"u"⟩, [turned]⟩]⟩ :=
    ⟨[⟨⟨"u"⟩, [turned]⟩, ⟨⟨"v"⟩, []⟩],
      .cons ⟨rfl, [turned], .cons deep_rearranged .nil, .refl _⟩
        (.cons ⟨rfl, [], .nil, .refl _⟩ .nil), .swap ..⟩
  have henlarged : Enlarged ⟨[⟨⟨"v"⟩, []⟩, ⟨⟨"u"⟩, [turned]⟩]⟩
      ⟨[⟨⟨"v"⟩, []⟩, ⟨⟨"w"⟩, []⟩, ⟨⟨"u"⟩, [grown]⟩]⟩ :=
    ⟨[⟨⟨"v"⟩, []⟩, ⟨⟨"u"⟩, [grown]⟩],
      .cons ⟨rfl, [], .nil, .refl _⟩ (.cons ⟨rfl, [grown], .cons turned_enlarged .nil, .refl _⟩ .nil),
      ((List.sublist_cons_self ..).cons_cons _).subperm⟩
  have hoccurs : (Privilege.simple "modify").OccursIn deep :=
    .part (.tail _ (.head _)) (.part (.head _) .self)
  obtain ⟨hpasses, -, hsame, -⟩ := frozen_exactly.2 ⟨[⟨⟨"u"⟩, [deep]⟩, ⟨⟨"v"⟩, []⟩]⟩ "modify"
  obtain ⟨-, -, -, hstill⟩ := frozen_exactly.2 ⟨[⟨⟨"v"⟩, []⟩, ⟨⟨"u"⟩, [turned]⟩]⟩ "modify"
  obtain ⟨-, hrefused, -, -⟩ := frozen_exactly.2
    ⟨[⟨⟨"u"⟩, [.aggregate "none" []]⟩, ⟨⟨"v"⟩, []⟩, ⟨⟨"u"⟩, []⟩]⟩ "modify"
  have hdeep := hpasses.2 (.inr ⟨_, .head _, deep, .head _, _, hoccurs, rfl⟩)
  have hturned := (hsame _ hrearranged).1 hdeep
  exact ⟨hdeep, hturned, hstill _ henlarged nofun hturned, hrefused nofun⟩

end Acl
end AclTree
