/-
Joining and splitting. Normal paths below the root and pairs of a normal path
with a valid name are the same thing (`joining`): `join` leads from the pairs to
the paths and `split?` back. `depth` is how often a path can be split until the
root is left, and a path is within another if splitting it leads there
(`isWithin_join`).
-/
import AclTree.Proofs.Path
import Mathlib.Data.List.Induction
import Mathlib.Logic.Equiv.Defs

namespace AclTree.Path

variable {q : String}

/-- A normal path and a name for a node below it. -/
abbrev Place := {x : String × String // normalize x.1 = .ok x.1 ∧ checkName x.2 = .ok ()}

/-- A normal path other than the root. -/
abbrev Lower := {q : String // normalize q = .ok q ∧ q ≠ root}

/-- A normal path below the root splits into what it is joined from. -/
theorem split?_normal (h : normalize q = .ok q) (hne : q ≠ root) :
    ∃ x, split? q = some x ∧ normalize x.1 = .ok x.1 ∧ checkName x.2 = .ok () ∧ join x.1 x.2 = q := by
  obtain ⟨parent, name, hp, hn, rfl⟩ := exists_join h hne
  exact ⟨(parent, name), split?_join hp hn, hp, checkName_eq_ok.2 hn, rfl⟩

/-- `join` as a bijection; its inverse is `split?`. -/
def joining : Place ≃ Lower where
  toFun x :=
    have hn := checkName_eq_ok.1 x.2.2
    ⟨join x.1.1 x.1.2, normalize_join x.2.1 hn, join_ne_root hn⟩
  invFun q :=
    have hsplit : (split? q.1).isSome = true := by
      obtain ⟨x, hx, -⟩ := split?_normal q.2.1 q.2.2
      rw [hx]
      rfl
    ⟨(split? q.1).get hsplit, by
      obtain ⟨x, hx, hp, hn, -⟩ := split?_normal q.2.1 q.2.2
      simp only [hx, Option.get_some]
      exact ⟨hp, hn⟩⟩
  left_inv x := by
    refine Subtype.ext ?_
    simp only [split?_join x.2.1 (checkName_eq_ok.1 x.2.2), Option.get_some]
  right_inv q := by
    obtain ⟨x, hx, -, -, hj⟩ := split?_normal q.2.1 q.2.2
    refine Subtype.ext ?_
    simp only [hx, Option.get_some, hj]

/-- The path so many names further up, if there are as many. -/
def above : Nat → String → Option String
  | 0, path => some path
  | n + 1, path => (split? path).bind fun (parent, _) => above n parent

theorem above_eq_root_iff (h : normalize q = .ok q) (n : Nat) :
    above n q = some root ↔ n = depth q := by
  refine normalInduction (P := fun q => ∀ n, above n q = some root ↔ n = depth q) ?_ ?_ h n
  · rintro (_ | n)
    · simp [above]
    · simp [above, split?]
  · intro parent name hp hn ih n
    rw [depth_join hn]
    cases n with
    | zero => simp [above, join_ne_root hn]
    | succ n => simp [above, split?_join hp hn, ih]

/-- **Joining and splitting are inverse**, between normal paths below the root and pairs of a normal
path and a valid name, and each join is one deeper. -/
theorem join_split_inverse :
    (∀ s p name, normalize s = .ok p → checkName name = .ok () →
      normalize (join p name) = .ok (join p name) ∧ split? (join p name) = some (p, name) ∧
        depth (join p name) = depth p + 1) ∧
    (∀ s q, normalize s = .ok q → q ≠ root → ∃ p name, split? q = some (p, name) ∧
      normalize p = .ok p ∧ checkName name = .ok () ∧ join p name = q) ∧
    (∃ e : Place ≃ Lower, (∀ x, (e x).1 = join x.1.1 x.1.2) ∧
      ∀ q, split? q.1 = some (e.symm q).1) ∧
    (∀ s q, normalize s = .ok q → ∀ n, above n q = some root ↔ n = depth q) := by
  refine ⟨fun s p name hs hname => ?_, fun s q hs hne => ?_, ⟨joining, fun _ => rfl, fun q => ?_⟩,
    fun s q hs => above_eq_root_iff (normalize_normal hs)⟩
  · have hp := normalize_normal hs
    have hn := checkName_eq_ok.1 hname
    exact ⟨normalize_join hp hn, split?_join hp hn, depth_join hn⟩
  · obtain ⟨⟨p, name⟩, hsplit⟩ := split?_normal (normalize_normal hs) hne
    exact ⟨p, name, hsplit⟩
  · exact (Option.some_get _).symm

/-- A name that begins with two dots, below a path that is written with a slash at its end. -/
theorem join_split_inverse_dots : normalize "/a/" = .ok "/a" ∧ checkName "..b" = .ok () ∧
    split? (join "/a" "..b") = some ("/a", "..b") ∧
    (∃ p name, split? "/a/..b" = some (p, name) ∧ normalize p = .ok p ∧ checkName name = .ok () ∧
      join p name = "/a/..b") ∧
    (above 2 "/a/..b" = some root ↔ 2 = depth "/a/..b") :=
  ⟨rfl, rfl, (join_split_inverse.1 "/a/" "/a" "..b" rfl rfl).2.1,
    join_split_inverse.2.1 "/a/..b" "/a/..b" rfl (by decide),
    join_split_inverse.2.2.2 "/a/..b/" "/a/..b" rfl 2⟩

/-! ## Paths within others -/

theorem isWithin_iff {path bound : String} : isWithin path bound = true ↔
    bound = root ∨ path = bound ∨ bound.toList ++ ['/'] <+: path.toList := by
  simp [isWithin, or_assoc]

/-- What stands behind the last slash of a text has no part in a beginning that ends in a slash. -/
theorem prefix_append_slash {text before after : List Char} (h : '/' ∉ after) :
    text ++ ['/'] <+: before ++ '/' :: after ↔ text = before ∨ text ++ ['/'] <+: before := by
  induction after using List.reverseRecOn with
  | nil => rw [List.prefix_concat_iff, List.append_left_inj]
  | append_singleton after c ih =>
    simp only [List.mem_append, List.mem_singleton, not_or] at h
    have hne : text ++ ['/'] ≠ before ++ '/' :: after ++ [c] := by
      intro he
      have hlast := congrArg List.getLast? he
      rw [List.getLast?_concat, List.getLast?_concat] at hlast
      exact h.2 (Option.some.inj hlast)
    rw [← List.cons_append, ← List.append_assoc, List.prefix_concat_iff, or_iff_right hne, ih h.1]

/-- The root is within itself alone. -/
theorem isWithin_root {bound : String} (h : normalize bound = .ok bound) :
    isWithin root bound = true ↔ bound = root := by
  rw [isWithin_iff]
  refine ⟨?_, .inl⟩
  rintro (hroot | hroot | hprefix)
  · exact hroot
  · exact hroot.symm
  · by_contra hne
    obtain ⟨rest, hrest, -⟩ := (normalize_eq_ok h).resolve_left hne
    have hlength := hprefix.length_le
    rw [hrest] at hlength
    simp [root] at hlength

/-- A path is within a bound if it is the bound or its parent is within it. -/
theorem isWithin_join {parent name bound : String} (hn : isName name.toList = true)
    (h : normalize bound = .ok bound) :
    isWithin (join parent name) bound = true ↔
      join parent name = bound ∨ isWithin parent bound = true := by
  have hslash := (isName_iff.1 hn).2.2.2
  by_cases hbound : bound = root
  · simp [isWithin_iff, hbound]
  obtain ⟨rest, hrest, -⟩ := (normalize_eq_ok h).resolve_left hbound
  by_cases hparent : parent = root
  · subst hparent
    have hnil := @prefix_append_slash bound.toList [] _ hslash
    rw [List.nil_append] at hnil
    rw [isWithin_root h, isWithin_iff, toList_join, if_pos rfl, hnil, hrest]
    simp [hbound]
  · rw [isWithin_iff, isWithin_iff, toList_join, if_neg hparent, prefix_append_slash hslash,
      String.toList_inj]
    simp only [hbound, false_or, eq_comm]

end AclTree.Path
