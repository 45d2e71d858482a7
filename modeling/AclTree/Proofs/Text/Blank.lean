/-
White space, one code point after the other (`isBlank_iff`), and what trimming
leaves of a text: that which stands between the white space at its two ends
(`trim_eq_iff`).
-/
import AclTree.Text.Blank
import Mathlib.Data.List.DropRight

namespace AclTree.Text

/-! ## Code points -/

namespace CodeSet

variable {lo hi point : Nat} {rest : List Nat}

theorem contains_nil (point : Nat) : contains ⟨[]⟩ point = false := rfl

/-- The first two boundaries enclose points of the set, and the others lie behind them. -/
theorem contains_cons_cons (hlt : lo ≤ hi) (hrest : ∀ b ∈ rest, hi ≤ b) :
    contains ⟨lo :: hi :: rest⟩ point = true ↔
      (lo ≤ point ∧ point < hi) ∨ contains ⟨rest⟩ point = true := by
  have hbelow : point < hi → contains ⟨rest⟩ point = false := fun hhi => by
    cases rest with
    | nil => rfl
    | cons b rest => exact contains_of_lt_head (hhi.trans_le (hrest b List.mem_cons_self))
  by_cases hlo : point < lo
  · rw [contains_of_lt_head hlo, hbelow (hlo.trans_le hlt)]
    simp only [Bool.false_eq_true, or_false, false_iff]
    omega
  rw [contains_cons_of_le (Nat.not_lt.1 hlo)]
  by_cases hhi : point < hi
  · rw [contains_of_lt_head hhi]
    simp [Nat.not_lt.1 hlo, hhi]
  · rw [contains_cons_of_le (Nat.not_lt.1 hhi), Bool.not_not]
    simp [hhi]

end CodeSet

/-- The code points with the property `White_Space`, one by one. -/
def IsWhiteSpace (c : Char) : Prop :=
  (0x9 ≤ c.toNat ∧ c.toNat ≤ 0xd) ∨ c.toNat = 0x20 ∨ c.toNat = 0x85 ∨ c.toNat = 0xa0 ∨
    c.toNat = 0x1680 ∨ (0x2000 ≤ c.toNat ∧ c.toNat ≤ 0x200a) ∨ c.toNat = 0x2028 ∨
    c.toNat = 0x2029 ∨ c.toNat = 0x202f ∨ c.toNat = 0x205f ∨ c.toNat = 0x3000

theorem isBlank_iff {c : Char} : isBlank c = true ↔ IsWhiteSpace c := by
  unfold isBlank blanks IsWhiteSpace
  iterate 10 rw [CodeSet.contains_cons_cons (by decide) (by decide)]
  simp only [CodeSet.contains_nil, Bool.false_eq_true, or_false]
  omega

/-- A text in which there is more to see than white space. -/
def IsVisible (text : String) : Prop := ∃ c ∈ text.toList, ¬IsWhiteSpace c

theorem isBlankText_eq_false_iff {text : String} : isBlankText text = false ↔ IsVisible text := by
  simp only [isBlankText, List.all_eq_false, isBlank_iff, IsVisible]

instance : DecidablePred IsVisible := fun _ => decidable_of_iff _ isBlankText_eq_false_iff

theorem isBlankText_iff {text : String} : isBlankText text = true ↔ ¬IsVisible text := by
  rw [← isBlankText_eq_false_iff, Bool.not_eq_false]

/-! ## Trimming -/

/-- The text is the core with white space before and after it, and none of that is left at either
end of the core. -/
def Trims (text core : List Char) : Prop :=
  ∃ front back, text = front ++ core ++ back ∧ (∀ c ∈ front ++ back, IsWhiteSpace c) ∧
    ∀ h : core ≠ [], ¬IsWhiteSpace (core.head h) ∧ ¬IsWhiteSpace (core.getLast h)

theorem toList_trim (text : String) :
    (trim text).toList = (text.toList.dropWhile isBlank).rdropWhile isBlank := by
  unfold trim trimEnd
  rw [String.toList_ofList, String.toList_ofList]
  rfl

theorem trims_trim (text : String) : Trims text.toList (trim text).toList := by
  rw [toList_trim]
  generalize text.toList = l
  refine ⟨l.takeWhile isBlank, (l.dropWhile isBlank).rtakeWhile isBlank, ?_, ?_, fun h => ?_⟩
  · rw [List.append_assoc, List.rdropWhile_append_rtakeWhile, List.takeWhile_append_dropWhile]
  · intro c hc
    rw [← isBlank_iff]
    rcases List.mem_append.1 hc with hc | hc
    · exact List.mem_takeWhile_imp hc
    · exact List.mem_rtakeWhile_imp hc
  · rw [(List.rdropWhile_prefix isBlank _).head h, ← isBlank_iff, ← isBlank_iff, Bool.not_eq_true]
    exact ⟨List.head_dropWhile_not isBlank _, List.rdropWhile_last_not isBlank _ h⟩

/-- Trimming leaves the one core that the text has. -/
theorem trim_eq_iff {text : String} {core : List Char} :
    (trim text).toList = core ↔ Trims text.toList core := by
  constructor
  · rintro rfl
    exact trims_trim text
  rintro ⟨front, back, htext, hblank, hends⟩
  simp only [List.forall_mem_append, ← isBlank_iff] at hblank
  obtain ⟨hfront, hback⟩ := hblank
  rw [toList_trim, htext, List.append_assoc, List.dropWhile_append_of_pos hfront]
  by_cases hcore : core = []
  · rw [hcore, List.nil_append, List.rdropWhile_eq_nil_iff]
    exact fun c hc => hback c ((List.dropWhile_sublist _).mem hc)
  -- Dropping from the left stops at the head of the core, and from the right at its end.
  obtain ⟨hhead, hlast⟩ := hends hcore
  rw [← isBlank_iff] at hhead hlast
  calc ((core ++ back).dropWhile isBlank).rdropWhile isBlank
      = (core ++ back).rdropWhile isBlank := by
        obtain ⟨c, rest, rfl⟩ := List.exists_cons_of_ne_nil hcore
        exact congrArg _ (List.dropWhile_cons_of_neg hhead)
    _ = core.rdropWhile isBlank := by
        unfold List.rdropWhile
        rw [List.reverse_append, List.dropWhile_append_of_pos]
        exact fun c hc => hback c (List.mem_reverse.1 hc)
    _ = core := List.rdropWhile_eq_self_iff.2 fun _ => hlast

end AclTree.Text
