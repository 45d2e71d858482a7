/-
Joining paths and valid names: a joined path is not the root and lies one name
deeper than its parent, behind which it comes in the order of paths. Below a
normal path it is normal again (`normalize_join`) and splits into what was
joined (`split?_join`); all normal paths below the root come about in this way
(`exists_join`).
-/
import AclTree.Path
import Mathlib.Data.List.Basic

namespace AclTree.Path

theorem isName_iff {name : List Char} :
    isName name = true ↔ name ≠ [] ∧ name ≠ ['.'] ∧ name ≠ ['.', '.'] ∧ '/' ∉ name := by
  simp [isName, and_assoc]

theorem checkName_eq_ok {name : String} : checkName name = .ok () ↔ isName name.toList = true := by
  unfold checkName
  split <;> simp_all

theorem toList_join (parent name : String) :
    (join parent name).toList =
      if parent = root then '/' :: name.toList else parent.toList ++ '/' :: name.toList := by
  unfold join
  split <;> simp

/-- A path below another by a valid name is not the root. -/
theorem join_ne_root {parent name : String} (hn : isName name.toList = true) :
    join parent name ≠ root := by
  intro h
  have hl := congrArg String.toList h
  have hroot : root.toList = ['/'] := rfl
  obtain ⟨hne, -, -, hslash⟩ := isName_iff.1 hn
  rw [toList_join, hroot] at hl
  split at hl
  · exact hne (by simpa using hl)
  · have hlen := congrArg List.length hl
    have hpos := List.length_pos_iff.2 hne
    simp at hlen
    omega

/-- A path is one name deeper than its parent. -/
theorem depth_join {parent name : String} (hn : isName name.toList = true) :
    depth (join parent name) = depth parent + 1 := by
  have hslash : name.toList.count '/' = 0 := List.count_eq_zero.2 (isName_iff.1 hn).2.2.2
  unfold depth
  rw [if_neg (join_ne_root hn), toList_join]
  split
  · simp [hslash]
  · simp [hslash]

@[simp] theorem depth_root : depth root = 0 := rfl

theorem lt_join (parent : String) {name : String} (hn : isName name.toList = true) :
    parent < join parent name := by
  have hext : ∀ (text : List Char) {more : List Char}, more ≠ [] → text < text ++ more := by
    intro text more hne
    obtain ⟨c, more, rfl⟩ := List.exists_cons_of_ne_nil hne
    have hlt : text ++ [] < text ++ c :: more := List.append_left_lt (List.nil_lt_cons c more)
    rwa [List.append_nil] at hlt
  rw [String.lt_iff, toList_join]
  split
  · rename_i hp
    rw [hp]
    exact hext ['/'] (isName_iff.1 hn).1
  · exact hext parent.toList (by simp)

/-! ## Normal paths -/

theorem segments_ne_nil (text : List Char) : segments text ≠ [] := by
  cases text with
  | nil => simp [segments]
  | cons c rest =>
    unfold segments
    split
    · simp
    · split <;> simp

theorem segments_of_not_mem {text : List Char} (h : '/' ∉ text) : segments text = [text] := by
  induction text with
  | nil => rfl
  | cons c rest ih =>
    simp only [List.mem_cons, not_or] at h
    rw [segments, if_neg (Ne.symm h.1), ih h.2]

theorem segments_append_slash (before after : List Char) :
    segments (before ++ '/' :: after) = segments before ++ segments after := by
  induction before with
  | nil => rfl
  | cons c rest ih =>
    rw [List.cons_append, segments, segments, ih]
    split
    · rfl
    · obtain ⟨piece, pieces, hp⟩ := List.exists_cons_of_ne_nil (segments_ne_nil rest)
      rw [hp]
      rfl

/-- What is made of names does not end in a slash. -/
theorem dropSlash_of_names {text : List Char} (h : (segments text).all isName = true) :
    dropSlash text = text := by
  unfold dropSlash
  split
  · rename_i hl
    obtain ⟨before, rfl⟩ := List.getLast?_eq_some_iff.1 hl
    rw [segments_append_slash, List.all_append] at h
    simp [segments, isName] at h
  · rfl

/-- A slash and names with slashes between them are normal. -/
theorem normalize_of_names {path : String} {rest : List Char} (hpath : path.toList = '/' :: rest)
    (h : (segments rest).all isName = true) : normalize path = .ok path := by
  have hne : ¬rest.isEmpty = true := by
    intro hempty
    rw [List.isEmpty_iff.1 hempty] at h
    simp [segments, isName] at h
  unfold normalize
  rw [hpath]
  simp only [dropSlash_of_names h, h, if_neg hne, if_true]
  rw [← hpath, String.ofList_toList]

/-- Normal forms are the root or made of names. -/
theorem normalize_eq_ok {path p : String} (h : normalize path = .ok p) :
    p = root ∨ ∃ rest, p.toList = '/' :: rest ∧ (segments rest).all isName = true := by
  unfold normalize at h
  split at h
  · split at h
    · exact .inl (Except.ok.inj h).symm
    split at h
    · rename_i rest _ _ hnames
      rw [← Except.ok.inj h]
      exact .inr ⟨dropSlash rest, String.toList_ofList, hnames⟩
    · cases h
  · cases h

/-- What is normal stays as it is. -/
theorem normalize_normal {path p : String} (h : normalize path = .ok p) : normalize p = .ok p := by
  rcases normalize_eq_ok h with rfl | ⟨rest, hrest, hnames⟩
  · rfl
  · exact normalize_of_names hrest hnames

theorem normalize_join {parent name : String} (hp : normalize parent = .ok parent)
    (hn : isName name.toList = true) : normalize (join parent name) = .ok (join parent name) := by
  have hsegments := segments_of_not_mem (isName_iff.1 hn).2.2.2
  by_cases hroot : parent = root
  · have htext : (join parent name).toList = '/' :: name.toList := by
      rw [toList_join, if_pos hroot]
    refine normalize_of_names htext ?_
    simp [hsegments, hn]
  · obtain ⟨rest, hrest, hnames⟩ := (normalize_eq_ok hp).resolve_left hroot
    have htext : (join parent name).toList = '/' :: (rest ++ '/' :: name.toList) := by
      rw [toList_join, if_neg hroot, hrest, List.cons_append]
    refine normalize_of_names htext ?_
    rw [segments_append_slash, hsegments, List.all_append, hnames]
    simp [hn]

/-! ## Splitting -/

theorem splitLast_of_not_mem {text : List Char} (h : '/' ∉ text) : splitLast text = none := by
  induction text with
  | nil => rfl
  | cons c rest ih =>
    simp only [List.mem_cons, not_or] at h
    rw [splitLast, ih h.2]
    exact if_neg (Ne.symm h.1)

theorem splitLast_append_slash (before : List Char) {after : List Char} (h : '/' ∉ after) :
    splitLast (before ++ '/' :: after) = some (before, after) := by
  induction before with
  | nil =>
    rw [List.nil_append, splitLast, splitLast_of_not_mem h]
    exact if_pos rfl
  | cons c rest ih => rw [List.cons_append, splitLast, ih]

/-- A joined path splits into what was joined. -/
theorem split?_join {parent name : String} (hp : normalize parent = .ok parent)
    (hn : isName name.toList = true) : split? (join parent name) = some (parent, name) := by
  have hslash := (isName_iff.1 hn).2.2.2
  unfold split?
  rw [if_neg (join_ne_root hn), toList_join]
  by_cases hroot : parent = root
  · have hsplit := splitLast_append_slash [] hslash
    rw [List.nil_append] at hsplit
    rw [if_pos hroot, hsplit, hroot]
    simp
  · obtain ⟨rest, hrest, -⟩ := (normalize_eq_ok hp).resolve_left hroot
    have hne : parent ≠ "" := by
      rintro rfl
      cases hrest
    rw [if_neg hroot, splitLast_append_slash parent.toList hslash]
    simp [hne]

theorem exists_last_slash (text : List Char) :
    '/' ∉ text ∨ ∃ before after, text = before ++ '/' :: after ∧ '/' ∉ after := by
  induction text with
  | nil => exact .inl List.not_mem_nil
  | cons c rest ih =>
    rcases ih with ih | ⟨before, after, rfl, hafter⟩
    · by_cases hc : c = '/'
      · exact .inr ⟨[], rest, by rw [hc]; rfl, ih⟩
      · exact .inl fun hm => (List.mem_cons.1 hm).elim (fun h => hc h.symm) ih
    · exact .inr ⟨c :: before, after, rfl, hafter⟩

/-- A normal path below the root is joined from a normal parent and a name. -/
theorem exists_join {path : String} (h : normalize path = .ok path) (hne : path ≠ root) :
    ∃ parent name, normalize parent = .ok parent ∧ isName name.toList = true ∧
      path = join parent name := by
  obtain ⟨rest, hrest, hnames⟩ := (normalize_eq_ok h).resolve_left hne
  rcases exists_last_slash rest with hslash | ⟨before, after, rfl, hslash⟩
  · rw [segments_of_not_mem hslash, List.all_cons, List.all_nil, Bool.and_true] at hnames
    refine ⟨root, String.ofList rest, rfl, by rwa [String.toList_ofList], ?_⟩
    rw [← String.toList_inj, toList_join, if_pos rfl, hrest, String.toList_ofList]
  · rw [segments_append_slash, List.all_append, segments_of_not_mem hslash, List.all_cons,
      List.all_nil, Bool.and_true, Bool.and_eq_true] at hnames
    obtain ⟨hbefore, hafter⟩ := hnames
    have hparent : (String.ofList ('/' :: before)).toList = '/' :: before := String.toList_ofList
    have hroot : String.ofList ('/' :: before) ≠ root := by
      intro he
      have hempty : before = [] := by
        have htext := congrArg String.toList he
        rw [hparent] at htext
        exact (List.cons.inj htext).2
      rw [hempty] at hbefore
      simp [segments, isName] at hbefore
    refine ⟨String.ofList ('/' :: before), String.ofList after, normalize_of_names hparent hbefore,
      by rwa [String.toList_ofList], ?_⟩
    rw [← String.toList_inj, toList_join, if_neg hroot, hrest, hparent, String.toList_ofList]
    rfl

/-- Induction over normal paths, from the root down. -/
@[elab_as_elim]
theorem normalInduction {P : String → Prop} (root : P root)
    (join : ∀ parent name, normalize parent = .ok parent → isName name.toList = true → P parent →
      P (join parent name)) {path : String} (normal : normalize path = .ok path) : P path := by
  by_cases hroot : path = Path.root
  · rwa [hroot]
  · obtain ⟨parent, name, hp, hn, hj⟩ := exists_join normal hroot
    have hlt : depth parent < depth path := by rw [hj, depth_join hn]; omega
    rw [hj]
    exact join parent name hp hn (normalInduction root join hp)
termination_by depth path

end AclTree.Path
