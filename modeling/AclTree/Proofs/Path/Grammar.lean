/-
How paths are written: a normal path is the root's slash, or valid names with a
slash before each (`ofNames`), and behind these one more slash may stand
(`Spells`). `normalize` reads just that (`normalizes_exactly`).
-/
import AclTree.Proofs.Path
import Mathlib.Data.List.Induction

namespace AclTree.Path

variable {s q : String} {names : List String}

/-- A slash, and names with slashes between them; without names the root. -/
def ofNames (names : List String) : String := "/" ++ String.intercalate "/" names

/-- `Spells s q`: the text `s` is a way to write the path `q`. -/
inductive Spells : String → String → Prop where
  | root : Spells root root
  | names {names : List String} :
      names ≠ [] → (∀ name ∈ names, checkName name = .ok ()) → Spells (ofNames names) (ofNames names)
  | slash {names : List String} :
      names ≠ [] → (∀ name ∈ names, checkName name = .ok ()) →
      Spells (ofNames names ++ "/") (ofNames names)

/-! ## Normal paths as names -/

theorem ofNames_eq_root (h : ∀ name ∈ names, checkName name = .ok ()) :
    ofNames names = root ↔ names = [] := by
  cases names with
  | nil => exact iff_of_true rfl rfl
  | cons name rest =>
    obtain ⟨hne, -⟩ := isName_iff.1 (checkName_eq_ok.1 (h name List.mem_cons_self))
    have hname : name ≠ "" := by simpa using hne
    cases rest <;> simp [ofNames, root, ← String.toList_inj, hname]

/-- The last of the names is joined to the path of those before it. -/
theorem ofNames_concat {name : String} (h : ∀ name ∈ names, checkName name = .ok ()) :
    ofNames (names ++ [name]) = join (ofNames names) name := by
  unfold join
  split
  · rename_i hroot
    rw [(ofNames_eq_root h).1 hroot]
    simp [ofNames]
  · rename_i hroot
    have hne : names ≠ [] := fun he => hroot ((ofNames_eq_root h).2 he)
    simp [ofNames, String.intercalate_append_of_ne_nil hne, String.append_assoc]

theorem normalize_ofNames (h : ∀ name ∈ names, checkName name = .ok ()) :
    normalize (ofNames names) = .ok (ofNames names) := by
  induction names using List.reverseRecOn with
  | nil => rfl
  | append_singleton names name ih =>
    have hnames : ∀ name ∈ names, checkName name = .ok () :=
      fun n hn => h n (List.mem_append_left _ hn)
    rw [ofNames_concat hnames]
    exact normalize_join (ih hnames) (checkName_eq_ok.1 (h name (by simp)))

/-- Normal paths are made of names. -/
theorem exists_ofNames (h : normalize q = .ok q) :
    ∃ names, (∀ name ∈ names, checkName name = .ok ()) ∧ q = ofNames names := by
  refine normalInduction ⟨[], by simp, rfl⟩ (fun parent name _ hn ih => ?_) h
  obtain ⟨names, hnames, rfl⟩ := ih
  refine ⟨names ++ [name], fun n hm => ?_, (ofNames_concat hnames).symm⟩
  rcases List.mem_append.1 hm with hm | hm
  · exact hnames n hm
  · rw [List.mem_singleton.1 hm]
    exact checkName_eq_ok.2 hn

/-! ## What is read -/

theorem dropSlash_cases (text : List Char) :
    text = dropSlash text ∨ text = dropSlash text ++ ['/'] := by
  unfold dropSlash
  split
  · rename_i hlast
    exact .inr (List.dropLast_append_getLast? '/' hlast).symm
  · exact .inl rfl

theorem dropSlash_concat (text : List Char) : dropSlash (text ++ ['/']) = text := by
  simp [dropSlash]

theorem dropSlash_cons (c : Char) {rest : List Char} (h : rest ≠ []) :
    dropSlash (c :: rest) = c :: dropSlash rest := by
  unfold dropSlash
  rw [List.getLast?_cons_of_ne_nil h, List.dropLast_cons_of_ne_nil h]
  split <;> rfl

theorem normalize_relative (h : s.toList.head? ≠ some '/') : normalize s = .error (.notAbsolute s) := by
  unfold normalize
  split
  · rename_i hs
    rw [hs] at h
    exact absurd rfl h
  · rfl

/-- Behind its first slash, and without a slash at its end, a text is judged piece by piece. -/
theorem normalize_absolute {rest : List Char} (hs : s.toList = '/' :: rest) (hne : rest ≠ []) :
    normalize s = if (segments (dropSlash rest)).all isName then
      .ok (String.ofList ('/' :: dropSlash rest)) else .error (.invalidSegment s) := by
  have hempty : ¬rest.isEmpty = true := by simpa using hne
  unfold normalize
  rw [hs]
  exact if_neg hempty

/-- The root, a slash with something behind it, or no slash in front. -/
theorem text_cases (s : String) :
    s = root ∨ (s ≠ root ∧ ∃ rest, rest ≠ [] ∧ s.toList = '/' :: rest) ∨ s.toList.head? ≠ some '/' := by
  by_cases hroot : s = root
  · exact .inl hroot
  cases hs : s.toList with
  | nil => simp
  | cons c rest =>
    by_cases hc : c = '/'
    · refine .inr (.inl ⟨hroot, rest, ?_, by rw [hc]⟩)
      rintro rfl
      exact hroot (String.toList_inj.1 (by rw [hs, hc]; rfl))
    · simp [hc]

/-- Below the root a normal path may be written with a slash behind it. -/
theorem normalize_append_slash (h : normalize q = .ok q) (hne : q ≠ root) :
    normalize (q ++ "/") = .ok q := by
  obtain ⟨rest, hrest, hnames⟩ := (normalize_eq_ok h).resolve_left hne
  have htext : (q ++ "/").toList = '/' :: (rest ++ ['/']) := by simp [hrest]
  rw [normalize_absolute htext (by simp), dropSlash_concat, if_pos hnames, ← hrest,
    String.ofList_toList]

/-- What a text is read as is the text itself, or it lacks the slash behind it. -/
theorem normalize_cases (h : normalize s = .ok q) : s = q ∨ (q ≠ root ∧ s = q ++ "/") := by
  rcases text_cases s with rfl | ⟨-, rest, hne, hs⟩ | hs
  · exact .inl (Except.ok.inj h)
  · rw [normalize_absolute hs hne] at h
    split at h
    · rename_i hnames
      have hq : q.toList = '/' :: dropSlash rest := by rw [← Except.ok.inj h, String.toList_ofList]
      rcases dropSlash_cases rest with hrest | hrest
      · exact .inl (String.toList_inj.1 (by rw [hs, hq, ← hrest]))
      · refine .inr ⟨?_, String.toList_inj.1 ?_⟩
        · rintro rfl
          rw [← (List.cons.inj hq).2] at hnames
          simp [segments, isName] at hnames
        · rw [hs, String.toList_append, hq, hrest, dropSlash_concat]
          rfl
    · cases h
  · rw [normalize_relative hs] at h
    cases h

/-! ## The grammar -/

theorem normalize_eq_ok_iff : normalize s = .ok q ↔ Spells s q := by
  constructor
  · intro h
    obtain ⟨names, hnames, rfl⟩ := exists_ofNames (normalize_normal h)
    by_cases hne : names = []
    · rw [(ofNames_eq_root hnames).2 hne] at h ⊢
      rw [(normalize_cases h).resolve_right fun hs => hs.1 rfl]
      exact .root
    rcases normalize_cases h with rfl | ⟨-, rfl⟩
    · exact .names hne hnames
    · exact .slash hne hnames
  · rintro (_ | ⟨-, hnames⟩ | ⟨hne, hnames⟩)
    · rfl
    · exact normalize_ofNames hnames
    · exact normalize_append_slash (normalize_ofNames hnames) fun he =>
        hne ((ofNames_eq_root hnames).1 he)

/-- What spells no path is refused, and the error holds the text. -/
theorem normalize_eq_error_iff {e : PathError} : normalize s = .error e ↔
    (∀ q, ¬Spells s q) ∧
      e = if s.toList.head? = some '/' then .invalidSegment s else .notAbsolute s := by
  simp only [← normalize_eq_ok_iff]
  rcases text_cases s with rfl | ⟨-, rest, hne, hs⟩ | hs
  · have hroot : normalize root = .ok root := rfl
    simp [hroot]
  · have hhead : s.toList.head? = some '/' := by rw [hs]; rfl
    rw [normalize_absolute hs hne, if_pos hhead]
    split <;> simp [eq_comm]
  · rw [normalize_relative hs]
    simp [hs, eq_comm]

/-- Normal paths below the root end in a name. -/
theorem getLast?_ne_slash (h : normalize q = .ok q) (hne : q ≠ root) :
    q.toList.getLast? ≠ some '/' := by
  obtain ⟨parent, name, -, hn, rfl⟩ := exists_join h hne
  obtain ⟨hempty, -, -, hslash⟩ := isName_iff.1 hn
  have hlast : (join parent name).toList.getLast? = name.toList.getLast? := by
    rw [toList_join]
    split
    · exact List.getLast?_cons_of_ne_nil hempty
    · rw [List.getLast?_append_of_ne_nil _ (List.cons_ne_nil _ _),
        List.getLast?_cons_of_ne_nil hempty]
  rw [hlast]
  exact fun h => hslash (List.mem_of_getLast? h)

/-- What is read as the same path differs by a slash at the end. -/
theorem eq_of_normalize {t : String} (hs : normalize s = .ok q) (ht : normalize t = .ok q) :
    s = t ∨ s = t ++ "/" ∨ t = s ++ "/" := by
  rcases normalize_cases hs with rfl | ⟨-, rfl⟩ <;> rcases normalize_cases ht with rfl | ⟨-, rfl⟩ <;>
    simp

/-- How a text is read. -/
structure Normalizes (s : String) : Prop where
  accepts : ∀ q, normalize s = .ok q ↔ Spells s q
  refuses : ∀ e, normalize s = .error e ↔ (∀ q, ¬Spells s q) ∧
    e = if s.toList.head? = some '/' then .invalidSegment s else .notAbsolute s
  idempotent : ∀ q, normalize s = .ok q → normalize q = .ok q
  slashless : ∀ q, normalize s = .ok q → q ≠ root → q.toList.getLast? ≠ some '/'
  alike : ∀ t q, normalize s = .ok q → normalize t = .ok q → s = t ∨ s = t ++ "/" ∨ t = s ++ "/"
  /-- Without the slash at its end a text that begins with one still does, unless it is the root's. So
  offset 1 is a position in it, and what stands from there on is what is judged. -/
  sliced : s.toList.head? = some '/' → s ≠ root → ∃ rest,
    String.ofList (dropSlash s.toList) = "/" ++ rest ∧
    String.Pos.Raw.IsValid (String.ofList (dropSlash s.toList)) ⟨1⟩ ∧
    normalize s =
      if (segments rest.toList).all isName then .ok ("/" ++ rest) else .error (.invalidSegment s)

/-- **Paths are read exactly as they are spelled**: a text is read as the path that it spells, and
refused if it spells none. -/
theorem normalizes_exactly (s : String) : Normalizes s where
  accepts _ := normalize_eq_ok_iff
  refuses _ := normalize_eq_error_iff
  idempotent _ h := normalize_normal h
  slashless _ h := getLast?_ne_slash (normalize_normal h)
  alike _ _ := eq_of_normalize
  sliced hs hne := by
    obtain ⟨-, rest, hrest, htext⟩ :=
      ((text_cases s).resolve_left hne).resolve_right (not_not_intro hs)
    have hcut : String.ofList (dropSlash s.toList) = "/" ++ String.ofList (dropSlash rest) := by
      rw [htext, dropSlash_cons '/' hrest]
      exact String.ofList_cons
    refine ⟨String.ofList (dropSlash rest), hcut, ?_, ?_⟩
    · exact String.Pos.Raw.isValid_iff_exists_append.2 ⟨"/", _, hcut, rfl⟩
    · rw [normalize_absolute htext hrest, String.toList_ofList, String.ofList_cons]
      rfl

/-- A name beyond ASCII with a slash behind it, and two slashes. -/
theorem normalizes_exactly_slashes : Spells "/é/" "/é" ∧ ∀ q, ¬Spells "/é//" q :=
  ⟨((normalizes_exactly "/é/").accepts "/é").1 rfl,
    (((normalizes_exactly "/é//").refuses (.invalidSegment "/é//")).1 rfl).1⟩

example : ["/", "//", "/./", "/a/.b/", "a/"].map (fun s => (normalize s).toOption) =
    [some "/", none, none, some "/a/.b", none] := rfl

end AclTree.Path
