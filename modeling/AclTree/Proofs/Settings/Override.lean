/-
What comes of settings that variables override (`Settings.Overriding`). They are
good if the flag can be read and every name has something to see in it, whether
it was overridden or not. A flag that cannot be read is told before any name
that is blank.
-/
import AclTree.Proofs.Except
import AclTree.Proofs.Text.Blank
import AclTree.Settings.Override

namespace AclTree.Settings

variable {s t : Settings} {lookup : String → Option String} {key name text : String} {flag : Bool}
  {e : SettingsError}

/-! ## Names -/

def AllVisible (names : List (String × String)) : Prop := ∀ entry ∈ names, Text.IsVisible entry.2

instance : DecidablePred AllVisible := fun names =>
  inferInstanceAs (Decidable (∀ entry ∈ names, Text.IsVisible entry.2))

/-- The name with the key is blank, and none before it is. -/
def IsFirstBlank (key : String) (names : List (String × String)) : Prop :=
  ∃ before name after, names = before ++ (key, name) :: after ∧ AllVisible before ∧
    ¬Text.IsVisible name

theorem find?_eq_none_iff {names : List (String × String)} :
    names.find? (Text.isBlankText ·.2) = none ↔ AllVisible names := by
  simp only [List.find?_eq_none, Bool.not_eq_true, Text.isBlankText_eq_false_iff, AllVisible]

theorem exists_find?_eq_some_iff {names : List (String × String)} :
    (∃ name, names.find? (Text.isBlankText ·.2) = some (key, name)) ↔ IsFirstBlank key names := by
  simp only [List.find?_eq_some_iff_append, Bool.not_eq_true', Text.isBlankText_eq_false_iff,
    Text.isBlankText_iff]
  constructor
  · rintro ⟨name, hblank, before, after, hnames, hbefore⟩
    exact ⟨before, name, after, hnames, hbefore, hblank⟩
  · rintro ⟨before, name, after, hnames, hbefore, hblank⟩
    exact ⟨name, hblank, before, after, hnames, hbefore⟩

theorem validate_eq_ok_iff : s.validate = .ok () ↔ AllVisible s.names := by
  rw [← find?_eq_none_iff]
  unfold validate
  cases s.names.find? (Text.isBlankText ·.2) <;> simp

/-- The first name that is blank is the one told. -/
theorem validate_eq_error_iff :
    s.validate = .error e ↔ ∃ key, e = .blankName key ∧ IsFirstBlank key s.names := by
  simp only [← exists_find?_eq_some_iff]
  unfold validate
  cases s.names.find? (Text.isBlankText ·.2) with
  | none => simp
  | some entry => simp [eq_comm, Prod.ext_iff]

/-! ## The flag -/

/-- The words for the two values of a flag. -/
def flagWords : Bool → List String
  | true => ["1", "true", "yes", "on"]
  | false => ["0", "false", "no", "off"]

/-- Without the white space around it and in small letters, the text is a word for the flag. -/
def SaysFlag (text : String) (flag : Bool) : Prop :=
  ∃ core, Text.Trims text.toList core ∧ String.ofList (core.map Char.toLower) ∈ flagWords flag

theorem saysFlag_iff : SaysFlag text flag ↔ flagText text ∈ flagWords flag := by
  simp only [SaysFlag, flagText, ← Text.trim_eq_iff, exists_eq_left']

instance (text : String) (flag : Bool) : Decidable (SaysFlag text flag) :=
  decidable_of_iff _ saysFlag_iff.symm

theorem readFlag_eq (key text : String) : readFlag key text =
    if flagText text ∈ flagWords true then .ok true
    else if flagText text ∈ flagWords false then .ok false
    else .error (.badFlag key (flagText text)) := by
  simp only [readFlag, List.contains_iff_mem]
  rfl

theorem readFlag_eq_ok_iff : readFlag key text = .ok flag ↔ SaysFlag text flag := by
  have hapart : ∀ word ∈ flagWords true, word ∉ flagWords false := by decide
  rw [saysFlag_iff, readFlag_eq]
  split
  · rename_i htrue
    cases flag <;> simp [htrue, hapart _ htrue]
  split
  · rename_i htrue hfalse
    cases flag <;> simp [htrue, hfalse]
  · rename_i htrue hfalse
    cases flag <;> simp [htrue, hfalse]

theorem readFlag_eq_error (key : String) (h : ∀ flag, ¬SaysFlag text flag) :
    readFlag key text = .error (.badFlag key (flagText text)) := by
  rw [readFlag_eq, if_neg fun ht => h true (saysFlag_iff.2 ht),
    if_neg fun hf => h false (saysFlag_iff.2 hf)]

/-- The flag is the one given, or that of the settings if none is given. -/
def IsFlagOf (s : Settings) (lookup : String → Option String) (flag : Bool) : Prop :=
  match lookup enforceKey with
  | some text => SaysFlag text flag
  | none => flag = s.enforce

/-- No flag is given, or one that can be read. -/
def IsFlagReadable (lookup : String → Option String) : Prop :=
  ∀ text, lookup enforceKey = some text → ∃ flag, SaysFlag text flag

/-- The flag that cannot be read is one that is given. -/
theorem exists_of_not_isFlagReadable (h : ¬IsFlagReadable lookup) :
    ∃ text, lookup enforceKey = some text ∧ ∀ flag, ¬SaysFlag text flag := by
  simpa [IsFlagReadable] using h

theorem exists_isFlagOf_iff : (∃ flag, s.IsFlagOf lookup flag) ↔ IsFlagReadable lookup := by
  unfold IsFlagOf IsFlagReadable
  cases lookup enforceKey <;> simp

/-! ## Overriding -/

/-- The names with what overrides them, by their keys. -/
def overriddenNames (s : Settings) (lookup : String → Option String) : List (String × String) :=
  [("admin_principal", (lookup adminKey).getD s.admin),
    ("all_privilege", (lookup allPrivilegeKey).getD s.allPrivilege),
    ("modify_access_control_privilege", (lookup modifyPrivilegeKey).getD s.modifyPrivilege)]

/-- The settings with these names and the flag. -/
def overridden (s : Settings) (lookup : String → Option String) (flag : Bool) : Settings where
  admin := (lookup adminKey).getD s.admin
  allPrivilege := (lookup allPrivilegeKey).getD s.allPrivilege
  modifyPrivilege := (lookup modifyPrivilegeKey).getD s.modifyPrivilege
  enforce := flag

theorem names_overridden (s : Settings) (lookup : String → Option String) (flag : Bool) :
    (s.overridden lookup flag).names = s.overriddenNames lookup := rfl

theorem eq_overridden (hnames : t.names = s.overriddenNames lookup) :
    t = s.overridden lookup t.enforce := by
  obtain ⟨admin, allPrivilege, modifyPrivilege, enforce⟩ := t
  simpa [names, overriddenNames, overridden] using hnames

/-- The faults of settings with their overrides. -/
inductive Fault (s : Settings) (lookup : String → Option String) : SettingsError → Prop where
  | flag {text : String} {core : List Char} : lookup enforceKey = some text →
      (∀ flag, ¬SaysFlag text flag) → Text.Trims text.toList core →
      Fault s lookup (.badFlag enforceKey (String.ofList (core.map Char.toLower)))
  | name {key : String} : IsFlagReadable lookup → IsFirstBlank key (s.overriddenNames lookup) →
      Fault s lookup (.blankName key)

theorem override_of_isFlagOf (h : s.IsFlagOf lookup flag) :
    s.override lookup =
      (s.overridden lookup flag).validate.map fun _ => s.overridden lookup flag := by
  unfold IsFlagOf at h
  unfold override
  cases htext : lookup enforceKey with
  | none =>
    rw [htext] at h
    subst h
    rfl
  | some text =>
    rw [htext] at h
    dsimp only
    rw [readFlag_eq_ok_iff.2 h]
    rfl

theorem override_of_badFlag (s : Settings) (htext : lookup enforceKey = some text)
    (h : ∀ flag, ¬SaysFlag text flag) :
    s.override lookup = .error (.badFlag enforceKey (flagText text)) := by
  unfold override
  rw [htext]
  dsimp only
  rw [readFlag_eq_error enforceKey h]
  rfl

theorem override_eq_ok_iff : s.override lookup = .ok t ↔
    t.names = s.overriddenNames lookup ∧ s.IsFlagOf lookup t.enforce ∧ AllVisible t.names := by
  constructor
  · intro h
    by_cases hread : IsFlagReadable lookup
    · obtain ⟨flag, hflag⟩ := exists_isFlagOf_iff.2 hread
      rw [override_of_isFlagOf hflag, Except.map_eq_ok] at h
      obtain ⟨⟨⟩, hvalid, rfl⟩ := h
      exact ⟨rfl, hflag, validate_eq_ok_iff.1 hvalid⟩
    · obtain ⟨text, htext, hbad⟩ := exists_of_not_isFlagReadable hread
      rw [override_of_badFlag s htext hbad] at h
      cases h
  · rintro ⟨hnames, hflag, hvisible⟩
    rw [override_of_isFlagOf hflag, ← eq_overridden hnames, validate_eq_ok_iff.2 hvisible]
    rfl

/-- Settings are refused for the first of their faults. -/
theorem override_eq_error_iff : s.override lookup = .error e ↔ s.Fault lookup e := by
  -- The flag decides which kind of fault there can be: names are looked at only once it is read.
  by_cases hread : IsFlagReadable lookup
  · obtain ⟨flag, hflag⟩ := exists_isFlagOf_iff.2 hread
    rw [override_of_isFlagOf hflag, Except.map_eq_error, validate_eq_error_iff, names_overridden]
    constructor
    · rintro ⟨key, rfl, hblank⟩
      exact .name hread hblank
    · rintro (⟨htext, hbad, -⟩ | ⟨-, hblank⟩)
      · obtain ⟨flag, hflag⟩ := hread _ htext
        exact absurd hflag (hbad flag)
      · exact ⟨_, rfl, hblank⟩
  · obtain ⟨text, htext, hbad⟩ := exists_of_not_isFlagReadable hread
    rw [override_of_badFlag s htext hbad]
    constructor
    · rintro ⟨⟩
      exact .flag htext hbad (Text.trims_trim text)
    · rintro (⟨htext', -, hcore⟩ | ⟨hread', -⟩)
      · cases htext.symm.trans htext'
        rw [← Text.trim_eq_iff.2 hcore]
        rfl
      · exact absurd hread' hread

/-- The settings are the same apart from what is overridden in them. -/
structure AlikeBeside (lookup : String → Option String) (s t : Settings) : Prop where
  admin : lookup adminKey = none → s.admin = t.admin
  allPrivilege : lookup allPrivilegeKey = none → s.allPrivilege = t.allPrivilege
  modifyPrivilege : lookup modifyPrivilegeKey = none → s.modifyPrivilege = t.modifyPrivilege
  enforce : lookup enforceKey = none → s.enforce = t.enforce

theorem getD_congr {o : Option String} {a b : String} (h : o = none → a = b) :
    o.getD a = o.getD b := by
  cases o with
  | none => exact h rfl
  | some _ => rfl

theorem AlikeBeside.override_eq (h : AlikeBeside lookup s t) :
    s.override lookup = t.override lookup := by
  unfold override
  rw [getD_congr h.admin, getD_congr h.allPrivilege, getD_congr h.modifyPrivilege]
  cases hflag : lookup enforceKey with
  | none => rw [h.enforce hflag]
  | some _ => rfl

/-- Whatever was not overridden has been kept. -/
theorem alikeBeside_of_override (h : s.override lookup = .ok t) : AlikeBeside lookup s t := by
  obtain ⟨hnames, hflag, -⟩ := override_eq_ok_iff.1 h
  have hkept {o : Option String} {a : String} (hnone : o = none) : a = o.getD a := by
    rw [hnone, Option.getD_none]
  rw [eq_overridden hnames]
  refine ⟨hkept, hkept, hkept, fun hnone => ?_⟩
  rw [IsFlagOf, hnone] at hflag
  exact hflag.symm

/-- What comes of settings that are overridden. -/
structure Overriding (s : Settings) (lookup : String → Option String)
    (out : Except SettingsError Settings) : Prop where
  succeeds_iff : (∃ t, out = .ok t) ↔ IsFlagReadable lookup ∧ AllVisible (s.overriddenNames lookup)
  result : ∀ t, out = .ok t → t.names = s.overriddenNames lookup ∧ s.IsFlagOf lookup t.enforce
  fails_iff : ∀ e, out = .error e ↔ s.Fault lookup e
  /-- What is overridden might as well have been anything else, such as blank. -/
  repairs : ∀ t, AlikeBeside lookup s t → t.override lookup = out
  stable : ∀ t, out = .ok t → t.override lookup = .ok t
  valid : ∀ t, out = .ok t → t.validate = .ok ()

theorem overriding (s : Settings) (lookup : String → Option String) :
    s.Overriding lookup (s.override lookup) where
  succeeds_iff := by
    simp only [override_eq_ok_iff]
    constructor
    · rintro ⟨t, hnames, hflag, hvisible⟩
      exact ⟨exists_isFlagOf_iff.1 ⟨t.enforce, hflag⟩, hnames ▸ hvisible⟩
    · rintro ⟨hread, hvisible⟩
      obtain ⟨flag, hflag⟩ := exists_isFlagOf_iff.2 hread
      exact ⟨s.overridden lookup flag, rfl, hflag, hvisible⟩
  result t h := by
    obtain ⟨hnames, hflag, -⟩ := override_eq_ok_iff.1 h
    exact ⟨hnames, hflag⟩
  fails_iff _ := override_eq_error_iff
  repairs _ h := h.override_eq.symm
  stable _ h := (alikeBeside_of_override h).override_eq.symm.trans h
  valid _ h := validate_eq_ok_iff.2 (override_eq_ok_iff.1 h).2.2

end AclTree.Settings
