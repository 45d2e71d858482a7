/-
Records in JSON (`Json.Record`). What is written of a value reads as that value.
An array of a record's fields reads as the object of them, members that the
record does not know do not count, and a field that is missing reads as one that
holds its default. All this is so of a reader that looks at the fields of
`Json.record?` and at nothing else (`Json.record_of_fields`).
-/
import AclTree.Json
import Mathlib.Data.List.Nodup

namespace AclTree.Json

variable {α : Type} {write : α → Json} {read? : Json → Option α} {names : List String}
  {members : List (String × Json)} {name : String}

/-- What is written reads as the value that it was written of, and so does what is written of a value
that was read from anything. -/
structure Lawful (write : α → Json) (read? : Json → Option α) : Prop where
  reads : ∀ a, read? (write a) = some a
  settles : ∀ j a, read? j = some a → read? (write a) = some a

/-- The laws of a record with these fields, of which some have defaults. -/
structure Record (names : List String) (defaults : List (String × Json)) (write : α → Json)
    (read? : Json → Option α) : Prop extends Lawful write read? where
  unknown : ∀ members, read? (.object members) =
    read? (.object (members.filter (·.1 ∈ names)))
  positional : ∀ items, items.length ≤ names.length →
    read? (.array items) = read? (.object (names.zip items))
  absent : ∀ default ∈ defaults, ∀ members, members.lookup default.1 = none →
    read? (.object members) = read? (.object (default :: members))

theorem lawful (h : ∀ a, read? (write a) = some a) : Lawful write read? := ⟨h, fun _ a _ => h a⟩

/-! ## Lists -/

theorem list?_array (h : ∀ a, read? (write a) = some a) (l : List α) :
    list? read? (.array (l.map write)) = some l := by
  change (l.map write).mapM read? = some l
  induction l with
  | nil => rfl
  | cons a l ih => rw [List.map_cons, List.mapM_cons, h a, ih]; rfl

@[simp] theorem list?_empty : list? read? (.array []) = some [] := rfl

@[simp] theorem list?_strings (texts : List String) : list? string? (strings texts) = some texts :=
  list?_array (fun _ => rfl : ∀ text : String, string? (.string text) = some text) texts

theorem optional_strings (texts : List String) :
    optional (list? string?) (some (strings texts)) = some (some texts) := by
  change (list? string? (strings texts)).map some = _
  rw [list?_strings, Option.map_some]

/-! ## Fields -/

theorem record?_object (h : distinct names members = true) :
    record? names (.object members) = some (List.lookup · members) :=
  if_pos h

theorem record?_object_of_repeated (h : distinct names members = false) :
    record? names (.object members) = none :=
  if_neg (Bool.not_eq_true _ ▸ h)

theorem distinct_iff :
    distinct names members = true ↔ ∀ name ∈ names, members.countP (·.1 == name) ≤ 1 := by
  simp [distinct]

theorem distinct_congr {members' : List (String × Json)}
    (h : ∀ name ∈ names, (members.countP (·.1 == name) ≤ 1 ↔ members'.countP (·.1 == name) ≤ 1)) :
    distinct names members = distinct names members' := by
  rw [Bool.eq_iff_iff, distinct_iff, distinct_iff]
  exact forall₂_congr h

theorem lookup_filter (h : name ∈ names) :
    (members.filter (·.1 ∈ names)).lookup name = members.lookup name := by
  induction members with
  | nil => rfl
  | cons m members ih =>
    obtain ⟨key, value⟩ := m
    by_cases hkey : key ∈ names
    · rw [List.filter_cons_of_pos (by simpa using hkey), List.lookup_cons, List.lookup_cons, ih]
    · have hne : (name == key) = false := by
        rw [beq_eq_false_iff_ne]
        rintro rfl
        exact hkey h
      rw [List.filter_cons_of_neg (by simpa using hkey), ih, List.lookup_cons, hne]

theorem countP_filter_key (h : name ∈ names) :
    (members.filter (·.1 ∈ names)).countP (·.1 == name) = members.countP (·.1 == name) := by
  rw [List.countP_filter]
  refine List.countP_congr fun m _ => ?_
  by_cases hm : m.1 = name
  · simp [hm, h]
  · simp [hm]

theorem keys_zip_sublist (names : List String) (items : List Json) :
    ((names.zip items).map Prod.fst).Sublist names := by
  induction names generalizing items with
  | nil => exact .slnil
  | cons name names ih =>
    cases items with
    | nil => exact List.nil_sublist _
    | cons item items => exact (ih items).cons_cons name

theorem countP_zip_le (h : names.Nodup) (items : List Json) :
    (names.zip items).countP (·.1 == name) ≤ 1 := by
  have hcount := List.nodup_iff_count_le_one.1 (h.sublist (keys_zip_sublist names items)) name
  rwa [List.count, List.countP_map] at hcount

theorem countP_of_lookup_none (h : members.lookup name = none) :
    members.countP (·.1 == name) = 0 := by
  refine List.countP_eq_zero.2 fun m hm hkey => ?_
  have hne := List.lookup_eq_none_iff.1 h m hm
  rw [beq_iff_eq.1 hkey] at hne
  simp at hne

/-! ## Readers of fields -/

/-- A reader of fields reads a record, if it reads what is written. -/
theorem record_of_fields {defaults : List (String × Json)} (build : (String → Option Json) → Option α)
    (hnames : names.Nodup) (hread : ∀ j, read? j = (j.record? names).bind build)
    (hfields : ∀ f g, (∀ name ∈ names, f name = g name) → build f = build g)
    (hdefaults : ∀ default ∈ defaults, ∀ f g, f default.1 = none → g default.1 = some default.2 →
      (∀ name, name ≠ default.1 → f name = g name) → build f = build g)
    (hwrite : ∀ a, read? (write a) = some a) : Record names defaults write read? where
  toLawful := lawful hwrite
  unknown members := by
    have hdistinct : distinct names members =
        distinct names (members.filter (·.1 ∈ names)) :=
      distinct_congr fun name h => by rw [countP_filter_key h]
    rw [hread, hread]
    cases hd : distinct names members with
    | false =>
      rw [record?_object_of_repeated hd, record?_object_of_repeated (hdistinct ▸ hd)]
    | true =>
      rw [record?_object hd, record?_object (hdistinct ▸ hd)]
      exact hfields _ _ fun name h => (lookup_filter h).symm
  positional items hlength := by
    have hd : distinct names (names.zip items) = true :=
      distinct_iff.2 fun name _ => countP_zip_le hnames items
    rw [hread, hread, record?_object hd]
    exact congrArg (Option.bind · build) (if_pos hlength)
  absent default hmem members hlookup := by
    -- The default comes in where there was no member of its name, so no field is there twice.
    have hdistinct : distinct names members = distinct names (default :: members) := by
      refine distinct_congr fun name _ => ?_
      rw [List.countP_cons]
      by_cases hkey : default.1 = name
      · subst hkey
        rw [countP_of_lookup_none hlookup]
        simp
      · simp [hkey]
    rw [hread, hread]
    cases hd : distinct names members with
    | false =>
      rw [record?_object_of_repeated hd, record?_object_of_repeated (hdistinct ▸ hd)]
    | true =>
      rw [record?_object hd, record?_object (hdistinct ▸ hd)]
      refine hdefaults default hmem _ _ hlookup List.lookup_cons_self fun name hne => ?_
      rw [List.lookup_cons, beq_eq_false_iff_ne.2 hne]

/-- A reader of fields that all have to be there. -/
theorem record_of_required (build : (String → Option Json) → Option α) (hnames : names.Nodup)
    (hread : ∀ j, read? j = (j.record? names).bind build)
    (hfields : ∀ f g, (∀ name ∈ names, f name = g name) → build f = build g)
    (hwrite : ∀ a, read? (write a) = some a) : Record names [] write read? :=
  record_of_fields build hnames hread hfields (List.forall_mem_nil _) hwrite

end AclTree.Json
