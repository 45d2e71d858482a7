/-
The grammar of JSON texts: which texts stand for a value (`Written`), however
their tokens are set apart. What `pretty` lays out is such a text for every
value, at every depth (`written_pretty`).
-/
import AclTree.Json.Pretty
import Mathlib.Data.List.Forall2
import Mathlib.Data.Nat.Digits.Defs

namespace AclTree.Json

/-! ## Tokens -/

def IsSpace (c : Char) : Prop := c ∈ [' ', '\t', '\n', '\r']

instance : DecidablePred IsSpace := fun _ => inferInstanceAs (Decidable (_ ∈ _))

/-- A text with white space before and after it. -/
def Spaced (text spaced : List Char) : Prop :=
  ∃ front back, spaced = front ++ text ++ back ∧ ∀ c ∈ front ++ back, IsSpace c

/-- The characters that have an escape of one letter, with it. -/
def letters : List (Char × Char) :=
  [('"', '"'), ('\\', '\\'), ('/', '/'), ('\x08', 'b'), ('\x0c', 'f'), ('\n', 'n'), ('\r', 'r'),
    ('\t', 't')]

/-- A character between quotes. -/
inductive WrittenChar (c : Char) : List Char → Prop
  | plain : 0x20 ≤ c.toNat → c ≠ '"' → c ≠ '\\' → WrittenChar c [c]
  | letter {l : Char} : (c, l) ∈ letters → WrittenChar c ['\\', l]
  /-- The code point in four hexadecimal digits. -/
  | code {digits : List Nat} : digits.length = 4 → (∀ d ∈ digits, d < 16) →
      Nat.ofDigits 16 digits.reverse = c.toNat →
      WrittenChar c ('\\' :: 'u' :: digits.map Nat.digitChar)

inductive WrittenString (s : String) : List Char → Prop
  | quoted {parts : List (List Char)} : List.Forall₂ WrittenChar s.toList parts →
      WrittenString s ('"' :: parts.flatten ++ ['"'])

/-- An integer, or one with the power of ten that divides it. -/
inductive WrittenNumber (mantissa : Int) : Nat → List Char → Prop
  | integer : WrittenNumber mantissa 0 (toString mantissa).toList
  | decimal (decimals : Nat) :
      WrittenNumber mantissa decimals
        ((toString mantissa).toList ++ ['e', '-'] ++ (toString decimals).toList)

/-! ## Values -/

mutual

/-- The text stands for the value. -/
inductive Written : Json → List Char → Prop
  | null : Written .null "null".toList
  | true : Written (.bool Bool.true) "true".toList
  | false : Written (.bool Bool.false) "false".toList
  | number {mantissa : Int} {decimals : Nat} {text : List Char} :
      WrittenNumber mantissa decimals text → Written (.number mantissa decimals) text
  | string {s : String} {text : List Char} : WrittenString s text → Written (.string s) text
  | array {items : List Json} {texts spaced : List (List Char)} {back : List Char} :
      List.Forall₂ Written items texts → List.Forall₂ Spaced texts spaced →
      (∀ c ∈ back, IsSpace c) →
      Written (.array items) ('[' :: [','].intercalate spaced ++ back ++ [']'])
  | object {members : List (String × Json)} {texts spaced : List (List Char)}
      {back : List Char} :
      List.Forall₂ Member members texts → List.Forall₂ Spaced texts spaced →
      (∀ c ∈ back, IsSpace c) →
      Written (.object members) ('\x7b' :: [','].intercalate spaced ++ back ++ ['\x7d'])

/-- The text stands for the member of an object, its key and its value. -/
inductive Member : String × Json → List Char → Prop
  | pair {key : String} {j : Json} {name text spacedName spacedText : List Char} :
      WrittenString key name → Written j text → Spaced name spacedName →
      Spaced text spacedText → Member (key, j) (spacedName ++ ':' :: spacedText)

end

/-! ## The layout -/

theorem forall₂_map {α β : Type} {R : α → β → Prop} {f : α → β} (h : ∀ a, R a (f a)) (l : List α) :
    List.Forall₂ R l (l.map f) :=
  List.forall₂_map_right_iff.2 (List.forall₂_same.2 fun a _ => h a)

theorem forall_mem_newLine (depth : Nat) : ∀ c ∈ (newLine depth).toList, IsSpace c := by
  intro c hc
  rw [newLine, String.toList_ofList, List.mem_cons, List.mem_replicate] at hc
  rcases hc with rfl | ⟨-, rfl⟩ <;> decide

theorem spaced_self (text : List Char) : Spaced text text :=
  ⟨[], [], (List.append_nil text).symm, List.forall_mem_nil _⟩

theorem spaced_append {front : List Char} (text : List Char) (h : ∀ c ∈ front, IsSpace c) :
    Spaced text (front ++ text) :=
  ⟨front, [], (List.append_nil _).symm, by rwa [List.append_nil]⟩

theorem writtenChar_escape (c : Char) : WrittenChar c (escape c) := by
  unfold escape
  split_ifs with hquote hslash hn hr ht hb hf hlow
  · subst hquote; exact .letter (by decide)
  · subst hslash; exact .letter (by decide)
  · subst hn; exact .letter (by decide)
  · subst hr; exact .letter (by decide)
  · subst ht; exact .letter (by decide)
  · subst hb; exact .letter (by decide)
  · subst hf; exact .letter (by decide)
  · have hdigits : ∀ d ∈ [0, 0, c.toNat / 16, c.toNat % 16], d < 16 := by
      simp only [List.forall_mem_cons, List.not_mem_nil, false_imp_iff, implies_true, and_true]
      omega
    exact .code rfl hdigits (by simp [Nat.ofDigits_cons]; omega)
  · exact .plain (Nat.not_lt.1 hlow) hquote hslash

theorem writtenString_quote (s : String) : WrittenString s (quote s).toList := by
  have htext : (quote s).toList = '"' :: (s.toList.map escape).flatten ++ ['"'] := by
    simp [quote, List.flatMap_def]
  exact htext ▸ .quoted (forall₂_map writtenChar_escape s.toList)

theorem writtenNumber_numeral (mantissa : Int) (decimals : Nat) :
    WrittenNumber mantissa decimals (numeral mantissa decimals).toList := by
  unfold numeral
  split_ifs with h
  · exact h ▸ .integer
  · rw [String.toList_append, String.toList_append]
    exact .decimal decimals

/-- Items between brackets, whatever is left before the closing one. -/
theorem toList_enclose (opening closing : Char) (depth : Nat) (items : List String) :
    ∃ spaced back, (enclose (String.singleton opening) (String.singleton closing) depth items).toList
        = opening :: [','].intercalate spaced ++ back ++ [closing] ∧
      List.Forall₂ Spaced (items.map String.toList) spaced ∧ ∀ c ∈ back, IsSpace c := by
  unfold enclose
  split_ifs with h
  · rw [List.isEmpty_iff.1 h]
    exact ⟨[], [], by simp, .nil, List.forall_mem_nil _⟩
  · refine ⟨items.map fun item => (newLine (depth + 1) ++ item).toList, (newLine depth).toList, ?_, ?_,
      forall_mem_newLine depth⟩
    · simp [String.toList_intercalate, Function.comp_def]
    · rw [List.forall₂_map_left_iff]
      refine forall₂_map (fun item => ?_) items
      rw [String.toList_append]
      exact spaced_append _ (forall_mem_newLine _)

mutual

/-- **The text laid out for a value stands for it**, at every depth. -/
theorem written_pretty (depth : Nat) : ∀ j : Json, Written j (pretty depth j).toList
  | null => .null
  | bool true => .true
  | bool false => .false
  | number mantissa decimals => .number (writtenNumber_numeral mantissa decimals)
  | string s => .string (writtenString_quote s)
  | array items => by
    obtain ⟨spaced, back, htext, hspaced, hback⟩ :=
      toList_enclose '[' ']' depth (prettyItems (depth + 1) items)
    exact htext ▸ .array (written_prettyItems (depth + 1) items) hspaced hback
  | object members => by
    obtain ⟨spaced, back, htext, hspaced, hback⟩ :=
      toList_enclose '\x7b' '\x7d' depth (prettyMembers (depth + 1) members)
    exact htext ▸ .object (member_prettyMembers (depth + 1) members) hspaced hback

theorem written_prettyItems (depth : Nat) :
    ∀ items : List Json, List.Forall₂ Written items ((prettyItems depth items).map String.toList)
  | [] => .nil
  | j :: rest => .cons (written_pretty depth j) (written_prettyItems depth rest)

theorem member_prettyMembers (depth : Nat) :
    ∀ members : List (String × Json),
      List.Forall₂ Member members ((prettyMembers depth members).map String.toList)
  | [] => .nil
  | (key, j) :: rest => by
    have htext : (quote key ++ ": " ++ pretty depth j).toList
        = (quote key).toList ++ ':' :: ([' '] ++ (pretty depth j).toList) := by
      simp
    have hspace : ∀ c ∈ [' '], IsSpace c := by simp [IsSpace]
    exact .cons (htext ▸ .pair (writtenString_quote key) (written_pretty depth j) (spaced_self _)
      (spaced_append _ hspace)) (member_prettyMembers depth rest)

end

end AclTree.Json
