/-
Chains of steps that may fail: one that succeeds has succeeded at every step
(`bind_eq_ok`, `mapM_eq_ok`), and keeps what every step keeps (`foldlM_keeps`).
Steps that add to what the ones before have added succeed together if what each
needs is there when it comes (`exists_foldlM_eq_ok`).
-/
import Mathlib.Data.List.Forall2

namespace Except

variable {α β ε : Type}

theorem bind_eq_ok {x : Except ε α} {f : α → Except ε β} {b : β} :
    (x >>= f) = .ok b ↔ ∃ a, x = .ok a ∧ f a = .ok b := by
  cases x with
  | error e =>
    constructor
    · intro h; cases h
    · rintro ⟨a, h, -⟩; cases h
  | ok a =>
    constructor
    · exact fun h => ⟨a, rfl, h⟩
    · rintro ⟨a', h, hf⟩
      cases h; exact hf

theorem map_eq_ok {x : Except ε α} {f : α → β} {b : β} :
    x.map f = .ok b ↔ ∃ a, x = .ok a ∧ f a = b := by
  cases x <;> simp [Except.map]

theorem map_eq_error {x : Except ε α} {f : α → β} {e : ε} :
    x.map f = .error e ↔ x = .error e := by
  cases x <;> simp [Except.map]

theorem mapError_eq_ok {ε' : Type} {x : Except ε α} {f : ε → ε'} {a : α} :
    x.mapError f = .ok a ↔ x = .ok a := by
  cases x <;> simp [Except.mapError]

theorem mapM_eq_ok {f : α → Except ε β} {l : List α} {bs : List β} :
    l.mapM f = .ok bs ↔ List.Forall₂ (fun a b => f a = .ok b) l bs := by
  induction l generalizing bs with
  | nil =>
    rw [List.forall₂_nil_left_iff]
    constructor
    · intro h; cases h; rfl
    · rintro rfl; rfl
  | cons a l ih =>
    rw [List.mapM_cons, bind_eq_ok, List.forall₂_cons_left_iff]
    constructor
    · rintro ⟨b, hb, h⟩
      obtain ⟨bs', hl, h⟩ := bind_eq_ok.1 h
      cases h
      exact ⟨b, bs', hb, ih.1 hl, rfl⟩
    · rintro ⟨b, bs', hb, hl, rfl⟩
      exact ⟨b, hb, bind_eq_ok.2 ⟨bs', ih.2 hl, rfl⟩⟩

/-- A chain that succeeds has collected what each of its steps gives. -/
theorem mapM_eq_ok_iff {f : α → Except ε β} {l : List α} {bs : List β} :
    l.mapM f = .ok bs ↔
      (∀ a ∈ l, ∃ b, f a = .ok b) ∧ bs = l.filterMap fun a => (f a).toOption := by
  rw [mapM_eq_ok]
  induction l generalizing bs with
  | nil => simp
  | cons a l ih =>
    rw [List.forall₂_cons_left_iff, List.forall_mem_cons, List.filterMap_cons]
    constructor
    · rintro ⟨b, bs, hb, hl, rfl⟩
      obtain ⟨hall, rfl⟩ := ih.1 hl
      exact ⟨⟨⟨b, hb⟩, hall⟩, by rw [hb]; rfl⟩
    · rintro ⟨⟨⟨b, hb⟩, hall⟩, rfl⟩
      exact ⟨b, _, hb, ih.2 ⟨hall, rfl⟩, by rw [hb]; rfl⟩

theorem foldlM_keeps {I : β → Prop} {f : β → α → Except ε β}
    (step : ∀ a b b', I b → f b a = .ok b' → I b') :
    ∀ {l : List α} {b b' : β}, I b → l.foldlM f b = .ok b' → I b'
  | [], b, b', hb, h => by cases h; exact hb
  | a :: l, b, b', hb, h => by
    rw [List.foldlM_cons] at h
    obtain ⟨c, hc, h⟩ := bind_eq_ok.1 h
    exact foldlM_keeps step (step a b c hb hc) h

/-! ## Steps that build on one another -/

section Adding

variable {κ : Type} {step : β → α → Except ε β} {has : β → κ → Prop} {key : α → κ}
  {needs : α → List κ} {fits : α → Prop} {l : List α}

/-- Steps that each add their own key, which is not to be there yet, and need other keys, succeed one
after the other if no key comes twice and each is needed only by steps behind its own. -/
theorem exists_foldlM_eq_ok
    (hsucceeds : ∀ a ∈ l, ∀ b, (∃ b', step b a = .ok b') ↔
      fits a ∧ ¬has b (key a) ∧ ∀ k ∈ needs a, has b k)
    (hadds : ∀ a ∈ l, ∀ b b', step b a = .ok b' → ∀ k, has b' k ↔ k = key a ∨ has b k) (b : β) :
    (∃ b', l.foldlM step b = .ok b') ↔
      (l.map key).Nodup ∧ (∀ a ∈ l, fits a ∧ ¬has b (key a)) ∧
        ∀ before a after, l = before ++ a :: after →
          ∀ k ∈ needs a, has b k ∨ k ∈ before.map key := by
  induction l generalizing b with
  | nil => exact iff_of_true ⟨b, rfl⟩ (by simp)
  | cons a l ih =>
    obtain ⟨hsucceeds, hrest⟩ := List.forall_mem_cons.1 hsucceeds
    obtain ⟨hadds, hrest'⟩ := List.forall_mem_cons.1 hadds
    have hfold : (∃ b', (a :: l).foldlM step b = .ok b') ↔
        ∃ c, step b a = .ok c ∧ ∃ b', l.foldlM step c = .ok b' := by
      rw [List.foldlM_cons]
      constructor
      · rintro ⟨b', h⟩
        obtain ⟨c, hc, h⟩ := bind_eq_ok.1 h
        exact ⟨c, hc, b', h⟩
      · rintro ⟨c, hc, b', h⟩
        exact ⟨b', bind_eq_ok.2 ⟨c, hc, h⟩⟩
    rw [hfold, List.map_cons, List.nodup_cons, List.forall_mem_cons]
    constructor
    · rintro ⟨c, hc, hl⟩
      obtain ⟨hfits, hnew, hneeds⟩ := (hsucceeds b).1 ⟨c, hc⟩
      have hhas := hadds b c hc
      obtain ⟨hnodup, hnews, hbehind⟩ := (ih hrest hrest' c).1 hl
      refine ⟨⟨fun hmem => ?_, hnodup⟩, ⟨⟨hfits, hnew⟩, fun x hx => ⟨(hnews x hx).1, fun h => ?_⟩⟩, ?_⟩
      · obtain ⟨x, hx, hkey⟩ := List.mem_map.1 hmem
        exact (hnews x hx).2 ((hhas _).2 (.inl hkey))
      · exact (hnews x hx).2 ((hhas _).2 (.inr h))
      · rintro (_ | ⟨y, before⟩) x after heq k hk
        · cases heq
          exact .inl (hneeds k hk)
        · cases heq
          rcases hbehind before x after rfl k hk with h | h
          · rcases (hhas k).1 h with rfl | h
            · exact .inr (by simp)
            · exact .inl h
          · exact .inr (by simp [h])
    · rintro ⟨⟨hmem, hnodup⟩, ⟨⟨hfits, hnew⟩, hnews⟩, hbehind⟩
      obtain ⟨c, hc⟩ := (hsucceeds b).2 ⟨hfits, hnew, fun k hk => by
        simpa using hbehind [] a l rfl k hk⟩
      have hhas := hadds b c hc
      refine ⟨c, hc, (ih hrest hrest' c).2 ⟨hnodup, fun x hx => ⟨(hnews x hx).1, fun h => ?_⟩, ?_⟩⟩
      · rcases (hhas _).1 h with hkey | h
        · exact hmem (hkey ▸ List.mem_map_of_mem hx)
        · exact (hnews x hx).2 h
      · intro before x after heq k hk
        rcases hbehind (a :: before) x after (by rw [heq]; rfl) k hk with h | h
        · exact .inl ((hhas k).2 (.inr h))
        · rcases List.mem_cons.1 h with rfl | h
          · exact .inl ((hhas _).2 (.inl rfl))
          · exact .inr h

end Adding

end Except
