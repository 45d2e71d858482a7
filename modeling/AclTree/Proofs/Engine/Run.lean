/-
Running work on a host: what a sequence of steps or a failure makes of the
state, for work on single nodes (`Action`) and for walks (`Walk`).

`Action.each` runs an operation over a list of nodes, up to the first that
fails. It is what walks are compared with: a walk that has found its nodes
does what `each` does on the list of them.
-/
import Mathlib.Data.List.Basic
import AclTree.Engine.Walk

namespace AclTree

variable {ε ε' σ α β : Type}

/-! ## One step after the other -/

namespace Action

@[simp] theorem pure_run (a : α) (s : σ) : (pure a : ExceptT ε (StateM σ) α) s = (.ok a, s) := rfl

@[simp] theorem throw_run (e : ε) (s : σ) :
    (throw e : ExceptT ε (StateM σ) α) s = (.error e, s) := rfl

theorem bind_run (x : ExceptT ε (StateM σ) α) (f : α → ExceptT ε (StateM σ) β) (s : σ) :
    (x >>= f) s = match x s with
      | (.ok a, s') => f a s'
      | (.error e, s') => (.error e, s') := by
  change ExceptT.bindCont f (x s).1 (x s).2 = _
  rcases x s with ⟨_ | _, _⟩ <;> rfl

theorem bind_ok {x : ExceptT ε (StateM σ) α} {f : α → ExceptT ε (StateM σ) β} {s s' : σ} {a : α}
    (h : x s = (.ok a, s')) : (x >>= f) s = f a s' := by
  rw [bind_run, h]

theorem bind_error {x : ExceptT ε (StateM σ) α} {f : α → ExceptT ε (StateM σ) β} {s s' : σ} {e : ε}
    (h : x s = (.error e, s')) : (x >>= f) s = (.error e, s') := by
  rw [bind_run, h]

@[simp] theorem adapt_run (f : ε → ε') (x : ExceptT ε (StateM σ) α) (s : σ) :
    ExceptT.adapt f x s = ((x s).1.mapError f, (x s).2) := rfl

/-- Reading for each item reads, as long as each does, what is there at the start. -/
theorem mapM_reading {f : α → ExceptT ε (StateM σ) β} {g : α → Except ε β} {s : σ}
    (h : ∀ a, f a s = (g a, s)) (l : List α) : l.mapM f s = (l.mapM g, s) := by
  induction l with
  | nil => rfl
  | cons a l ih =>
    rw [List.mapM_cons, List.mapM_cons, bind_run, h a]
    cases g a with
    | error e => rfl
    | ok b =>
      change (l.mapM f >>= fun bs => pure (b :: bs)) s = _
      rw [bind_run, ih]
      cases l.mapM g <;> rfl

theorem filterAuxM_reading {f : α → ExceptT ε (StateM σ) Bool} {keep : α → Bool} {s : σ}
    {l : List α} (h : ∀ a ∈ l, f a s = (.ok (keep a), s)) (kept : List α) :
    List.filterAuxM f l kept s = (.ok ((l.filter keep).reverse ++ kept), s) := by
  induction l generalizing kept with
  | nil => rfl
  | cons a l ih =>
    have hl : ∀ b ∈ l, f b s = (.ok (keep b), s) := fun b hb => h b (List.mem_cons_of_mem a hb)
    change (f a >>= fun b => List.filterAuxM f l (cond b (a :: kept) kept)) s = _
    rw [bind_ok (h a List.mem_cons_self), ih hl, List.filter_cons]
    cases keep a <;> simp

/-- As `mapM_reading`, for choosing items. -/
theorem filterM_reading {f : α → ExceptT ε (StateM σ) Bool} {keep : α → Bool} {s : σ}
    {l : List α} (h : ∀ a ∈ l, f a s = (.ok (keep a), s)) :
    l.filterM f s = (.ok (l.filter keep), s) := by
  unfold List.filterM
  rw [bind_ok (filterAuxM_reading h [])]
  simp

end Action

namespace Walk

@[simp] theorem pure_run (a : α) (s : σ) : (pure a : Walk σ α) s = some (.ok a, s) := rfl

@[simp] theorem throw_run (e : AccessError) (s : σ) :
    (throw e : Walk σ α) s = some (.error e, s) := rfl

@[simp] theorem step_run (x : Action σ α) (s : σ) : step x s = some (x s) := rfl

theorem bind_run (x : Walk σ α) (f : α → Walk σ β) (s : σ) :
    (x >>= f) s = (x s).bind fun
      | (.ok a, s') => f a s'
      | (.error e, s') => some (.error e, s') := by
  change (x s).bind _ = _
  congr
  funext ⟨r, s'⟩
  cases r <;> rfl

theorem bind_ok {x : Walk σ α} {f : α → Walk σ β} {s s' : σ} {a : α}
    (h : x s = some (.ok a, s')) : (x >>= f) s = f a s' := by
  rw [bind_run, h]; rfl

theorem bind_error {x : Walk σ α} {f : α → Walk σ β} {s s' : σ} {e : AccessError}
    (h : x s = some (.error e, s')) : (x >>= f) s = some (.error e, s') := by
  rw [bind_run, h]; rfl

/-- A walk that succeeds succeeds in its first part and, from there, in the rest. -/
theorem bind_eq_ok {x : Walk σ α} {f : α → Walk σ β} {s s' : σ} {b : β} :
    (x >>= f) s = some (.ok b, s') ↔
      ∃ a s₁, x s = some (.ok a, s₁) ∧ f a s₁ = some (.ok b, s') := by
  rw [bind_run]
  constructor
  · intro h
    obtain ⟨⟨r, s₁⟩, hx, h⟩ := Option.bind_eq_some_iff.1 h
    cases r with
    | error e => cases h
    | ok a => exact ⟨a, s₁, hx, h⟩
  · rintro ⟨a, s₁, hx, h⟩
    rw [hx]; exact h

end Walk

/-! ## One node after the other -/

namespace Action

/-- The outcome of work that comes after other work: it counts what that had changed. -/
def after (changed : Bool) (out : Except AccessError Bool × σ) : Except AccessError Bool × σ :=
  (out.1.map (changed || ·), out.2)

@[simp] theorem after_ok (changed later : Bool) (s : σ) :
    after changed (.ok later, s) = (.ok (changed || later), s) := rfl

@[simp] theorem after_error (changed : Bool) (e : AccessError) (s : σ) :
    after changed (.error e, s) = (.error e, s) := rfl

@[simp] theorem after_false (out : Except AccessError Bool × σ) : after false out = out := by
  rcases out with ⟨_ | _, _⟩ <;> rfl

@[simp] theorem after_after (a b : Bool) (out : Except AccessError Bool × σ) :
    after a (after b out) = after (a || b) out := by
  rcases out with ⟨_ | _, _⟩ <;> simp [Bool.or_assoc]

/-- Runs an operation on nodes from left to right, up to the first on which it fails, and tells
whether it changed something on any. -/
def each (visit : String → Action σ Bool) : List String → Action σ Bool
  | [] => pure false
  | path :: rest => do
    let changed ← visit path
    let later ← each visit rest
    pure (changed || later)

variable {visit : String → Action σ Bool}

@[simp] theorem each_nil (s : σ) : each visit [] s = (.ok false, s) := rfl

theorem each_cons_ok {path : String} {rest : List String} {s s' : σ} {changed : Bool}
    (h : visit path s = (.ok changed, s')) :
    each visit (path :: rest) s = after changed (each visit rest s') := by
  rw [each, bind_ok h, bind_run]
  rcases each visit rest s' with ⟨_ | _, _⟩ <;> rfl

theorem each_cons_error {path : String} {rest : List String} {s s' : σ} {e : AccessError}
    (h : visit path s = (.error e, s')) : each visit (path :: rest) s = (.error e, s') :=
  bind_error h

/-- A run that succeeds succeeds on its first node and, from there, on the others. -/
theorem each_cons_eq_ok {path : String} {rest : List String} {s s' : σ} {changed : Bool} :
    each visit (path :: rest) s = (.ok changed, s') ↔
      ∃ now later s₁, visit path s = (.ok now, s₁) ∧ each visit rest s₁ = (.ok later, s') ∧
        changed = (now || later) := by
  constructor
  · intro h
    rcases hv : visit path s with ⟨e | now, s₁⟩
    · rw [each_cons_error hv] at h
      cases h
    rw [each_cons_ok hv] at h
    rcases hr : each visit rest s₁ with ⟨e | later, s₂⟩ <;> rw [hr] at h <;> cases h
    exact ⟨now, later, s₁, rfl, hr, rfl⟩
  · rintro ⟨now, later, s₁, hv, hr, rfl⟩
    rw [each_cons_ok hv, hr]
    rfl

@[simp] theorem each_singleton (path : String) : each visit [path] = visit path := by
  funext s
  rcases hv : visit path s with ⟨e | changed, s'⟩
  · exact each_cons_error hv
  · rw [each_cons_ok hv]; simp

theorem each_append_ok {left right : List String} {s s' : σ} {changed : Bool}
    (h : each visit left s = (.ok changed, s')) :
    each visit (left ++ right) s = after changed (each visit right s') := by
  induction left generalizing s changed with
  | nil => cases h; simp
  | cons path rest ih =>
    obtain ⟨now, later, s₁, hv, hr, rfl⟩ := each_cons_eq_ok.1 h
    rw [List.cons_append, each_cons_ok hv, ih hr, after_after]

theorem each_append_error {left right : List String} {s s' : σ} {e : AccessError}
    (h : each visit left s = (.error e, s')) : each visit (left ++ right) s = (.error e, s') := by
  induction left generalizing s with
  | nil => cases h
  | cons path rest ih =>
    rw [List.cons_append]
    rcases hv : visit path s with ⟨e' | now, s₁⟩
    · rw [each_cons_error hv] at h ⊢; exact h
    rw [each_cons_ok hv] at h ⊢
    rcases hr : each visit rest s₁ with ⟨e' | later, s₂⟩
    · rw [hr] at h; cases h
      rw [ih hr]; rfl
    · rw [hr] at h; cases h

/-- A run that fails has finished the nodes before the one on which it fails, and left that one and
those after it. -/
theorem each_eq_error {paths : List String} {s s' : σ} {e : AccessError}
    (h : each visit paths s = (.error e, s')) :
    ∃ done path left changed s₁, paths = done ++ path :: left ∧
      each visit done s = (.ok changed, s₁) ∧ visit path s₁ = (.error e, s') := by
  induction paths generalizing s with
  | nil => cases h
  | cons path rest ih =>
    rcases hv : visit path s with ⟨e' | changed, s₁⟩
    · rw [each_cons_error hv] at h
      cases h
      exact ⟨[], path, rest, false, s, rfl, rfl, hv⟩
    rw [each_cons_ok hv] at h
    rcases hr : each visit rest s₁ with ⟨e' | later, s₂⟩
    · rw [hr] at h
      cases h
      obtain ⟨done, p, left, later, s₃, rfl, hd, hp⟩ := ih hr
      exact ⟨path :: done, p, left, changed || later, s₃, rfl, by rw [each_cons_ok hv, hd]; rfl, hp⟩
    · rw [hr] at h; cases h

/-- A run that succeeds tells of a change if there was one on some node. -/
theorem each_eq_ok {paths : List String} {s s' : σ} {changed : Bool}
    (h : each visit paths s = (.ok changed, s')) :
    changed = true ↔ ∃ done path left before s₁ s₂, paths = done ++ path :: left ∧
      each visit done s = (.ok before, s₁) ∧ visit path s₁ = (.ok true, s₂) := by
  induction paths generalizing s changed with
  | nil =>
    cases h
    refine iff_of_false (by decide) ?_
    rintro ⟨done, path, left, -, -, -, hp, -⟩
    exact absurd hp.symm (List.append_ne_nil_of_right_ne_nil done (List.cons_ne_nil path left))
  | cons path rest ih =>
    obtain ⟨now, later, s₁, hv, hr, rfl⟩ := each_cons_eq_ok.1 h
    rw [Bool.or_eq_true, ih hr]
    constructor
    · rintro (rfl | ⟨done, q, left, before, t₁, t₂, rfl, hd, hq⟩)
      · exact ⟨[], path, rest, false, s, s₁, rfl, rfl, hv⟩
      · exact ⟨path :: done, q, left, now || before, t₁, t₂, rfl,
          each_cons_eq_ok.2 ⟨now, before, s₁, hv, hd, rfl⟩, hq⟩
    · rintro ⟨_ | ⟨p, done⟩, q, left, before, t₁, t₂, hp, hd, hq⟩
      · cases hp
        cases hd
        rw [hv] at hq
        cases hq
        exact .inl rfl
      · cases hp
        obtain ⟨now', before', s₂, hv', hd, -⟩ := each_cons_eq_ok.1 hd
        rw [hv] at hv'
        cases hv'
        exact .inr ⟨done, q, left, before', t₁, t₂, rfl, hd, hq⟩

end Action

theorem Walk.step_after (changed : Bool) (x : Action σ Bool) (s : σ) :
    (do
      let now ← Walk.step x
      pure (changed || now) : Walk σ Bool) s = some (Action.after changed (x s)) := by
  rw [Walk.bind_run, Walk.step_run]
  rcases x s with ⟨_ | _, _⟩ <;> rfl

/-! ## Calls to a host -/

theorem Host.writing_ok {f : σ → Except RepositoryError σ} {s s' : σ} (h : f s = .ok s') :
    Host.writing f s = (.ok (), s') := by
  unfold Host.writing
  rw [h]

theorem Host.writing_cases (f : σ → Except RepositoryError σ) (s : σ) :
    (Host.writing f s).2 = s ∨ ∃ s', f s = .ok s' ∧ (Host.writing f s).2 = s' := by
  unfold Host.writing
  cases f s with
  | ok s' => exact .inr ⟨s', rfl, rfl⟩
  | error e => exact .inl rfl

theorem Engine.access_ok {path : String} {operation : Operation} {names : List String}
    {call : HostCall σ α} {s s' : σ} {a : α} (h : call s = (.ok a, s')) :
    Engine.access path operation names call s = (.ok a, s') := by
  unfold Engine.access
  rw [Action.adapt_run, h]
  rfl

theorem Engine.access_error {path : String} {operation : Operation} {names : List String}
    {call : HostCall σ α} {s s' : σ} {e : RepositoryError} (h : call s = (.error e, s')) :
    Engine.access path operation names call s =
      (.error (.repositoryAccess path operation names e), s') := by
  unfold Engine.access
  rw [Action.adapt_run, h]
  rfl

/-! ## The check of a list -/

namespace Settings

/-- The outcome of the check that the settings ask for. -/
def check (s : Settings) (acl : Acl) : Except AccessError Unit :=
  if s.enforce then acl.checkNotFrozen s.modifyPrivilege else .ok ()

/-- A list that the settings let an engine bind: if they refuse frozen lists, it is none. -/
def Allows (s : Settings) (acl : Acl) : Prop :=
  s.enforce = true → acl.isFrozen s.modifyPrivilege = false

theorem check_eq_ok {s : Settings} {acl : Acl} : s.check acl = .ok () ↔ s.Allows acl := by
  unfold check Allows Acl.checkNotFrozen
  cases s.enforce <;> cases acl.isFrozen s.modifyPrivilege <;> simp

end Settings

theorem Engine.checkConsistency_run (e : Engine σ) (acl : Acl) (s : σ) :
    e.checkConsistency acl s = (e.settings.check acl, s) := by
  unfold checkConsistency Settings.check
  split <;> rfl

end AclTree
