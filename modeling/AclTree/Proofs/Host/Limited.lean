/-
A host that answers so many calls and fails all after these. On such a host
every request ends (`limited_ends`), however the parents and children that it
tells of are linked: each step of a walk takes a call. What is true of requests
that end is true in this way of the calls of those that never do, up to any of
them.
-/
import AclTree.Proofs.Host.Recording

namespace AclTree

variable {σ α β : Type}

namespace Host

/-- One call less is left, unless none was; then nothing is asked of the host underneath. -/
def limit (x : HostCall σ α) : HostCall (σ × Nat) α
  | (s, 0) => (.error (.storage "No answer"), (s, 0))
  | (s, n + 1) => ((x s).1, ((x s).2, n))

/-- The host for as many more calls as its state says. -/
def limited (h : Host σ) : Host (σ × Nat) where
  root := h.root
  parent path := limit (h.parent path)
  children path := limit (h.children path)
  kind path := limit (h.kind path)
  applicable path := limit (h.applicable path)
  applied path := limit (h.applied path)
  setPolicy path acl := limit (h.setPolicy path acl)
  removePolicy path acl := limit (h.removePolicy path acl)
  privilege name := limit (h.privilege name)

theorem limit_keeps (x : HostCall σ α) (n : Nat) : Keeps (fun s => s.2 ≤ n) (limit x) := by
  rintro ⟨s, _ | m⟩ h
  · exact h
  · exact Nat.le_of_succ_le h

theorem limited_alike (settings : Settings) (h : Host σ) (n : Nat) :
    Host.Alike settings (fun s t => s = t ∧ s.2 ≤ n) h.limited h.limited where
  root := rfl
  parent _ := relates_self.2 (limit_keeps _ n)
  children _ := relates_self.2 (limit_keeps _ n)
  kind _ := relates_self.2 (limit_keeps _ n)
  applicable _ := relates_self.2 (limit_keeps _ n)
  applied _ := relates_self.2 (limit_keeps _ n)
  setPolicy _ _ _ := relates_self.2 (limit_keeps _ n)
  removePolicy _ _ := relates_self.2 (limit_keeps _ n)
  privilege _ := relates_self.2 (limit_keeps _ n)

end Host

/-- From states with fewer than `n` calls left the walk ends, with no more of them left. -/
def Walk.EndsWithin (n : Nat) (w : Walk (σ × Nat) α) : Prop :=
  ∀ s, s.2 < n → ∃ out s', w s = some (out, s') ∧ s'.2 ≤ s.2

namespace Walk.EndsWithin

variable {n : Nat}

theorem pure (a : α) : Walk.EndsWithin n (Pure.pure a : Walk (σ × Nat) α) :=
  fun s _ => ⟨.ok a, s, rfl, Nat.le_refl _⟩

theorem throw (e : AccessError) :
    Walk.EndsWithin n (MonadExcept.throw e : Walk (σ × Nat) α) :=
  fun s _ => ⟨.error e, s, rfl, Nat.le_refl _⟩

theorem step {x : Action (σ × Nat) α} (h : ∀ m, Keeps (fun s => s.2 ≤ m) x) :
    Walk.EndsWithin n (Walk.step x) :=
  fun s _ => ⟨_, _, rfl, h s.2 s (Nat.le_refl _)⟩

theorem bind {w : Walk (σ × Nat) α} {f : α → Walk (σ × Nat) β} (hw : Walk.EndsWithin n w)
    (hf : ∀ a, Walk.EndsWithin n (f a)) : Walk.EndsWithin n (w >>= f) := by
  intro s hs
  obtain ⟨out, s₁, hout, hle⟩ := hw s hs
  cases out with
  | error e => exact ⟨_, s₁, Walk.bind_error hout, hle⟩
  | ok a =>
    obtain ⟨out, s₂, hrest, hle'⟩ := hf a s₁ (Nat.lt_of_le_of_lt hle hs)
    exact ⟨out, s₂, by rw [Walk.bind_ok hout, hrest], Nat.le_trans hle' hle⟩

/-- After a step that takes a call there is one less to end within. -/
theorem call_bind {x : Action (σ × Nat) α} {f : α → Walk (σ × Nat) β}
    (hx : ∀ m, Keeps (fun s => s.2 ≤ m) x) (hlt : ∀ s a s', x s = (.ok a, s') → s'.2 < s.2)
    (hf : ∀ a, Walk.EndsWithin n (f a)) : Walk.EndsWithin (n + 1) (Walk.step x >>= f) := by
  intro s hs
  have hle := hx s.2 s (Nat.le_refl _)
  rcases hout : x s with ⟨e | a, s₁⟩
  · rw [hout] at hle
    exact ⟨_, s₁, Walk.bind_error (congrArg some hout), hle⟩
  · have hlt := hlt s a s₁ hout
    obtain ⟨out, s₂, hrest, hle'⟩ := hf a s₁ (by omega)
    exact ⟨out, s₂, by rw [Walk.bind_ok (congrArg some hout), hrest], by omega⟩

theorem visitAll {visit : String → Walk (σ × Nat) Bool}
    (hv : ∀ path, Walk.EndsWithin n (visit path)) :
    ∀ (paths : List String) (changed : Bool), Walk.EndsWithin n (Walk.visitAll visit paths changed)
  | [], changed => by unfold Walk.visitAll; exact .pure changed
  | path :: paths, changed => by
    unfold Walk.visitAll
    rw [List.foldlM_cons]
    exact ((hv path).bind fun _ => .pure _).bind fun changed => visitAll hv paths changed

end Walk.EndsWithin

/-! ## Requests on such a host -/

namespace Host

variable (h : Host σ) (settings : Settings)

/-- The operations on single nodes never gain calls. -/
theorem limited_nodes (n : Nat) :
    NodesAlike settings (fun s t => s = t ∧ s.2 ≤ n) h.limited h.limited :=
  (limited_alike settings h n).nodes

theorem limit_lt {x : HostCall σ α} {s s' : σ × Nat} {a : α} (hx : limit x s = (.ok a, s')) :
    s'.2 < s.2 := by
  rcases s with ⟨s, _ | n⟩
  · cases hx
  · obtain ⟨-, rfl⟩ := Prod.mk.inj hx
    exact Nat.lt_succ_self n

/-- What begins with a call takes one. -/
theorem access_bind_lt {x : HostCall σ α} {f : α → Action (σ × Nat) β} {path : String}
    {operation : Operation} {names : List String} (hf : ∀ a m, Keeps (fun s => s.2 ≤ m) (f a))
    {s s' : σ × Nat} {b : β}
    (hx : (Engine.access path operation names (limit x) >>= f) s = (.ok b, s')) : s'.2 < s.2 := by
  rcases hc : limit x s with ⟨e | a, s₁⟩
  · rw [Action.bind_error (Engine.access_error hc)] at hx
    cases hx
  · rw [Action.bind_ok (Engine.access_ok hc)] at hx
    have hlt := limit_lt hc
    have hle := hf a s₁.2 s₁ (Nat.le_refl _)
    rw [hx] at hle
    exact Nat.lt_of_le_of_lt hle hlt

theorem parentOf_lt {operation : Operation} {names : List String} {path parent : String}
    {s s' : σ × Nat}
    (hp : (Engine.mk h.limited settings).parentOf operation names path s = (.ok parent, s')) :
    s'.2 < s.2 := by
  refine access_bind_lt (fun found m => ?_) hp
  cases found <;> exact fun _ hs => hs

theorem matchingChildren_lt {operation : Operation} {names children : List String}
    {accepts : String → Bool} {path : String} {s s' : σ × Nat}
    (hc : (Engine.mk h.limited settings).matchingChildren operation names accepts path s =
      (.ok children, s')) : s'.2 < s.2 :=
  access_bind_lt (fun children m => relates_self.1 (Relates.filterM (fun child =>
    ((limited_alike settings h m).kind child).adapt.bind fun _ => .pure _) children)) hc

/-- An operation on single nodes, or part of one, that gains no calls. -/
theorem keeps_of_relates {x : Action (σ × Nat) α}
    (hx : ∀ m, Relates (fun s t => s = t ∧ s.2 ≤ m) x x) (m : Nat) : Keeps (fun s => s.2 ≤ m) x :=
  relates_self.1 (hx m)

theorem parentOf_keeps (operation : Operation) (names : List String) (path : String) (m : Nat) :
    Keeps (fun s => s.2 ≤ m) ((Engine.mk h.limited settings).parentOf operation names path) :=
  keeps_of_relates (fun m => (h.limited_nodes settings m).parentOf operation names path) m

theorem matchingChildren_keeps (operation : Operation) (names : List String)
    (accepts : String → Bool) (path : String) (m : Nat) :
    Keeps (fun s => s.2 ≤ m)
      ((Engine.mk h.limited settings).matchingChildren operation names accepts path) :=
  keeps_of_relates (fun m => (h.limited_nodes settings m).matchingChildren operation names accepts path) m

theorem resolveAt_ends (path : String) (names : List String) (n : Nat) :
    Walk.EndsWithin n (Walk.step ((Engine.mk h.limited settings).resolveAt path names)) :=
  .step (keeps_of_relates fun m => Engine.resolveAt_relates (h.limited_nodes settings m).privilege path
    names)

theorem lineage_ends (names : List String) (start target : String) (limit : Nat)
    (current : String) :
    Walk.EndsWithin limit
      ((Engine.mk h.limited settings).lineage names start target limit current) := by
  fun_induction Engine.lineage (Engine.mk h.limited settings) names start target limit current with
  | case1 => exact .pure _
  | case2 => exact .throw _
  | case3 => exact fun s hs => absurd hs (Nat.not_lt_zero _)
  | case4 current _ _ limit ih =>
    exact .call_bind (h.parentOf_keeps settings _ _ _) (fun _ _ _ => h.parentOf_lt settings)
      fun parent => (ih parent).bind fun _ => .pure _

theorem climb_ends (operation : Operation) (names : List String)
    {visit : String → Action (σ × Nat) Bool} (hv : ∀ path m, Keeps (fun s => s.2 ≤ m) (visit path))
    (start target : String) (limit : Nat) (current : String) :
    Walk.EndsWithin limit
      ((Engine.mk h.limited settings).climb operation names visit start target limit current) := by
  fun_induction Engine.climb (Engine.mk h.limited settings) operation names visit start target limit
    current with
  | case1 => exact .step (hv target)
  | case2 => exact .throw _
  | case3 => exact fun s hs => absurd hs (Nat.not_lt_zero _)
  | case4 current _ _ limit ih =>
    exact (Walk.EndsWithin.step (hv current)).bind fun _ =>
      .call_bind (h.parentOf_keeps settings _ _ _) (fun _ _ _ => h.parentOf_lt settings)
        fun parent => (ih parent).bind fun _ => .pure _

theorem descend_ends (order : Engine.Order) (operation : Operation) (names : List String)
    (accepts : String → Bool) {visit : String → Action (σ × Nat) Bool}
    (hv : ∀ path m, Keeps (fun s => s.2 ≤ m) (visit path)) (limit : Nat) (path : String) :
    Walk.EndsWithin limit
      ((Engine.mk h.limited settings).descend order operation names accepts visit limit path) := by
  induction limit generalizing path with
  | zero => exact fun s hs => absurd hs (Nat.not_lt_zero _)
  | succ limit ih =>
    have hkeeps := h.matchingChildren_keeps settings operation names accepts path
    unfold Engine.descend
    cases order with
    | parentFirst =>
      exact (Walk.EndsWithin.step (hv path)).bind fun _ =>
        .call_bind hkeeps (fun _ _ _ => h.matchingChildren_lt settings) fun kids =>
          .visitAll ih kids _
    | childrenFirst =>
      exact .call_bind hkeeps (fun _ _ _ => h.matchingChildren_lt settings) fun kids =>
        (Walk.EndsWithin.visitAll ih kids false).bind fun _ =>
          (Walk.EndsWithin.step (hv path)).bind fun _ => .pure _

/-- **Requests end** if the host goes on failing once it has answered fewer calls than the limit. -/
theorem limited_ends (limit : Nat) (request : Request) :
    Walk.EndsWithin limit ((Engine.mk h.limited settings).perform limit request) := by
  have hgrant : ∀ who privileges path m,
      Keeps (fun s => s.2 ≤ m) ((Engine.mk h.limited settings).grant path who privileges) :=
    fun who privileges path m =>
      keeps_of_relates (fun m => (h.limited_nodes settings m).grant path who privileges) m
  have hrevoke : ∀ who privileges path m,
      Keeps (fun s => s.2 ≤ m) ((Engine.mk h.limited settings).revoke path who privileges) :=
    fun who privileges path m =>
      keeps_of_relates (fun m => (h.limited_nodes settings m).revoke path who privileges) m
  have hclear : ∀ path m, Keeps (fun s => s.2 ≤ m) ((Engine.mk h.limited settings).clear path) :=
    fun path m => keeps_of_relates (fun m => (h.limited_nodes settings m).clear path) m
  rcases request with ⟨path, who, privileges⟩ | ⟨path, who, privileges⟩ |
    ⟨path, _ | target | accepts, who, names⟩ | ⟨path, _ | target | accepts, who, names⟩ |
    ⟨path, _ | target | accepts⟩
  · exact .step (hgrant who privileges path)
  · exact .step (hrevoke who privileges path)
  · exact .step (keeps_of_relates fun m => (h.limited_nodes settings m).grantNamed path who names)
  · exact (h.lineage_ends settings names path target limit path).bind fun way =>
      (h.resolveAt_ends settings path names limit).bind fun privileges =>
        .visitAll (fun q => .step (hgrant who privileges q)) way.reverse false
  · change Walk.EndsWithin limit
      ((Engine.mk h.limited settings).grantSubtree limit path accepts who names)
    unfold Engine.grantSubtree
    split
    · exact .pure _
    · exact (h.resolveAt_ends settings path names limit).bind fun privileges =>
        h.descend_ends settings _ _ _ _ (hgrant who privileges) limit path
  · exact .step (keeps_of_relates fun m => (h.limited_nodes settings m).revokeNamed path who names)
  · exact (h.resolveAt_ends settings path names limit).bind fun privileges =>
      h.climb_ends settings _ _ (hrevoke who privileges) path target limit path
  · change Walk.EndsWithin limit
      ((Engine.mk h.limited settings).revokeSubtree limit path accepts who names)
    unfold Engine.revokeSubtree
    split
    · exact .pure _
    · exact (h.resolveAt_ends settings path names limit).bind fun privileges =>
        h.descend_ends settings _ _ _ _ (hrevoke who privileges) limit path
  · exact .step (hclear path)
  · exact h.climb_ends settings _ _ hclear path target limit path
  · exact h.descend_ends settings _ _ _ _ hclear limit path

/-- As `limited_ends`, for requests one after the other. -/
theorem limited_all_end (limit : Nat) (requests : List Request) {s : σ × Nat} (hs : s.2 < limit) :
    ∃ outs s', (Engine.mk h.limited settings).performAll limit requests s = some (outs, s') := by
  induction requests generalizing s with
  | nil => exact ⟨[], s, rfl⟩
  | cons request rest ih =>
    obtain ⟨out, s₁, hone, hle⟩ := h.limited_ends settings limit request s hs
    obtain ⟨outs, s₂, hrest⟩ := ih (Nat.lt_of_le_of_lt hle hs)
    refine ⟨out :: outs, s₂, ?_⟩
    unfold Engine.performAll
    rw [hone, Option.bind_some]
    dsimp only
    rw [hrest]
    rfl

end Host
end AclTree
