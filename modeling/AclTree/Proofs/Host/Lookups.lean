/-
How often parents are looked up. Work on a single node never does that: it is
carried out as well on a host without parents (`parentless`). A walk up does it
between nodes, at most as often as its limit says (`Walk.Asks`).
-/
import AclTree.Proofs.Host.Recording

namespace AclTree

variable {σ α β : Type}

namespace Host

def Call.isParent : Call → Bool
  | .parent _ => true
  | _ => false

/-- How many lookups of parents are written down. -/
def Recorded.lookups (t : Recorded σ) : Nat := t.events.countP (·.call.isParent)

theorem lookups_push (t : Recorded σ) (call : Call) (state : σ) :
    (t.push call state).lookups = t.lookups + if call.isParent then 1 else 0 := by
  unfold Recorded.push Recorded.lookups
  rw [List.countP_append, List.countP_singleton]

theorem record_keeps {call : Call} (hcall : call.isParent = false) (x : HostCall σ α) (n : Nat) :
    Keeps (fun t => t.lookups = n) (record call x) := by
  intro t ht
  change (t.push call (x t.state).2).lookups = n
  rw [lookups_push, hcall, ht]
  rfl

/-- The host, but for the parents: there are none. -/
def parentless (h : Host σ) : Host σ := { h with parent := fun _ => Pure.pure none }

theorem parentless_alike (settings : Settings) (h : Host σ) (n : Nat) :
    Host.Alike settings (fun s t => s = t ∧ s.lookups = n) h.recording.parentless
      h.recording.parentless where
  root := rfl
  parent _ := relates_self.2 (Keeps.pure none)
  children _ := relates_self.2 (record_keeps rfl _ n)
  kind _ := relates_self.2 (record_keeps rfl _ n)
  applicable _ := relates_self.2 (record_keeps rfl _ n)
  applied _ := relates_self.2 (record_keeps rfl _ n)
  setPolicy _ _ _ := relates_self.2 (record_keeps rfl _ n)
  removePolicy _ _ := relates_self.2 (record_keeps rfl _ n)
  privilege _ := relates_self.2 (record_keeps rfl _ n)

end Host

/-- The walk looks at most `n` parents up. -/
def Walk.Asks (n : Nat) (w : Walk (Host.Recorded σ) α) : Prop :=
  ∀ s out t, w s = some (out, t) → t.lookups ≤ s.lookups + n

namespace Walk.Asks

variable {n m k : Nat}

theorem pure (a : α) : Walk.Asks n (Pure.pure a : Walk (Host.Recorded σ) α) := by
  intro s out t h
  cases h
  exact Nat.le_add_right _ n

theorem throw (e : AccessError) : Walk.Asks n (MonadExcept.throw e : Walk (Host.Recorded σ) α) := by
  intro s out t h
  cases h
  exact Nat.le_add_right _ n

theorem unfinished : Walk.Asks n (Walk.unfinished : Walk (Host.Recorded σ) α) := by
  intro s out t h
  cases h

theorem step {x : Action (Host.Recorded σ) α} (hx : ∀ m, Keeps (fun s => s.lookups = m) x) :
    Walk.Asks n (Walk.step x) := by
  intro s out t h
  have hkept : (x s).2.lookups = s.lookups := hx s.lookups s rfl
  rw [Option.some.inj h] at hkept
  exact hkept ▸ Nat.le_add_right _ n

theorem bind {w : Walk (Host.Recorded σ) α} {f : α → Walk (Host.Recorded σ) β}
    (hw : Walk.Asks n w) (hf : ∀ a, Walk.Asks m (f a)) (hk : n + m = k) :
    Walk.Asks k (w >>= f) := by
  intro s out t h
  rw [Walk.bind_run] at h
  obtain ⟨⟨first, s₁⟩, hfirst, h⟩ := Option.bind_eq_some_iff.1 h
  have hle := hw s _ s₁ hfirst
  cases first with
  | error e =>
    cases h
    omega
  | ok a =>
    have hrest := hf a s₁ out t h
    omega

theorem visitAll {visit : String → Walk (Host.Recorded σ) Bool}
    (hv : ∀ path, Walk.Asks 0 (visit path)) :
    ∀ (paths : List String) (changed : Bool), Walk.Asks 0 (Walk.visitAll visit paths changed)
  | [], changed => by unfold Walk.visitAll; exact .pure changed
  | path :: paths, changed => by
    unfold Walk.visitAll
    rw [List.foldlM_cons]
    exact ((hv path).bind (fun _ => .pure _) (Nat.add_zero 0)).bind
      (fun changed => visitAll hv paths changed) (Nat.add_zero 0)

end Walk.Asks

/-! ## Requests up to an ancestor -/

namespace Host

variable (h : Host σ) (settings : Settings)

theorem resolveAt_lookups (path : String) (names : List String) (m : Nat) :
    Keeps (fun t => t.lookups = m) ((Engine.mk h.recording settings).resolveAt path names) := by
  have hself : Keeps (fun t => t.lookups = m)
      ((Engine.mk h.recording.parentless settings).resolveAt path names) :=
    relates_self.1 (Engine.resolveAt_relates (parentless_alike settings h m).privilege path names)
  exact hself

theorem grant_lookups (who : Principal) (privileges : List Privilege) (path : String) (m : Nat) :
    Keeps (fun t => t.lookups = m)
      ((Engine.mk h.recording settings).grant path who privileges) :=
  relates_self.1 ((parentless_alike settings h m).nodes.grant path who privileges)

theorem revoke_lookups (who : Principal) (privileges : List Privilege) (path : String) (m : Nat) :
    Keeps (fun t => t.lookups = m)
      ((Engine.mk h.recording settings).revoke path who privileges) :=
  relates_self.1 ((parentless_alike settings h m).nodes.revoke path who privileges)

theorem clear_lookups (path : String) (m : Nat) :
    Keeps (fun t => t.lookups = m) ((Engine.mk h.recording settings).clear path) :=
  relates_self.1 ((parentless_alike settings h m).nodes.clear path)

theorem parentOf_asks (operation : Operation) (names : List String) (path : String) :
    Walk.Asks 1 (Walk.step ((Engine.mk h.recording settings).parentOf operation names path)) := by
  intro s out t hp
  have hstate : ((Engine.mk h.recording settings).parentOf operation names path s).2 =
      (h.recording.parent path s).2 := by
    rcases hc : h.recording.parent path s with ⟨e | _ | parent, s₁⟩
    · exact congrArg Prod.snd (Action.bind_error (Engine.access_error hc))
    · exact congrArg Prod.snd (Action.bind_ok (Engine.access_ok hc))
    · exact congrArg Prod.snd (Action.bind_ok (Engine.access_ok hc))
  have ht : t = (h.recording.parent path s).2 := by rwa [Option.some.inj hp] at hstate
  rw [ht]
  exact Nat.le_of_eq (lookups_push s (.parent path) _)

theorem lineage_asks (names : List String) (start target : String) (limit : Nat) (path : String) :
    Walk.Asks limit
      ((Engine.mk h.recording settings).lineage names start target limit path) := by
  fun_induction Engine.lineage (Engine.mk h.recording settings) names start target limit path with
  | case1 => exact .pure _
  | case2 => exact .throw _
  | case3 => exact .unfinished
  | case4 path _ _ limit ih =>
    exact (h.parentOf_asks settings _ _ path).bind
      (fun parent => (ih parent).bind (fun _ => .pure _) (Nat.add_zero limit)) (Nat.add_comm 1 limit)

theorem climb_asks (operation : Operation) (names : List String)
    {visit : String → Action (Recorded σ) Bool}
    (hvisit : ∀ path m, Keeps (fun t => t.lookups = m) (visit path)) (start target : String)
    (limit : Nat) (path : String) :
    Walk.Asks limit
      ((Engine.mk h.recording settings).climb operation names visit start target limit path) := by
  fun_induction Engine.climb (Engine.mk h.recording settings) operation names visit start target
    limit path with
  | case1 => exact .step (hvisit target)
  | case2 => exact .throw _
  | case3 => exact .unfinished
  | case4 path _ _ limit ih =>
    exact (Walk.Asks.step (hvisit path)).bind
      (fun _ => (h.parentOf_asks settings _ _ path).bind
        (fun parent => (ih parent).bind (fun _ => .pure _) (Nat.add_zero limit))
        (Nat.add_comm 1 limit))
      (Nat.zero_add (limit + 1))

end Host
end AclTree
