/-
Engines that refuse frozen lists. Every list reaches the host through the check
(`Host.Alike.checked_write`), so on any host none is passed on that nobody could
amend (`Watched.amendable`). On a repository what is bound comes from there, so
between any two calls no node becomes frozen (`Watched.frozenNodes`): not
between the nodes of a walk, and not where a walk stops.
-/
import Mathlib.Data.List.Chain
import Mathlib.Data.Set.Basic
import AclTree.Proofs.Host.Limited
import AclTree.Proofs.Privilege
import AclTree.Proofs.Repository.Reachable

namespace AclTree

/-! ## Lists that can be amended -/

namespace Acl

variable {acl : Acl} {modify : String}

/-- Nobody is on the list, or somebody holds the privilege, itself or inside another. -/
def Amendable (acl : Acl) (modify : String) : Prop :=
  acl.entries = [] ∨
    ∃ e ∈ acl.entries, ∃ p ∈ e.privileges, ∃ q ∈ p.nested, q.name = modify

theorem isFrozen_eq_false : acl.isFrozen modify = false ↔ acl.Amendable modify := by
  have hgrants : ∀ e : Entry,
      e.grants modify = true ↔ ∃ p ∈ e.privileges, ∃ q ∈ p.nested, q.name = modify := by
    intro e
    unfold Entry.grants
    rw [Privilege.impliesAny_iff]
    simp only [Privilege.implies_iff_nested]
  unfold isFrozen isEmpty Amendable
  rw [Bool.and_eq_false_iff, Bool.not_eq_false', Bool.not_eq_false', List.isEmpty_iff,
    List.any_eq_true]
  simp only [hgrants]

end Acl

/-! ## Runs -/

variable {σ : Type} {settings : Settings}

/-- The events of requests that are carried out from `s` on: of all of them, or the first `n`, after
which the host fails all calls. -/
inductive Engine.Watched (host : Host σ) (settings : Settings) (requests : List Request) (s : σ) :
    List (Host.Event σ) → Prop where
  | ended {limit : Nat} {outs : List (Except AccessError Bool)} {t : Host.Recorded σ} :
      (Engine.mk host.recording settings).performAll limit requests { state := s } =
        some (outs, t) →
      Watched host settings requests s t.events
  | cut {n : Nat} {outs : List (Except AccessError Bool)} {t : Host.Recorded (σ × Nat)} :
      (Engine.mk host.limited.recording settings).performAll (n + 1) requests { state := (s, n) } =
        some (outs, t) →
      Watched host settings requests s (t.events.map fun event => ⟨event.call, event.state.1⟩)

/-- A limited host does what the host does, or nothing more. -/
theorem Host.after_limited (host : Host σ) (call : Host.Call) (s : σ × Nat) :
    (host.limited.after call s).1 = s.1 ∨
      (host.limited.after call s).1 = host.after call s.1 := by
  obtain ⟨s, _ | n⟩ := s <;> cases call <;> first | exact .inl rfl | exact .inr rfl

namespace Engine.Watched

variable {host : Host σ} {requests : List Request} {s : σ} {events : List (Host.Event σ)}

/-- However few calls the host answers, the requests end. -/
theorem exists_cut (host : Host σ) (settings : Settings) (requests : List Request) (s : σ)
    (n : Nat) : ∃ outs t, (Engine.mk host.limited.recording settings).performAll (n + 1) requests
      { state := (s, n) } = some (outs, t) := by
  obtain ⟨outs, s', hp⟩ := host.limited_all_end settings (n + 1) requests (s := (s, n))
    (Nat.lt_succ_self n)
  have halike := Host.recording_alike settings host.limited (J := fun _ => True) fun _ _ _ _ => ⟨⟩
  have hrel := halike.nodes.performAll (n + 1) requests (s := (s, n)) (t := { state := (s, n) })
    ⟨rfl, ⟨⟩⟩
  rw [hp] at hrel
  cases hr : (Engine.mk host.limited.recording settings).performAll (n + 1) requests
      { state := (s, n) } with
  | none => rw [hr] at hrel; cases hrel
  | some out => exact ⟨out.1, out.2, rfl⟩

theorem allowed (h : Watched host settings requests s events) :
    ∀ event ∈ events, event.call.Allowed settings := by
  cases h with
  | ended h => exact (performAll_recording h).1.allowed
  | cut h =>
    intro _ hmem
    obtain ⟨event, he, rfl⟩ := List.mem_map.1 hmem
    exact (performAll_recording h).1.allowed event he

/-- What calls never do otherwise than, or leave the state as it is, is so at every step. -/
theorem isChain {P : σ → σ → Prop} (hrefl : ∀ s, P s s)
    (hP : ∀ call s, call.Allowed settings → P s (host.after call s))
    (h : Watched host settings requests s events) : (s :: events.map (·.state)).IsChain P := by
  cases h with
  | ended h => exact (performAll_recording h).1.isChain hP
  | @cut n outs t h =>
    have hstep : ∀ call (s : σ × Nat), call.Allowed settings →
        P s.1 (host.limited.after call s).1 := by
      intro call s hc
      rcases host.after_limited call s with he | he <;> rw [he]
      · exact hrefl s.1
      · exact hP call s.1 hc
    have hchain := (performAll_recording h).1.isChain (P := fun a b => P a.1 b.1) hstep
    have hmap := (List.isChain_map (R := P) Prod.fst).2 hchain
    rw [List.map_cons, List.map_map] at hmap
    rw [List.map_map]
    exact hmap

/-- What an engine passes on that refuses frozen lists can be amended. -/
theorem amendable (hs : settings.enforce = true) (h : Watched host settings requests s events)
    {event : Host.Event σ} (he : event ∈ events) {path : String} {acl : Acl}
    (hc : event.call = .setPolicy path acl) : acl.Amendable settings.modifyPrivilege := by
  have hallowed := h.allowed event he
  rw [hc] at hallowed
  exact Acl.isFrozen_eq_false.1 (hallowed hs)

end Engine.Watched

/-! ## Repositories -/

namespace Repository

variable {r : Repository}

/-- The nodes whose lists are frozen. -/
def frozenNodes (r : Repository) (modify : String) : Set String :=
  {path | ∃ acl, r.policyAt path = some acl ∧ acl.isFrozen modify = true}

theorem frozenNodes_withPolicy {modify path : String} {policy : Option Acl}
    (h : ∀ acl, policy = some acl → acl.isFrozen modify = false) :
    (r.withPolicy path policy).frozenNodes modify ⊆ r.frozenNodes modify := by
  rintro q ⟨acl, hq, hf⟩
  rcases policyAt_withPolicy hq with hp | hp
  · rw [h acl hp] at hf
    cases hf
  · exact ⟨acl, hp, hf⟩

/-- No call that an engine may make freezes a node, if it refuses frozen lists. -/
theorem frozenNodes_after (hs : settings.enforce = true) (call : Host.Call) (r : Repository)
    (hc : call.Allowed settings) :
    (host.after call r).frozenNodes settings.modifyPrivilege ⊆
      r.frozenNodes settings.modifyPrivilege := by
  cases call with
  | setPolicy path acl =>
    change (Host.writing (fun r : Repository => r.setPolicy path acl) r).2.frozenNodes _ ⊆ _
    rcases Host.writing_cases (fun r : Repository => r.setPolicy path acl) r with h | ⟨r', hr, h⟩ <;>
      rw [h]
    rw [setPolicy_eq_ok hr]
    exact frozenNodes_withPolicy fun acl' ha => Option.some.inj ha ▸ hc hs
  | removePolicy path acl =>
    change (Host.writing (fun r : Repository => r.removePolicy path acl) r).2.frozenNodes _ ⊆ _
    rcases Host.writing_cases (fun r : Repository => r.removePolicy path acl) r with
      h | ⟨r', hr, h⟩ <;> rw [h]
    rw [removePolicy_eq_ok hr]
    exact frozenNodes_withPolicy fun _ h => nomatch h
  | _ => exact Set.Subset.rfl

end Repository

/-- **Enforcement.** With settings that refuse frozen lists, whatever the host, the requests and
the way they end: every list passed to the host can be amended. On a repository, with whatever
lists it has to begin with, no node becomes frozen from any call to the next. -/
theorem Engine.enforced (hs : settings.enforce = true) (requests : List Request) :
    (∀ {σ : Type} (host : Host σ) (s : σ) (n : Nat), ∃ outs t,
      (Engine.mk host.limited.recording settings).performAll (n + 1) requests { state := (s, n) } =
        some (outs, t)) ∧
    (∀ {σ : Type} {host : Host σ} {s : σ} {events : List (Host.Event σ)},
      Watched host settings requests s events → ∀ event ∈ events, ∀ path acl,
        event.call = .setPolicy path acl → acl.Amendable settings.modifyPrivilege) ∧
    (∀ {r : Repository} {events : List (Host.Event Repository)},
      Watched Repository.host settings requests r events →
        (r :: events.map (·.state)).IsChain fun before after =>
          after.frozenNodes settings.modifyPrivilege ⊆
            before.frozenNodes settings.modifyPrivilege) := by
  refine ⟨fun host s n => Watched.exists_cut host settings requests s n,
    fun h event he path acl hc => h.amendable hs he hc, fun h => ?_⟩
  exact h.isChain (fun _ => Set.Subset.rfl) fun call r hc => Repository.frozenNodes_after hs call r hc

/-- The administrator is put on the list of the root beside another, and is to be taken from it. -/
theorem Engine.enforced_revoked_administrator : ∃ t,
    (Engine.mk Repository.host.recording { enforce := true }).performAll 1
      [.grantNamed Path.root .node ⟨"u"⟩ ["jcr:read"],
        .revokeNamed Path.root (.subtree fun _ => true) ⟨"admin"⟩ ["jcr:all"]]
      { state := Repository.initial } =
      some ([.ok true, .error (.frozenAcl ["u"])], t) ∧
    (Repository.initial :: t.events.map (·.state)).IsChain fun before after =>
      after.frozenNodes "jcr:modifyAccessControl" ⊆
        before.frozenNodes "jcr:modifyAccessControl" := by
  obtain ⟨t, hrun⟩ : ∃ t, (Engine.mk Repository.host.recording { enforce := true }).performAll 1
      [.grantNamed Path.root .node ⟨"u"⟩ ["jcr:read"],
        .revokeNamed Path.root (.subtree fun _ => true) ⟨"admin"⟩ ["jcr:all"]]
      { state := Repository.initial } = some ([.ok true, .error (.frozenAcl ["u"])], t) := ⟨_, rfl⟩
  exact ⟨t, hrun, (@Engine.enforced { enforce := true } rfl _).2.2 (.ended hrun)⟩

end AclTree
