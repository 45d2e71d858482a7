/-
A host that is watched: `Host.recording` answers as the host underneath does
and writes down each call with the state that it left. What is written down of
requests is what they do (`Engine.performAll_recording`): calls that the
settings allow, from state to state, up to where the host itself is left.
-/
import AclTree.Proofs.Engine.Alike

namespace AclTree

namespace Host

/-- A call to a host. -/
inductive Call where
  | parent (path : String)
  | children (path : String)
  | kind (path : String)
  | applicable (path : String)
  | applied (path : String)
  | setPolicy (path : String) (acl : Acl)
  | removePolicy (path : String) (acl : Acl)
  | privilege (name : String)

/-- A call that was made, and the state in which it left the host. -/
structure Event (σ : Type) where
  call : Call
  state : σ

/-- The state of a host, and what was called up to now. -/
structure Recorded (σ : Type) where
  state : σ
  events : List (Event σ) := []

variable {σ α : Type}

def Recorded.push (t : Recorded σ) (call : Call) (state : σ) : Recorded σ :=
  ⟨state, t.events ++ [⟨call, state⟩]⟩

/-- Makes the call and writes it down. -/
def record (call : Call) (x : HostCall σ α) : HostCall (Recorded σ) α :=
  fun t => ((x t.state).1, t.push call (x t.state).2)

/-- The host with a record of its calls. -/
def recording (h : Host σ) : Host (Recorded σ) where
  root := h.root
  parent path := record (.parent path) (h.parent path)
  children path := record (.children path) (h.children path)
  kind path := record (.kind path) (h.kind path)
  applicable path := record (.applicable path) (h.applicable path)
  applied path := record (.applied path) (h.applied path)
  setPolicy path acl := record (.setPolicy path acl) (h.setPolicy path acl)
  removePolicy path acl := record (.removePolicy path acl) (h.removePolicy path acl)
  privilege name := record (.privilege name) (h.privilege name)

/-- The state in which a call leaves a host. -/
def after (h : Host σ) : Call → σ → σ
  | .parent path, s => (h.parent path s).2
  | .children path, s => (h.children path s).2
  | .kind path, s => (h.kind path s).2
  | .applicable path, s => (h.applicable path s).2
  | .applied path, s => (h.applied path s).2
  | .setPolicy path acl, s => (h.setPolicy path acl s).2
  | .removePolicy path acl, s => (h.removePolicy path acl s).2
  | .privilege name, s => (h.privilege name s).2

/-- A call that an engine with the settings may make: it does not bind a list that they refuse. -/
def Call.Allowed (settings : Settings) : Call → Prop
  | .setPolicy _ acl => settings.Allows acl
  | _ => True

/-- Allowed calls made one after the other, from the first state to the last, as they are written
down. -/
inductive Leads (host : Host σ) (settings : Settings) : σ → List (Event σ) → σ → Prop where
  | nil (s : σ) : Leads host settings s [] s
  | cons {call : Call} {s t : σ} {events : List (Event σ)} :
      call.Allowed settings → Leads host settings (host.after call s) events t →
      Leads host settings s (⟨call, host.after call s⟩ :: events) t

namespace Leads

variable {host : Host σ} {settings : Settings} {s t : σ} {events : List (Event σ)}

theorem snoc (h : host.Leads settings s events t) {call : Call} (hc : call.Allowed settings) :
    host.Leads settings s (events ++ [⟨call, host.after call t⟩]) (host.after call t) := by
  induction h with
  | nil s => exact .cons hc (.nil _)
  | cons ha _ ih => exact .cons ha ih

theorem allowed (h : host.Leads settings s events t) :
    ∀ event ∈ events, event.call.Allowed settings := by
  induction h with
  | nil => exact fun _ h => absurd h List.not_mem_nil
  | cons ha _ ih => exact List.forall_mem_cons.2 ⟨ha, ih⟩

/-- What every allowed call keeps holds at the end. -/
theorem keeps {I : σ → Prop}
    (hI : ∀ call s, call.Allowed settings → I s → I (host.after call s))
    (h : host.Leads settings s events t) (hs : I s) : I t := by
  induction h with
  | nil => exact hs
  | cons ha _ ih => exact ih (hI _ _ ha hs)

/-- What each allowed call does to the state is so at every step. -/
theorem isChain {P : σ → σ → Prop} (hP : ∀ call s, call.Allowed settings → P s (host.after call s))
    (h : host.Leads settings s events t) : (s :: events.map (·.state)).IsChain P := by
  induction h with
  | nil s => exact .singleton s
  | cons ha _ ih => exact .cons_cons (hP _ _ ha) ih

end Leads

theorem record_relates {J : Recorded σ → Prop} {call : Call} {x : HostCall σ α}
    (h : ∀ t, J t → J (t.push call (x t.state).2)) :
    Relates (fun s t => t.state = s ∧ J t) x (record call x) := by
  rintro s t ⟨rfl, ht⟩
  exact ⟨rfl, rfl, h t ht⟩

/-- The host and its recording run alike, and the record keeps what every allowed call keeps. -/
theorem recording_alike (settings : Settings) (host : Host σ) {J : Recorded σ → Prop}
    (h : ∀ (call : Call) (t : Recorded σ), call.Allowed settings → J t →
      J (t.push call (host.after call t.state))) :
    Host.Alike settings (fun s t => t.state = s ∧ J t) host host.recording where
  root := rfl
  parent path := record_relates fun t ht => h (.parent path) t trivial ht
  children path := record_relates fun t ht => h (.children path) t trivial ht
  kind path := record_relates fun t ht => h (.kind path) t trivial ht
  applicable path := record_relates fun t ht => h (.applicable path) t trivial ht
  applied path := record_relates fun t ht => h (.applied path) t trivial ht
  setPolicy path acl hallowed := record_relates fun t ht => h (.setPolicy path acl) t hallowed ht
  removePolicy path acl := record_relates fun t ht => h (.removePolicy path acl) t trivial ht
  privilege name := record_relates fun t ht => h (.privilege name) t trivial ht

end Host

/-! ## Runs of several requests -/

namespace Engine

variable {σ τ : Type}

/-- Carries out requests one after the other, whether those before have failed or not, and tells
what came of each. -/
def performAll (e : Engine σ) (limit : Nat) :
    List Request → σ → Option (List (Except AccessError Bool) × σ)
  | [], s => some ([], s)
  | request :: rest, s =>
    (e.perform limit request s).bind fun (out, s) =>
      (e.performAll limit rest s).bind fun (outs, s) => some (out :: outs, s)

end Engine

variable {σ τ : Type} {R : σ → τ → Prop} {settings : Settings} {host : Host σ} {host' : Host τ}

theorem NodesAlike.performAll (h : NodesAlike settings R host host') (limit : Nat)
    (requests : List Request) {s : σ} {t : τ} (hst : R s t) :
    Option.Rel (fun a b => a.1 = b.1 ∧ R a.2 b.2)
      ((Engine.mk host settings).performAll limit requests s)
      ((Engine.mk host' settings).performAll limit requests t) := by
  induction requests generalizing s t with
  | nil => exact .some ⟨rfl, hst⟩
  | cons request rest ih =>
    unfold Engine.performAll
    refine rel_bind (h.perform limit request s t hst) ?_
    rintro ⟨out, s'⟩ ⟨out', t'⟩ ⟨hout, hst'⟩
    cases hout
    refine rel_bind (ih hst') ?_
    rintro ⟨outs, s₁⟩ ⟨outs', t₁⟩ ⟨houts, hst₁⟩
    cases houts
    exact .some ⟨rfl, hst₁⟩

/-- A request that ends does so where it is written down. -/
theorem Engine.perform_recording {limit : Nat} {request : Request} {s s' : σ}
    {out : Except AccessError Bool}
    (h : (Engine.mk host settings).perform limit request s = some (out, s')) :
    ∃ t, (Engine.mk host.recording settings).perform limit request { state := s } = some (out, t) ∧
      t.state = s' := by
  have halike := Host.recording_alike settings host (J := fun _ => True) fun _ _ _ _ => trivial
  have hrel := halike.nodes.perform limit request s { state := s } ⟨rfl, trivial⟩
  rw [h] at hrel
  cases hp : (Engine.mk host.recording settings).perform limit request { state := s } with
  | none => rw [hp] at hrel; cases hrel
  | some result =>
    rw [hp] at hrel
    cases hrel with
    | some hrel =>
      obtain ⟨hout, hstate, -⟩ := hrel
      exact ⟨result.2, congrArg some (Prod.ext hout.symm rfl), hstate⟩

/-- **What is written down** of requests on a host is what they do there: allowed calls that lead
from the first state to the last, and the outcomes are those of the host that is not watched. -/
theorem Engine.performAll_recording {limit : Nat} {requests : List Request} {s : σ}
    {outs : List (Except AccessError Bool)} {t : Host.Recorded σ}
    (h : (Engine.mk host.recording settings).performAll limit requests { state := s } =
      some (outs, t)) :
    host.Leads settings s t.events t.state ∧
      (Engine.mk host settings).performAll limit requests s = some (outs, t.state) := by
  have halike := Host.recording_alike settings host
    (J := fun t => host.Leads settings s t.events t.state) fun call t hc ht => ht.snoc hc
  have hrel := halike.nodes.performAll limit requests (s := s) (t := { state := s })
    ⟨rfl, .nil s⟩
  rw [h] at hrel
  cases hp : (Engine.mk host settings).performAll limit requests s with
  | none => rw [hp] at hrel; cases hrel
  | some out =>
    rw [hp] at hrel
    cases hrel with
    | some hrel =>
      obtain ⟨houts, hstate, hleads⟩ := hrel
      exact ⟨hleads, congrArg some (Prod.ext houts hstate.symm)⟩

end AclTree
