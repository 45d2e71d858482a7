/-
Requests by names, on hosts whose answers to lookups stay the same
(`Host.Knows`). Names are looked up before any node is visited, one after the
other: if the host knows them all, what is carried out on the nodes is the edit
with just their descriptors, and if it does not, no node is visited and no name
is looked up behind the first that it does not know.
-/
import AclTree.Proofs.Engine.Writes
import AclTree.Proofs.Host.Lookups

namespace AclTree

open Host (Call Recorded)

variable {σ : Type} {host : Host σ} {I : σ → Prop}
  {known : String → Except RepositoryError (Option Privilege)}

/-- In the states of `I` the host answers about names as `known` says, and it stays in them when it is
asked about names or parents. -/
structure Host.Knows (host : Host σ) (I : σ → Prop)
    (known : String → Except RepositoryError (Option Privilege)) : Prop where
  answer : ∀ name s, I s → (host.privilege name s).1 = known name
  keeps : ∀ name, Keeps I (host.privilege name)
  parent : ∀ path, Keeps I (host.parent path)

/-- The descriptors of the names, in their order. -/
def Found (known : String → Except RepositoryError (Option Privilege)) (names : List String)
    (privileges : List Privilege) : Prop :=
  List.Forall₂ (fun name p => known name = .ok (some p)) names privileges

namespace Host

theorem after_recording (call : Call) (t : Recorded σ) :
    host.recording.after call t = t.push call (host.after call t.state) := by
  cases call <;> rfl

theorem reached_recording (t : Recorded σ) (calls : List Call) :
    host.recording.reached t calls = host.made t calls := by
  unfold reached made
  simp only [after_recording]

namespace Knows

variable (h : host.Knows I known)
include h

theorem recording : host.recording.Knows (fun t => I t.state) known where
  answer name t ht := h.answer name t.state ht
  keeps name t ht := h.keeps name t.state ht
  parent path t ht := h.parent path t.state ht

theorem reached_parents {calls : List Call} (hc : ∀ call ∈ calls, call.isParent = true) {s : σ}
    (hs : I s) : I (host.reached s calls) := by
  induction calls generalizing s with
  | nil => exact hs
  | cons call rest ih =>
    obtain ⟨hcall, hrest⟩ := List.forall_mem_cons.1 hc
    cases call with
    | parent path => exact ih hrest (h.parent path s hs)
    | _ => cases hcall

end Knows
end Host

/-! ## Lookups -/

namespace Host.Knows

variable (h : host.Knows I known) {fail : RepositoryError → AccessError} {name : String} {s : σ}
  (hs : I s)
include h hs

/-- What is known of a name is what the host answers. -/
theorem answers {out : Except RepositoryError (Option Privilege)} (hk : known name = out) :
    (host.privilege name s).1 = out :=
  (h.answer name s hs).trans hk

/-- Names that are all known. -/
theorem mapM_found {names : List String} {privileges : List Privilege}
    (hf : Found known names privileges) :
    names.mapM (Engine.lookup host fail) s =
      (.ok privileges, host.reached s (names.map .privilege)) := by
  induction hf generalizing s with
  | nil => rfl
  | @cons name p _ _ hp _ ih =>
    have hs' : I (host.after (.privilege name) s) := h.keeps name s hs
    rw [List.mapM_cons, Action.bind_ok (Engine.lookup_found (h.answers hs hp)),
      Action.bind_ok (ih hs')]
    rfl

/-- Behind the first name that is not found none is looked up. -/
theorem mapM_stop {before : List String} (hb : ∀ n ∈ before, ∃ p, known n = .ok (some p))
    (left : List String) {err : AccessError}
    (hstop : ∀ s, I s →
      Engine.lookup host fail name s = (.error err, host.after (.privilege name) s)) :
    (before ++ name :: left).mapM (Engine.lookup host fail) s =
      (.error err, host.reached s ((before ++ [name]).map .privilege)) := by
  induction before generalizing s with
  | nil => rw [List.nil_append, List.mapM_cons, Action.bind_error (hstop s hs)]; rfl
  | cons first rest ih =>
    obtain ⟨⟨p, hp⟩, hrest⟩ := List.forall_mem_cons.1 hb
    have hs' : I (host.after (.privilege first) s) := h.keeps first s hs
    rw [List.cons_append, List.mapM_cons,
      Action.bind_ok (Engine.lookup_found (h.answers hs hp)), Action.bind_error (ih hs' hrest)]
    rfl

end Host.Knows

/-! ## Requests -/

namespace Engine

variable {e : Engine σ} {path : String} {names : List String} {s s' : σ}

theorem resolveAt_of_mapM {out : Except AccessError (List Privilege)}
    (h : names.mapM (lookup e.host (.repositoryAccess none .resolve names)) s = (out, s')) :
    e.resolveAt path names s = (out.mapError (.atPath path), s') := by
  have hrun : e.resolve names s = (out, s') := h
  unfold resolveAt
  rw [Action.adapt_run, hrun]

/-- What comes of the lookup of names at a node. -/
structure Resolves (e : Engine σ) (known : String → Except RepositoryError (Option Privilege))
    (path : String) (names : List String) (s : σ) : Prop where
  found : ∀ privileges, Found known names privileges →
    e.resolveAt path names s = (.ok privileges, e.host.reached s (names.map .privilege))
  unknown : ∀ before name left, names = before ++ name :: left →
    (∀ n ∈ before, ∃ p, known n = .ok (some p)) → known name = .ok none →
    e.resolveAt path names s = (.error (.unknownPrivilege name),
      e.host.reached s ((before ++ [name]).map .privilege))
  failed : ∀ before name left err, names = before ++ name :: left →
    (∀ n ∈ before, ∃ p, known n = .ok (some p)) → known name = .error err →
    e.resolveAt path names s = (.error (.repositoryAccess (some path) .resolve names err),
      e.host.reached s ((before ++ [name]).map .privilege))

theorem resolves (h : e.host.Knows I known) (hs : I s) : e.Resolves known path names s where
  found privileges hf := resolveAt_of_mapM (h.mapM_found hs hf)
  unknown before name left hn hb hnone := by
    subst hn
    exact resolveAt_of_mapM (h.mapM_stop hs hb left fun s hs => lookup_unknown (h.answers hs hnone))
  failed before name left err hn hb hfail := by
    subst hn
    exact resolveAt_of_mapM (h.mapM_stop hs hb left fun s hs => lookup_failed (h.answers hs hfail))

/-- No more has been asked for than parents. -/
def Rose (host : Host σ) (start u : Recorded σ) : Prop :=
  ∃ calls, (∀ call ∈ calls, call.isParent = true) ∧ u = host.made start calls

theorem parentOf_rises {start : Recorded σ} (host : Host σ) (settings : Settings)
    (operation : Operation) (names : List String) (path : String) :
    Action.Triple (Rose host start) ((mk host.recording settings).parentOf operation names path)
      (fun _ => Rose host start) (fun _ => Rose host start) := by
  rintro t ⟨before, hb, rfl⟩
  obtain ⟨calls, out, hr, hrun⟩ :=
    parentOf_traces host settings operation names path (host.made start before)
  have hcalls : ∀ call ∈ calls, call.isParent = true := by
    cases hr <;> exact List.forall_mem_singleton.2 rfl
  have hrose : Rose host start (host.made (host.made start before) calls) :=
    ⟨before ++ calls, List.forall_mem_append.2 ⟨hb, hcalls⟩, Host.made_append.symm⟩
  rw [hrun]
  cases out with
  | ok parent => exact hrose
  | error err => exact hrose

/-- Before any name is looked up, no more is asked for than parents. -/
theorem ready_rises (host : Host σ) (settings : Settings) (limit : Nat) (request : Request)
    (start : Recorded σ) {out : Except AccessError (List String)} {u : Recorded σ}
    (h : (mk host.recording settings).ready limit request start = some (out, u)) :
    Rose host start u := by
  have hended := ready_triple (fun path _ => parentOf_rises host settings _ _ path)
    (fun _ _ _ hs => hs) start out u ⟨[], List.forall_mem_nil _, rfl⟩ h
  cases out with
  | ok way => exact hended
  | error err => exact hended

section Named

variable {limit : Nat} {request : Request}

/-- A request that has names goes through all stages. -/
theorem perform_named (e : Engine σ) (limit : Nat) (hl : request.looksUp = true)
    (hne : request.names ≠ []) :
    e.perform limit request = (do
      let way ← e.ready limit request
      let privileges ← Walk.step (e.resolveAt request.start request.names)
      e.spread limit request way (request.act privileges)) := by
  rcases e.perform_stages limit request with ⟨hno, -⟩ | ⟨hnil, -⟩ | ⟨-, h⟩
  · rw [hl] at hno
    cases hno
  · exact absurd hnil hne
  · exact h

variable {way : List String}

theorem perform_of_found (hl : request.looksUp = true) (hne : request.names ≠ [])
    (hr : e.ready limit request s = some (.ok way, s')) {privileges : List Privilege} {s₁ : σ}
    (hp : e.resolveAt request.start request.names s' = (.ok privileges, s₁)) :
    e.perform limit request s = e.spread limit request way (request.act privileges) s₁ := by
  rw [perform_named e limit hl hne, Walk.bind_ok hr]
  exact Walk.bind_ok (congrArg some hp)

theorem perform_of_not_found (hl : request.looksUp = true) (hne : request.names ≠ [])
    (hr : e.ready limit request s = some (.ok way, s')) {err : AccessError} {s₁ : σ}
    (hp : e.resolveAt request.start request.names s' = (.error err, s₁)) :
    e.perform limit request s = some (.error err, s₁) := by
  rw [perform_named e limit hl hne, Walk.bind_ok hr]
  exact Walk.bind_error (congrArg some hp)

theorem perform_of_not_ready {origin target : String} {who : Principal} {err : AccessError}
    (hr : e.lineage names origin target limit origin s = some (.error err, s')) :
    e.perform limit (.grantNamed origin (.ancestors target) who names) s = some (.error err, s') :=
  Walk.bind_error hr

/-- A request by names that is at `found`, having found its way, when it begins to look them up. Either
it does with their descriptors what is left to be done, or it ends with the first name that has none. -/
structure AllOrNothing (host : Host σ) (settings : Settings)
    (known : String → Except RepositoryError (Option Privilege)) (limit : Nat) (request : Request)
    (start : Recorded σ) (way : List String) (found : Recorded σ) : Prop where
  rose : Rose host start found
  all : ∀ privileges, Found known request.names privileges →
    (mk host.recording settings).perform limit request start =
      (mk host.recording settings).spread limit request way (request.act privileges)
        (host.made found (request.names.map .privilege))
  visits : ∀ privileges, Found known request.names privileges → ∀ out u,
    (mk host.recording settings).perform limit request start = some (out, u) →
    ∃ visited, Visited host settings request (host.made found (request.names.map .privilege))
      privileges visited out u
  unknown : ∀ before name left, request.names = before ++ name :: left →
    (∀ n ∈ before, ∃ p, known n = .ok (some p)) → known name = .ok none →
    (mk host.recording settings).perform limit request start =
      some (.error (.unknownPrivilege name), host.made found ((before ++ [name]).map .privilege))
  failed : ∀ before name left e, request.names = before ++ name :: left →
    (∀ n ∈ before, ∃ p, known n = .ok (some p)) → known name = .error e →
    (mk host.recording settings).perform limit request start =
      some (.error (.repositoryAccess (some request.start) .resolve request.names e),
        host.made found ((before ++ [name]).map .privilege))

theorem allOrNothing (hk : host.Knows I known) {settings : Settings} (hl : request.looksUp = true)
    (hne : request.names ≠ []) {start found : Recorded σ} (hs : I start.state)
    (hr : (mk host.recording settings).ready limit request start = some (.ok way, found)) :
    AllOrNothing host settings known limit request start way found := by
  have hrose := ready_rises host settings limit request start hr
  have hfound : I found.state := by
    obtain ⟨calls, hcalls, rfl⟩ := hrose
    rw [Host.made_state]
    exact hk.reached_parents hcalls hs
  have hresolves : (mk host.recording settings).Resolves known request.start request.names found :=
    resolves hk.recording hfound
  have hall : ∀ privileges, Found known request.names privileges →
      (mk host.recording settings).perform limit request start =
        (mk host.recording settings).spread limit request way (request.act privileges)
          (host.made found (request.names.map .privilege)) := by
    intro privileges hp
    rw [← Host.reached_recording]
    exact perform_of_found hl hne hr (hresolves.found privileges hp)
  refine ⟨hrose, hall, fun privileges hp out u h => ?_, fun before name left hn hb hnone => ?_,
    fun before name left e hn hb hfail => ?_⟩
  · rw [hall privileges hp] at h
    exact spread_visited h
  · rw [← Host.reached_recording]
    exact perform_of_not_found hl hne hr (hresolves.unknown before name left hn hb hnone)
  · rw [← Host.reached_recording]
    exact perform_of_not_found hl hne hr (hresolves.failed before name left e hn hb hfail)

end Named

/-- Lookups that leave the host as it is do not count. -/
theorem reached_lookups (hquiet : ∀ name s, I s → (host.privilege name s).2 = s)
    (names : List String) (hs : I s) : host.reached s (names.map .privilege) = s := by
  induction names with
  | nil => rfl
  | cons name rest ih =>
    have hname : host.after (.privilege name) s = s := hquiet name s hs
    rw [List.map_cons, Host.reached_cons, hname, ih]

/-- On one node, with lookups that leave the host as it is, names are as good as their descriptors. -/
theorem named_eq_given (hk : host.Knows I known)
    (hquiet : ∀ name s, I s → (host.privilege name s).2 = s) {settings : Settings} (who : Principal)
    {privileges : List Privilege} (hf : Found known names privileges) (hs : I s) :
    (mk host settings).grantNamed path who names s = (mk host settings).grant path who privileges s ∧
      (mk host settings).revokeNamed path who names s =
        (mk host settings).revoke path who privileges s := by
  have hresolve : (mk host settings).resolveAt path names s = (.ok privileges, s) := by
    rw [(resolves (e := mk host settings) hk hs).found privileges hf]
    exact congrArg _ (reached_lookups hquiet names hs)
  cases hf with
  | nil => exact ⟨rfl, rfl⟩
  | cons => exact ⟨Action.bind_ok hresolve, Action.bind_ok hresolve⟩

/-- **All or nothing**, on any host whose answers to lookups stay the same, for requests by names of
which there are some. Before the lookups no more than parents are asked for. If the host knows all
names then what is carried out is the request's edit with their descriptors, in the order and as often
as they are named; at the first that it does not know the request ends. On any host at all, there are
no lookups if a grant finds no way. -/
theorem all_or_nothing (host : Host σ) (settings : Settings) (limit : Nat) :
    (∀ I known, host.Knows I known → ∀ request way start found, request.looksUp = true →
      request.names ≠ [] → I start.state →
      (mk host.recording settings).ready limit request start = some (.ok way, found) →
      AllOrNothing host settings known limit request start way found) ∧
    (∀ I known, host.Knows I known → (∀ name s, I s → (host.privilege name s).2 = s) →
      ∀ path who names privileges s, Found known names privileges → I s →
        (mk host settings).grantNamed path who names s =
          (mk host settings).grant path who privileges s ∧
        (mk host settings).revokeNamed path who names s =
          (mk host settings).revoke path who privileges s) ∧
    (∀ origin target who names start err u,
      (mk host.recording settings).lineage names origin target limit origin start =
        some (.error err, u) →
      (mk host.recording settings).perform limit (.grantNamed origin (.ancestors target) who names)
        start = some (.error err, u) ∧ Rose host start u) := by
  refine ⟨fun I known hk request way start found hl hne hs hr => allOrNothing hk hl hne hs hr,
    fun I known hk hquiet path who names privileges s hf hs => named_eq_given hk hquiet who hf hs,
    fun origin target who names start err u hr => ⟨perform_of_not_ready hr, ?_⟩⟩
  exact ready_rises host settings limit (.grantNamed origin (.ancestors target) who names) start hr

/-- The second of three names is not known: the first two are looked up, and that is all. -/
theorem all_or_nothing_unknown_second :
    (mk Repository.host.recording {}).perform 1
      (.grantNamed "/" (.subtree fun _ => true) ⟨"u"⟩ ["jcr:read", "nope", "jcr:write"])
      { state := Repository.initial } =
      some (.error (.unknownPrivilege "nope"), Repository.host.made { state := Repository.initial }
        [.privilege "jcr:read", .privilege "nope"]) := by
  have hknows : Repository.host.Knows (· = Repository.initial)
      (fun name => .ok (Repository.initial.findPrivilege? name)) :=
    ⟨fun _ _ hs => hs ▸ rfl, fun _ _ hs => hs, fun _ _ hs => hs⟩
  have hread : ∀ n ∈ ["jcr:read"], ∃ p,
      (Except.ok (Repository.initial.findPrivilege? n) : Except RepositoryError _) =
        .ok (some p) :=
    List.forall_mem_singleton.2 ⟨_, rfl⟩
  have hnothing := (all_or_nothing Repository.host {} 1).1 _ _ hknows
    (.grantNamed "/" (.subtree fun _ => true) ⟨"u"⟩ ["jcr:read", "nope", "jcr:write"]) []
    { state := Repository.initial } _ rfl (List.cons_ne_nil _ _) rfl rfl
  exact hnothing.unknown ["jcr:read"] "nope" ["jcr:write"] rfl hread rfl

end Engine
end AclTree
