/-
What is written to a host, whatever it answers and wherever it fails. On a
single node a grant and a revoke write once at most, and then they call the
host no more (`Engine.WritesLast`), so one that fails has written nothing unless
it was the write that failed. A request comes to nodes one after the other and
does no more between them than ask (`Engine.Trail`).
-/
import AclTree.Proofs.Acl.Entries
import AclTree.Proofs.Engine.Calls
import AclTree.Proofs.Engine.Stages
import AclTree.Proofs.Host.Limited

namespace AclTree

open Host (Call Recorded Reads)

variable {σ : Type} {host : Host σ} {settings : Settings} {path : String} {names : List String}
  {s : σ}

/-! ## Calls that ask -/

theorem Host.Candidate.reads {calls : List Call} {out : Except RepositoryError Acl}
    (h : host.Candidate path s calls out) : Reads calls := by
  cases h <;> simp [Reads, Call.isWrite]

theorem Host.reads_privileges (names : List String) : Reads (names.map .privilege) := by
  simp [Reads, Call.isWrite]

theorem Host.Resolving.reads {fail : RepositoryError → AccessError} {calls : List Call}
    {out : Except AccessError (List Privilege)} (h : host.Resolving fail names s calls out) :
    Reads calls := by
  cases h <;> exact Host.reads_privileges _

namespace Engine

theorem Seeding.reads {acl : Acl} {calls : List Call} {out : Except AccessError (Acl × Bool)}
    (h : Seeding host settings path acl s calls out) : Reads calls := by
  cases h with
  | kept => exact List.forall_mem_nil _
  | seeded _ hr => exact hr.reads
  | failed _ hr => exact hr.reads

theorem Rising.reads {operation : Operation} {calls : List Call} {out : Except AccessError String}
    (h : Rising host operation names path s calls out) : Reads calls := by
  cases h <;> simp [Reads, Call.isWrite]

theorem Listing.reads {operation : Operation} {calls : List Call}
    {out : Except AccessError (List String)} (h : Listing host operation names path s calls out) :
    Reads calls := by
  cases h with
  | failed => simp [Reads, Call.isWrite]
  | swept _ hs =>
    intro call hc
    rcases List.mem_cons.1 hc with rfl | hc
    · rfl
    · obtain ⟨child, -, rfl⟩ := List.mem_map.1 (hs.isPrefix.subset hc)
      rfl

/-! ## Single nodes -/

/-- What came of work at a node that may end in a write. `written` is the list, if it was written: the
write is then the last call, and the work succeeds if it does. -/
inductive WritesLast (host : Host σ) (path : String) (operation : Operation) (names : List String)
    (t : Recorded σ) : Option Acl → Except AccessError Bool → Recorded σ → Prop where
  | unwritten {reads : List Call} {out : Except AccessError Bool} :
      Reads reads → WritesLast host path operation names t none out (host.made t reads)
  | written {reads : List Call} {acl : Acl} {changed : Bool} :
      Reads reads → host.failure (.setPolicy path acl) (host.reached t.state reads) = none →
      WritesLast host path operation names t (some acl) (.ok changed)
        (host.made t (reads ++ [.setPolicy path acl]))
  | failed {reads : List Call} {acl : Acl} {e : RepositoryError} :
      Reads reads → host.failure (.setPolicy path acl) (host.reached t.state reads) = some e →
      WritesLast host path operation names t (some acl)
        (.error (.repositoryAccess path operation names e))
        (host.made t (reads ++ [.setPolicy path acl]))

theorem writesLast_of_write {operation : Operation} {t : Recorded σ} {reads : List Call} {acl : Acl}
    {changed : Bool} (hr : Reads reads) :
    WritesLast host path operation names t (some acl)
      (told path operation names changed
        (host.failure (.setPolicy path acl) (host.reached t.state reads)))
      (host.made t (reads ++ [.setPolicy path acl])) := by
  cases hf : host.failure (.setPolicy path acl) (host.reached t.state reads) with
  | none => exact .written hr hf
  | some e => exact .failed hr hf

/-- A grant that ends without a write has failed, unless it was to give nothing. -/
theorem grant_writes (host : Host σ) (settings : Settings) (path : String) (who : Principal)
    (privileges : List Privilege) (t : Recorded σ) : ∃ written,
      WritesLast host path .grant (Privilege.names privileges) t written
        ((mk host.recording settings).grant path who privileges t).1
        ((mk host.recording settings).grant path who privileges t).2 ∧
      (written = none → privileges ≠ [] →
        ∃ err, ((mk host.recording settings).grant path who privileges t).1 = .error err) := by
  obtain ⟨calls, out, hg, hrun⟩ := grant_traces host settings path who privileges t
  rw [hrun]
  cases hg with
  | idle hnil => exact ⟨none, .unwritten (List.forall_mem_nil _), fun _ hne => absurd hnil hne⟩
  | unread _ hc => exact ⟨none, .unwritten hc.reads, fun _ _ => ⟨_, rfl⟩⟩
  | unseeded _ hc hs => exact ⟨none, .unwritten (hc.reads.append hs.reads), fun _ _ => ⟨_, rfl⟩⟩
  | refused _ hc hs => exact ⟨none, .unwritten (hc.reads.append hs.reads), fun _ _ => ⟨_, rfl⟩⟩
  | wrote _ hc hs => exact ⟨_, writesLast_of_write (hc.reads.append hs.reads), nofun⟩

/-- A revoke on the node replaces its list by `acl`: some entry of the principal loses a privilege, and
the settings allow what is left. -/
def Replaces (host : Host σ) (settings : Settings) (path : String) (who : Principal)
    (privileges : List Privilege) (s : σ) (acl : Acl) : Prop :=
  ∃ bound rest, (host.applied path s).1 = .ok (bound :: rest) ∧
    (∃ entry ∈ bound.entries, entry.principal = who ∧
      ∃ name ∈ entry.privilegeNames, name ∈ Privilege.names privileges) ∧
    acl = (bound.take who privileges).1 ∧ settings.Allows acl

section Revokes

variable {who : Principal} {privileges : List Privilege}

/-- On a node with a list, said of what the engine looks at. -/
theorem replaces_of_bound {bound acl : Acl} {rest : List Acl}
    (hout : (host.applied path s).1 = .ok (bound :: rest)) :
    Replaces host settings path who privileges s acl ↔
      (bound.take who privileges).2 = true ∧ acl = (bound.take who privileges).1 ∧
        settings.check acl = .ok () := by
  unfold Replaces
  simp only [Acl.take_changed, List.any_eq_true, Acl.touched_iff, Settings.check_eq_ok, hout,
    Except.ok.injEq, List.cons.injEq]
  constructor
  · rintro ⟨_, _, ⟨rfl, rfl⟩, h⟩
    exact h
  · exact fun h => ⟨bound, rest, ⟨rfl, rfl⟩, h⟩

theorem not_replaces_of_bound {bound acl : Acl} {rest : List Acl}
    (hout : (host.applied path s).1 = .ok (bound :: rest))
    (h : (bound.take who privileges).2 = true → settings.check (bound.take who privileges).1 ≠ .ok ()) :
    ¬ Replaces host settings path who privileges s acl := by
  rw [replaces_of_bound hout]
  rintro ⟨hch, rfl, hc⟩
  exact h hch hc

theorem not_replaces_of_unbound {acl : Acl}
    (hout : ∀ bound rest, (host.applied path s).1 ≠ .ok (bound :: rest)) :
    ¬ Replaces host settings path who privileges s acl :=
  fun ⟨bound, rest, hbound, _⟩ => hout bound rest hbound

/-- A revoke writes just where it replaces the list. -/
theorem revoke_writes (host : Host σ) (settings : Settings) (path : String) (who : Principal)
    (privileges : List Privilege) (t : Recorded σ) : ∃ written,
      WritesLast host path .revoke (Privilege.names privileges) t written
        ((mk host.recording settings).revoke path who privileges t).1
        ((mk host.recording settings).revoke path who privileges t).2 ∧
      ∀ acl, written = some acl ↔ Replaces host settings path who privileges t.state acl := by
  obtain ⟨calls, out, hr, hrun⟩ := revoke_traces host settings path who privileges t
  rw [hrun]
  have hask : Reads [Call.applied path] := by simp [Reads, Call.isWrite]
  have hnone : ∀ acl, ¬ Replaces host settings path who privileges t.state acl →
      ((none : Option Acl) = some acl ↔ Replaces host settings path who privileges t.state acl) :=
    fun acl hno => iff_of_false nofun hno
  cases hr with
  | idle hnil =>
    refine ⟨none, .unwritten (List.forall_mem_nil _), fun acl => hnone acl ?_⟩
    rintro ⟨bound, rest, -, ⟨entry, -, -, name, -, hn⟩, -⟩
    rw [hnil] at hn
    cases hn
  | unread _ hout =>
    refine ⟨none, .unwritten hask, fun acl => hnone acl (not_replaces_of_unbound ?_)⟩
    rw [hout]
    exact nofun
  | unbound _ hout =>
    refine ⟨none, .unwritten hask, fun acl => hnone acl (not_replaces_of_unbound ?_)⟩
    rw [hout]
    exact nofun
  | unchanged _ hout hch =>
    refine ⟨none, .unwritten hask, fun acl => hnone acl (not_replaces_of_bound hout ?_)⟩
    rw [hch]
    exact nofun
  | refused _ hout _ hc =>
    refine ⟨none, .unwritten hask, fun acl => hnone acl (not_replaces_of_bound hout ?_)⟩
    rw [hc]
    exact nofun
  | wrote _ hout hch hc =>
    refine ⟨_, writesLast_of_write hask, fun acl => ?_⟩
    rw [replaces_of_bound hout, Option.some_inj]
    exact ⟨fun h => ⟨hch, h.symm, h ▸ hc⟩, fun ⟨_, h, _⟩ => h.symm⟩

end Revokes

/-- Work by names asks first, and then it is the work for the descriptors that were found. -/
def AsksFirst (host : Host σ) (given : List Privilege → Action (Recorded σ) Bool)
    (named : Action (Recorded σ) Bool) : Prop :=
  ∀ t, ∃ reads, Reads reads ∧ ((∃ err, named t = (.error err, host.made t reads)) ∨
    ∃ privileges, named t = given privileges (host.made t reads))

/-- Names that are none are as good as privileges that are none. -/
theorem asksFirst {given : List Privilege → Action (Recorded σ) Bool}
    (hnil : given [] = pure false) (host : Host σ) (settings : Settings) (path : String)
    (names : List String) :
    AsksFirst host given (if names.isEmpty then pure false else do
      given (← (mk host.recording settings).resolveAt path names)) := by
  intro t
  cases names with
  | nil => exact ⟨[], List.forall_mem_nil _, .inr ⟨[], by rw [hnil]; rfl⟩⟩
  | cons name rest =>
    obtain ⟨calls, out, hr, hrun⟩ := resolveAt_traces host settings path (name :: rest) t
    cases out with
    | error err => exact ⟨calls, hr.reads, .inl ⟨err, Action.bind_error hrun⟩⟩
    | ok privileges => exact ⟨calls, hr.reads, .inr ⟨privileges, Action.bind_ok hrun⟩⟩

/-! ## Requests -/

/-- From the record `start` on: visits of nodes, each of which has succeeded, and calls that ask. -/
inductive Trail (host : Host σ) (settings : Settings) (ed : Edit) (start : Recorded σ) :
    List String → Recorded σ → Prop where
  | start : Trail host settings ed start [] start
  | asks {visited : List String} {t : Recorded σ} {calls : List Call} :
      Trail host settings ed start visited t → Reads calls →
      Trail host settings ed start visited (host.made t calls)
  | visit {visited : List String} {path : String} {changed : Bool} {t u : Recorded σ} :
      Trail host settings ed start visited t →
      (mk host.recording settings).edit ed path t = (.ok changed, u) →
      Trail host settings ed start (visited ++ [path]) u

/-- How a request ends that has come to these nodes: between visits, or by the failure of the last
of them. -/
inductive TrailEnds (host : Host σ) (settings : Settings) (ed : Edit) (start : Recorded σ) :
    List String → Except AccessError Bool → Recorded σ → Prop where
  | between {visited : List String} {out : Except AccessError Bool} {u : Recorded σ} :
      Trail host settings ed start visited u → TrailEnds host settings ed start visited out u
  | within {visited : List String} {path : String} {err : AccessError} {t u : Recorded σ} :
      Trail host settings ed start visited t →
      (mk host.recording settings).edit ed path t = (.error err, u) →
      TrailEnds host settings ed start (visited ++ [path]) (.error err) u

variable {ed : Edit} {start : Recorded σ} {request : Request}

/-- All that these calls write is written on the node. -/
def WritesHere (path : String) (calls : List Call) : Prop :=
  ∀ call ∈ calls, call.isWrite = true → call.node? = some path

theorem writesHere_of_reads {calls : List Call} (hr : Reads calls) : WritesHere path calls := by
  intro call hc hw
  rw [hr call hc] at hw
  cases hw

theorem WritesLast.writesHere {operation : Operation} {t u : Recorded σ} {written : Option Acl}
    {out : Except AccessError Bool} (h : WritesLast host path operation names t written out u) :
    ∃ calls, u = host.made t calls ∧ WritesHere path calls := by
  cases h with
  | unwritten hr => exact ⟨_, rfl, writesHere_of_reads hr⟩
  | written hr | failed hr =>
    exact ⟨_, rfl, List.forall_mem_append.2 ⟨writesHere_of_reads hr,
      List.forall_mem_singleton.2 fun _ => rfl⟩⟩

theorem Clearing.writesHere {calls : List Call} {out : Except AccessError Bool}
    (h : Clearing host path s calls out) : WritesHere path calls := by
  cases h with
  | unread => exact List.forall_mem_singleton.2 fun _ => rfl
  | swept _ hs =>
    refine List.forall_mem_cons.2 ⟨fun _ => rfl, fun call hc _ => ?_⟩
    obtain ⟨acl, -, rfl⟩ := List.mem_map.1 (hs.isPrefix.subset hc)
    rfl

/-- What work at a node writes, it writes there. -/
theorem edit_writesHere (host : Host σ) (settings : Settings) (ed : Edit) (path : String)
    (t : Recorded σ) : ∃ calls,
      ((mk host.recording settings).edit ed path t).2 = host.made t calls ∧
        WritesHere path calls := by
  cases ed with
  | grant who privileges =>
    obtain ⟨written, h, -⟩ := grant_writes host settings path who privileges t
    exact h.writesHere
  | revoke who privileges =>
    obtain ⟨written, h, -⟩ := revoke_writes host settings path who privileges t
    exact h.writesHere
  | clear =>
    obtain ⟨calls, out, hc, hrun⟩ := clear_traces host settings path t
    exact ⟨calls, congrArg Prod.snd hrun, hc.writesHere⟩

/-- All that is written after the start is written on these nodes. -/
def WritesOn (visited : List String) (start u : Recorded σ) : Prop :=
  ∃ calls, u.calls = start.calls ++ calls ∧
    ∀ call ∈ calls, call.isWrite = true → ∃ path ∈ visited, call.node? = some path

theorem WritesOn.visit {visited : List String} {t : Recorded σ} (h : WritesOn visited start t)
    (host : Host σ) (settings : Settings) (ed : Edit) (path : String) :
    WritesOn (visited ++ [path]) start ((mk host.recording settings).edit ed path t).2 := by
  obtain ⟨calls, hcalls, hon⟩ := h
  obtain ⟨calls', hmade, hon'⟩ := edit_writesHere host settings ed path t
  refine ⟨calls ++ calls', by rw [hmade, Host.made_calls, hcalls, List.append_assoc], ?_⟩
  intro call hc hw
  rcases List.mem_append.1 hc with hc | hc
  · obtain ⟨q, hq, hnode⟩ := hon call hc hw
    exact ⟨q, List.mem_append_left _ hq, hnode⟩
  · exact ⟨path, List.mem_append_right _ List.mem_cons_self, hon' call hc hw⟩

theorem Trail.writesOn {visited : List String} {u : Recorded σ}
    (h : Trail host settings ed start visited u) : WritesOn visited start u := by
  induction h with
  | start => exact ⟨[], (List.append_nil _).symm, fun _ hc => absurd hc List.not_mem_nil⟩
  | @asks visited t reads _ hr ih =>
    obtain ⟨calls, hcalls, hon⟩ := ih
    refine ⟨calls ++ reads, by rw [Host.made_calls, hcalls, List.append_assoc], fun call hc hw => ?_⟩
    rcases List.mem_append.1 hc with hc | hc
    · exact hon call hc hw
    · rw [hr call hc] at hw
      cases hw
  | @visit visited path changed t u _ hv ih =>
    have hon := ih.visit host settings ed path
    rwa [hv] at hon

theorem TrailEnds.writesOn {visited : List String} {out : Except AccessError Bool} {u : Recorded σ}
    (h : TrailEnds host settings ed start visited out u) : WritesOn visited start u := by
  cases h with
  | between ht => exact ht.writesOn
  | @within visited path err t u ht hv =>
    have hon := ht.writesOn.visit host settings ed path
    rwa [hv] at hon

/-! ## Stages -/

/-- Where the edit has come to, from the start on. -/
def Along (host : Host σ) (settings : Settings) (start : Recorded σ) (ed : Edit) (u : Recorded σ) :
    Prop :=
  ∃ visited, Trail host settings ed start visited u

/-- Where the edit has come to with an error. -/
def Stops (host : Host σ) (settings : Settings) (start : Recorded σ) (ed : Edit) (err : AccessError)
    (u : Recorded σ) : Prop :=
  ∃ visited, TrailEnds host settings ed start visited (.error err) u

/-- No more has been done than to ask. -/
def Asked (host : Host σ) (start u : Recorded σ) : Prop :=
  ∃ calls, Reads calls ∧ u = host.made start calls

theorem Along.asks (t : Recorded σ) (calls : List Call) (h : Along host settings start ed t)
    (hr : Reads calls) : Along host settings start ed (host.made t calls) :=
  h.elim fun visited ht => ⟨visited, ht.asks hr⟩

theorem Along.stops (err : AccessError) (t : Recorded σ) (h : Along host settings start ed t) :
    Stops host settings start ed err t :=
  h.elim fun visited ht => ⟨visited, .between ht⟩

theorem Asked.asks (t : Recorded σ) (calls : List Call) (h : Asked host start t)
    (hr : Reads calls) : Asked host start (host.made t calls) := by
  obtain ⟨before, hb, rfl⟩ := h
  exact ⟨before ++ calls, hb.append hr, Host.made_append.symm⟩

theorem Asked.along {t : Recorded σ} (h : Asked host start t) : Along host settings start ed t := by
  obtain ⟨calls, hr, rfl⟩ := h
  exact ⟨[], Trail.start.asks hr⟩

theorem visit_triple (path : String) :
    Action.Triple (Along host settings start ed) ((mk host.recording settings).edit ed path)
      (fun _ => Along host settings start ed) (Stops host settings start ed) := by
  rintro t ⟨visited, ht⟩
  rcases hrun : (mk host.recording settings).edit ed path t with ⟨err | changed, u⟩
  · exact ⟨_, .within ht hrun⟩
  · exact ⟨_, ht.visit hrun⟩

/-- What is told of a request so far that calls which ask leave true is true after any work that
asks. -/
theorem asks_triple {α : Type} {R : σ → List Call → Except AccessError α → Prop}
    {x : Action (Recorded σ) α} {I : Recorded σ → Prop} {E : AccessError → Recorded σ → Prop}
    (hI : ∀ t calls, I t → Reads calls → I (host.made t calls)) (hE : ∀ err t, I t → E err t)
    (hx : host.Traces R x) (hR : ∀ s calls out, R s calls out → Reads calls) :
    Action.Triple I x (fun _ => I) E := by
  intro t ht
  obtain ⟨calls, out, hr, hrun⟩ := hx t
  rw [hrun]
  have hasked := hI t calls ht (hR _ _ _ hr)
  cases out with
  | error err => exact hE err _ hasked
  | ok a => exact hasked

theorem parentOf_asks {I : Recorded σ → Prop} {E : AccessError → Recorded σ → Prop}
    (hI : ∀ t calls, I t → Reads calls → I (host.made t calls)) (hE : ∀ err t, I t → E err t)
    (operation : Operation) (names : List String) (path : String) :
    Action.Triple I ((mk host.recording settings).parentOf operation names path) (fun _ => I) E :=
  asks_triple hI hE (parentOf_traces host settings operation names path) fun _ _ _ h => h.reads

theorem spread_trail (limit : Nat) (request : Request) (ed : Edit) (way : List String) :
    Walk.Triple (Along host settings start ed)
      ((mk host.recording settings).spread limit request way ed)
      (fun _ => Along host settings start ed) (Stops host settings start ed) :=
  spread_triple visit_triple
    (fun path _ => parentOf_asks Along.asks Along.stops request.operation request.names path)
    (fun accepts path => asks_triple Along.asks Along.stops
      (matchingChildren_traces host settings request.operation _ accepts path) fun _ _ _ h => h.reads)
    (fun _ _ => Along.stops _) way

theorem perform_trail (limit : Nat) (request : Request) (start : Recorded σ) :
    Walk.Triple (Asked host start) ((mk host.recording settings).perform limit request)
      (fun _ u => ∃ privileges, Along host settings start (request.act privileges) u)
      (fun err u => ∃ privileges, Stops host settings start (request.act privileges) err u) := by
  have hstops : ∀ err t, Asked host start t →
      ∃ privileges, Stops host settings start (request.act privileges) err t :=
    fun err t h => ⟨[], Along.stops err t h.along⟩
  have hresolve := asks_triple Asked.asks hstops
    (resolveAt_traces host settings request.start request.names) fun _ _ _ h => h.reads
  refine perform_triple (J := fun privileges => Along host settings start (request.act privileges))
    (ready_triple (fun path _ => parentOf_asks Asked.asks hstops _ _ path) fun _ _ => hstops _)
    (hresolve.mono fun _ _ => Asked.along) (fun _ _ => Asked.along) fun privileges way => ?_
  exact (spread_trail limit request (request.act privileges) way).mono (fun _ => id) (fun _ _ => id)
    fun _ _ h => ⟨privileges, h⟩

/-- The nodes that a request has come to when it ends, and what it has written: nothing elsewhere. On
each node it carries out its edit, with the privileges that were found for its names. -/
structure Visited (host : Host σ) (settings : Settings) (request : Request) (start : Recorded σ)
    (privileges : List Privilege) (visited : List String) (out : Except AccessError Bool)
    (u : Recorded σ) : Prop where
  ends : TrailEnds host settings (request.act privileges) start visited out u
  writesOn : WritesOn visited start u

theorem visited_of_trail {privileges : List Privilege} {visited : List String}
    {out : Except AccessError Bool} {u : Recorded σ}
    (h : TrailEnds host settings (request.act privileges) start visited out u) :
    Visited host settings request start privileges visited out u :=
  ⟨h, h.writesOn⟩

/-- Of the last stage alone, the privileges are known. -/
theorem spread_visited {limit : Nat} {way : List String} {privileges : List Privilege}
    {out : Except AccessError Bool} {u : Recorded σ}
    (h : (mk host.recording settings).spread limit request way (request.act privileges) start =
      some (out, u)) :
    ∃ visited, Visited host settings request start privileges visited out u := by
  have hended := spread_trail limit request _ way start out u ⟨[], .start⟩ h
  cases out with
  | error err => exact hended.imp fun _ ht => visited_of_trail ht
  | ok changed => exact hended.imp fun _ ht => visited_of_trail (.between ht)

theorem perform_visited {limit : Nat} {out : Except AccessError Bool} {u : Recorded σ}
    (h : (mk host.recording settings).perform limit request start = some (out, u)) :
    ∃ privileges visited, Visited host settings request start privileges visited out u := by
  have hasked : Asked host start start := ⟨[], List.forall_mem_nil _, rfl⟩
  have hended := perform_trail limit request start start out u hasked h
  cases out with
  | error err => exact hended.imp fun _ h => h.imp fun _ ht => visited_of_trail ht
  | ok changed => exact hended.imp fun _ h => h.imp fun _ ht => visited_of_trail (.between ht)

/-- **What is written** on any host. A grant or a revoke on a node writes at most once, there, and with
its last call; a grant that does not has failed or has nothing to give, and a revoke does just where it
replaces the list. By names, they ask first and then are the same. A clear unbinds the lists of its
node, in order up to the first failure. A request writes on the nodes that it comes to and on no
others, and when it comes to the next it has done with those before. It ends on a host that answers
only so many calls, so this is true of requests that never end as well, up to any of their calls. -/
theorem write_discipline (host : Host σ) (settings : Settings) :
    (∀ path who privileges t, ∃ written,
      WritesLast host path .grant (Privilege.names privileges) t written
        ((mk host.recording settings).grant path who privileges t).1
        ((mk host.recording settings).grant path who privileges t).2 ∧
      (written = none → privileges ≠ [] →
        ∃ err, ((mk host.recording settings).grant path who privileges t).1 = .error err)) ∧
    (∀ path who privileges t, ∃ written,
      WritesLast host path .revoke (Privilege.names privileges) t written
        ((mk host.recording settings).revoke path who privileges t).1
        ((mk host.recording settings).revoke path who privileges t).2 ∧
      ∀ acl, written = some acl ↔ Replaces host settings path who privileges t.state acl) ∧
    (∀ path who names,
      AsksFirst host ((mk host.recording settings).grant path who)
        ((mk host.recording settings).grantNamed path who names) ∧
      AsksFirst host ((mk host.recording settings).revoke path who)
        ((mk host.recording settings).revokeNamed path who names)) ∧
    (∀ path, host.Traces (Clearing host path) ((mk host.recording settings).clear path)) ∧
    (∀ limit request start out u,
      (mk host.recording settings).perform limit request start = some (out, u) →
      ∃ privileges visited, Visited host settings request start privileges visited out u) ∧
    (∀ request s n, ∃ out u,
      (mk host.limited.recording settings).perform (n + 1) request { state := (s, n) } =
        some (out, u) ∧
      ∃ privileges visited,
        Visited host.limited settings request { state := (s, n) } privileges visited out u) := by
  refine ⟨grant_writes host settings, revoke_writes host settings,
    fun path who names => ⟨asksFirst rfl host settings path names,
      asksFirst rfl host settings path names⟩,
    clear_traces host settings, fun _ _ _ _ _ => perform_visited, fun request s n => ?_⟩
  obtain ⟨out, s', hp, -⟩ := host.limited_ends settings (n + 1) request (s, n) (Nat.lt_succ_self n)
  obtain ⟨u, hu, -⟩ := perform_recording hp
  exact ⟨out, u, hu, perform_visited hu⟩

/-- The root is written, and the folder below it when it has its turn, where the write fails. -/
theorem write_discipline_full_folder : ∃ (full : Host Repository) (r : Repository)
    (u : Recorded Repository),
    (mk full.recording {}).perform 2
      (.grantNamed "/" (.subtree fun _ => true) ⟨"u"⟩ ["jcr:read"]) { state := r } =
      some (.error (.repositoryAccess (some "/a") .grant ["jcr:read"] (.storage "Full")), u) ∧
    (u.calls.filter (·.isWrite)).map (·.node?) = [some "/", some "/a"] ∧
    ∃ privileges visited, Visited full {}
      (.grantNamed "/" (.subtree fun _ => true) ⟨"u"⟩ ["jcr:read"]) { state := r } privileges visited
      (.error (.repositoryAccess (some "/a") .grant ["jcr:read"] (.storage "Full"))) u := by
  have hfails : (mk (Host.recording { Repository.host with
        setPolicy := fun path acl r =>
          if path = "/a" then (.error (.storage "Full"), r)
          else Repository.host.setPolicy path acl r }) {}).perform 2
      (.grantNamed "/" (.subtree fun _ => true) ⟨"u"⟩ ["jcr:read"])
      { state := Repository.initial.grow "/" "/a" "folder" } =
      some (.error (.repositoryAccess (some "/a") .grant ["jcr:read"] (.storage "Full")), _) := rfl
  exact ⟨_, _, _, hfails, rfl, (write_discipline _ _).2.2.2.2.1 _ _ _ _ _ hfails⟩

end Engine
end AclTree
