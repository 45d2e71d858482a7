/-
Requests that give or take privileges and list none. They write nothing on any
host. On a node and on a subtree they ask nothing either and answer that nothing
changed; up to an ancestor they follow the parents first (`Engine.Climbing`), and
only if the target is met is that their answer (`Engine.idle_exact`).
-/
import AclTree.Proofs.Engine.Writes
import AclTree.Proofs.Repository.Live

namespace AclTree

open Host (Call Recorded Reads)

variable {σ : Type}

/-- The request gives or takes privileges, and lists none. -/
def Request.IsIdle (request : Request) : Prop :=
  request.names = [] ∧ request.operation ≠ .clear

/-- A visit that does nothing adds nothing to what comes behind it. -/
theorem Walk.idle_bind {α : Type} (x : Walk σ α) (f : α → Walk σ Bool) :
    (do
      let changed ← Walk.step (pure false)
      let a ← x
      let later ← f a
      pure (changed || later)) = x >>= f := by
  have hvisit : (Walk.step (pure false) : Walk σ Bool) = pure false := rfl
  simp only [hvisit, pure_bind, Bool.false_or, bind_pure]

namespace Engine

/-! ## Without a host -/

section Steps

variable {e : Engine σ} {limit : Nat} {request : Request} {operation : Operation}
  {start target path : String}

/-- On a node and on a subtree nothing is asked. -/
theorem perform_idle (h : request.IsIdle) (hs : ∀ target, request.scope ≠ .ancestors target) :
    e.perform limit request = pure false := by
  obtain ⟨hnames, hoperation⟩ := h
  rcases request with ⟨path, who, privileges⟩ | ⟨path, who, privileges⟩ |
    ⟨path, _ | target | accepts, who, names⟩ | ⟨path, _ | target | accepts, who, names⟩ |
    ⟨path, scope⟩
  case grant | revoke =>
    obtain rfl : privileges = [] := Privilege.names_eq_nil.1 hnames
    rfl
  case grantNamed.ancestors | revokeNamed.ancestors => exact absurd rfl (hs target)
  case clear => exact absurd rfl hoperation
  all_goals
    obtain rfl : names = [] := hnames
    rfl

theorem visitAll_idle (paths : List String) :
    Walk.visitAll (fun _ => Walk.step (pure false : Action σ Bool)) paths false = pure false := by
  induction paths with
  | nil => rfl
  | cons path paths ih => exact ih

theorem climb_target {visit : String → Action σ Bool} {names : List String} :
    e.climb operation names visit start target limit target = Walk.step (visit target) := by
  unfold climb
  rw [if_pos rfl]

theorem climb_root {visit : String → Action σ Bool} {names : List String} (h : path ≠ target)
    (hroot : path = e.host.root) :
    e.climb operation names visit start target limit path =
      throw (.invalidHierarchy start target) := by
  unfold climb
  rw [if_neg h, if_pos hroot]

/-- A node where nothing is done is only gone through. -/
theorem climb_up_idle {names : List String} (h : path ≠ target) (hroot : path ≠ e.host.root) :
    e.climb operation names (fun _ => pure false) start target (limit + 1) path =
      Walk.step (e.parentOf operation names path) >>=
        e.climb operation names (fun _ => pure false) start target limit := by
  rw [climb, if_neg h, if_neg hroot]
  exact Walk.idle_bind _ _

/-- A way that is only found is one that is climbed without doing anything. -/
theorem lineage_idle (names : List String) :
    (e.lineage names start target limit path >>= fun _ => pure false) =
      e.climb .grant names (fun _ => pure false) start target limit path := by
  fun_induction lineage e names start target limit path with
  | case1 =>
    rw [climb_target]
    rfl
  | case2 _ hne =>
    rw [climb_root hne rfl]
    rfl
  | case3 path hne hroot =>
    -- No step is left: neither goes on.
    unfold climb
    rw [if_neg hne, if_neg hroot]
    rfl
  | case4 path hne hroot limit ih =>
    rw [climb_up_idle hne hroot]
    simp only [bind_assoc, pure_bind, ih]

theorem perform_idle_along (h : request.IsIdle) (hs : request.scope = .ancestors target) :
    e.perform limit request =
      e.climb request.operation [] (fun _ => pure false) request.start target limit
        request.start := by
  obtain ⟨hnames, hoperation⟩ := h
  rcases request with ⟨path, who, privileges⟩ | ⟨path, who, privileges⟩ |
    ⟨path, _ | _ | accepts, who, names⟩ | ⟨path, _ | _ | accepts, who, names⟩ | ⟨path, scope⟩
  case grantNamed.ancestors =>
    -- The way is found first, then no name is looked up and no node of the way is granted anything.
    obtain rfl : names = [] := hnames
    cases hs
    refine Eq.trans ?_ (lineage_idle [])
    change (e.lineage [] path target limit path >>= fun way => Walk.visitAll _ way.reverse false) = _
    exact bind_congr fun way => visitAll_idle way.reverse
  case revokeNamed.ancestors =>
    obtain rfl : names = [] := hnames
    cases hs
    rfl
  case clear => exact absurd rfl hoperation
  all_goals cases hs

end Steps

/-! ## What is asked -/

/-- Following parents from a node without doing anything there: the lookups, and what comes of them.
The target is met, or the root before it, or there is no parent to go on to. -/
inductive Climbing (host : Host σ) (operation : Operation) (start target : String) :
    String → σ → List Call → Except AccessError Bool → Prop where
  | met {s : σ} : Climbing host operation start target target s [] (.ok false)
  | root {s : σ} :
      host.root ≠ target →
      Climbing host operation start target host.root s [] (.error (.invalidHierarchy start target))
  | stopped {path : String} {s : σ} {calls : List Call} {err : AccessError} :
      path ≠ target → path ≠ host.root → Rising host operation [] path s calls (.error err) →
      Climbing host operation start target path s calls (.error err)
  | up {path parent : String} {s : σ} {calls calls' : List Call} {out : Except AccessError Bool} :
      path ≠ target → path ≠ host.root → Rising host operation [] path s calls (.ok parent) →
      Climbing host operation start target parent (host.reached s calls) calls' out →
      Climbing host operation start target path s (calls ++ calls') out

section Calls

variable {host : Host σ} {settings : Settings} {operation : Operation}
  {start target path : String} {limit : Nat} {s : σ} {calls : List Call}
  {out : Except AccessError Bool} {t u : Recorded σ}

theorem Climbing.reads (h : Climbing host operation start target path s calls out) : Reads calls := by
  induction h with
  | met => exact List.forall_mem_nil _
  | root => exact List.forall_mem_nil _
  | stopped _ _ hr => exact hr.reads
  | up _ _ hr _ ih => exact hr.reads.append ih

theorem climbing_of_climb
    (h : (mk host.recording settings).climb operation [] (fun _ => pure false) start target limit
      path t = some (out, u)) :
    ∃ calls, Climbing host operation start target path t.state calls out ∧ u = host.made t calls := by
  fun_induction climb (mk host.recording settings) operation [] (fun _ => pure false) start target
    limit path generalizing t with
  | case1 =>
    cases h
    exact ⟨[], .met, rfl⟩
  | case2 _ hne =>
    cases h
    exact ⟨[], .root hne, rfl⟩
  | case3 => cases h
  | case4 path hne hroot limit ih =>
    rw [Walk.idle_bind] at h
    obtain ⟨calls, found, hr, hrun⟩ := parentOf_traces host settings operation [] path t
    cases found with
    | error err =>
      rw [Walk.bind_error (congrArg some hrun)] at h
      cases h
      exact ⟨calls, .stopped hne hroot hr, rfl⟩
    | ok parent =>
      rw [Walk.bind_ok (congrArg some hrun)] at h
      obtain ⟨calls', hc, rfl⟩ := ih parent h
      rw [Host.made_state] at hc
      exact ⟨calls ++ calls', .up hne hroot hr hc, Host.made_append.symm⟩

theorem Climbing.climb (h : Climbing host operation start target path s calls out) :
    ∃ limit, ∀ t : Recorded σ, t.state = s →
      (mk host.recording settings).climb operation [] (fun _ => pure false) start target limit
        path t = some (out, host.made t calls) := by
  induction h with
  | met =>
    refine ⟨0, fun t _ => ?_⟩
    rw [climb_target]
    rfl
  | root hne =>
    refine ⟨0, fun t _ => ?_⟩
    rw [climb_root hne rfl]
    rfl
  | stopped hne hroot hr =>
    refine ⟨1, fun t ht => ?_⟩
    subst ht
    rw [climb_up_idle hne hroot]
    exact Walk.bind_error (congrArg some (hr.run host settings))
  | up hne hroot hr _ ih =>
    obtain ⟨limit, ih⟩ := ih
    refine ⟨limit + 1, fun t ht => ?_⟩
    subst ht
    rw [climb_up_idle hne hroot, Host.made_append]
    exact (Walk.bind_ok (congrArg some (hr.run host settings))).trans (ih _ Host.made_state)

end Calls

/-- **Nothing to give or take**: a request that lists no privileges writes nothing, on any host, and tells
of no change. On a node and on a subtree it asks nothing and succeeds, whatever the path is. Up to an
ancestor it follows the parents from the start on and does no more; it succeeds if the target is met,
and fails if the root is met before, or a node whose parent the host does not tell. -/
theorem idle_exact (host : Host σ) (settings : Settings) (request : Request) (h : request.IsIdle)
    (t : Recorded σ) :
    ((∀ target, request.scope ≠ .ancestors target) →
      ∀ limit, (mk host.recording settings).perform limit request t = some (.ok false, t)) ∧
    (∀ target, request.scope = .ancestors target → ∀ out u,
      (∃ limit, (mk host.recording settings).perform limit request t = some (out, u)) ↔
        ∃ calls, Reads calls ∧ u = host.made t calls ∧
          Climbing host request.operation request.start target request.start t.state calls out) := by
  refine ⟨fun hs limit => by rw [perform_idle h hs]; rfl, fun target hs out u => ?_⟩
  have hperform : ∀ limit, (mk host.recording settings).perform limit request = _ :=
    fun limit => perform_idle_along h hs
  simp only [hperform]
  constructor
  · rintro ⟨limit, hrun⟩
    obtain ⟨calls, hc, rfl⟩ := climbing_of_climb hrun
    exact ⟨calls, hc.reads, rfl, hc⟩
  · rintro ⟨calls, -, rfl, hc⟩
    obtain ⟨limit, hrun⟩ := hc.climb
    exact ⟨limit, hrun t rfl⟩

/-- A grant of nothing from a folder up to the root, and one on every node below a path that leads
nowhere: neither is written, and only the first looks at the repository. -/
theorem idle_exact_folder_and_nowhere :
    ∃ r : Repository, r.contains "/a" = true ∧ r.contains "/x" = false ∧
      (∃ limit, (mk Repository.host.recording {}).perform limit
          (.grantNamed "/a" (.ancestors "/") ⟨"u"⟩ []) { state := r } =
        some (.ok false, Repository.host.made { state := r } [.parent "/a"])) ∧
      (mk Repository.host.recording {}).perform 0
          (.grantNamed "/x" (.subtree fun _ => true) ⟨"u"⟩ []) { state := r } =
        some (.ok false, { state := r }) := by
  refine ⟨Repository.initial.grow "/" "/a" "folder", rfl, rfl, ?_, ?_⟩
  · refine ((idle_exact Repository.host {} (.grantNamed "/a" (.ancestors "/") ⟨"u"⟩ []) ⟨rfl, nofun⟩
      _).2 "/" rfl _ _).2 ⟨[.parent "/a"] ++ [], ?_, rfl, ?_⟩
    · exact List.forall_mem_singleton.2 rfl
    · exact .up (by decide) (by decide) (.found rfl) .met
  · exact (idle_exact Repository.host {} (.grantNamed "/x" (.subtree fun _ => true) ⟨"u"⟩ [])
      ⟨rfl, nofun⟩ _).1 nofun 0

/-- From a folder to one beside it, nothing to give and nothing to take is refused as well. -/
theorem idle_refused_sideways :
    ∃ r : Repository, r.Live ∧ r.contains "/a" = true ∧ r.contains "/b" = true ∧
      r.perform {} (.grantNamed "/a" (.ancestors "/b") ⟨"u"⟩ []) =
        some (.error (.invalidHierarchy "/a" "/b"), r) ∧
      r.perform {} (.revokeNamed "/a" (.ancestors "/b") ⟨"u"⟩ []) =
        some (.error (.invalidHierarchy "/a" "/b"), r) := by
  have hfirst : Repository.initial.addPath "/a" "folder" =
      .ok ("/a", Repository.initial.grow "/" "/a" "folder") := rfl
  have hsecond : (Repository.initial.grow "/" "/a" "folder").addPath "/b" "folder" =
      .ok ("/b", (Repository.initial.grow "/" "/a" "folder").grow "/" "/b" "folder") := rfl
  exact ⟨_, .addPath (.addPath (.reachable .initial) hfirst) hsecond, rfl, rfl, rfl, rfl⟩

end Engine
end AclTree
