/-
Requests from a node up to one above it, on any host whose answers about
parents stay the same. The way is found by a grant, which then works from its
top down, and by the walk of revokes and clears, which works on it from the
start up. Both come to a run over the nodes of the way (`Engine.RunsAlong`),
and both take just the pairs of nodes that there is a way between
(`Engine.WalksUp`).

On repositories the walks need no more lookups than the start is deep
(`IsTree.along_within`).
-/
import AclTree.Proofs.Engine.Ends
import AclTree.Proofs.Engine.Limit
import AclTree.Proofs.Host.Lookups
import AclTree.Proofs.Repository.Live

namespace AclTree

variable {σ : Type}

/-- From `s` the walk does what an operation does on the nodes of a list from `s₁` on: node by node
up to the first on which it fails, with those before it done; and it tells of a change if there was
one on any. -/
structure Walk.RunsOver (w : Walk σ Bool) (s : σ) (visit : String → Action σ Bool)
    (nodes : List String) (s₁ : σ) : Prop where
  outcome : w s = some (Action.each visit nodes s₁)
  aborted : ∀ err t, w s = some (.error err, t) →
    ∃ visited q left changed t₁, nodes = visited ++ q :: left ∧
      Action.each visit visited s₁ = (.ok changed, t₁) ∧ visit q t₁ = (.error err, t)
  told : ∀ changed t, w s = some (.ok changed, t) →
    (changed = true ↔ ∃ visited q left before t₁ t₂, nodes = visited ++ q :: left ∧
      Action.each visit visited s₁ = (.ok before, t₁) ∧ visit q t₁ = (.ok true, t₂))

theorem Walk.runsOver {w : Walk σ Bool} {s s₁ : σ} {visit : String → Action σ Bool}
    {nodes : List String} (h : w s = some (Action.each visit nodes s₁)) :
    w.RunsOver s visit nodes s₁ where
  outcome := h
  aborted err t ht := by
    rw [h] at ht
    exact Action.each_eq_error (Option.some.inj ht)
  told changed t ht := by
    rw [h] at ht
    exact Action.each_eq_ok (Option.some.inj ht)

namespace Engine

variable {e : Engine σ} {I : σ → Prop} {up : String → Except RepositoryError (Option String)}
  {start target : String} {way : List String} {limit : Nat} {s : σ}

/-- Requests from `start` up to `target` are runs over the nodes of `way`: grants from its end back to
the start, their names looked up in `found`, revokes and clears from the start on. `andThen` adds to
the visits of these what comes between them. -/
structure RunsAlong (e : Engine σ) (I : σ → Prop) (limit : Nat) (start target : String)
    (way : List String) (s found : σ)
    (andThen : (String → Action σ Bool) → String → Action σ Bool) : Prop where
  grant : ∀ who names privileges s₁, e.resolveAt start names found = (.ok privileges, s₁) →
    (e.perform limit (.grantNamed start (.ancestors target) who names)).RunsOver s
      (e.edit (.grant who privileges)) way.reverse s₁
  revoke : ∀ who names privileges s₁, e.resolveAt start names s = (.ok privileges, s₁) → I s₁ →
    (∀ q ∈ way, Keeps I (e.edit (.revoke who privileges) q)) →
    (e.perform limit (.revokeNamed start (.ancestors target) who names)).RunsOver s
      (andThen (e.edit (.revoke who privileges))) way s₁
  clear : (∀ q ∈ way, Keeps I (e.edit .clear q)) →
    (e.perform limit (.clear start (.ancestors target))).RunsOver s (andThen (e.edit .clear)) way s

section Runs

variable (h : e.host.Parents I up) (ha : Ascent up e.host.root target start way) (hs : I s)
  (hlimit : way.length ≤ limit + 1)
include h ha hs hlimit

theorem runsAlong : e.RunsAlong I limit start target way s (e.host.asked way.dropLast s)
    (e.host.thenUp target) where
  grant who names privileges s₁ hl := by
    have hway : e.lineage names start target limit start s =
        some (.ok way, e.host.asked way.dropLast s) := lineage_run h ha hs hlimit
    refine Walk.runsOver ((Walk.bind_ok hway).trans ((Walk.bind_ok (congrArg some hl)).trans ?_))
    rw [Walk.visitAll_step, Action.after_false]
    rfl
  revoke who names privileges s₁ hl hs₁ hkeeps :=
    Walk.runsOver <| (Walk.bind_ok (congrArg some hl)).trans (climb_run h ha hkeeps hs₁ hlimit)
  clear hkeeps := Walk.runsOver (climb_run h ha hkeeps hs hlimit)

/-- Lookups that change nothing do not count. -/
theorem runsAlong_quiet (hquiet : ∀ q t, I t → (e.host.parent q t).2 = t) :
    e.RunsAlong I limit start target way s s id := by
  have hruns := runsAlong h ha hs hlimit
  rw [asked_eq hquiet hs] at hruns
  refine ⟨hruns.grant, fun who names privileges s₁ hl hs₁ hkeeps => Walk.runsOver ?_,
    fun hkeeps => Walk.runsOver ?_⟩
  · rw [(hruns.revoke who names privileges s₁ hl hs₁ hkeeps).outcome,
      each_thenUp hquiet hkeeps hs₁]
    rfl
  · rw [(hruns.clear hkeeps).outcome, each_thenUp hquiet hkeeps hs]
    rfl

end Runs

/-! ## What the walks take -/

theorem lineage_accepts (h : e.host.Parents I up) (hs : I s) {names : List String} :
    (∃ limit t, e.lineage names start target limit start s = some (.ok way, t)) ↔
      Ascent up e.host.root target start way :=
  ⟨fun ⟨_, _, hl⟩ => (ascent_of_lineage h hs hl).1,
    fun ha => ⟨way.length, _, lineage_run h ha hs (Nat.le_succ _)⟩⟩

theorem each_succeeds {visit : String → Action σ Bool} (hvisit : ∀ q, Keeps I (visit q))
    (hok : ∀ q t, I t → ∃ now, (visit q t).1 = .ok now) (hs : I s) (paths : List String) :
    ∃ changed t, Action.each visit paths s = (.ok changed, t) := by
  induction paths generalizing s with
  | nil => exact ⟨false, s, rfl⟩
  | cons path rest ih =>
    obtain ⟨now, hnow⟩ := hok path s hs
    obtain ⟨later, t, hrest⟩ := ih (hvisit path s hs)
    exact ⟨now || later, t, Action.each_cons_eq_ok.2 ⟨now, later, _, Prod.ext hnow rfl, hrest, rfl⟩⟩

theorem climb_accepts (h : e.host.Parents I up) (hs : I s) {operation : Operation}
    {names : List String} {visit : String → Action σ Bool} (hvisit : ∀ q, Keeps I (visit q))
    (hok : ∀ q t, I t → ∃ now, (visit q t).1 = .ok now) :
    (∃ limit changed t,
      e.climb operation names visit start target limit start s = some (.ok changed, t)) ↔
      ∃ way, Ascent up e.host.root target start way := by
  constructor
  · rintro ⟨limit, changed, t, hc⟩
    exact ascent_of_climb h hvisit hs hc
  · rintro ⟨way, ha⟩
    have hthen : ∀ q t, I t → ∃ now, (e.host.thenUp target visit q t).1 = .ok now := by
      intro q t ht
      obtain ⟨now, hnow⟩ := hok q t ht
      refine ⟨now, ?_⟩
      rw [Host.thenUp, Action.bind_ok (Prod.ext hnow rfl)]
      split <;> rfl
    obtain ⟨changed, t, hrun⟩ :=
      each_succeeds (fun q => thenUp_keeps h (hvisit q)) hthen hs way
    refine ⟨way.length, changed, t, ?_⟩
    rw [climb_run h ha (fun q _ => hvisit q) hs (Nat.le_succ _), hrun]

/-- What the two walks from `start` to `target` have to do with the way. -/
structure WalksUp (e : Engine σ) (I : σ → Prop)
    (up : String → Except RepositoryError (Option String)) (start target : String) (s : σ) :
    Prop where
  ends : ∀ way, Ascent up e.host.root target start way →
    way.Nodup ∧ way.head? = some start ∧ way.getLast? = some target
  runs : ∀ way limit, Ascent up e.host.root target start way → way.length ≤ limit + 1 →
    e.RunsAlong I limit start target way s (e.host.asked way.dropLast s) (e.host.thenUp target)
  /-- Lookups of parents that leave the host as it is are as good as none. -/
  quiet : ∀ way limit, Ascent up e.host.root target start way → way.length ≤ limit + 1 →
    (∀ q t, I t → (e.host.parent q t).2 = t) → e.RunsAlong I limit start target way s s id
  collects : ∀ names way,
    (∃ limit t, e.lineage names start target limit start s = some (.ok way, t)) ↔
      Ascent up e.host.root target start way
  climbs : ∀ operation names visit, (∀ q, Keeps I (visit q)) →
    (∀ q t, I t → ∃ now, (visit q t).1 = .ok now) →
    ((∃ limit changed t,
      e.climb operation names visit start target limit start s = some (.ok changed, t)) ↔
      ∃ way, Ascent up e.host.root target start way)

theorem walksUp (h : e.host.Parents I up) (hs : I s) : e.WalksUp I up start target s where
  ends _ ha := ⟨ha.nodup, ha.head?_eq, ha.getLast?_eq⟩
  runs _ _ ha hlimit := runsAlong h ha hs hlimit
  quiet _ _ ha hlimit hquiet := runsAlong_quiet h ha hs hlimit hquiet
  collects _ _ := lineage_accepts h hs
  climbs _ _ _ hvisit hok := climb_accepts h hs hvisit hok

end Engine

/-! ## On repositories -/

namespace Repository

variable {r : Repository} {start target : String} {request : Request}

theorem along_asks (host : Host σ) (settings : Settings) (ha : request.Along start target)
    (limit : Nat) :
    Walk.Asks limit ((Engine.mk host.recording settings).perform limit request) := by
  cases ha with
  | @grant who names =>
    exact (host.lineage_asks settings names start target limit start).bind
      (fun way => (Walk.Asks.step (host.resolveAt_lookups settings start names)).bind
        (fun privileges => .visitAll
          (fun q => .step (host.grant_lookups settings who privileges q)) way.reverse false)
        (Nat.add_zero 0))
      (Nat.add_zero limit)
  | @revoke who names =>
    exact (Walk.Asks.step (host.resolveAt_lookups settings start names)).bind
      (fun privileges => host.climb_asks settings .revoke names
        (host.revoke_lookups settings who privileges) start target limit start)
      (Nat.zero_add limit)
  | clear =>
    exact host.climb_asks settings .clear [] (host.clear_lookups settings) start target limit start

/-- The request ends, with one outcome for all limits from `steps` on, and looks no more than that
many parents up. -/
def EndsWithin (r : Repository) (settings : Settings) (request : Request) (steps : Nat) : Prop :=
  ∃ out t,
    (∀ limit, steps ≤ limit →
      (Engine.mk host.recording settings).perform limit request { state := r } = some (out, t)) ∧
    r.perform settings request = some (out, t.state) ∧ t.lookups ≤ steps

theorem IsTree.along_within (h : r.IsTree) (hc : r.contains start = true)
    (ha : request.Along start target) (settings : Settings) :
    r.EndsWithin settings request (Path.depth start) := by
  have hclimbable : r.Climbable start (Path.depth start) := by
    unfold Climbable
    rw [if_pos hc]
  obtain ⟨⟨out, s⟩, hout⟩ := h.along_ends ha hclimbable settings
  have hsize : r.perform settings request = some (out, s) :=
    Engine.perform_mono _ (Nat.le_of_lt (h.depth_lt_size hc)) request _ _ hout
  obtain ⟨t, hrec, hstate⟩ := Engine.perform_recording hout
  have hasks : t.lookups ≤ 0 + Path.depth start := along_asks host settings ha _ _ _ _ hrec
  rw [Nat.zero_add] at hasks
  refine ⟨out, t, fun limit hlimit => Engine.perform_mono _ hlimit request _ _ hrec, ?_, hasks⟩
  rw [hsize, hstate]

end Repository

/-- **Walks up**: on every host whose answers about parents stay the same, requests up to a node above
the start are runs over the nodes in between, each of them once, from the target down for grants and
from the start up for the others, and they take the same starts and targets. On repositories none of
them looks more parents up than the start is deep, whatever the target is. -/
theorem Engine.walks_up :
    (∀ (σ : Type) (e : Engine σ) (I : σ → Prop)
      (up : String → Except RepositoryError (Option String)), e.host.Parents I up →
      ∀ start target s, I s → e.WalksUp I up start target s) ∧
    (∀ r : Repository, r.Live → ∀ start, r.contains start = true →
      ∀ target settings request, Request.Along start target request →
        r.EndsWithin settings request (Path.depth start)) :=
  ⟨fun _ _ _ _ h _ _ _ hs => walksUp h hs,
    fun _ hr _ hc _ settings _ ha => hr.isTree.along_within hc ha settings⟩

/-- From a folder up to the one that it is in. -/
theorem Engine.walks_up_nested_folder : ∃ (r : Repository) (privileges : List Privilege), r.Live ∧
    Ascent r.parentAnswer "/" "/a" "/a/b" ["/a/b", "/a"] ∧
    (Engine.mk Repository.host {}).WalksUp (fun s => s.bare = r.bare) r.parentAnswer "/a/b" "/a" r ∧
    ((Engine.mk Repository.host {}).perform 1
      (.grantNamed "/a/b" (.ancestors "/a") ⟨"u"⟩ ["jcr:read"])).RunsOver r
        ((Engine.mk Repository.host {}).edit (.grant ⟨"u"⟩ privileges)) ["/a", "/a/b"] r ∧
    ((Engine.mk Repository.host {}).perform 1 (.clear "/a/b" (.ancestors "/a"))).RunsOver r
        ((Engine.mk Repository.host {}).edit .clear) ["/a/b", "/a"] r ∧
    r.EndsWithin {} (.clear "/a/b" (.ancestors "/a")) 2 := by
  have hfolder : Repository.initial.addPath "/a" "folder" =
      .ok ("/a", Repository.initial.grow "/" "/a" "folder") := rfl
  have hnested : (Repository.initial.grow "/" "/a" "folder").addPath "/a/b" "folder" =
      .ok ("/a/b", (Repository.initial.grow "/" "/a" "folder").grow "/a" "/a/b" "folder") := rfl
  have hlive := Repository.Live.addPath (.addPath (.reachable .initial) hfolder) hnested
  have hway : Ascent ((Repository.initial.grow "/" "/a" "folder").grow "/a" "/a/b"
      "folder").parentAnswer "/" "/a" "/a/b" ["/a/b", "/a"] :=
    .step (by decide) (by decide) rfl .here
  have hwalks := Engine.walks_up.1 _ (Engine.mk Repository.host {}) _ _
    (Repository.parents ((Repository.initial.grow "/" "/a" "folder").grow "/a" "/a/b" "folder"))
    "/a/b" "/a" _ rfl
  have hruns := hwalks.quiet _ 1 hway (by decide) Repository.parent_quiet
  exact ⟨_, _, hlive, hway, hwalks, hruns.grant ⟨"u"⟩ ["jcr:read"] _ _ rfl,
    hruns.clear fun q _ => Repository.edit_keeps_bare q,
    Engine.walks_up.2 _ hlive "/a/b" rfl "/a" {} _ .clear⟩

end AclTree
