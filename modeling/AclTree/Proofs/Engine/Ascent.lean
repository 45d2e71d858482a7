/-
Walks from a node up to one above it, on any host whose answers about parents
stay the same (`Host.Parents`). Both walkers find the way exactly where there is
one (`Ascent`): `lineage_run` and `climb_run` say what they do on it,
`ascent_of_lineage` and `ascent_of_climb` that they succeed on nothing else.

A host may do anything to its state when it is asked for a parent, so lookups
stay part of a run (`Host.asked`, `Host.thenUp`) until they are known to leave
the state alone (`each_thenUp`).
-/
import AclTree.Engine.Request
import AclTree.Proofs.Engine.Keeps
import Mathlib.Data.List.Nodup

namespace AclTree

variable {σ : Type}

/-- A request on the nodes from `start` up to `target`. -/
inductive Request.Along (start target : String) : Request → Prop where
  | grant {who names} : Along start target (.grantNamed start (.ancestors target) who names)
  | revoke {who names} : Along start target (.revokeNamed start (.ancestors target) who names)
  | clear : Along start target (.clear start (.ancestors target))

/-- In the states of `I` the host answers about parents as `up` says, and stays in them when it
does. -/
structure Host.Parents (host : Host σ) (I : σ → Prop)
    (up : String → Except RepositoryError (Option String)) : Prop where
  answer : ∀ path s, I s → (host.parent path s).1 = up path
  keeps : ∀ path, Keeps I (host.parent path)

/-- The nodes from `path` up to `target`, both included, each the parent of the one before. The root
is met at the target or not at all. -/
inductive Ascent (up : String → Except RepositoryError (Option String)) (root target : String) :
    String → List String → Prop where
  | here : Ascent up root target target [target]
  | step {path parent : String} {way : List String} :
      path ≠ target → path ≠ root → up path = .ok (some parent) →
      Ascent up root target parent way → Ascent up root target path (path :: way)

namespace Host

/-- The state in which the host is left by lookups of the parents of these nodes. -/
def asked (host : Host σ) (paths : List String) (s : σ) : σ :=
  paths.foldl (fun s path => (host.parent path s).2) s

/-- A visit, and then a lookup of the node's parent unless the node is the target. -/
def thenUp (host : Host σ) (target : String) (visit : String → Action σ Bool) (path : String) :
    Action σ Bool := do
  let changed ← visit path
  if path = target then
    pure changed
  else
    fun s => (.ok changed, (host.parent path s).2)

end Host

/-! ## The way -/

namespace Ascent

variable {up : String → Except RepositoryError (Option String)} {root target path q : String}
  {way way' : List String}

theorem head?_eq (h : Ascent up root target path way) : way.head? = some path := by
  cases h <;> rfl

theorem ne_nil (h : Ascent up root target path way) : way ≠ [] := by
  rintro rfl
  cases h

theorem getLast?_eq (h : Ascent up root target path way) : way.getLast? = some target := by
  induction h with
  | here => rfl
  | step _ _ _ hw ih =>
    obtain ⟨q, rest, rfl⟩ := List.exists_cons_of_ne_nil hw.ne_nil
    rw [List.getLast?_cons_cons, ih]

theorem eq_of_ascent (h : Ascent up root target path way) (h' : Ascent up root target path way') :
    way = way' := by
  induction h generalizing way' with
  | here =>
    cases h' with
    | here => rfl
    | step hne => exact absurd rfl hne
  | step hne _ hp _ ih =>
    cases h' with
    | here => exact absurd rfl hne
    | step _ _ hp' hw' =>
      rw [hp] at hp'
      cases hp'
      rw [ih hw']

/-- From every node on the way the rest of it is the way. -/
theorem exists_suffix (h : Ascent up root target path way) (hq : q ∈ way) :
    ∃ rest, rest <:+ way ∧ Ascent up root target q rest := by
  induction h with
  | here =>
    rw [List.mem_singleton.1 hq]
    exact ⟨_, List.suffix_refl _, .here⟩
  | @step path parent way hne hroot hp hw ih =>
    rcases List.mem_cons.1 hq with rfl | hq
    · exact ⟨_, List.suffix_refl _, .step hne hroot hp hw⟩
    · obtain ⟨rest, hsuffix, ha⟩ := ih hq
      exact ⟨rest, hsuffix.trans (List.suffix_cons path way), ha⟩

/-- A way that came back to one of its nodes would never arrive. -/
theorem nodup (h : Ascent up root target path way) : way.Nodup := by
  induction h with
  | here => exact List.nodup_singleton _
  | @step path parent way hne hroot hp hw ih =>
    refine List.nodup_cons.2 ⟨fun hm => ?_, ih⟩
    obtain ⟨rest, hsuffix, ha⟩ := hw.exists_suffix hm
    have hwhole : path :: way = rest := (step hne hroot hp hw).eq_of_ascent ha
    have hlength := hsuffix.length_le
    rw [← hwhole, List.length_cons] at hlength
    omega

/-- Where the way goes on there is a step left for it. -/
theorem exists_limit (h : Ascent up root target q way) {limit : Nat}
    (hlimit : (path :: way).length ≤ limit + 1) : ∃ n, limit = n + 1 ∧ way.length ≤ n + 1 := by
  have hlength := List.length_pos_of_ne_nil h.ne_nil
  rw [List.length_cons] at hlimit
  exact ⟨limit - 1, by omega, by omega⟩

end Ascent

/-! ## The walks -/

namespace Engine

variable {e : Engine σ} {I : σ → Prop} {up : String → Except RepositoryError (Option String)}
  {path start target : String} {way names : List String} {operation : Operation} {limit : Nat}
  {s s' : σ}

theorem parentOf_ascent (h : e.host.Parents I up) (hs : I s) {parent : String}
    (hp : up path = .ok (some parent)) :
    e.parentOf operation names path s = (.ok parent, (e.host.parent path s).2) := by
  have hanswer : e.host.parent path s = (.ok (some parent), (e.host.parent path s).2) :=
    Prod.ext ((h.answer path s hs).trans hp) rfl
  exact Action.bind_ok (access_ok hanswer)

theorem up_of_parentOf (h : e.host.Parents I up) (hs : I s) {parent : String}
    (hp : e.parentOf operation names path s = (.ok parent, s')) :
    up path = .ok (some parent) ∧ s' = (e.host.parent path s).2 := by
  have hanswer := h.answer path s hs
  rcases hcall : e.host.parent path s with ⟨err | found, s₁⟩ <;> rw [hcall] at hanswer
  · unfold parentOf at hp
    rw [Action.bind_error (access_error hcall)] at hp
    cases hp
  · unfold parentOf at hp
    rw [Action.bind_ok (access_ok hcall)] at hp
    cases found with
    | none => cases hp
    | some p =>
      cases hp
      exact ⟨hanswer.symm, rfl⟩

theorem lineage_step (h : e.host.Parents I up) (hs : I s) {parent : String} (hne : path ≠ target)
    (hroot : path ≠ e.host.root) (hp : up path = .ok (some parent)) :
    e.lineage names start target (limit + 1) path s =
      (e.lineage names start target limit parent >>= fun above => pure (path :: above))
        (e.host.parent path s).2 := by
  conv_lhs => unfold lineage
  rw [if_neg hne, if_neg hroot]
  exact Walk.bind_ok (congrArg some (parentOf_ascent h hs hp))

/-- **A grant's walk** collects the way, and does so by lookups alone. -/
theorem lineage_run (h : e.host.Parents I up) (ha : Ascent up e.host.root target path way)
    (hs : I s) (hlimit : way.length ≤ limit + 1) :
    e.lineage names start target limit path s = some (.ok way, e.host.asked way.dropLast s) := by
  induction ha generalizing limit s with
  | here =>
    unfold lineage
    rw [if_pos rfl]
    rfl
  | @step path parent way hne hroot hp hw ih =>
    obtain ⟨n, rfl, hn⟩ := hw.exists_limit hlimit
    rw [lineage_step h hs hne hroot hp, Walk.bind_ok (ih (h.keeps path s hs) hn),
      List.dropLast_cons_of_ne_nil hw.ne_nil]
    rfl

theorem ascent_of_lineage (h : e.host.Parents I up) (hs : I s)
    (hl : e.lineage names start target limit path s = some (.ok way, s')) :
    Ascent up e.host.root target path way ∧ s' = e.host.asked way.dropLast s := by
  fun_induction lineage e names start target limit path generalizing way s s' with
  | case1 =>
    cases hl
    exact ⟨.here, rfl⟩
  | case2 => cases hl
  | case3 => cases hl
  | case4 path hne hroot limit ih =>
    obtain ⟨parent, s₁, hp, hl⟩ := Walk.bind_eq_ok.1 hl
    obtain ⟨above, s₂, hup, hway⟩ := Walk.bind_eq_ok.1 hl
    obtain ⟨hparent, hs₁⟩ := up_of_parentOf h hs (Option.some.inj hp)
    rw [hs₁] at hup
    obtain ⟨ha, hs₂⟩ := ih parent (h.keeps path s hs) hup
    cases hway
    refine ⟨.step hne hroot hparent ha, ?_⟩
    rw [List.dropLast_cons_of_ne_nil ha.ne_nil, hs₂]
    rfl

theorem thenUp_keeps (h : e.host.Parents I up) {visit : String → Action σ Bool}
    (hvisit : Keeps I (visit path)) : Keeps I (e.host.thenUp target visit path) :=
  hvisit.bind fun changed => by
    split
    · exact .pure changed
    · exact h.keeps path

theorem thenUp_target (visit : String → Action σ Bool) :
    e.host.thenUp target visit target = visit target := by
  funext s
  rw [Host.thenUp, Action.bind_run]
  rcases visit target s with ⟨_ | _, _⟩ <;> simp

theorem climb_step (h : e.host.Parents I up) {visit : String → Action σ Bool}
    (hvisit : Keeps I (visit path)) (hs : I s) {parent : String} (hne : path ≠ target)
    (hroot : path ≠ e.host.root) (hp : up path = .ok (some parent)) :
    e.climb operation names visit start target (limit + 1) path s =
      (Walk.step (e.host.thenUp target visit path) >>= fun changed =>
        e.climb operation names visit start target limit parent >>= fun above =>
          pure (changed || above)) s := by
  have hkept := hvisit s hs
  conv_lhs => unfold climb
  rw [if_neg hne, if_neg hroot]
  dsimp only
  rcases hv : visit path s with ⟨err | changed, s₁⟩ <;> rw [hv] at hkept
  · have hthen : Walk.step (e.host.thenUp target visit path) s = some (.error err, s₁) :=
      congrArg some (Action.bind_error hv)
    rw [Walk.bind_error (congrArg some hv), Walk.bind_error hthen]
  · have hthen : Walk.step (e.host.thenUp target visit path) s =
        some (.ok changed, (e.host.parent path s₁).2) := by
      rw [Walk.step_run, Host.thenUp, Action.bind_ok hv, if_neg hne]
    rw [Walk.bind_ok (congrArg some hv), Walk.bind_ok hthen,
      Walk.bind_ok (congrArg some (parentOf_ascent h hkept hp))]

/-- **A walk that visits** carries its operation out on the nodes of the way, looking up the parent of
each after the visit. -/
theorem climb_run (h : e.host.Parents I up) {visit : String → Action σ Bool}
    (ha : Ascent up e.host.root target path way) (hvisit : ∀ q ∈ way, Keeps I (visit q)) (hs : I s)
    (hlimit : way.length ≤ limit + 1) :
    e.climb operation names visit start target limit path s =
      some (Action.each (e.host.thenUp target visit) way s) := by
  induction ha generalizing limit s with
  | here =>
    unfold climb
    rw [if_pos rfl, Action.each_singleton, thenUp_target]
    rfl
  | @step path parent way hne hroot hp hw ih =>
    obtain ⟨n, rfl, hn⟩ := hw.exists_limit hlimit
    have hhere := hvisit path List.mem_cons_self
    have hkept : I (e.host.thenUp target visit path s).2 := thenUp_keeps h hhere s hs
    rw [climb_step h hhere hs hne hroot hp]
    rcases hv : e.host.thenUp target visit path s with ⟨err | changed, s₁⟩ <;> rw [hv] at hkept
    · rw [Action.each_cons_error hv]
      exact Walk.bind_error (congrArg some hv)
    · rw [Walk.bind_ok (congrArg some hv), Walk.bind_run, Action.each_cons_ok hv,
        ih (fun q hq => hvisit q (List.mem_cons_of_mem path hq)) hkept hn]
      rcases Action.each (e.host.thenUp target visit) way s₁ with ⟨_ | _, _⟩ <;> rfl

theorem ascent_of_climb (h : e.host.Parents I up) {visit : String → Action σ Bool}
    (hvisit : ∀ q, Keeps I (visit q)) (hs : I s) {changed : Bool}
    (hc : e.climb operation names visit start target limit path s = some (.ok changed, s')) :
    ∃ way, Ascent up e.host.root target path way := by
  fun_induction climb e operation names visit start target limit path
    generalizing s s' changed with
  | case1 => exact ⟨_, .here⟩
  | case2 => cases hc
  | case3 => cases hc
  | case4 path hne hroot limit ih =>
    obtain ⟨now, s₁, hv, hc⟩ := Walk.bind_eq_ok.1 hc
    obtain ⟨parent, s₂, hp, hc⟩ := Walk.bind_eq_ok.1 hc
    obtain ⟨above, s₃, hup, -⟩ := Walk.bind_eq_ok.1 hc
    have hs₁ := hvisit path s hs
    rw [Option.some.inj hv] at hs₁
    obtain ⟨hparent, hs₂⟩ := up_of_parentOf h hs₁ (Option.some.inj hp)
    rw [hs₂] at hup
    obtain ⟨way, ha⟩ := ih parent (h.keeps path s₁ hs₁) hup
    exact ⟨_, .step hne hroot hparent ha⟩

/-! ## Targets that are not met

On the way to the root the target may not stand at all. Both walks are refused at the root then; the
one that visits has visited all nodes below it. -/

theorem lineage_foreign (h : e.host.Parents I up)
    (ha : Ascent up e.host.root e.host.root path way) (ht : target ∉ way) (hs : I s)
    (hlimit : way.length ≤ limit + 1) :
    e.lineage names start target limit path s =
      some (.error (.invalidHierarchy start target), e.host.asked way.dropLast s) := by
  induction ha generalizing limit s with
  | here =>
    have hne : ¬e.host.root = target := fun he => ht (he ▸ List.mem_singleton_self _)
    unfold lineage
    rw [if_neg hne, if_pos rfl]
    rfl
  | @step path parent way hroot _ hp hw ih =>
    have hne : ¬path = target := fun he => ht (he ▸ List.mem_cons_self)
    obtain ⟨n, rfl, hn⟩ := hw.exists_limit hlimit
    have hrest := ih (fun hm => ht (List.mem_cons_of_mem path hm)) (h.keeps path s hs) hn
    rw [lineage_step h hs hne hroot hp, Walk.bind_error hrest,
      List.dropLast_cons_of_ne_nil hw.ne_nil]
    rfl

theorem climb_foreign (h : e.host.Parents I up) {visit : String → Action σ Bool}
    (ha : Ascent up e.host.root e.host.root path way) (ht : target ∉ way)
    (hvisit : ∀ q ∈ way, Keeps I (visit q)) (hs : I s) (hlimit : way.length ≤ limit + 1) :
    e.climb operation names visit start target limit path s =
      some ((Action.each (e.host.thenUp target visit) way.dropLast >>= fun _ =>
        throw (.invalidHierarchy start target)) s) := by
  induction ha generalizing limit s with
  | here =>
    have hne : ¬e.host.root = target := fun he => ht (he ▸ List.mem_singleton_self _)
    unfold climb
    rw [if_neg hne, if_pos rfl]
    rfl
  | @step path parent way hroot _ hp hw ih =>
    have hne : ¬path = target := fun he => ht (he ▸ List.mem_cons_self)
    obtain ⟨n, rfl, hn⟩ := hw.exists_limit hlimit
    have hhere := hvisit path List.mem_cons_self
    have hkept : I (e.host.thenUp target visit path s).2 := thenUp_keeps h hhere s hs
    rw [climb_step h hhere hs hne hroot hp, List.dropLast_cons_of_ne_nil hw.ne_nil]
    rcases hv : e.host.thenUp target visit path s with ⟨err | changed, s₁⟩ <;> rw [hv] at hkept
    · rw [Walk.bind_error (congrArg some hv), Action.bind_error (Action.each_cons_error hv)]
    · rw [Walk.bind_ok (congrArg some hv), Walk.bind_run,
        ih (fun hm => ht (List.mem_cons_of_mem path hm))
          (fun q hq => hvisit q (List.mem_cons_of_mem path hq)) hkept hn,
        Action.bind_run, Action.bind_run, Action.each_cons_ok hv]
      rcases Action.each (e.host.thenUp target visit) way.dropLast s₁ with ⟨_ | _, _⟩ <;> rfl

/-! ## Lookups that leave the state alone -/

theorem asked_eq (hquiet : ∀ q s, I s → (e.host.parent q s).2 = s) (hs : I s) (paths : List String) :
    e.host.asked paths s = s := by
  induction paths with
  | nil => rfl
  | cons path rest ih =>
    rw [Host.asked, List.foldl_cons, hquiet path s hs]
    exact ih

theorem each_thenUp (hquiet : ∀ q s, I s → (e.host.parent q s).2 = s)
    {visit : String → Action σ Bool} {paths : List String}
    (hvisit : ∀ q ∈ paths, Keeps I (visit q)) (hs : I s) :
    Action.each (e.host.thenUp target visit) paths s = Action.each visit paths s := by
  induction paths generalizing s with
  | nil => rfl
  | cons path rest ih =>
    have hkept := hvisit path List.mem_cons_self s hs
    rcases hv : visit path s with ⟨err | changed, s₁⟩ <;> rw [hv] at hkept
    · rw [Action.each_cons_error hv, Action.each_cons_error (Action.bind_error hv)]
    · have hthen : e.host.thenUp target visit path s = (.ok changed, s₁) := by
        rw [Host.thenUp, Action.bind_ok hv]
        split
        · rfl
        · exact Prod.ext rfl (hquiet path s₁ hkept)
      rw [Action.each_cons_ok hv, Action.each_cons_ok hthen,
        ih (fun q hq => hvisit q (List.mem_cons_of_mem path hq)) hkept]

end Engine
end AclTree
