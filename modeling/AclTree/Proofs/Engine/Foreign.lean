/-
Requests from a node up to a target that does not lie above it. A grant finds
that out before it does anything. A revoke or clear finds it out at the root,
when every node on the way there is done (`StoppedAtRoot`); the root is not.
-/
import AclTree.Proofs.Engine.Independence

namespace AclTree.Repository

variable {r s : Repository} {settings : Settings} {path start target : String}

/-! ## Edits that nothing stands in the way of -/

theorem revoke_ok (hoff : settings.enforce = false) (who : Principal) (privileges : List Privilege)
    (hc : r.contains path = true) :
    ∃ now, (r.edit settings (.revoke who privileges) path).1 = .ok now := by
  have hcheck : ∀ acl, settings.check acl = .ok () := fun acl =>
    Settings.check_eq_ok.2 fun hon => absurd (hoff.symm.trans hon) (by decide)
  have houtcome : ∀ find policy, ∃ out,
      (Edit.revoke who privileges).outcome settings find policy = .ok out := by
    intro find policy
    cases policy with
    | none => exact ⟨_, rfl⟩
    | some bound =>
      simp only [Edit.outcome, hcheck]
      split <;> exact ⟨_, rfl⟩
  cases hv : (Edit.revoke who privileges).isVoid with
  | true => exact ⟨false, by rw [edit_void hv]⟩
  | false =>
    obtain ⟨node, hf⟩ := contains_iff_find?.1 hc
    obtain ⟨⟨policy, changed⟩, ho⟩ := houtcome r.findPrivilege? node.policy
    exact ⟨changed, by rw [edit_found hv hf, ho]⟩

theorem clear_ok (settings : Settings) (hc : r.contains path = true) :
    ∃ now, (r.edit settings .clear path).1 = .ok now := by
  obtain ⟨node, hf⟩ := contains_iff_find?.1 hc
  exact ⟨node.policy.isSome, by rw [edit_found rfl hf]; rfl⟩

/-! ## Walks to the root -/

theorem IsTree.not_mem_way (h : r.IsTree) (ht : ¬r.Below target start) {way : List String}
    (hw : r.Way Path.root start way) : target ∉ way :=
  fun hm => ht ((h.mem_way hw).1 hm).2

theorem lineage_foreign (h : r.IsTree) (hc : r.contains start = true)
    (ht : ¬r.Below target start) (names : List String) :
    (Engine.mk host settings).lineage names start target r.size start r =
      some (.error (.invalidHierarchy start target), r) := by
  obtain ⟨way, hw, -⟩ := h.exists_root_way hc
  have hrun : (Engine.mk host settings).lineage names start target r.size start r =
      some (.error (.invalidHierarchy start target), host.asked way.dropLast r) :=
    Engine.lineage_foreign r.parents (h.ascent_iff_way.2 hw) (h.not_mem_way ht hw) rfl
      (h.length_way_le_size hw)
  have hasked : host.asked way.dropLast r = r :=
    Engine.asked_eq (e := Engine.mk host settings) (I := fun s => s.bare = r.bare) parent_quiet rfl _
  rw [hrun, hasked]

theorem climb_foreign (h : r.IsTree) (ht : ¬r.Below target start) {way : List String}
    (hw : r.Way Path.root start way) (operation : Operation) (names : List String) (e : Edit) :
    (Engine.mk host settings).climb operation names ((Engine.mk host settings).edit e) start target
        r.size start r =
      some ((Action.each ((Engine.mk host settings).edit e) way.dropLast >>= fun _ =>
        throw (.invalidHierarchy start target)) r) := by
  have hkeeps : ∀ q, Keeps (fun s => s.bare = r.bare) ((Engine.mk host settings).edit e q) :=
    edit_keeps_bare
  have hrun : (Engine.mk host settings).climb operation names ((Engine.mk host settings).edit e)
      start target r.size start r =
        some ((Action.each (host.thenUp target ((Engine.mk host settings).edit e)) way.dropLast >>=
          fun _ => throw (.invalidHierarchy start target)) r) :=
    Engine.climb_foreign r.parents (h.ascent_iff_way.2 hw) (h.not_mem_way ht hw)
      (fun q _ => hkeeps q) rfl (h.length_way_le_size hw)
  have hquiet : Action.each (host.thenUp target ((Engine.mk host settings).edit e)) way.dropLast r =
      Action.each ((Engine.mk host settings).edit e) way.dropLast r :=
    Engine.each_thenUp (e := Engine.mk host settings) parent_quiet (fun q _ => hkeeps q) rfl
  rw [hrun, Action.bind_run, Action.bind_run, hquiet]

/-! ## Requests -/

/-- The request is refused for its target, but only at the root: the edit was carried out on every
node from the start up except the root, and nowhere else. -/
structure StoppedAtRoot (r : Repository) (settings : Settings) (request : Request) (e : Edit)
    (start target : String) (s : Repository) : Prop where
  refused : r.perform settings request = some (.error (.invalidHierarchy start target), s)
  /-- The run that led to what is left, from the start up. -/
  climbed : ∃ way changed, r.Way Path.root start way ∧
    Action.each ((Engine.mk host settings).edit e) way.dropLast r = (.ok changed, s)
  visited : ∀ q, r.Below q start → q ≠ Path.root →
    ∃ now alone, (Engine.mk host settings).edit e q r = (.ok now, alone) ∧
      s.nodes.find? q = alone.nodes.find? q
  others : ∀ q, ¬(r.Below q start ∧ q ≠ Path.root) → s.nodes.find? q = r.nodes.find? q
  unchanged : start = Path.root → s = r

theorem stoppedAtRoot (h : r.IsTree) (hc : r.contains start = true) (ht : ¬r.Below target start)
    {request : Request} {e : Edit} {operation : Operation} {names : List String}
    (hp : r.perform settings request =
      (Engine.mk host settings).climb operation names ((Engine.mk host settings).edit e) start target
        r.size start r)
    (hok : ∀ q, r.contains q = true → ∃ now, (r.edit settings e q).1 = .ok now) :
    ∃ s, r.StoppedAtRoot settings request e start target s := by
  obtain ⟨way, hw, -⟩ := h.exists_root_way hc
  have hmem : ∀ q, q ∈ way.dropLast ↔ r.Below q start ∧ q ≠ Path.root :=
    fun q => h.mem_dropLast_way hw
  have hn : way.dropLast.Nodup := (h.nodup_way hw).sublist (List.dropLast_sublist way)
  have hcontains : ∀ q ∈ way.dropLast, r.contains q = true := fun q hq =>
    ((h.mem_way hw).1 (List.dropLast_subset way hq)).1.contains h.root.1
  obtain ⟨changed, s, hrun⟩ := each_edit_of_alone hn fun q hq => hok q (hcontains q hq)
  have hind := independent hn hrun
  refine ⟨s, ?_, ⟨way, changed, hw, hrun⟩, fun q hq hne => hind.visited q ((hmem q).2 ⟨hq, hne⟩),
    fun q hq => hind.others q fun hm => hq ((hmem q).1 hm), ?_⟩
  · rw [hp, climb_foreign h ht hw, Action.bind_ok hrun]
    rfl
  · rintro rfl
    cases hw with
    | here => exact (congrArg Prod.snd hrun).symm
    | up hne => exact absurd rfl hne

/-- **Targets that do not lie above the start** are refused. A grant leaves the repository as it was,
whether its names are known or not. A revoke, unless a list is checked that it writes, and a clear
are refused at the root only and leave what they did up to there; a revoke of names that are not all
known fails by the first unknown one before it starts. -/
theorem Live.perform_foreign (h : r.Live) (hc : r.contains start = true)
    (ht : ¬r.Below target start) (settings : Settings) (who : Principal) :
    (∀ names, r.perform settings (.grantNamed start (.ancestors target) who names) =
      some (.error (.invalidHierarchy start target), r)) ∧
    (settings.enforce = false →
      ∀ names, (∀ name ∈ names, (r.findPrivilege? name).isSome = true) → ∃ privileges s,
        List.Forall₂ (fun name p => r.findPrivilege? name = some p) names privileges ∧
        r.StoppedAtRoot settings (.revokeNamed start (.ancestors target) who names)
          (.revoke who privileges) start target s) ∧
    (∃ s, r.StoppedAtRoot settings (.clear start (.ancestors target)) .clear start target s) ∧
    (∀ known name rest, (∀ n ∈ known, (r.findPrivilege? n).isSome = true) →
      r.findPrivilege? name = none →
      r.perform settings (.revokeNamed start (.ancestors target) who (known ++ name :: rest)) =
        some (.error (.unknownPrivilege name), r)) := by
  have htree := h.isTree
  refine ⟨fun names => ?_, fun hoff names hknown => ?_, ?_, fun known name rest hknown hname => ?_⟩
  · exact Walk.bind_error (lineage_foreign htree hc ht names)
  · obtain ⟨privileges, hl⟩ := exists_lookup hknown
    have hlookup := resolveAt_run settings start names r
    rw [hl] at hlookup
    have hp : r.perform settings (.revokeNamed start (.ancestors target) who names) =
        (Engine.mk host settings).climb .revoke names
          ((Engine.mk host settings).edit (.revoke who privileges)) start target r.size start r :=
      Walk.bind_ok (congrArg some hlookup)
    obtain ⟨s, hs⟩ := stoppedAtRoot htree hc ht hp fun q hq => revoke_ok hoff who privileges hq
    exact ⟨privileges, s, lookup_eq_ok.1 hl, hs⟩
  · have hp : r.perform settings (.clear start (.ancestors target)) =
        (Engine.mk host settings).climb .clear [] ((Engine.mk host settings).edit .clear) start target
          r.size start r := rfl
    exact stoppedAtRoot htree hc ht hp fun q hq => clear_ok settings hq
  · have hlookup := resolveAt_run settings start (known ++ name :: rest) r
    rw [lookup_first_unknown hknown hname] at hlookup
    exact Walk.bind_error (congrArg some hlookup)

/-- Two nested folders and one beside them, which is the target. -/
theorem perform_foreign_sibling : ∃ r : Repository, r.Live ∧ ¬r.Below "/c" "/a/b" ∧
    r.perform {} (.grantNamed "/a/b" (.ancestors "/c") ⟨"u"⟩ ["unheard"]) =
      some (.error (.invalidHierarchy "/a/b" "/c"), r) ∧
    (∃ privileges s,
      List.Forall₂ (fun name p => r.findPrivilege? name = some p) ["jcr:read"] privileges ∧
      r.StoppedAtRoot {} (.revokeNamed "/a/b" (.ancestors "/c") ⟨"u"⟩ ["jcr:read"])
        (.revoke ⟨"u"⟩ privileges) "/a/b" "/c" s) ∧
    (∃ s, r.StoppedAtRoot {} (.clear "/a/b" (.ancestors "/c")) .clear "/a/b" "/c" s) ∧
    r.perform {} (.revokeNamed "/a/b" (.ancestors "/c") ⟨"u"⟩ ["jcr:read", "unheard"]) =
      some (.error (.unknownPrivilege "unheard"), r) := by
  have hfolder : Repository.initial.addPath "/a" "folder" =
      .ok ("/a", Repository.initial.grow "/" "/a" "folder") := rfl
  have hnested : (Repository.initial.grow "/" "/a" "folder").addPath "/a/b" "folder" =
      .ok ("/a/b", (Repository.initial.grow "/" "/a" "folder").grow "/a" "/a/b" "folder") := rfl
  have hbeside : ((Repository.initial.grow "/" "/a" "folder").grow "/a" "/a/b" "folder").addPath
      "/c" "folder" = .ok ("/c", ((Repository.initial.grow "/" "/a" "folder").grow "/a" "/a/b"
        "folder").grow "/" "/c" "folder") := rfl
  have hlive := Live.addPath (.addPath (.addPath (.reachable .initial) hfolder) hnested) hbeside
  have hway : (((Repository.initial.grow "/" "/a" "folder").grow "/a" "/a/b" "folder").grow "/" "/c"
      "folder").Way "/" "/a/b" ["/a/b", "/a", "/"] :=
    .up (by decide) rfl (.up (by decide) rfl .here)
  have haside : "/c" ∉ ["/a/b", "/a", "/"].dropLast := by decide
  have hforeign := fun hb => haside ((hlive.isTree.mem_dropLast_way hway).2 ⟨hb, by decide⟩)
  have hall := hlive.perform_foreign rfl hforeign {} ⟨"u"⟩
  exact ⟨_, hlive, hforeign, hall.1 _, hall.2.1 rfl _ (by decide), hall.2.2.1,
    hall.2.2.2 ["jcr:read"] "unheard" [] (by decide) rfl⟩

end AclTree.Repository
