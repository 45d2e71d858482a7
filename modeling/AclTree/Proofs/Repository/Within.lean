/-
Which nodes lie below which is told by their paths alone: `Path.isWithin` is
`Below` (`IsTree.isWithin_iff`). It is also what requests find out that walk up
to a target (`clear_foreign_iff`, `grant_foreign_iff`), and so the lists that
are reported of a node are those bound at it and below it (`listsBelow`).
-/
import AclTree.Proofs.Cli.Output
import AclTree.Proofs.Engine.Failures
import AclTree.Proofs.Path.Algebra

namespace AclTree

/-- The outcome is that the target does not lie above the start. -/
def IsForeign {α : Type} (out : Except AccessError α) : Prop :=
  ∃ start target, out = .error (.invalidHierarchy start target)

namespace Repository

variable {r s : Repository} {settings : Settings} {e : Edit}
  {path parent top start target : String} {nodes : List String}

/-! ## Paths -/

theorem below_child_iff (hp : r.parentOf path = some parent) :
    r.Below top path ↔ path = top ∨ r.Below top parent := by
  constructor
  · intro hb
    rcases hb.cases_tail with he | ⟨q, hq, hparent⟩
    · exact .inl he
    · rw [hp] at hparent
      cases hparent
      exact .inr hq
  · rintro (rfl | hb)
    · exact .refl
    · exact hb.child hp

namespace IsTree

variable (h : r.IsTree)
include h

theorem below_root_iff : r.Below top Path.root ↔ top = Path.root := by
  constructor
  · intro hb
    rcases h.depth_of_below hb with he | hlt
    · exact he
    · cases hlt
  · rintro rfl
    exact .refl

/-- A path is within another if parent links lead from its node to the other one. -/
theorem isWithin_iff (htop : r.contains top = true) (hc : r.contains path = true) :
    Path.isWithin path top = true ↔ r.Below top path := by
  have hnormal := h.normal htop
  refine h.parentInduction ?_ (fun path parent hp ih => ?_) hc
  · rw [Path.isWithin_root hnormal, h.below_root_iff]
  · obtain ⟨-, name, hn, rfl⟩ := h.parentOf_eq hp
    rw [Path.isWithin_join hn hnormal, below_child_iff hp, ih]

end IsTree

/-! ## Walks up to a target -/

theorem edit_not_foreign (r : Repository) (settings : Settings) (e : Edit) (path : String) :
    ¬IsForeign (r.edit settings e path).1 := by
  rintro ⟨start, target, he⟩
  have herror : r.edit settings e path =
    (.error (.invalidHierarchy start target), (r.edit settings e path).2) := Prod.ext he rfl
  cases hv : e.isVoid with
  | true =>
    rw [edit_void hv] at he
    cases he
  | false =>
    cases e with
    | grant who privileges => cases ((edit_grant_eq_error (Edit.isVoid_grant.1 hv)).1 herror).1
    | revoke who privileges => cases ((edit_revoke_eq_error (Edit.isVoid_revoke.1 hv)).1 herror).1
    | clear => cases (edit_clear_eq_error.1 herror).1.2

theorem each_edit_not_foreign (r : Repository) (settings : Settings) (e : Edit)
    (nodes : List String) :
    ¬IsForeign (Action.each ((Engine.mk host settings).edit e) nodes r).1 := by
  rintro ⟨start, target, he⟩
  obtain ⟨visited, path, left, changed, -, -, hpath⟩ := each_edit_eq_error (Prod.ext he rfl)
  rw [edit_run] at hpath
  exact edit_not_foreign _ settings e path ⟨start, target, congrArg Prod.fst hpath⟩

namespace IsTree

variable (h : r.IsTree) (hc : r.contains start = true)
include h hc

theorem clear_foreign_iff (settings : Settings) (target : String) :
    ∃ out s, r.perform settings (.clear start (.ancestors target)) = some (out, s) ∧
      (¬IsForeign out ↔ r.Below target start) := by
  by_cases hb : r.Below target start
  · obtain ⟨way, hw⟩ := exists_way hb
    have hrun : (Engine.mk host settings).climb .clear [] ((Engine.mk host settings).edit .clear)
        start target r.size start r =
          some (Action.each ((Engine.mk host settings).edit .clear) way r) :=
      climb_run h edit_keeps_bare .clear [] hw rfl (h.length_way_le_size hw)
    exact ⟨_, _, hrun, iff_of_true (each_edit_not_foreign r settings .clear way) hb⟩
  · have hp : r.perform settings (.clear start (.ancestors target)) =
        (Engine.mk host settings).climb .clear [] ((Engine.mk host settings).edit .clear) start target
          r.size start r := rfl
    obtain ⟨s, hs⟩ := stoppedAtRoot h hc hb hp fun q hq => clear_ok settings hq
    exact ⟨_, s, hs.refused, iff_of_false (not_not_intro ⟨start, target, rfl⟩) hb⟩

theorem grant_foreign_iff (settings : Settings) (target : String) (who : Principal)
    (names : List String) :
    ∃ out s, r.perform settings (.grantNamed start (.ancestors target) who names) = some (out, s) ∧
      (¬IsForeign out ↔ r.Below target start) := by
  by_cases hb : r.Below target start
  · obtain ⟨way, hw⟩ := exists_way hb
    refine ⟨_, _, grant_along_run h hw settings who names, iff_of_true ?_ hb⟩
    cases hl : r.lookup names with
    | ok privileges => exact each_edit_not_foreign r settings (.grant who privileges) way.reverse
    | error err =>
      obtain ⟨name, -, -, rfl⟩ := lookup_eq_error hl
      rintro ⟨start, target, he⟩
      cases he
  · exact ⟨_, r, Walk.bind_error (lineage_foreign h hc hb names),
      iff_of_false (not_not_intro ⟨start, target, rfl⟩) hb⟩

end IsTree

/-! ## Reported lists -/

theorem mem_listing {l : PolicyListing} : l ∈ r.listing ↔
    ∃ path kind acl, r.kindOf path = some kind ∧ r.policyAt path = some acl ∧
      l = .of path kind acl := by
  unfold listing
  simp only [List.mem_filterMap, Option.map_eq_some_iff]
  constructor
  · rintro ⟨⟨path, node⟩, hm, acl, hacl, rfl⟩
    have hf := PathMap.find?_eq_some_iff.2 hm
    exact ⟨path, node.kind, acl, by rw [kindOf, hf]; rfl, by rw [policyAt_of_find? hf, hacl], rfl⟩
  · rintro ⟨path, kind, acl, hkind, hacl, rfl⟩
    obtain ⟨node, hf, rfl⟩ := Option.map_eq_some_iff.1 hkind
    rw [policyAt_of_find? hf] at hacl
    exact ⟨(path, node), PathMap.find?_eq_some_iff.1 hf, acl, hacl, rfl⟩

/-- The lists of all nodes that have one, in the order of the nodes. -/
theorem paths_listing (r : Repository) :
    r.listing.map (·.path) = r.paths.filter fun path => (r.policyAt path).isSome := by
  have hbound : ∀ e ∈ r.nodes.entries, (r.policyAt e.1).isSome = e.2.policy.isSome := by
    intro e he
    rw [policyAt_of_find? (PathMap.find?_eq_some_iff.2 he)]
  unfold listing paths PathMap.paths
  rw [List.filter_map, Function.comp_def, List.filter_congr hbound, List.map_filterMap]
  simp only [Option.map_map]
  induction r.nodes.entries with
  | nil => rfl
  | cons e entries ih => cases hp : e.2.policy <;> simp [hp, ih, PolicyListing.of]

/-- The lists are those bound to a node and to the nodes below it, in the order of their paths. -/
structure ListsBelow (r : Repository) (top : String) (lists : List PolicyListing) : Prop where
  mem : ∀ l, l ∈ lists ↔ ∃ path kind acl, r.Below top path ∧ r.kindOf path = some kind ∧
    r.policyAt path = some acl ∧ l = .of path kind acl
  ascending : (lists.map (·.path)).Pairwise (· < ·)
  /-- However its path begins, no other child of the node's parent is among them. -/
  siblings : ∀ path, path ≠ top → r.parentOf path = r.parentOf top → path ∉ lists.map (·.path)

/-- Children of one parent do not lie below one another. -/
theorem IsTree.siblings_apart (h : r.IsTree) (hne : path ≠ top)
    (hsame : r.parentOf path = r.parentOf top) : ¬r.Below top path := by
  intro hb
  obtain ⟨parent, hparent, hp⟩ := hb.cases_tail.resolve_left hne
  have hdepth := h.depth_of_parentOf (hsame ▸ hp)
  rcases h.depth_of_below hparent with he | hlt
  · rw [he] at hdepth
    omega
  · omega

theorem IsTree.listsBelow (h : r.IsTree) (htop : r.contains top = true) :
    r.ListsBelow top (r.listingWithin top) := by
  have hmem : ∀ l, l ∈ r.listingWithin top ↔ ∃ path kind acl, r.Below top path ∧
      r.kindOf path = some kind ∧ r.policyAt path = some acl ∧ l = .of path kind acl := by
    intro l
    unfold listingWithin
    rw [List.mem_filter, mem_listing]
    constructor
    · rintro ⟨⟨path, kind, acl, hkind, hacl, rfl⟩, hwithin⟩
      exact ⟨path, kind, acl, (h.isWithin_iff htop (contains_of_policyAt hacl)).1 hwithin, hkind,
        hacl, rfl⟩
    · rintro ⟨path, kind, acl, hb, hkind, hacl, rfl⟩
      exact ⟨⟨path, kind, acl, hkind, hacl, rfl⟩,
        (h.isWithin_iff htop (contains_of_policyAt hacl)).2 hb⟩
  refine ⟨hmem, ?_, fun path hne hsame hm => ?_⟩
  · have hall : (r.listing.map (·.path)).Pairwise (· < ·) := by
      rw [paths_listing]
      exact r.nodes.ascending_paths.filter _
    exact hall.sublist (List.filter_sublist.map _)
  · obtain ⟨l, hl, rfl⟩ := List.mem_map.1 hm
    obtain ⟨path, kind, acl, hb, -, -, rfl⟩ := (hmem l).1 hl
    exact h.siblings_apart hne hsame hb

theorem listing_perform (htop : r.contains top = true) (settings : Settings) (fixture : String) :
    (Cli.Command.listing (some top)).perform r settings fixture =
      .ok (.listing fixture (r.listingWithin top)) :=
  if_pos htop

/-- **Within by the path is below in the tree**, for any two nodes, and clears and grants that are to go
up from the one to the other are refused for their target exactly if it is not so. Lists are reported
of a node if they are bound to it or below it, and written as they are reported. -/
theorem Live.within_exactly (h : r.Live) (htop : r.contains top = true) :
    (∀ path, r.contains path = true →
      (Path.isWithin path top = true ↔ r.Below top path) ∧
      ∀ settings,
        (∃ out s, r.perform settings (.clear path (.ancestors top)) = some (out, s) ∧
          (Path.isWithin path top = true ↔ ¬IsForeign out)) ∧
        ∀ who names, ∃ out s,
          r.perform settings (.grantNamed path (.ancestors top) who names) = some (out, s) ∧
          (Path.isWithin path top = true ↔ ¬IsForeign out)) ∧
    ∃ lists, r.ListsBelow top lists ∧ ∀ settings fixture,
      (Cli.Command.listing (some top)).perform r settings fixture = .ok (.listing fixture lists) ∧
      ∀ format now, ∃ text, Cli.Report.Output now (.listing fixture lists) format text ∧
        Cli.conclude format now ((Cli.Command.listing (some top)).perform r settings fixture) =
          .done text := by
  have htree := h.isTree
  refine ⟨fun path hc => ?_, r.listingWithin top, htree.listsBelow htop, fun settings fixture => ?_⟩
  · have hwithin := htree.isWithin_iff htop hc
    refine ⟨hwithin, fun settings => ?_⟩
    rw [hwithin]
    constructor
    · obtain ⟨out, s, hrun, hout⟩ := htree.clear_foreign_iff hc settings top
      exact ⟨out, s, hrun, hout.symm⟩
    · intro who names
      obtain ⟨out, s, hrun, hout⟩ := htree.grant_foreign_iff hc settings top who names
      exact ⟨out, s, hrun, hout.symm⟩
  · rw [listing_perform htop]
    refine ⟨rfl, fun format now => ?_⟩
    obtain ⟨text, houtput, hends⟩ :=
      Cli.ends_conclude format now (.listing fixture (r.listingWithin top))
    exact ⟨text, houtput, hends.eq_done⟩

/-- Beside a folder is one whose name goes on behind the first one's. A list is bound to it, and one below
the first; only that one is written of the first. -/
theorem within_exactly_longer_name : ∃ r : Repository, r.Live ∧
    r.paths = ["/", "/a", "/a/b", "/ab"] ∧ (r.policyAt "/ab").isSome = true ∧
    (Path.isWithin "/ab" "/a" = true ↔ r.Below "/a" "/ab") ∧
    (∃ out s, r.perform {} (.clear "/ab" (.ancestors "/a")) = some (out, s) ∧
      (Path.isWithin "/ab" "/a" = true ↔ ¬IsForeign out)) ∧
    ∃ lists, r.ListsBelow "/a" lists ∧ lists.map (·.path) = ["/a/b"] ∧
      (Cli.Command.listing (some "/a")).perform r {} "fixture.yml" =
        .ok (.listing "fixture.yml" lists) ∧
      Cli.conclude .text "" ((Cli.Command.listing (some "/a")).perform r {} "fixture.yml") =
        .done "=== Access Control Lists ===\n\n/a/b (folder)\n  (empty)\n\nTotal ACLs: 1\n" := by
  let folder := Repository.initial.grow "/" "/a" "folder"
  let nested := folder.grow "/a" "/a/b" "folder"
  let beside := nested.grow "/" "/ab" "folder"
  let once := beside.withPolicy "/a/b" (some .empty)
  let twice := once.withPolicy "/ab" (some .empty)
  have hfolder : Repository.initial.addPath "/a" "folder" = .ok ("/a", folder) := rfl
  have hnested : folder.addPath "/a/b" "folder" = .ok ("/a/b", nested) := rfl
  have hbeside : nested.addPath "/ab" "folder" = .ok ("/ab", beside) := rfl
  have honce : beside.setPolicy "/a/b" .empty = .ok once := rfl
  have htwice : once.setPolicy "/ab" .empty = .ok twice := rfl
  have hlive := Live.setPolicy (.setPolicy (.addPath (.addPath (.addPath (.reachable .initial)
    hfolder) hnested) hbeside) honce) htwice
  have htop : twice.contains "/a" = true := rfl
  obtain ⟨hwithin, lists, hlists, hreport⟩ := Live.within_exactly hlive htop
  obtain ⟨hbelow, hrequests⟩ := hwithin "/ab" rfl
  have hlisted : lists = [⟨"/a/b", "folder", []⟩] := by
    have hsame := (hreport {} "").1.symm.trans (listing_perform htop {} "")
    exact (Cli.Report.listing.inj (Except.ok.inj hsame)).2
  subst hlisted
  obtain ⟨hperform, houtput⟩ := hreport {} "fixture.yml"
  obtain ⟨text, houtput, hdone⟩ := houtput .text ""
  have htext : text = "=== Access Control Lists ===\n\n/a/b (folder)\n  (empty)\n\nTotal ACLs: 1\n" :=
    Cli.Report.output_text_iff.1 houtput
  exact ⟨twice, hlive, rfl, rfl, hbelow, (hrequests {}).1, _, hlists, rfl, hperform, htext ▸ hdone⟩

end Repository
end AclTree
