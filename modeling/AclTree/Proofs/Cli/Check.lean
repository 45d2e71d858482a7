/-
The check of a fixture. It has a row for each node that has a list, in the order
in which the lists are shown, and those rows are frozen whose list the engine's
own check refuses (`Repository.CheckedIn`). They are what is written, in either
format. What passes goes on to pass under engines that refuse frozen lists, for
none of their calls freezes a node (`Repository.Guarded`).
-/
import AclTree.Proofs.Acl.Frozen
import AclTree.Proofs.Cli.Output
import AclTree.Proofs.Engine.Leniency
import AclTree.Proofs.Except
import AclTree.Proofs.Repository.Within

namespace AclTree

namespace Repository

variable {r s t : Repository} {settings : Settings} {modify path : String} {row : CheckRow}

/-! ## Rows -/

theorem toOption_policy (r : Repository) (path : String) :
    (r.policy path).toOption.join = r.policyAt path := by
  unfold policy policyAt node
  cases r.nodes.find? path <;> rfl

theorem check_eq (r : Repository) (modify : String) :
    r.check modify = r.paths.filterMap fun path => (r.policyAt path).map (CheckRow.of modify path) := by
  unfold check
  simp only [toOption_policy]

theorem mem_check : row ∈ r.check modify ↔
    ∃ path acl, r.policyAt path = some acl ∧ row = CheckRow.of modify path acl := by
  rw [check_eq]
  simp only [List.mem_filterMap, Option.map_eq_some_iff]
  constructor
  · rintro ⟨path, -, acl, hacl, rfl⟩
    exact ⟨path, acl, hacl, rfl⟩
  · rintro ⟨path, acl, hacl, rfl⟩
    exact ⟨path, contains_iff_mem_paths.1 (contains_of_policyAt hacl), acl, hacl, rfl⟩

theorem paths_check (r : Repository) (modify : String) :
    (r.check modify).map (·.path) = r.paths.filter fun path => (r.policyAt path).isSome := by
  rw [check_eq, List.map_filterMap, ← List.filterMap_eq_filter]
  refine List.filterMap_congr fun path _ => ?_
  cases hp : r.policyAt path <;> simp [hp, CheckRow.of, Option.guard]

/-- What rows tell of a repository that is checked for a privilege. -/
structure CheckedIn (r : Repository) (modify : String) (rows : List CheckRow) : Prop where
  /-- Each node that has a list has a row, and no other node has one. -/
  mem : ∀ path, path ∈ rows.map (·.path) ↔ ∃ acl, r.policy path = .ok (some acl)
  ascending : (rows.map (·.path)).Pairwise (· < ·)
  /-- A row is frozen if the list is refused, and then it has the principals of all entries. -/
  verdict : ∀ row ∈ rows, ∃ acl, r.policy row.path = .ok (some acl) ∧
    (row.isFrozen = true ↔ acl.checkNotFrozen modify ≠ .ok ()) ∧
    (row.isFrozen = true → row.frozen = some (acl.entries.map (·.principal.name)))

theorem checkedIn (r : Repository) (modify : String) : r.CheckedIn modify (r.check modify) where
  mem path := by
    simp only [policy_eq_ok]
    rw [paths_check, List.mem_filter, Option.isSome_iff_exists]
    refine and_iff_right_of_imp ?_
    rintro ⟨acl, hacl⟩
    exact contains_iff_mem_paths.1 (contains_of_policyAt hacl)
  ascending := by
    rw [paths_check]
    exact r.nodes.ascending_paths.filter _
  verdict row hrow := by
    obtain ⟨path, acl, hacl, rfl⟩ := mem_check.1 hrow
    refine ⟨acl, policy_eq_ok.2 hacl, ?_, fun hf => ?_⟩
    · rw [CheckRow.isFrozen_of, ne_eq, Acl.checkNotFrozen_eq_ok, Bool.not_eq_false]
    · rw [CheckRow.isFrozen_of] at hf
      exact if_pos hf

theorem CheckedIn.row_eq {rows : List CheckRow} (h : r.CheckedIn modify rows) (hrow : row ∈ rows) :
    row = .of modify row.path ((r.policyAt row.path).getD .empty) := by
  obtain ⟨acl, hacl, hfrozen, hprincipals⟩ := h.verdict row hrow
  rw [ne_eq, Acl.checkNotFrozen_eq_ok, Bool.not_eq_false] at hfrozen
  rw [policy_eq_ok.1 hacl, Option.getD_some]
  obtain ⟨path, frozen⟩ := row
  refine congrArg (CheckRow.mk path) ?_
  by_cases hf : acl.isFrozen modify = true
  · rw [if_pos hf]
    exact hprincipals (hfrozen.2 hf)
  · rw [if_neg hf]
    exact Option.not_isSome_iff_eq_none.1 (mt hfrozen.1 hf)

/-- No other rows tell this. -/
theorem CheckedIn.eq_check {rows : List CheckRow} (h : r.CheckedIn modify rows) :
    rows = r.check modify := by
  have hcheck := r.checkedIn modify
  have hpaths : rows.map (·.path) = (r.check modify).map (·.path) :=
    h.ascending.eq_of_mem_iff hcheck.ascending fun path => (h.mem path).trans (hcheck.mem path).symm
  have hrows {rows : List CheckRow} (h : r.CheckedIn modify rows) :
      (rows.map (·.path)).map (fun path => .of modify path ((r.policyAt path).getD .empty)) = rows := by
    rw [List.map_map]
    exact (List.map_congr_left fun row hrow => (h.row_eq hrow).symm).trans (List.map_id' rows)
  rw [← hrows h, hpaths, hrows hcheck]

/-- The rows are all unfrozen where no node is frozen. -/
theorem check_passes_iff :
    (∀ row ∈ r.check modify, row.isFrozen = false) ↔ r.frozenNodes modify = ∅ := by
  rw [frozenNodes_eq_empty]
  constructor
  · intro h path acl hacl
    rw [← CheckRow.isFrozen_of modify path acl]
    exact h _ (mem_check.2 ⟨path, acl, hacl, rfl⟩)
  · intro h row hrow
    obtain ⟨path, acl, hacl, rfl⟩ := mem_check.1 hrow
    rw [CheckRow.isFrozen_of]
    exact h path acl hacl

/-! ## Engines that refuse frozen lists -/

/-- In the second repository no node is frozen that was not so in the first. -/
def FreezesNone (modify : String) (r s : Repository) : Prop :=
  s.frozenNodes modify ⊆ r.frozenNodes modify

theorem FreezesNone.refl (r : Repository) : r.FreezesNone modify r := Set.Subset.rfl

theorem FreezesNone.trans (hrs : r.FreezesNone modify s) (hst : s.FreezesNone modify t) :
    r.FreezesNone modify t := Set.Subset.trans hst hrs

instance : Trans (FreezesNone modify) (FreezesNone modify) (FreezesNone modify) where
  trans := FreezesNone.trans

theorem freezesNone_after (hs : settings.enforce = true) (call : Host.Call) (r : Repository)
    (hc : call.Allowed settings) : r.FreezesNone settings.modifyPrivilege (host.after call r) :=
  frozenNodes_after hs call r hc

/-- A request freezes no node if frozen lists are refused. -/
theorem freezesNone_perform (hs : settings.enforce = true) {request : Request}
    {out : Except AccessError Bool} (hp : r.perform settings request = some (out, s)) :
    r.FreezesNone settings.modifyPrivilege s := by
  obtain ⟨t, hrecord, rfl⟩ := Engine.perform_recording hp
  have hall : (Engine.mk host.recording settings).performAll r.size [request] { state := r } =
      some ([out], t) := by
    unfold Engine.performAll
    rw [hrecord]
    rfl
  exact (Engine.performAll_recording hall).1.keeps
    (fun call u hc hu => hu.trans (freezesNone_after hs call u hc)) (FreezesNone.refl r)

/-- Nor does it freeze one between two calls. -/
theorem freezesNone_watched (hs : settings.enforce = true) {requests : List Request}
    {events : List (Host.Event Repository)}
    (hw : Engine.Watched host settings requests r events) {event : Host.Event Repository}
    (he : event ∈ events) : r.FreezesNone settings.modifyPrivilege event.state := by
  have hchain := hw.isChain FreezesNone.refl (freezesNone_after hs)
  exact hchain.rel_cons (List.mem_map_of_mem he)

/-- What a repository becomes by requests to engines that refuse lists for the privilege, whatever
else they are set to and however the requests end. -/
inductive Guarded (modify : String) (r : Repository) : Repository → Prop where
  | refl : Guarded modify r r
  | perform {s t : Repository} {settings : Settings} {request : Request}
      {out : Except AccessError Bool} :
      Guarded modify r s → settings.enforce = true → settings.modifyPrivilege = modify →
      s.perform settings request = some (out, t) → Guarded modify r t

theorem Guarded.freezesNone (h : r.Guarded modify s) : r.FreezesNone modify s := by
  induction h with
  | refl => exact FreezesNone.refl r
  | perform _ hs hm hp ih =>
    subst hm
    exact ih.trans (freezesNone_perform hs hp)

end Repository

/-! ## Reports -/

namespace Cli

/-- A check fails exactly if a row is frozen. -/
theorem status_check (format : Format) (now privilege : String) (rows : List CheckRow) :
    (conclude format now (.ok (.check privilege rows))).status =
      if rows.any CheckRow.isFrozen = true then 1 else 0 := by
  obtain ⟨text, -, hends⟩ := ends_conclude format now (.check privilege rows)
  exact hends.status_check

/-- The check of the repository ends well. -/
def Passes (r : Repository) (settings : Settings) (fixture : String) : Prop :=
  ∀ format now, (conclude format now (Command.check.perform r settings fixture)).status = 0

theorem passes_iff {r : Repository} {settings : Settings} {fixture : String} :
    Passes r settings fixture ↔ r.frozenNodes settings.modifyPrivilege = ∅ := by
  rw [← Repository.check_passes_iff]
  simp only [Passes, Command.perform, status_check]
  constructor
  · intro h row hrow
    rw [← Bool.not_eq_true]
    intro hf
    have hstatus := h .text ""
    rw [if_pos (List.any_eq_true.2 ⟨row, hrow, hf⟩)] at hstatus
    cases hstatus
  · intro h format now
    refine if_neg fun hany => ?_
    obtain ⟨row, hrow, hf⟩ := List.any_eq_true.1 hany
    rw [h row hrow] at hf
    cases hf

/-- The commands of an invocation are performed on what its fixture describes. -/
theorem report_eq (i : Invocation) {content : Except FileError String} {r : Repository}
    (h : loadFixture i.fixture content = .ok r) (settings : Settings) :
    i.report settings content = i.command.perform r settings i.fixture := by
  unfold Invocation.report
  rw [h]
  rfl

/-- **The check tells which lists are frozen**, for every fixture that loads. There is a row for each node
that has a list, as in the listing of all lists, and frozen are those whose list the engine's check
refuses. Every format has these rows and their numbers, and the check fails if one is frozen; so it
ends on every system on which arguments ask for it. Once it passes it does so again, whatever is asked
of engines that refuse frozen lists, and also between any two of their calls. -/
theorem checks_exactly {fixture : String} {content : Except FileError String} {r : Repository}
    (h : loadFixture fixture content = .ok r) (settings : Settings) :
    ∃ rows lists, r.CheckedIn settings.modifyPrivilege rows ∧
      rows.map (·.path) = lists.map (·.path) ∧
      (∀ config format now,
        (∃ text, Report.Output now (.listing fixture lists) format text ∧
          Invocation.outcome ⟨config, fixture, format, .listing none⟩ settings content now =
            .done text) ∧
        ∃ text, Report.Output now (.check settings.modifyPrivilege rows) format text ∧
          Ends text (.check settings.modifyPrivilege rows)
            (Invocation.outcome ⟨config, fixture, format, .check⟩ settings content now) ∧
          (Invocation.outcome ⟨config, fixture, format, .check⟩ settings content now).status =
            if rows.any CheckRow.isFrozen = true then 1 else 0) ∧
      (∀ sys arguments i, Leads sys arguments i settings content →
        (run sys arguments).run = i.outcome settings content sys.now) ∧
      (Passes r settings fixture → ∀ s, r.Guarded settings.modifyPrivilege s →
        Passes s settings fixture ∧
        ∀ enforcing requests events, enforcing.enforce = true →
          enforcing.modifyPrivilege = settings.modifyPrivilege →
          Engine.Watched Repository.host enforcing requests s events →
            ∀ event ∈ events, Passes event.state settings fixture) := by
  refine ⟨r.check settings.modifyPrivilege, r.listing, r.checkedIn _, ?_, fun config format now => ?_,
    fun _ _ _ hleads => hleads.run_eq, fun hpasses s hs => ?_⟩
  · rw [Repository.paths_check, Repository.paths_listing]
  · unfold Invocation.outcome
    rw [report_eq _ h, report_eq _ h]
    obtain ⟨listed, hlisted, hdone⟩ := ends_conclude format now (.listing fixture r.listing)
    obtain ⟨checked, hchecked, hends⟩ :=
      ends_conclude format now (.check settings.modifyPrivilege (r.check settings.modifyPrivilege))
    exact ⟨⟨listed, hlisted, hdone.eq_done⟩, checked, hchecked, hends, hends.status_check⟩
  · have hnone : s.frozenNodes settings.modifyPrivilege = ∅ :=
      Set.subset_empty_iff.1 (passes_iff.1 hpasses ▸ hs.freezesNone)
    refine ⟨passes_iff.2 hnone, ?_⟩
    intro enforcing requests events henforce hmodify hwatched event hevent
    rw [passes_iff, ← Set.subset_empty_iff, ← hnone, ← hmodify]
    exact Repository.freezesNone_watched henforce hwatched hevent

theorem loadFixture_of_text (fixture : String) {text : String} {f : Fixture} {r : Repository}
    (hf : Fixture.ofText text = .ok f) (hr : f.load = .ok r) :
    loadFixture fixture (.ok text) = .ok r :=
  Except.bind_eq_ok.2 ⟨f, Except.mapError_eq_ok.2 hf, Except.mapError_eq_ok.2 hr⟩

/-- A folder with two principals on its list. -/
def shared : Fixture where
  nodes := [⟨"/a", "folder", [⟨"u", ["jcr:read"]⟩, ⟨"v", ["jcr:read"]⟩]⟩]

/-- The same in a file. -/
def sharedText : String :=
  "nodes:\n- path: /a\n  type: folder\n  acl:\n  - principal: u\n    privileges: [jcr:read]\n" ++
  "  - principal: v\n    privileges: [jcr:read]\n"

theorem ofText_sharedText : Fixture.ofText sharedText = .ok shared := by
  have h : (Fixture.ofText sharedText).toOption = some shared := by decide +kernel
  cases hf : Fixture.ofText sharedText with
  | error e => rw [hf] at h; cases h
  | ok f => rw [hf] at h; exact congrArg Except.ok (Option.some.inj h)

/-- A system with this file and no variables. -/
def sharedSystem : System Id where
  read path := if path = "fixture.yml" then .ok sharedText else .error .notFound
  value? _ := none
  directory := "/"
  now := "2026-01-02T03:04:05+00:00"

theorem leads_sharedSystem :
    Leads sharedSystem ["check", "--fixture", "fixture.yml"] ⟨none, "fixture.yml", .text, .check⟩ {}
      (.ok sharedText) where
  invocation := by rfl
  settings := by rfl
  fixture := by rfl

/-- The list of the folder is frozen, which is what a run writes. It is not if reading is enough to
change lists, and then stays so when one of the principals is to be taken from it. -/
theorem checks_exactly_shared : ∃ r others out s,
    loadFixture "fixture.yml" (.ok sharedText) = .ok r ∧
    (run sharedSystem ["check", "--fixture", "fixture.yml"]).run =
      .failed "=== Access Control Consistency ===\n\n✗ /a (frozen: u, v)\n\nChecked: 1, frozen: 1\n"
        ⟨"1 frozen access control list(s) found", []⟩ ∧
    others = [⟨"/a", none⟩] ∧ r.CheckedIn "jcr:read" others ∧
    r.perform { modifyPrivilege := "jcr:read", enforce := true }
      (.revokeNamed "/a" .node ⟨"u"⟩ ["jcr:read"]) = some (out, s) ∧
    Passes s { modifyPrivilege := "jcr:read" } "fixture.yml" := by
  obtain ⟨r, hload, hfrozen, hpassing⟩ : ∃ r, shared.load = .ok r ∧
      r.check "jcr:modifyAccessControl" = [⟨"/a", some ["u", "v"]⟩] ∧
      r.check "jcr:read" = [⟨"/a", none⟩] := ⟨_, rfl, rfl, rfl⟩
  have hread := loadFixture_of_text "fixture.yml" ofText_sharedText hload
  obtain ⟨rows, _, hrows, -, hwritten, hruns, -⟩ := checks_exactly hread {}
  obtain ⟨-, text, houtput, hends, -⟩ := hwritten none .text sharedSystem.now
  rw [hrows.eq_check, hfrozen] at houtput hends
  have htext : text =
      "=== Access Control Consistency ===\n\n✗ /a (frozen: u, v)\n\nChecked: 1, frozen: 1\n" :=
    Report.output_text_iff.1 houtput
  have hended : (run sharedSystem ["check", "--fixture", "fixture.yml"]).run =
      .failed text ⟨"1 frozen access control list(s) found", []⟩ := by
    rw [hruns _ _ _ leads_sharedSystem]
    exact hends.eq_failed (by decide)
  obtain ⟨others, _, hothers, -, -, -, hstays⟩ :=
    checks_exactly hread { modifyPrivilege := "jcr:read" }
  have hothers' := hothers.eq_check.trans hpassing
  obtain ⟨⟨out, s⟩, hperform⟩ := (Repository.Reachable.loaded hload).isTree.perform_ends
    { modifyPrivilege := "jcr:read", enforce := true }
    (.revokeNamed "/a" .node ⟨"u"⟩ ["jcr:read"])
  have hguarded : r.Guarded "jcr:read" s := by
    refine .perform .refl ?_ ?_ hperform <;> rfl
  have hpasses : Passes r { modifyPrivilege := "jcr:read" } "fixture.yml" := by
    rw [passes_iff, ← Repository.check_passes_iff, hpassing]
    simp [CheckRow.isFrozen]
  exact ⟨r, others, out, s, hread, htext ▸ hended, hothers', hothers, hperform,
    (hstays hpasses s hguarded).1⟩

end Cli
end AclTree
