/-
The settings that a run of the program goes by. Those read from a document are
checked, and those in force once more after the environment has overridden
them; so nothing that a command does can depend on a name that is blank
(`Cli.run_congr`).
-/
import AclTree.Cli.Run
import AclTree.Proofs.Settings.Override

namespace AclTree

namespace Settings

theorem validate_of_ofDocument {d : Document} {s : Settings} (h : ofDocument d = .ok s) :
    s.validate = .ok () := by
  unfold ofDocument at h
  split at h
  · cases h
  split at h
  · cases h
  · obtain ⟨⟨⟩, hvalid, rfl⟩ := Except.map_eq_ok.1 h
    exact hvalid

theorem validate_of_ofText {text : String} {s : Settings} (h : ofText text = .ok s) :
    s.validate = .ok () := by
  obtain ⟨_, -, h⟩ := Except.bind_eq_ok.1 h
  exact validate_of_ofDocument h

end Settings

namespace Cli

theorem validate_of_overridden {e : Environment} {s t : Settings} (h : overridden e s = .ok t) :
    t.validate = .ok () :=
  (s.overriding e.value?).valid t (Except.mapError_eq_ok.1 h)

/-- Wherever they were found, settings in force come out of an override. -/
theorem validate_of_settingsInForce {e : Environment}
    {found : Option (String × Except FileError String)} {s : Settings}
    (h : settingsInForce e found = .ok s) : s.validate = .ok () := by
  cases found with
  | none => exact validate_of_overridden h
  | some found =>
    obtain ⟨_, -, h⟩ := Except.bind_eq_ok.1 h
    exact validate_of_overridden h

section Runs

variable {m : Type → Type} [Monad m] (sys : System m)

/-- A run in which something else reports on the fixtures; all that is done with settings, and any
engine started, is in the reporting. -/
def runWith (report : Invocation → Settings → Except FileError String → Except Failure Report)
    (arguments : List String) : m Outcome := do
  let e ← sys.environment
  match Invocation.ofArguments arguments (e.value? Environment.fixtureKey) with
  | .error .refused => pure .refused
  | .error (.answered text) => pure (.done text)
  | .ok invocation =>
    match ← sys.loadSettings e invocation.config with
    | .error failure => pure (.failed "" failure)
    | .ok settings =>
      let content ← sys.read invocation.fixture
      pure (conclude invocation.format e.now (report invocation settings content))

theorem run_eq (arguments : List String) :
    run sys arguments = runWith sys Invocation.report arguments := rfl

variable [LawfulMonad m]

/-- What comes after the settings are loaded sees none that are not valid. -/
theorem loadSettings_bind_congr (e : Environment) (config : Option String) {α : Type}
    {f g : Except Failure Settings → m α}
    (h : ∀ loaded, (∀ s, loaded = .ok s → s.validate = .ok ()) → f loaded = g loaded) :
    sys.loadSettings e config >>= f = sys.loadSettings e config >>= g := by
  -- On each way of loading, what is bound last is the settings in force.
  have hforce (e : Environment) (found) : f (settingsInForce e found) = g (settingsInForce e found) :=
    h _ fun _ => validate_of_settingsInForce
  cases config with
  | some path =>
    simp only [System.loadSettings, bind_assoc, pure_bind]
    exact bind_congr fun content => hforce e _
  | none =>
    simp only [System.loadSettings, bind_assoc, pure_bind]
    refine bind_congr fun file => ?_
    cases file with
    | error _ =>
      simp only [bind_assoc, pure_bind]
      exact bind_congr fun found => hforce e found
    | ok text =>
      simp only [bind_assoc, pure_bind]
      exact bind_congr fun _ => bind_congr fun found => hforce _ found

theorem run_congr
    {report : Invocation → Settings → Except FileError String → Except Failure Report}
    (h : ∀ i s content, s.validate = .ok () → report i s content = i.report s content)
    (arguments : List String) : runWith sys report arguments = run sys arguments := by
  rw [run_eq]
  refine bind_congr fun e => ?_
  cases Invocation.ofArguments arguments (e.value? Environment.fixtureKey) with
  | error halt => cases halt <;> rfl
  | ok invocation =>
    refine loadSettings_bind_congr sys e invocation.config fun loaded hloaded => ?_
    cases loaded with
    | error _ => rfl
    | ok s =>
      refine bind_congr fun content => ?_
      rw [h invocation s content (hloaded s rfl)]

end Runs

/-- **Settings are overridden and then checked**, and so is every document. A run goes by settings that
were, so that it is the same whatever would be done with names that are blank. -/
theorem settings_exactly :
    (∀ (s : Settings) lookup, s.Overriding lookup (s.override lookup)) ∧
    (∀ text s, Settings.ofText text = .ok s → s.validate = .ok ()) ∧
    (∀ s : Settings, s.validate = .ok () ↔ Settings.AllVisible s.names) ∧
    ∀ {m : Type → Type} [Monad m] [LawfulMonad m] (sys : System m)
      (report : Invocation → Settings → Except FileError String → Except Failure Report),
      (∀ i s content, Settings.AllVisible s.names → report i s content = i.report s content) →
        ∀ arguments, run sys arguments = runWith sys report arguments := by
  refine ⟨Settings.overriding, fun _ _ => Settings.validate_of_ofText,
    fun _ => Settings.validate_eq_ok_iff, ?_⟩
  intro m _ _ sys report h arguments
  exact (run_congr sys (fun i s content hs => h i s content (Settings.validate_eq_ok_iff.1 hs))
    arguments).symm

/-- Settings with two names that are blank. -/
def unnamed : Settings := { allPrivilege := "\u00a0", modifyPrivilege := "" }

/-- Variables for these names and for the flag. -/
def padded (key : String) : Option String :=
  List.lookup key [(Settings.allPrivilegeKey, " jcr:all"), (Settings.modifyPrivilegeKey, "jcr:write"),
    (Settings.enforceKey, "\tYES\u2028")]

/-- The variables repair the names. Without them the first of the two is told, and a flag that cannot be
read would be told before it. -/
theorem settings_exactly_repaired :
    unnamed.override padded = .ok ⟨"admin", " jcr:all", "jcr:write", true⟩ ∧
    unnamed.override (fun _ => none) = .error (.blankName "all_privilege") ∧
    unnamed.override (fun key => if key = Settings.enforceKey then some " Maybe" else none) =
      .error (.badFlag Settings.enforceKey "maybe") := by
  obtain ⟨hoverriding, -⟩ := settings_exactly
  refine ⟨?_, ?_, ?_⟩
  · have hflag : Settings.SaysFlag "\tYES\u2028" true := by decide
    have hread : Settings.IsFlagReadable padded := by
      rintro text ⟨⟩
      exact ⟨true, hflag⟩
    obtain ⟨t, ht⟩ := (hoverriding unnamed padded).succeeds_iff.2 ⟨hread, by decide⟩
    obtain ⟨hnames, hflag⟩ := (hoverriding unnamed padded).result t ht
    have htrue : t.enforce = true := by
      cases h : t.enforce with
      | true => rfl
      | false =>
        rw [h] at hflag
        exact absurd hflag (by decide : ¬Settings.SaysFlag "\tYES\u2028" false)
    rw [ht, Settings.eq_overridden hnames, htrue]
    rfl
  · refine ((hoverriding unnamed fun _ => none).fails_iff _).2 (.name ?_ ?_)
    · rintro text ⟨⟩
    · exact ⟨[("admin_principal", "admin")], "\u00a0", _, rfl, by decide, by decide⟩
  · have htext : Settings.flagText " Maybe" = "maybe" := by decide
    rw [← htext]
    exact ((hoverriding unnamed _).fails_iff _).2 (.flag rfl (by decide) (Text.trims_trim " Maybe"))

end Cli
end AclTree
