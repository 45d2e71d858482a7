/-
What a run that reports writes (`Cli.Report.Output`), in either format: a line
for each row of a check, some for each list that is shown, and the numbers; or
the text of one document with all of it. Of every report that is what the run
ends with, and it fails if the report is of a check that found frozen lists
(`Cli.ends_conclude`).
-/
import AclTree.Cli.Run
import AclTree.Proofs.Json.Grammar

namespace AclTree.Cli

namespace Report

/-! ## Lines -/

/-- The line on a row. -/
inductive RowLine : CheckRow → String → Prop
  | passed (path : String) : RowLine ⟨path, none⟩ ("✓ " ++ path)
  | frozen (path : String) (principals : List String) :
      RowLine ⟨path, some principals⟩
        ("✗ " ++ path ++ " (frozen: " ++ ", ".intercalate principals ++ ")")

/-- The lines on a list, the entries between its node and an empty line. -/
inductive Block : PolicyListing → List String → Prop
  | empty (path kind : String) : Block ⟨path, kind, []⟩ [path ++ " (" ++ kind ++ ")", "  (empty)", ""]
  | entries (path kind : String) {entries : List EntryListing} : entries ≠ [] →
      Block ⟨path, kind, entries⟩ ([path ++ " (" ++ kind ++ ")"] ++
        entries.map (fun e => "  " ++ e.principal ++ ": " ++ ", ".intercalate e.privileges) ++ [""])

/-- The lines on lists, with their number. -/
inductive Blocks : List PolicyListing → List String → Prop
  | none : Blocks [] ["No access control lists"]
  | some {lists : List PolicyListing} {blocks : List (List String)} :
      lists ≠ [] → List.Forall₂ Block lists blocks →
      Blocks lists (blocks.flatten ++ ["Total ACLs: " ++ toString lists.length])

/-- The lines of a report. -/
inductive Lines : Report → List String → Prop
  | listing {fixture : String} {lists : List PolicyListing} {lines : List String} :
      Blocks lists lines →
      Lines (.listing fixture lists) (["=== Access Control Lists ===", ""] ++ lines)
  | change {operation : Operation} {path : String} {changed : Bool} {lists : List PolicyListing}
      {lines : List String} :
      Blocks lists lines →
      Lines (.change operation path changed lists)
        (["=== " ++ operation.name.toUpper ++ " " ++ path ++ " ===", "",
          "Changed: " ++ (if changed then "yes" else "no"), ""] ++ lines)
  | check {privilege : String} {rows : List CheckRow} {lines : List String} :
      List.Forall₂ RowLine rows lines →
      Lines (.check privilege rows) (["=== Access Control Consistency ===", ""] ++ lines ++
        ["", "Checked: " ++ toString rows.length ++ ", frozen: " ++
          toString (rows.countP CheckRow.isFrozen)])

/-! ## Documents -/

/-- The item on a row. -/
inductive RowItem : CheckRow → Json → Prop
  | passed (path : String) :
      RowItem ⟨path, none⟩ (.object [("path", .string path), ("status", .string "ok")])
  | frozen (path : String) (principals : List String) :
      RowItem ⟨path, some principals⟩
        (.object [("path", .string path), ("principals", .array (principals.map .string)),
          ("status", .string "frozen")])

/-- The item on a list. -/
inductive ListItem : PolicyListing → Json → Prop
  | intro (path kind : String) (entries : List EntryListing) :
      ListItem ⟨path, kind, entries⟩
        (.object [
          ("entries", .array (entries.map fun e => .object [("principal", .string e.principal),
            ("privileges", .array (e.privileges.map .string))])),
          ("node_type", .string kind), ("path", .string path)])

/-- The document of a report at a time. -/
inductive Document (now : String) : Report → Json → Prop
  | listing {fixture : String} {lists : List PolicyListing} {items : List Json} :
      List.Forall₂ ListItem lists items →
      Document now (.listing fixture lists)
        (.object [("acls", .array items), ("fixture", .string fixture), ("timestamp", .string now)])
  | change {operation : Operation} {path : String} {changed : Bool} {lists : List PolicyListing}
      {items : List Json} :
      List.Forall₂ ListItem lists items →
      Document now (.change operation path changed lists)
        (.object [("acls", .array items), ("changed", .bool changed),
          ("operation", .string operation.name), ("path", .string path),
          ("timestamp", .string now)])
  | check {privilege : String} {rows : List CheckRow} {items : List Json} :
      List.Forall₂ RowItem rows items →
      Document now (.check privilege rows)
        (.object [("acls", .array items), ("checked", .number rows.length 0),
          ("frozen", .number (rows.countP CheckRow.isFrozen) 0), ("privilege", .string privilege),
          ("timestamp", .string now)])

/-! ## Output -/

/-- The output of a report: its lines, each of them ended, or the text of its document and the end of
a line. -/
inductive Output (now : String) (report : Report) : Format → String → Prop
  | text {lines : List String} : report.Lines lines →
      Output now report .text (String.join (lines.map (· ++ "\n")))
  | json {document : Json} {text : List Char} : report.Document now document →
      Json.Written document text → Output now report .json (String.ofList text ++ "\n")

/-! ## Rendering -/

theorem forall₂_iff_eq_map {α β : Type} {R : α → β → Prop} {f : α → β} {l : List α} {l' : List β}
    (h : ∀ a b, R a b ↔ b = f a) : List.Forall₂ R l l' ↔ l' = l.map f := by
  have hflip : R = fun a b => f a = b := by
    funext a b
    exact propext ((h a b).trans eq_comm)
  rw [hflip, ← List.forall₂_map_left_iff (R := fun b c => b = c), List.forall₂_eq_eq_eq, eq_comm]

theorem rowLine_iff (row : CheckRow) (line : String) : RowLine row line ↔ line = row.line := by
  constructor
  · rintro (path | ⟨path, principals⟩) <;> rfl
  · rintro rfl
    obtain ⟨path, _ | principals⟩ := row
    · exact .passed path
    · exact .frozen path principals

theorem block_iff (l : PolicyListing) (lines : List String) : Block l lines ↔ lines = l.lines := by
  obtain ⟨path, kind, entries⟩ := l
  unfold PolicyListing.lines
  by_cases h : entries = []
  · subst h
    constructor
    · rintro (_ | ⟨_, _, hne⟩)
      · rfl
      · exact absurd rfl hne
    · rintro rfl
      exact .empty path kind
  · rw [if_neg (mt List.isEmpty_iff.1 h)]
    constructor
    · rintro (_ | ⟨_, _, _⟩)
      · exact absurd rfl h
      · rfl
    · rintro rfl
      exact .entries path kind h

theorem blocks_iff {lists : List PolicyListing} {lines : List String} :
    Blocks lists lines ↔ lines = listLines lists := by
  unfold listLines
  by_cases h : lists = []
  · subst h
    constructor
    · rintro (_ | ⟨hne, _⟩)
      · rfl
      · exact absurd rfl hne
    · rintro rfl
      exact .none
  · rw [if_neg (mt List.isEmpty_iff.1 h), List.flatMap_def]
    constructor
    · rintro (_ | ⟨_, hblocks⟩)
      · exact absurd rfl h
      · rw [(forall₂_iff_eq_map block_iff).1 hblocks]
    · rintro rfl
      exact .some h ((forall₂_iff_eq_map block_iff).2 rfl)

theorem lines_iff {report : Report} {lines : List String} :
    report.Lines lines ↔ lines = report.lines := by
  constructor
  · rintro (hblocks | hblocks | hrows)
    · rw [blocks_iff.1 hblocks]; rfl
    · rw [blocks_iff.1 hblocks]; rfl
    · rw [(forall₂_iff_eq_map rowLine_iff).1 hrows]; rfl
  · rintro rfl
    cases report with
    | listing fixture lists => exact .listing (blocks_iff.2 rfl)
    | change operation path changed lists => exact .change (blocks_iff.2 rfl)
    | check privilege rows => exact .check ((forall₂_iff_eq_map rowLine_iff).2 rfl)

theorem rowItem_iff (row : CheckRow) (item : Json) : RowItem row item ↔ item = row.toJson := by
  constructor
  · rintro (path | ⟨path, principals⟩) <;> rfl
  · rintro rfl
    obtain ⟨path, _ | principals⟩ := row
    · exact .passed path
    · exact .frozen path principals

theorem listItem_iff (l : PolicyListing) (item : Json) : ListItem l item ↔ item = l.toJson := by
  constructor
  · rintro ⟨⟩
    rfl
  · rintro rfl
    exact .intro l.path l.kind l.entries

theorem document_iff {now : String} {report : Report} {document : Json} :
    report.Document now document ↔ document = report.toJson now := by
  constructor
  · rintro (hlists | hlists | hrows)
    · rw [(forall₂_iff_eq_map listItem_iff).1 hlists]; rfl
    · rw [(forall₂_iff_eq_map listItem_iff).1 hlists]; rfl
    · rw [(forall₂_iff_eq_map rowItem_iff).1 hrows]; rfl
  · rintro rfl
    cases report with
    | listing fixture lists => exact .listing ((forall₂_iff_eq_map listItem_iff).2 rfl)
    | change operation path changed lists =>
      exact .change ((forall₂_iff_eq_map listItem_iff).2 rfl)
    | check privilege rows => exact .check ((forall₂_iff_eq_map rowItem_iff).2 rfl)

/-- As text, the output of a report is what is rendered, and nothing else. -/
theorem output_text_iff {now : String} {report : Report} {text : String} :
    report.Output now .text text ↔ text = report.render .text now := by
  constructor
  · rintro ⟨hlines⟩
    rw [lines_iff.1 hlines]
    rfl
  · rintro rfl
    exact .text (lines_iff.2 rfl)

/-- As JSON, it is any text of the one document, with the end of a line. -/
theorem output_json_iff {now : String} {report : Report} {text : String} :
    report.Output now .json text ↔
      ∃ written, Json.Written (report.toJson now) written ∧ text = String.ofList written ++ "\n" := by
  constructor
  · rintro (_ | ⟨hdocument, hwritten⟩)
    rw [document_iff.1 hdocument] at hwritten
    exact ⟨_, hwritten, rfl⟩
  · rintro ⟨written, hwritten, rfl⟩
    exact .json (document_iff.2 rfl) hwritten

theorem output_render (format : Format) (now : String) (report : Report) :
    report.Output now format (report.render format now) := by
  cases format with
  | text => exact output_text_iff.2 rfl
  | json =>
    refine output_json_iff.2 ⟨_, Json.written_pretty 0 (report.toJson now), ?_⟩
    rw [String.ofList_toList]
    rfl

end Report

/-! ## Ends -/

/-- How a run ends that has this text to write on a report. -/
inductive Ends (text : String) : Report → Outcome → Prop
  | listing (fixture : String) (lists : List PolicyListing) :
      Ends text (.listing fixture lists) (.done text)
  | change (operation : Operation) (path : String) (changed : Bool) (lists : List PolicyListing) :
      Ends text (.change operation path changed lists) (.done text)
  | passed {privilege : String} {rows : List CheckRow} : rows.countP CheckRow.isFrozen = 0 →
      Ends text (.check privilege rows) (.done text)
  | failed {privilege : String} {rows : List CheckRow} : rows.countP CheckRow.isFrozen ≠ 0 →
      Ends text (.check privilege rows) (.failed text
        ⟨toString (rows.countP CheckRow.isFrozen) ++ " frozen access control list(s) found", []⟩)

/-- **A run that reports writes its report**, in the format it is asked for. -/
theorem ends_conclude (format : Format) (now : String) (report : Report) :
    ∃ text, report.Output now format text ∧
      Ends text report (conclude format now (.ok report)) := by
  refine ⟨_, report.output_render format now, ?_⟩
  cases report with
  | listing fixture lists => exact .listing fixture lists
  | change operation path changed lists => exact .change operation path changed lists
  | check privilege rows =>
    by_cases h : rows.countP CheckRow.isFrozen = 0
    · have hnone : (Report.check privilege rows).failure? = none := if_pos h
      simp only [conclude, hnone]
      exact .passed h
    · have hsome : (Report.check privilege rows).failure? = some _ := if_neg h
      simp only [conclude, hsome]
      exact .failed h

theorem Ends.eq_done {text fixture : String} {lists : List PolicyListing} {outcome : Outcome}
    (h : Ends text (.listing fixture lists) outcome) : outcome = .done text := by
  cases h
  rfl

theorem Ends.eq_failed {text privilege : String} {rows : List CheckRow} {outcome : Outcome}
    (h : Ends text (.check privilege rows) outcome) (hcount : rows.countP CheckRow.isFrozen ≠ 0) :
    outcome = .failed text
      ⟨toString (rows.countP CheckRow.isFrozen) ++ " frozen access control list(s) found", []⟩ := by
  cases h with
  | passed hzero => exact absurd hzero hcount
  | failed => rfl

/-- A check fails exactly if a row is frozen. -/
theorem Ends.status_check {text privilege : String} {rows : List CheckRow} {outcome : Outcome}
    (h : Ends text (.check privilege rows) outcome) :
    outcome.status = if rows.any CheckRow.isFrozen = true then 1 else 0 := by
  cases h with
  | passed hcount =>
    refine (if_neg ?_).symm
    rwa [Bool.not_eq_true, List.any_eq_false, ← List.countP_eq_zero]
  | failed hcount =>
    refine (if_pos (by_contra fun hany => hcount ?_)).symm
    rwa [Bool.not_eq_true, List.any_eq_false, ← List.countP_eq_zero] at hany

/-! ## Runs -/

/-- How a run of the invocation ends, by the settings in force, the text of the fixture and the time. -/
def Invocation.outcome (i : Invocation) (s : Settings) (content : Except FileError String)
    (now : String) : Outcome :=
  conclude i.format now (i.report s content)

/-- On the system, the arguments come to an invocation for which these settings are in force and this is
the text of the fixture. -/
structure Leads (sys : System Id) (arguments : List String) (i : Invocation) (s : Settings)
    (content : Except FileError String) : Prop where
  invocation : Invocation.ofArguments arguments (sys.environment.run.value? Environment.fixtureKey) =
    .ok i
  settings : (sys.loadSettings sys.environment.run i.config).run = .ok s
  fixture : (sys.read i.fixture).run = content

theorem Leads.run_eq {sys : System Id} {arguments : List String} {i : Invocation} {s : Settings}
    {content : Except FileError String} (h : Leads sys arguments i s content) :
    (run sys arguments).run = i.outcome s content sys.now := by
  obtain ⟨hi, hs, hc⟩ := h
  subst hc
  unfold run
  simp only [Id.run_bind]
  rw [hi]
  simp only [Id.run_bind]
  rw [hs]
  rfl

/-- Asked for help, each command says what it is for. -/
theorem run_help (sys : System Id) {topic : Topic} (h : topic ∈ topics) :
    (run sys [topic.name, "--help"]).run = .done (topic.about ++ "\n\n" ++ topic.usage) := by
  simp only [topics, List.mem_cons, List.not_mem_nil, or_false] at h
  rcases h with rfl | rfl | rfl | rfl | rfl <;> rfl

end AclTree.Cli
