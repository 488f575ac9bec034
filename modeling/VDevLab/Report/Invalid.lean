import VDevLab.Report.Cli
import VDevLab.Report.JsonDocument
import VDevLab.Report.JunitDocument
import VDevLab.Scenario.Load

/-!
# `cli.py`: files that are not scenarios

What `vdevlab validate` and `vdevlab run` make of a file that cannot be loaded.
Both expect a `ScenarioError`; `run` writes it into the reports, where a
character that UTF-8 cannot encode is an exception of its own.
-/

namespace VDevLab.Report

open Check PyStr Runner Scenario

/-! ## The commands -/

/-- How a file can be written. -/
inductive WriteOutcome
  | written
  | notOpened
  | notWritten
  deriving DecidableEq

/-- What the commands meet outside the program. -/
structure Environment where
  /-- `yaml.safe_load`. -/
  safeLoad : PyStr → Except LoadError PyValue
  intLimit : IntLimit
  /-- `str.upper`. -/
  upper : PyStr → PyStr
  /-- The paths that match a pattern. -/
  glob : PyStr → List PyStr
  read : PyStr → ReadOutcome
  /-- Whether stdout takes a line: its encoding may lack a character. -/
  prints : PyStr → Bool
  write : PyStr → WriteOutcome

/-- What a write raises: `OSError`, `UnicodeEncodeError`, or the `ValueError`
of `json.dumps`. -/
inductive WriteFailure
  | osError
  | encodeError
  | valueError

/-- The exceptions that leave `main`. -/
inductive Escape
  | load (failure : LoadFailure)
  | print
  | write (failure : WriteFailure)

section Commands

variable (env : Environment)

def Environment.load (path : PyStr) : Except LoadFailure ScenarioDefinition :=
  loadScenario env.safeLoad env.intLimit path (env.read path)

/-- `glob.has_magic`. -/
def hasMagic (path : PyStr) : Bool := path.any fun c => c = ch '*' || c = ch '?' || c = ch '['

/-- The paths of the arguments. -/
def selected (arguments : List PyStr) : List PyStr :=
  arguments.flatMap fun path =>
    let found := if hasMagic path then sorted (env.glob path) else [path]
    if found = [] then [path] else found

def validLine (path name : PyStr) (events assertions : Nat) : PyStr :=
  py "valid: " ++ path ++ py " name=" ++ name ++ py " events=" ++ decimal events ++
    py " assertions=" ++ decimal assertions

/-- The loop of `validate`. -/
def validateFiles : List PyStr → Except Escape Nat
  | [] => .ok 0
  | path :: paths =>
      match env.load path with
      | .error (.parse (.scenarioError _ _)) => .ok 2
      | .error failure => .error (.load failure)
      | .ok scenario =>
          if env.prints (validLine path scenario.name scenario.events.length
              scenario.assertions.length) then validateFiles paths
          else .error .print

/-- `main` for the command `validate`. -/
def validate (arguments : List PyStr) : Except Escape Nat :=
  validateFiles env (selected env arguments)

/-- `Path(path).write_text(text, encoding="utf-8")`: the bytes in the file. -/
def writeText (path text : PyStr) : Except WriteFailure (List UInt8) :=
  match env.write path, encodeUtf8 text with
  | .notOpened, _ => .error .osError
  | _, none => .error .encodeError
  | .notWritten, some _ => .error .osError
  | .written, some bytes => .ok bytes

/-- Writes one after the other, up to the first that fails. A text is `none`
where computing it raises. -/
def writeAll : List (PyStr × Option PyStr) → List (PyStr × List UInt8) × Option WriteFailure
  | [] => ([], none)
  | (_, none) :: _ => ([], some .valueError)
  | (path, some text) :: rest =>
      match writeText env path text with
      | .error failure => ([], some failure)
      | .ok bytes => ((path, bytes) :: (writeAll rest).1, (writeAll rest).2)

/-- The arguments of `run` that the reports depend on. -/
structure RunArguments where
  path : PyStr
  report : Option PyStr
  junitXml : Option PyStr

/-- `_write_reports`. -/
def writeReports (arguments : RunArguments) (report : ScenarioReport) :
    List (PyStr × List UInt8) × Option WriteFailure :=
  writeAll env
    ((arguments.report.map fun path => (path, report.toJson env.upper env.intLimit)).toList ++
      (arguments.junitXml.map fun path => (path, some (reportToJunitXmlString report))).toList)

/-- The exit code, or the exception that leaves `main`, and the files that
were written. -/
structure Ending where
  result : Except Escape Int
  files : List (PyStr × List UInt8)

/-- A handler of `run`: `_write_error_report`, which takes an `OSError`, and
the exit code. -/
def handleError (arguments : RunArguments) (scenarioName : PyStr) (error : ReportError)
    (code : Int) : Ending :=
  match writeReports env arguments (buildErrorReport scenarioName error) with
  | (files, none) => ⟨.ok code, files⟩
  | (files, some .osError) => ⟨.ok code, files⟩
  | (files, some failure) => ⟨.error (.write failure), files⟩

/-- `main` for the command `run`; `proceed` is what follows a scenario that
was loaded. -/
def runFile (arguments : RunArguments) (proceed : ScenarioDefinition → Ending) : Ending :=
  match env.load arguments.path with
  | .error (.parse (.scenarioError path message)) =>
      handleError env arguments (PyPath.stem arguments.path)
        ⟨py "ScenarioError", path ++ py ": " ++ message⟩ 2
  | .error failure => ⟨.error (.load failure), []⟩
  | .ok scenario => proceed scenario

/-! ## What is expected of them -/

/-- The file is loaded, or it is refused with a `ScenarioError`. -/
def LoadsProperly (path : PyStr) : Prop :=
  (∃ sd, env.load path = .ok sd) ∨
    ∃ source message, env.load path = .error (.parse (.scenarioError source message))

/-- A file of an ERROR report about a scenario that is not valid. -/
def ErrorReported (arguments : RunArguments) (path : PyStr)
    (files : List (PyStr × List UInt8)) : Prop :=
  ∃ error text bytes, error.type = py "ScenarioError" ∧
    (buildErrorReport (PyPath.stem arguments.path) error).toJson env.upper env.intLimit =
      some text ∧
    encodeUtf8 text = some bytes ∧ (path, bytes) ∈ files

/-- What is in the file describes the scenario. -/
def IsScenario (path : PyStr) (sc : Scenario) : Prop :=
  ∃ doc, Scenario.Holds env.safeLoad (env.read path) doc ∧ Scenario.Describes doc sc

/-- Nothing in the file gets in the way. -/
def OrderlyFile (kind : Foreign) (path : PyStr) : Prop :=
  Orderly env.safeLoad env.intLimit kind path (env.read path)

/-- Up to the first file that is not a scenario nothing gets in the way, and
the lines about the scenarios can be printed. -/
def OrderlyFiles : List PyStr → Prop
  | [] => True
  | path :: paths => OrderlyFile env .none path ∧ ∀ sc, IsScenario env path sc →
      env.prints (validLine path sc.name.1 sc.events.length sc.assertions.length) = true ∧
        OrderlyFiles paths

end Commands

/-! ## Loading and validating -/

/-- The characters that UTF-8 has not. -/
def surrogates : Foreign where
  has := Json.isSurrogate
  not_char c := by
    have hclean := Json.noSurrogates_py (String.singleton c)
    rw [Json.NoSurrogates, py, String.toList_singleton] at hclean
    simpa using hclean

theorem clean_surrogates {s : PyStr} : surrogates.Clean s ↔ Json.NoSurrogates s := by
  rw [Json.NoSurrogates, Foreign.Clean, List.any_eq_false, List.all_eq_true]
  simp [surrogates]

/-- Other exceptions than a `ScenarioError` are never proper. -/
theorem improper_of_not_scenarioError {kind : Foreign} {failure : LoadFailure}
    (h : ¬ ∃ path message, failure = .parse (.scenarioError path message)) :
    failure.Improper kind := by
  cases failure with
  | unicodeDecodeError => trivial
  | parse failure =>
    cases failure with
    | scenarioError path message => exact absurd ⟨path, message, rfl⟩ h
    | valueError => trivial
    | keyError key => trivial

theorem improper_none {failure : LoadFailure} :
    failure.Improper .none ↔ ¬ ∃ path message, failure = .parse (.scenarioError path message) := by
  refine ⟨?_, improper_of_not_scenarioError⟩
  rintro himproper ⟨path, message, rfl⟩
  exact himproper ⟨Foreign.clean_none path, Foreign.clean_none message⟩

section Outcomes

variable {env : Environment}

theorem orderlyFile_iff {kind : Foreign} {path : PyStr} :
    OrderlyFile env kind path ↔
      ∀ failure, env.load path = .error failure → ¬ failure.Improper kind := by
  rw [OrderlyFile, ← not_iff_not, ← raises_loadScenario]
  simp [Raises, Environment.load]

theorem load_eq_ok {path : PyStr} {sd : ScenarioDefinition} :
    env.load path = .ok sd ↔
      ∃ sc, IsScenario env path sc ∧ sd = sc.definition (PyPath.str path) := by
  rw [Environment.load, loadScenario_eq_ok]
  constructor
  · intro h
    obtain ⟨doc, sc, hholds, hdesc, rfl⟩ := h
    exact ⟨sc, ⟨doc, hholds, hdesc⟩, rfl⟩
  · intro h
    obtain ⟨sc, ⟨doc, hholds, hdesc⟩, rfl⟩ := h
    exact ⟨doc, sc, hholds, hdesc, rfl⟩

theorem loadsProperly_iff {path : PyStr} :
    LoadsProperly env path ↔ OrderlyFile env .none path := by
  rw [orderlyFile_iff, LoadsProperly]
  cases hload : env.load path with
  | ok sd => simp
  | error failure => simp [improper_none]

/-- The files before the first that is not a scenario decide. -/
theorem validateFiles_iff (paths : List PyStr) :
    (validateFiles env paths = .ok 0 ∨ validateFiles env paths = .ok 2) ↔
      OrderlyFiles env paths := by
  induction paths with
  | nil => simp [validateFiles, OrderlyFiles]
  | cons path paths ih =>
    rw [OrderlyFiles, orderlyFile_iff, validateFiles]
    cases hload : env.load path with
    | error failure =>
      have hnone : ∀ sc, ¬ IsScenario env path sc := by
        intro sc hsc
        cases hload.symm.trans (load_eq_ok.mpr ⟨sc, hsc, rfl⟩)
      simp only [Except.error.injEq, forall_eq', improper_none, not_not, hnone, false_implies,
        implies_true, and_true]
      by_cases hproper : ∃ source message, failure = .parse (.scenarioError source message)
      · obtain ⟨source, message, rfl⟩ := hproper
        simp
      · refine iff_of_false ?_ hproper
        split
        · next h =>
          cases h
          exact absurd ⟨_, _, rfl⟩ hproper
        · simp
        · next h => cases h
    | ok sd =>
      obtain ⟨sc, hsc, rfl⟩ := load_eq_ok.mp hload
      have hline : ∀ sc', IsScenario env path sc' →
          validLine path sc'.name.1 sc'.events.length sc'.assertions.length =
            validLine path sc.name.1 sc.events.length sc.assertions.length := by
        intro sc' hsc'
        have hsame := Except.ok.inj (hload.symm.trans (load_eq_ok.mpr ⟨sc', hsc', rfl⟩))
        have hname : sc.name.1 = sc'.name.1 := congrArg ScenarioDefinition.name hsame
        have hevents := congrArg (fun sd => sd.events.length) hsame
        have hassertions := congrArg (fun sd => sd.assertions.length) hsame
        simp only [Scenario.definition, List.length_map] at hevents hassertions
        rw [hname, hevents, hassertions]
      have hprinted : (∀ sc', IsScenario env path sc' →
          env.prints (validLine path sc'.name.1 sc'.events.length sc'.assertions.length) = true ∧
            OrderlyFiles env paths) ↔
          env.prints (validLine path sc.name.1 sc.events.length sc.assertions.length) = true ∧
            OrderlyFiles env paths := by
        constructor
        · exact fun h => h sc hsc
        · intro h sc' hsc'
          rw [hline sc' hsc']
          exact h
      rw [hprinted, ← ih]
      simp only [Scenario.definition, List.length_map, reduceCtorEq, false_implies, implies_true,
        true_and]
      split
      · next hprints => simp [hprints]
      · next hprints => simp [hprints]

/-! ## Reporting -/

/-- The texts of an error report, and whether they can be encoded. -/
theorem errorReport_text (lim : IntLimit) (upper : PyStr → PyStr) (name : PyStr)
    (error : ReportError) :
    ∃ text, (buildErrorReport name error).toJson upper lim = some text ∧
      ((encodeUtf8 text).isSome = true ↔
        Json.NoSurrogates name ∧ Json.NoSurrogates error.type ∧
          Json.NoSurrogates error.message) := by
  have hdocument : ((buildErrorReport name error).toDict upper).Document :=
    document_toDict fun entry h => absurd h List.not_mem_nil
  have hwritable : ∀ (name : PyStr) (error : ReportError),
      Json.Writable lim ((buildErrorReport name error).toDict upper) ↔
        Json.NoSurrogates name ∧ Json.NoSurrogates error.type ∧
          Json.NoSurrogates error.message := by
    intro name error
    rw [writable_toDict]
    simp only [buildErrorReport, Option.mem_def, reduceCtorEq, false_implies, implies_true,
      true_and, Option.some.injEq, forall_eq', writable_error, List.not_mem_nil]
  -- its numbers are those of the report with empty texts
  have hempty := (hwritable [] ⟨[], []⟩).mpr ⟨rfl, rfl, rfl⟩
  have hints : ((buildErrorReport name error).toDict upper).everyScalar (Json.intFits lim) =
      true := hempty.ints
  have hfloats : ((buildErrorReport name error).toDict upper).everyScalar Json.floatFinite =
      true := hempty.floats
  obtain ⟨t, ht⟩ := (Json.dumps_isSome_iff hdocument).mpr hints
  refine ⟨t ++ py "\n", by rw [ScenarioReport.toJson, ht]; rfl, ?_⟩
  have hprints := Json.Prints.of_dumpAt hdocument ht
  rw [← hwritable, encodeUtf8_isSome, Json.noSurrogates_append, Json.NoSurrogates,
    hprints.all Json.not_isSurrogate_ascii]
  constructor
  · intro h
    exact ⟨hints, hfloats, h.1⟩
  · intro h
    exact ⟨h.strings, Json.noSurrogates_py _⟩

theorem writeText_eq_ok {path text : PyStr} {bytes : List UInt8} :
    writeText env path text = .ok bytes ↔
      env.write path = .written ∧ encodeUtf8 text = some bytes := by
  unfold writeText
  cases env.write path <;> cases encodeUtf8 text <;> simp

/-- The first file is written, or none is. -/
theorem writeAll_cons {path text : PyStr} {rest : List (PyStr × Option PyStr)} :
    (∃ bytes files, (writeAll env ((path, some text) :: rest)).1 = (path, bytes) :: files ∧
      env.write path = .written ∧ encodeUtf8 text = some bytes) ∨
    ((writeAll env ((path, some text) :: rest)).1 = [] ∧
      ¬ (env.write path = .written ∧ (encodeUtf8 text).isSome = true)) := by
  cases hwrite : writeText env path text with
  | error failure =>
    refine .inr ⟨by rw [writeAll, hwrite], ?_⟩
    intro h
    obtain ⟨hwritten, hsome⟩ := h
    obtain ⟨bytes, hbytes⟩ := Option.isSome_iff_exists.mp hsome
    cases hwrite.symm.trans (writeText_eq_ok.mpr ⟨hwritten, hbytes⟩)
  | ok bytes =>
    obtain ⟨hwritten, hbytes⟩ := writeText_eq_ok.mp hwrite
    exact .inl ⟨bytes, _, by rw [writeAll, hwrite], hwritten, hbytes⟩

theorem handleError_files (arguments : RunArguments) (name : PyStr) (error : ReportError)
    (code : Int) : (handleError env arguments name error code).files =
      (writeReports env arguments (buildErrorReport name error)).1 := by
  unfold handleError
  split
  · next h => rw [h]
  · next h => rw [h]
  · next h => rw [h]

/-- The report of a `ScenarioError`, and when its text can be encoded. -/
theorem scenarioError_text (env : Environment) (path source message : PyStr) :
    ∃ text, (buildErrorReport (PyPath.stem path)
        ⟨py "ScenarioError", source ++ py ": " ++ message⟩).toJson env.upper env.intLimit =
      some text ∧
      ((encodeUtf8 text).isSome = true ↔
        ¬ (LoadFailure.parse (.scenarioError source message)).Improper surrogates ∧
          Json.NoSurrogates (PyPath.stem path)) := by
  obtain ⟨text, htext, hencode⟩ := errorReport_text env.intLimit env.upper (PyPath.stem path)
    ⟨py "ScenarioError", source ++ py ": " ++ message⟩
  refine ⟨text, htext, ?_⟩
  rw [hencode, LoadFailure.Improper, ParseFailure.Improper, not_not, clean_surrogates,
    clean_surrogates, Json.noSurrogates_append, Json.noSurrogates_append]
  have hcolon := Json.noSurrogates_py ": "
  have htype := Json.noSurrogates_py "ScenarioError"
  tauto

/-- A file that is not a scenario is reported, unless something gets in the
way of its error or of the name that the report takes from its path. -/
theorem errorReported_iff {arguments : RunArguments} {proceed : ScenarioDefinition → Ending}
    {jsonPath : PyStr} (hreport : arguments.report = some jsonPath)
    (hinvalid : ∀ sc, ¬ IsScenario env arguments.path sc) :
    ErrorReported env arguments jsonPath (runFile env arguments proceed).files ↔
      OrderlyFile env surrogates arguments.path ∧
        Json.NoSurrogates (PyPath.stem arguments.path) ∧ env.write jsonPath = .written := by
  rw [orderlyFile_iff]
  cases hload : env.load arguments.path with
  | ok sd =>
    obtain ⟨sc, hsc, -⟩ := load_eq_ok.mp hload
    exact absurd hsc (hinvalid sc)
  | error failure =>
    simp only [Except.error.injEq, forall_eq']
    by_cases hproper : ∃ source message, failure = .parse (.scenarioError source message)
    · obtain ⟨source, message, rfl⟩ := hproper
      obtain ⟨text, htext, hencode⟩ := scenarioError_text env arguments.path source message
      have hfiles : ∃ rest, (runFile env arguments proceed).files =
          (writeAll env ((jsonPath, some text) :: rest)).1 := by
        rw [runFile, hload]
        simp only [handleError_files, writeReports, hreport, Option.map_some, Option.toList_some,
          htext, List.singleton_append]
        exact ⟨_, rfl⟩
      obtain ⟨rest, hfiles⟩ := hfiles
      rw [← and_assoc, ← hencode, hfiles]
      rcases @writeAll_cons env jsonPath text rest with
        ⟨bytes, files, hall, hwritten, hbytes⟩ | ⟨hall, hnot⟩
      · refine iff_of_true ?_ ⟨by rw [hbytes]; rfl, hwritten⟩
        rw [hall]
        exact ⟨_, text, bytes, rfl, htext, hbytes, List.mem_cons_self⟩
      · refine iff_of_false ?_ (fun h => hnot h.symm)
        rw [hall]
        intro h
        obtain ⟨_, _, _, -, -, -, hmem⟩ := h
        cases hmem
    · refine iff_of_false ?_ ?_
      · have hfiles : (runFile env arguments proceed).files = [] := by
          rw [runFile, hload]
          split
          · next h =>
            cases h
            exact absurd ⟨_, _, rfl⟩ hproper
          · rfl
          · next h => cases h
        rw [hfiles]
        intro h
        obtain ⟨_, _, _, -, -, -, hmem⟩ := h
        cases hmem
      · intro h
        obtain ⟨himproper, -⟩ := h
        exact himproper (improper_of_not_scenarioError hproper)

/-- With a JSON report only, and nothing in the way, the command is
`runCommand`, for which a report can be written or not. -/
theorem runFile_eq_runCommand {arguments : RunArguments} {proceed : ScenarioDefinition → Ending}
    {jsonPath source message : PyStr} (hreport : arguments.report = some jsonPath)
    (hjunit : arguments.junitXml = none)
    (hload : env.load arguments.path = .error (.parse (.scenarioError source message)))
    (horderly : OrderlyFile env surrogates arguments.path)
    (hstem : Json.NoSurrogates (PyPath.stem arguments.path)) :
    ∃ outcome, runCommand env.intLimit (fun _ => env.write jsonPath = .written)
        (PyPath.stem arguments.path)
        (.invalid ⟨py "ScenarioError", source ++ py ": " ++ message⟩) = .ok outcome ∧
      (runFile env arguments proceed).result = .ok outcome.exitCode ∧
      ((runFile env arguments proceed).files = [] ↔ outcome.report = none) := by
  obtain ⟨text, htext, hencode⟩ := scenarioError_text env arguments.path source message
  have hproper := orderlyFile_iff.mp horderly _ hload
  obtain ⟨bytes, hbytes⟩ := Option.isSome_iff_exists.mp (hencode.mpr ⟨hproper, hstem⟩)
  refine ⟨_, rfl, ?_⟩
  simp only [runFile, hload, handleError, writeReports, hreport, hjunit, htext, writeErrorReport,
    Option.map_some, Option.toList_some, Option.map_none, Option.toList_none, List.append_nil,
    writeAll, writeText, hbytes]
  cases env.write jsonPath <;> simp

end Outcomes

/-- **Files that are not scenarios** end in a `ScenarioError`, in the exit code
of `validate` and in an ERROR report of `run` exactly when nothing gets in the
way: of the error itself, of the lines on stdout, and of writing its text. -/
theorem bad_files_reported_iff (env : Environment) :
    (∀ path, LoadsProperly env path ↔ OrderlyFile env .none path) ∧
    (∀ arguments, (validate env arguments = .ok 0 ∨ validate env arguments = .ok 2) ↔
      OrderlyFiles env (selected env arguments)) ∧
    ∀ (arguments : RunArguments) (proceed : ScenarioDefinition → Ending) (jsonPath : PyStr),
      arguments.report = some jsonPath → (∀ sc, ¬ IsScenario env arguments.path sc) →
      (ErrorReported env arguments jsonPath (runFile env arguments proceed).files ↔
        OrderlyFile env surrogates arguments.path ∧
          Json.NoSurrogates (PyPath.stem arguments.path) ∧ env.write jsonPath = .written) :=
  ⟨fun _ => loadsProperly_iff, fun arguments => validateFiles_iff (selected env arguments),
    fun _ _ _ hreport hinvalid => errorReported_iff hreport hinvalid⟩

/-! ## An empty file and one that is not UTF-8 -/

/-- Every file has the same bytes, and everything can be written. -/
def holding (bytes : List UInt8) : Environment where
  -- of an empty text the loader makes `None`
  safeLoad := fun _ => .ok .none
  intLimit := defaultIntLimit
  upper := id
  glob := fun _ => []
  read := fun _ => .content bytes
  prints := fun _ => true
  write := fun _ => .written

def emptyArguments : RunArguments := ⟨py "scenarios/empty.yaml", some (py "report.json"), none⟩

theorem isScenario_holding {bytes : List UInt8} {path : PyStr} (sc : Scenario) :
    ¬ IsScenario (holding bytes) path sc := by
  intro h
  obtain ⟨doc, ⟨_, _, -, -, hload⟩, d, rfl, -⟩ := h
  cases hload

/-- An empty file is no mapping, and that is reported. -/
theorem bad_files_reported_iff_empty :
    ErrorReported (holding []) emptyArguments (py "report.json")
      (runFile (holding []) emptyArguments fun _ => ⟨.ok 0, []⟩).files := by
  have horderly : OrderlyFile (holding []) surrogates emptyArguments.path := by
    refine ⟨[], rfl, ?_, ?_⟩
    · rintro ⟨⟩
    · rintro doc ⟨⟩ ⟨⟩
  have hstem : Json.NoSurrogates (PyPath.stem emptyArguments.path) := by
    unfold Json.NoSurrogates
    decide
  exact ((bad_files_reported_iff (holding [])).2.2 emptyArguments _ _ rfl
    isScenario_holding).mpr ⟨horderly, hstem, rfl⟩

theorem decodeUtf8_ff : decodeUtf8 [0xff] = none := by
  have hinvalid : (ByteArray.mk #[0xff]).validateUTF8 = false := by decide +kernel
  rw [← ByteArray.isSome_utf8Decode?_eq_validateUTF8] at hinvalid
  have hnone : (ByteArray.mk #[0xff]).utf8Decode? = none :=
    Option.not_isSome_iff_eq_none.mp (by rw [hinvalid]; exact Bool.false_ne_true)
  rw [decodeUtf8, hnone, Option.map_none]

def badArguments : RunArguments := ⟨py "bad.yaml", some (py "report.json"), none⟩

/-- One byte that is not UTF-8, and the exception leaves both commands. -/
theorem bad_files_escape :
    ¬ LoadsProperly (holding [0xff]) (py "bad.yaml") ∧
    validate (holding [0xff]) [py "bad.yaml"] = .error (.load .unicodeDecodeError) ∧
    (runFile (holding [0xff]) badArguments fun _ => ⟨.ok 0, []⟩) =
      ⟨.error (.load .unicodeDecodeError), []⟩ ∧
    ¬ ErrorReported (holding [0xff]) badArguments (py "report.json")
      (runFile (holding [0xff]) badArguments fun _ => ⟨.ok 0, []⟩).files := by
  have hload : ∀ path, (holding [0xff]).load path = .error .unicodeDecodeError := by
    intro path
    simp only [Environment.load, holding, loadScenario, decodeUtf8_ff]
  have hrun : (runFile (holding [0xff]) badArguments fun _ => ⟨.ok 0, []⟩) =
      ⟨.error (.load .unicodeDecodeError), []⟩ := by
    rw [runFile, hload]
  refine ⟨?_, ?_, hrun, ?_⟩
  · intro h
    rcases h with ⟨sd, hsd⟩ | ⟨_, _, hfailure⟩
    · cases (hload _).symm.trans hsd
    · cases (hload _).symm.trans hfailure
  · have hselected : selected (holding [0xff]) [py "bad.yaml"] = [py "bad.yaml"] := by
      simp [selected, show hasMagic (py "bad.yaml") = false by decide]
    rw [validate, hselected, validateFiles, hload]
  · rw [hrun]
    intro h
    obtain ⟨_, _, _, -, -, -, hmem⟩ := h
    cases hmem

end VDevLab.Report
