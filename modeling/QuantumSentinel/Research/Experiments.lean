import QuantumSentinel.Lib.Bytes
import QuantumSentinel.Lib.JsonValues
import QuantumSentinel.Lib.Outcomes

/-!
# Research: experiments and their manifests

The experiment registry: the row of an experiment, the manifest that binds its inputs and its
result, the gates a validation evaluates, and the operations that record a result, validate it
and approve it.

Main results:

- Definition `finalizeRunJob`, `finalizeValidateJob`, `approveExperiment`: what
  is done under the lock of the row.
- Theorem `finalizeRunJob_eq_ok`, `validateRow_eq_ok`, `approveExperiment_eq_ok`:
  when each operation succeeds, and what it leaves as it was.

Current gaps:

- A status text that names no status, and instants before they are read as seconds.
- The texts of the exceptions that come from an edited column of another type.
- A strategy id with a quote or an escape in the message that names it.
-/

namespace QuantumSentinel.Research

open Lib

/-! ## Rows -/

/-- `ExperimentStatus` -/
inductive Status
  | created
  | running
  | completed
  | failed
  | validated
  | approved
deriving DecidableEq, Repr

/-- The value of a status. -/
def Status.text : Status → String
  | .created => "CREATED"
  | .running => "RUNNING"
  | .completed => "COMPLETED"
  | .failed => "FAILED"
  | .validated => "VALIDATED"
  | .approved => "APPROVED"

/-- A row of `research_experiments`; instants are in seconds since the epoch. -/
structure ResearchExperiment where
  id : String
  userId : String
  strategyId : String
  strategyVersion : String
  datasetId : String
  datasetJson : Json
  datasetHash : String
  parametersJson : Json
  parameterHash : String
  codeCommit : String
  randomSeed : ℤ
  executionModel : String
  latencyModel : String
  status : Status
  resultHash : String
  resultsJson : Json
  validationGatesJson : Json
  manifestSignature : String
  createdAt : Option FloatText
  completedAt : Option FloatText
  strategyHash : Option String
  dependencyLockHash : Option String
  engineVersion : Option String
  signingKeyId : Option String
  manifestJson : Json
  approvedBy : Option String
  approvedAt : Option FloatText

/-- `Experiment` -/
structure Experiment where
  experimentId : String
  strategyId : String
  strategyVersion : String
  datasetId : String
  datasetHash : String
  parameterHash : String
  codeCommit : String
  randomSeed : ℤ
  executionModel : String
  latencyModel : String
  status : Status
  createdAt : FloatText
  completedAt : Option FloatText
  strategyHash : String
  dependencyLockHash : String
  engineVersion : String
  signingKeyId : Option String
  resultHash : String
  results : Json
  validationGates : Json
  manifestSignature : String

/-- How an operation fails. -/
inductive RegistryError
  /-- `TaskError` -/
  | task (statusCode : ℕ) (detail : String)
  /-- `ExperimentError` -/
  | experiment (detail : String)
  /-- `LookupError` -/
  | lookup (experimentId : String)
  /-- `ManifestSigningError` -/
  | signing (detail : String)
  /-- `KeyError` -/
  | key (name : String)
  /-- `AttributeError` -/
  | attribute
  /-- `TypeError` -/
  | type
deriving DecidableEq, Repr

/-- `0.0` -/
def zeroSeconds : FloatText where
  text := ['0', '.', '0']
  isFloat := by decide

/-- `_to_experiment` -/
def toExperiment (row : ResearchExperiment) : Experiment where
  experimentId := row.id
  strategyId := row.strategyId
  strategyVersion := row.strategyVersion
  datasetId := row.datasetId
  datasetHash := row.datasetHash
  parameterHash := row.parameterHash
  codeCommit := row.codeCommit
  randomSeed := row.randomSeed
  executionModel := row.executionModel
  latencyModel := row.latencyModel
  status := row.status
  createdAt := row.createdAt.getD zeroSeconds
  completedAt := row.completedAt
  strategyHash := row.strategyHash.getD ""
  dependencyLockHash := row.dependencyLockHash.getD ""
  engineVersion := row.engineVersion.getD ""
  signingKeyId := row.signingKeyId
  resultHash := row.resultHash
  results := row.resultsJson.orEmpty
  validationGates := row.validationGatesJson.orEmpty
  manifestSignature := row.manifestSignature

/-! ## Hashes and signatures -/

/-- The hash, the keys of the server and the environment. -/
structure Services where
  /-- `hashlib.sha256(...).hexdigest()` -/
  sha256 : Bytes → String
  /-- whether `_environment()` is production -/
  production : Bool
  /-- the hex digits of `server_identity.sign`, unless it raises -/
  dsaSign : Bytes → Option String
  /-- the HMAC under `_fallback_hmac_key()` -/
  hmacSha256 : Bytes → String
  /-- `_manifest_public_key` -/
  manifestPublicKey : Json → Option Bytes
  /-- `dsa_verify` of a signature in hex digits; false where it raises -/
  dsaVerify : (publicKey message : Bytes) → (signature : String) → Bool
  /-- `server_identity.key_id` -/
  keyId : Option String

/-- `MANIFEST_VERSION` -/
def manifestVersion : ℤ :=
  2

/-- `ENGINE_VERSION` -/
def engineVersion : String :=
  "QS-L2-SIM-2"

/-- `EXECUTABLE_STRATEGY_IDS` -/
def executableStrategyIds : List String :=
  ["obi_momentum"]

/-- How a value is written to be hashed: sorted, with spaces. -/
def hashedStyle : JsonStyle where
  ensureAscii := true
  spaced := true

/-- How a manifest is written to be signed: sorted and compact. -/
def signedStyle : JsonStyle where
  ensureAscii := true
  spaced := false

/-- A text or null. -/
def textOrNull : Option String → Json
  | some s => .str s
  | none => .null

/-- An instant or null. -/
def instantOrNull : Option FloatText → Json
  | some t => .float t
  | none => .null

/-- `build_manifest` -/
def buildManifest (experiment : Experiment) : Json :=
  .obj [("manifest_version", .int manifestVersion),
    ("experiment_id", .str experiment.experimentId),
    ("strategy_id", .str experiment.strategyId),
    ("strategy_version", .str experiment.strategyVersion),
    ("strategy_hash", .str experiment.strategyHash),
    ("dataset_id", .str experiment.datasetId),
    ("dataset_hash", .str experiment.datasetHash),
    ("parameter_hash", .str experiment.parameterHash),
    ("code_commit", .str experiment.codeCommit),
    ("dependency_lock_hash", .str experiment.dependencyLockHash),
    ("execution_engine_version", .str experiment.engineVersion),
    ("random_seed", .int experiment.randomSeed),
    ("execution_model", .str experiment.executionModel),
    ("latency_model", .str experiment.latencyModel),
    ("result_hash", .str experiment.resultHash),
    ("created_at", .float experiment.createdAt),
    ("completed_at", instantOrNull experiment.completedAt),
    ("signing_key_id", textOrNull experiment.signingKeyId)]

/-- `_MANIFEST_BOUND_FIELDS`, with their values in the record. -/
def boundFields (experiment : Experiment) : List (String × Json) :=
  [("experiment_id", .str experiment.experimentId),
    ("strategy_id", .str experiment.strategyId),
    ("strategy_version", .str experiment.strategyVersion),
    ("strategy_hash", .str experiment.strategyHash),
    ("dataset_id", .str experiment.datasetId),
    ("dataset_hash", .str experiment.datasetHash),
    ("parameter_hash", .str experiment.parameterHash),
    ("code_commit", .str experiment.codeCommit),
    ("dependency_lock_hash", .str experiment.dependencyLockHash),
    ("random_seed", .int experiment.randomSeed),
    ("execution_model", .str experiment.executionModel),
    ("latency_model", .str experiment.latencyModel),
    ("result_hash", .str experiment.resultHash)]

/-- Whether a text starts with another, and what follows. -/
def afterPrefix (start s : String) : Option String :=
  if start.toList.isPrefixOf s.toList then some (String.ofList (s.toList.drop start.length))
  else none

namespace Services

variable (services : Services)

/-- `hash_dataset`, `hash_parameters` and `hash_results` -/
def hashJson (v : Json) : String :=
  services.sha256 (encodeChars (v.dumps hashedStyle))

/-- The hash recorded for a dataset: none for `None`. -/
def datasetHash : Json → String
  | .null => ""
  | dataset => services.hashJson dataset

/-- `sign_manifest` -/
def signManifest (manifest : Json) : Except RegistryError String :=
  let canonical := encodeChars (manifest.dumps signedStyle)
  match services.dsaSign canonical with
  | some signature => .ok ("ml-dsa:" ++ signature)
  | none =>
    if services.production then .error (.signing "ML-DSA manifest signing failed")
    else .ok ("hmac-sha256:" ++ services.hmacSha256 canonical)

/-- `verify_manifest_signature` -/
def verifyManifestSignature (manifest : Json) (signature : String) : Bool :=
  let canonical := encodeChars (manifest.dumps signedStyle)
  if signature = "" then false
  else
    match afterPrefix "hmac-sha256:" signature with
    | some digest => !services.production && digest = services.hmacSha256 canonical
    | none =>
      match afterPrefix "ml-dsa:" signature with
      | some hex =>
        match services.manifestPublicKey ((manifest.get? "signing_key_id").getD .null) with
        | some publicKey => services.dsaVerify publicKey canonical hex
        | none => false
      | none => false

end Services

/-! ## Executions -/

/-- `input_hashes` -/
structure Inputs where
  datasetHash : String
  parameterHash : String
  randomSeed : ℤ
deriving DecidableEq, Repr

/-- What a job that executed the strategy hands to the worker. -/
structure Execution where
  results : Json
  resultHash : String
  inputs : Inputs

/-- `ExperimentJob` -/
structure ExperimentJob where
  experimentId : String
  strategyId : String
  dataset : Json
  parameters : Json
  randomSeed : ℤ
  execute : Bool

/-- `input_hashes` of some inputs. -/
def inputHashes (services : Services) (dataset parameters : Json) (seed : ℤ) : Inputs where
  datasetHash := services.datasetHash dataset
  parameterHash := services.hashJson parameters.orEmpty
  randomSeed := seed

/-- The platform's strategies: a result, or the detail of an `ExperimentError`. -/
abbrev Runner :=
  (strategyId : String) → (dataset parameters : Json) → (seed : ℤ) → Except String Json

/-- `run_strategy`, up to the execution itself. -/
def runStrategy (runner : Runner) (strategyId : String) (dataset parameters : Json) (seed : ℤ) :
    Except RegistryError Json :=
  if strategyId ∈ executableStrategyIds then
    match runner strategyId dataset parameters.orEmpty seed with
    | .ok results => .ok results
    | .error detail => .error (.experiment detail)
  else .error (.experiment s!"strategy '{strategyId}' is not executable by the platform")

/-- `experiment_execution`; without a value, `executed` is false. -/
def experimentExecution (services : Services) (runner : Runner) (job : ExperimentJob) :
    Except RegistryError (Option Execution) :=
  if job.execute = false then .ok none
  else
    match runStrategy runner job.strategyId job.dataset job.parameters job.randomSeed with
    | .error (.experiment detail) => .error (.task 422 detail)
    | .error e => .error e
    | .ok results =>
      .ok (some
        { results := results
          resultHash := services.hashJson results
          inputs := inputHashes services job.dataset job.parameters job.randomSeed })

/-- `_recorded_inputs` -/
def recordedInputs (row : ResearchExperiment) : Inputs where
  datasetHash := row.datasetHash
  parameterHash := row.parameterHash
  randomSeed := row.randomSeed

/-! ## Recording -/

/-- `_record` at a time. -/
def record (services : Services) (row : ResearchExperiment) (results : Json) (resultHash : String)
    (sign : Bool) (now : FloatText) : Except RegistryError ResearchExperiment :=
  let recorded : Experiment :=
    { toExperiment row with
      results := results, resultHash := resultHash, completedAt := some now, status := .completed }
  if sign then
    let experiment := { recorded with signingKeyId := services.keyId }
    match services.signManifest (buildManifest experiment) with
    | .error e => .error e
    | .ok signature =>
      .ok
        { row with
          resultsJson := results, resultHash := resultHash, completedAt := some now
          status := .completed, signingKeyId := services.keyId
          manifestJson := buildManifest experiment, manifestSignature := signature }
  else
    .ok
      { row with
        resultsJson := results, resultHash := resultHash, completedAt := some now
        status := .completed, manifestJson := .null }

/-- `finalize_run_job`, on the locked row. -/
def finalizeRunJob (services : Services) (row : ResearchExperiment) (experimentId userId : String)
    (execution : Option Execution) (now : FloatText) : Except RegistryError ResearchExperiment :=
  if row.userId ≠ userId then .error (.task 404 s!"Experiment {experimentId} not found")
  else if row.status ≠ .created then
    .error (.task 422 s!"experiment already has results (status {row.status.text})")
  else
    match execution with
    | none => .error (.key "inputs")
    | some execution =>
      if execution.inputs ≠ recordedInputs row then
        .error (.task 409 ("The executed inputs differ from the experiment's recorded inputs; " ++
          "no result was recorded."))
      else record services row execution.results execution.resultHash true now

/-! ## Validation -/

/-- One gate of a report. -/
structure Gate where
  name : String
  passed : Bool
  value : Option Json
  threshold : Option Json
  description : String

/-- The report of a validation. -/
structure Report where
  experimentId : String
  allGatesPassed : Bool
  eligibleForPaperDeployment : Bool
  gates : List Gate

/-- Optional members of an object. -/
def member (name : String) : Option Json → List (String × Json)
  | some v => [(name, v)]
  | none => []

/-- A gate as it is stored. -/
def Gate.toJson (gate : Gate) : Json :=
  .obj (("passed", .bool gate.passed) :: member "value" gate.value ++
    member "threshold" gate.threshold ++ [("description", .str gate.description)])

/-- A report as it is stored. -/
def Report.toJson (report : Report) : Json :=
  .obj [("experiment_id", .str report.experimentId),
    ("all_gates_passed", .bool report.allGatesPassed),
    ("eligible_for_paper_deployment", .bool report.eligibleForPaperDeployment),
    ("gates", .obj (report.gates.map fun gate => (gate.name, gate.toJson)))]

/-- `v.get(name, default)` -/
def dictGet (v : Json) (name : String) (default : Json) : Except RegistryError Json :=
  match v with
  | .obj members => .ok ((Dict.lookup name members).getD default)
  | _ => .error .attribute

/-- A comparison of a value with a number. -/
def compared (test : PyFloat → Bool) (v : Json) : Except RegistryError Bool :=
  match v.number? with
  | some x => .ok (test x)
  | none => .error .type

/-- A number in the source text. -/
def literal (text : List Char) (h : isFloatText text = true) : Json :=
  .float ⟨text, h⟩

theorem isFloatText_zero : isFloatText ['0', '.', '0'] = true :=
  rfl

theorem isFloatText_one : isFloatText ['1', '.', '0'] = true :=
  rfl

/-- The gates for a replay of a platform strategy. -/
def executionGates (results : Json) : Except RegistryError (List Gate) := do
  let pnl ← dictGet (← dictGet results "portfolio" (.obj [])) "total_pnl"
    (literal ['0', '.', '0'] rfl)
  let fillRatio ← dictGet (← dictGet results "execution_metrics" (.obj [])) "fill_ratio"
    (literal ['0', '.', '0'] rfl)
  let isBps ← dictGet (← dictGet results "implementation_shortfall" (.obj [])) "total_is_bps"
    (literal ['I', 'n', 'f', 'i', 'n', 'i', 't', 'y'] rfl)
  let netPnl ← compared (PyFloat.lt (.finite 0)) pnl
  let filled ← compared (PyFloat.le (.finite (1 / 2))) fillRatio
  let shortfall ← compared (fun x => x.le (.finite 25)) isBps
  return [
    ⟨"net_pnl", netPnl, some pnl, some (literal ['0', '.', '0'] rfl),
      "Net P&L after execution costs must be positive"⟩,
    ⟨"fill_ratio", filled, some fillRatio, some (literal ['0', '.', '5'] rfl),
      "At least half of submitted quantity must execute"⟩,
    ⟨"implementation_shortfall", shortfall, some isBps, some (literal ['2', '5', '.', '0'] rfl),
      "Implementation shortfall must not exceed 25 bps"⟩]

/-- The gates for signal research. -/
def signalGates (results : Json) : Except RegistryError (List Gate) := do
  let oosSharpe ← dictGet results "oos_sharpe" (.int 0)
  let walkForward ← compared (PyFloat.lt (.finite (1 / 2))) oosSharpe
  let dsrPasses ← dictGet results "survives_deflation" (.bool false)
  let turnover ← dictGet results "avg_daily_turnover" (literal ['1', '.', '0'] rfl)
  let traded ← compared (fun x => x.lt (.finite 2)) turnover
  return [
    ⟨"walk_forward", walkForward, some oosSharpe, some (literal ['0', '.', '5'] rfl),
      "OOS Sharpe ratio must exceed 0.5"⟩,
    ⟨"dsr", dsrPasses.truthy, some dsrPasses, none,
      "Strategy must survive Deflated Sharpe Ratio test"⟩,
    ⟨"turnover", traded, some turnover, some (literal ['2', '.', '0'] rfl),
      "Average daily turnover must be below 200%"⟩]

/-- `name in results` -/
def contains (results : Json) (name : String) : Except RegistryError Bool :=
  match results with
  | .obj members => .ok (Dict.lookup name members).isSome
  | .arr items => .ok (items.any (Json.same (.str name)))
  | .str s => .ok (decide (name.toList <:+: s.toList))
  | _ => .error .type

/-- `validate_for_deployment` -/
def validateForDeployment (experiment : Experiment) : Except RegistryError Report := do
  let results := experiment.results
  let gates ← if ← contains results "execution_metrics" then executionGates results
    else signalGates results
  let size ← dictGet results "max_position_size" .null
  let drawdown ← dictGet results "max_drawdown_limit" .null
  let all := gates ++ [
    ⟨"risk_limits", size.truthy || drawdown.truthy, none, none,
      "Strategy must define position size and drawdown limits"⟩,
    ⟨"manifest_signed", experiment.manifestSignature ≠ "", none, none,
      "Experiment manifest must be cryptographically signed"⟩]
  let passed := all.all Gate.passed
  return ⟨experiment.experimentId, passed, passed, all⟩

/-- What `_replay_outcome` says of an execution. -/
structure ReplayOutcome where
  executed : Bool
  resultHash : Option String
  resultReproduced : Option Bool
  engineVersionMatches : Option Bool

/-- `_replay_outcome` -/
def replayOutcome (row : ResearchExperiment) (execution : Option Execution) : ReplayOutcome :=
  match execution with
  | none => ⟨false, none, none, none⟩
  | some execution =>
    if row.strategyId ∉ executableStrategyIds ∨ row.resultHash = "" then
      ⟨false, none, none, none⟩
    else
      ⟨true, some execution.resultHash,
        some (execution.inputs = recordedInputs row && execution.resultHash = row.resultHash),
        some (row.engineVersion.getD "" = engineVersion)⟩

/-- The two answers of `_manifest_view` that a validation reads. -/
structure ManifestView where
  signatureValid : Bool
  consistentWithRecord : Bool

/-- `_manifest_view` -/
def manifestView (services : Services) (row : ResearchExperiment) :
    Except RegistryError ManifestView :=
  if row.manifestJson.truthy = false then .ok ⟨false, false⟩
  else
    match row.manifestJson with
    | .obj members =>
      .ok
        { signatureValid :=
            services.verifyManifestSignature (.obj members) row.manifestSignature
          consistentWithRecord := (boundFields (toExperiment row)).all fun field =>
            ((Dict.lookup field.1 members).getD .null).same field.2 }
    | _ => .error .attribute

/-- Whether the stored inputs hash to what was recorded. -/
def inputsUnchanged (services : Services) (row : ResearchExperiment) : Bool :=
  services.datasetHash row.datasetJson = row.datasetHash &&
    services.hashJson row.parametersJson.orEmpty = row.parameterHash

/-- The gates that `_validate_row` adds. -/
def integrityGates (services : Services) (row : ResearchExperiment) (replay : ReplayOutcome)
    (manifest : ManifestView) : List Gate :=
  [⟨"signature_valid", manifest.signatureValid, none, none,
      "Manifest signature verifies with the key that signed it"⟩,
    ⟨"manifest_consistent", manifest.consistentWithRecord, none, none,
      "Signed manifest matches the stored experiment"⟩,
    ⟨"inputs_unchanged", inputsUnchanged services row, none, none,
      "Stored dataset and parameters still hash to the recorded values"⟩,
    ⟨"result_reproducible", replay.resultReproduced.getD false, some (textOrNull replay.resultHash),
      none,
      if replay.executed then
        "Re-executing the strategy from stored inputs reproduces the result hash"
      else "Strategy is not executable by the platform, so its result cannot be reproduced"⟩]

/-- `_validate_row`: the report and the row it is recorded on. -/
def validateRow (services : Services) (row : ResearchExperiment) (replay : ReplayOutcome) :
    Except RegistryError (Report × ResearchExperiment) := do
  let deployment ← validateForDeployment (toExperiment row)
  let manifest ← manifestView services row
  let gates := deployment.gates ++ integrityGates services row replay manifest
  let passed := gates.all Gate.passed
  let report : Report := ⟨deployment.experimentId, passed, passed, gates⟩
  return (report,
    { row with
      validationGatesJson := report.toJson
      status := if passed then .validated else .completed })

/-- `finalize_validate_job`, on the locked row. -/
def finalizeValidateJob (services : Services) (row : ResearchExperiment)
    (experimentId userId : String) (execution : Option Execution) :
    Except RegistryError (Report × ResearchExperiment) :=
  if row.userId ≠ userId then .error (.task 404 s!"Experiment {experimentId} not found")
  else if row.status ≠ .completed ∧ row.status ≠ .validated then
    .error (.task 409
      s!"only completed experiments can be validated (status {row.status.text})")
  else validateRow services row (replayOutcome row execution)

/-! ## Approval -/

/-- `approve_experiment`, on the locked row, at a time. -/
def approveExperiment (row : ResearchExperiment) (approverId : String) (now : FloatText) :
    Except RegistryError ResearchExperiment :=
  if row.userId = approverId then
    .error (.experiment "an experiment cannot be approved by its owner (four-eyes rule)")
  else if row.status ≠ .validated then
    .error (.experiment
      s!"only validated experiments can be approved (status {row.status.text})")
  else .ok { row with status := .approved, approvedBy := some approverId, approvedAt := some now }

/-! ## What the operations write -/

/-- The columns a recording fills. -/
structure Recorded where
  results : Json
  resultHash : String
  completedAt : Option FloatText
  signingKeyId : Option String
  manifest : Json
  signature : String

/-- The recorded columns of a row. -/
def ResearchExperiment.recorded (row : ResearchExperiment) : Recorded :=
  ⟨row.resultsJson, row.resultHash, row.completedAt, row.signingKeyId, row.manifestJson,
    row.manifestSignature⟩

variable {services : Services} {row row' : ResearchExperiment}

/-- A row that a recording leaves is completed, and still the same user's. -/
theorem record_eq_ok {results : Json} {resultHash : String} {sign : Bool} {now : FloatText}
    (h : record services row results resultHash sign now = .ok row') :
    row'.status = .completed ∧ row'.userId = row.userId ∧ row'.approvedBy = row.approvedBy := by
  unfold record at h
  split at h
  · dsimp only at h
    split at h
    · cases h
    · cases h
      exact ⟨rfl, rfl, rfl⟩
  · cases h
    exact ⟨rfl, rfl, rfl⟩

/-- A run is recorded on a row without results only. -/
theorem finalizeRunJob_eq_ok {experimentId userId : String} {execution : Option Execution}
    {now : FloatText} (h : finalizeRunJob services row experimentId userId execution now = .ok row') :
    row.status = .created ∧ row'.status = .completed ∧ row'.userId = row.userId ∧
      row'.approvedBy = row.approvedBy := by
  unfold finalizeRunJob at h
  split at h
  · cases h
  · split at h
    · cases h
    · rename_i hcreated
      cases execution with
      | none => cases h
      | some execution =>
        dsimp only at h
        split at h
        · cases h
        · exact ⟨not_not.mp hcreated, record_eq_ok h⟩

/-- A validation writes its report and the status. -/
theorem validateRow_eq_ok {replay : ReplayOutcome} {report : Report}
    (h : validateRow services row replay = .ok (report, row')) :
    row'.recorded = row.recorded ∧ row'.userId = row.userId ∧
      row'.approvedBy = row.approvedBy ∧ row'.status ≠ .created ∧ row'.status ≠ .approved ∧
        (row'.status = .validated ↔ report.allGatesPassed = true) := by
  obtain ⟨deployment, -, h⟩ := bind_eq_ok_iff.mp h
  obtain ⟨manifest, -, h⟩ := bind_eq_ok_iff.mp h
  cases h
  dsimp only
  split <;> simp_all [ResearchExperiment.recorded]

/-- A row is validated again from a recorded one only. -/
theorem finalizeValidateJob_eq_ok {experimentId userId : String} {execution : Option Execution}
    {report : Report}
    (h : finalizeValidateJob services row experimentId userId execution = .ok (report, row')) :
    (row.status = .completed ∨ row.status = .validated) ∧
      validateRow services row (replayOutcome row execution) = .ok (report, row') := by
  unfold finalizeValidateJob at h
  split at h
  · cases h
  · split at h
    · cases h
    · rename_i hstatus
      exact ⟨by tauto, h⟩

/-- Only a validated row is approved, and not by its owner. -/
theorem approveExperiment_eq_ok {approverId : String} {now : FloatText}
    (h : approveExperiment row approverId now = .ok row') :
    row.status = .validated ∧ row.userId ≠ approverId ∧ row'.status = .approved ∧
      row'.approvedBy = some approverId ∧ row'.recorded = row.recorded ∧
        row'.userId = row.userId := by
  unfold approveExperiment at h
  split at h
  · cases h
  · rename_i howner
    split at h
    · cases h
    · rename_i hstatus
      cases h
      exact ⟨not_not.mp hstatus, howner, rfl, rfl, rfl, rfl⟩

end QuantumSentinel.Research
