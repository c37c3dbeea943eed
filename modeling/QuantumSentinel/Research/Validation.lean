import Mathlib.Logic.Function.Basic
import QuantumSentinel.Lib.Digests
import QuantumSentinel.Research.Experiments

/-!
# Research: what a validation covers

A validation compares the stored columns with the manifest, the hashes of the stored inputs with
the recorded ones, and a new execution with the recorded result.  The results the deployment gates
are evaluated on are hashed by none of the gates.

Main results:

- Theorem `validateRow_validated`: what holds when every gate passes.
- Theorem `validation_covers_iff`: a validated row is covered by its signed manifest exactly
  when its results still hash to the recorded value.
- Theorem `validation_covers_edited`: edited results are validated.

Current gaps:

- The execution of a strategy is a parameter; it must not depend on the order of members.
-/

namespace QuantumSentinel.Research

open Lib

variable {services : Services} {runner : Runner} {row row' : ResearchExperiment}

/-! ## What the gates check -/

/-- What the integrity gates have checked. -/
structure Checked (services : Services) (row : ResearchExperiment) (execution : Option Execution) :
    Prop where
  signed : services.verifyManifestSignature row.manifestJson row.manifestSignature = true
  consistent : ∀ field ∈ boundFields (toExperiment row),
    ((row.manifestJson.get? field.1).getD .null).same field.2 = true
  inputs : inputsUnchanged services row = true
  reproduced : ∃ e ∈ execution, row.strategyId ∈ executableStrategyIds ∧
    e.inputs = recordedInputs row ∧ e.resultHash = row.resultHash

/-- The outcome of a replay that reproduced the result. -/
theorem replayOutcome_reproduced {execution : Option Execution}
    (h : (replayOutcome row execution).resultReproduced.getD false = true) :
    ∃ e ∈ execution, row.strategyId ∈ executableStrategyIds ∧
      e.inputs = recordedInputs row ∧ e.resultHash = row.resultHash := by
  cases execution with
  | none => cases h
  | some e =>
    simp only [replayOutcome] at h
    split at h
    · cases h
    · rename_i hexecutable
      rw [not_or, not_not] at hexecutable
      simp only [Option.getD_some, Bool.and_eq_true, decide_eq_true_eq] at h
      exact ⟨e, rfl, hexecutable.1, h.1, h.2⟩

/-- A manifest that was looked at and found valid and consistent. -/
theorem manifestView_valid (h : manifestView services row = .ok ⟨true, true⟩) :
    services.verifyManifestSignature row.manifestJson row.manifestSignature = true ∧
      ∀ field ∈ boundFields (toExperiment row),
        ((row.manifestJson.get? field.1).getD .null).same field.2 = true := by
  unfold manifestView at h
  split at h
  · cases h
  · split at h
    · rename_i members hmembers
      rw [hmembers]
      simp only [Except.ok.injEq, ManifestView.mk.injEq, List.all_eq_true] at h
      exact h
    · cases h

/-- A manifest that is valid and consistent. -/
theorem manifestView_of_valid {m : String × Json} {members : List (String × Json)}
    (hmanifest : row.manifestJson = .obj (m :: members))
    (hsignature : services.verifyManifestSignature row.manifestJson row.manifestSignature = true)
    (hfields : ((boundFields (toExperiment row)).all fun field =>
      ((row.manifestJson.get? field.1).getD .null).same field.2) = true) :
    manifestView services row = .ok ⟨true, true⟩ := by
  rw [hmanifest] at hsignature hfields
  unfold manifestView
  rw [hmanifest]
  simp only [Json.truthy, List.isEmpty_cons, Bool.not_false, Bool.true_eq_false, if_false,
    hsignature]
  exact congrArg (fun b => Except.ok (ManifestView.mk true b)) hfields

/-- The fallback signature outside production. -/
theorem verifyManifestSignature_hmac {manifest : Json} {signature digest : String}
    (hsignature : signature ≠ "") (hstripped : afterPrefix "hmac-sha256:" signature = some digest)
    (hproduction : services.production = false)
    (hdigest : services.hmacSha256 (encodeChars (manifest.dumps signedStyle)) = digest) :
    services.verifyManifestSignature manifest signature = true := by
  unfold Services.verifyManifestSignature
  rw [if_neg hsignature, hstripped]
  simp only [hproduction, hdigest, Bool.not_false, decide_true, Bool.and_true]

/-- What holds when every gate passes. -/
theorem validateRow_validated {execution : Option Execution} {report : Report}
    (h : validateRow services row (replayOutcome row execution) = .ok (report, row'))
    (hstatus : row'.status = .validated) : Checked services row execution := by
  obtain ⟨deployment, -, h⟩ := bind_eq_ok_iff.mp h
  obtain ⟨manifest, hmanifest, h⟩ := bind_eq_ok_iff.mp h
  have hpassed : ((deployment.gates ++
      integrityGates services row (replayOutcome row execution) manifest).all Gate.passed) = true := by
    cases h
    by_contra hfailed
    rw [if_neg hfailed] at hstatus
    cases hstatus
  rw [List.all_append, Bool.and_eq_true] at hpassed
  simp only [integrityGates, List.all_cons, List.all_nil, Bool.and_true, Bool.and_eq_true]
    at hpassed
  obtain ⟨-, hsigned, hconsistent, hinputs, hreproduced⟩ := hpassed
  rcases manifest with ⟨valid, consistent⟩
  dsimp only at hsigned hconsistent
  rw [hsigned, hconsistent] at hmanifest
  obtain ⟨hsignature, hfields⟩ := manifestView_valid hmanifest
  exact ⟨hsignature, hfields, hinputs, replayOutcome_reproduced hreproduced⟩

/-- A row on which every gate passes is validated. -/
theorem validateRow_of_passed {deployment : Report} {replay : ReplayOutcome}
    (hdeployment : validateForDeployment (toExperiment row) = .ok deployment)
    (hpassed : deployment.gates.all Gate.passed = true)
    (hmanifest : manifestView services row = .ok ⟨true, true⟩)
    (hinputs : inputsUnchanged services row = true) (hreplay : replay.resultReproduced = some true) :
    ∃ report row', validateRow services row replay = .ok (report, row') ∧
      row'.status = .validated := by
  have hall : (deployment.gates ++ integrityGates services row replay ⟨true, true⟩).all
      Gate.passed = true := by
    rw [List.all_append, hpassed]
    simp [integrityGates, hinputs, hreplay]
  refine ⟨_, _, bind_eq_ok_iff.mpr ⟨deployment, hdeployment,
    bind_eq_ok_iff.mpr ⟨⟨true, true⟩, hmanifest, rfl⟩⟩, ?_⟩
  exact if_pos hall

namespace Checked

variable {execution : Option Execution}

/-- A text field of the manifest is the one of the record. -/
theorem text (h : Checked services row execution) {name value : String}
    (hfield : (name, .str value) ∈ boundFields (toExperiment row)) :
    row.manifestJson.get? name = some (.str value) := by
  have hsame := Json.same_str.mp (h.consistent _ hfield)
  rcases hget : row.manifestJson.get? name with _ | v
  · rw [hget] at hsame
    cases hsame
  · rw [hget, Option.getD_some] at hsame
    rw [hsame]

/-- The seed of the manifest is the one of the record. -/
theorem seed (h : Checked services row execution) :
    (row.manifestJson.get? "random_seed").bind Json.number? = some (.finite row.randomSeed) := by
  have hfield : ("random_seed", Json.int row.randomSeed) ∈ boundFields (toExperiment row) := by
    simp [boundFields, toExperiment]
  have hsame := Json.same_int (h.consistent _ hfield)
  rcases hget : row.manifestJson.get? "random_seed" with _ | v
  · rw [hget] at hsame
    cases hsame
  · rw [hget, Option.getD_some] at hsame
    exact hsame

end Checked

/-! ## Executions -/

/-- A strategy reads objects by the names of their members. -/
def OrderFree (runner : Runner) : Prop :=
  ∀ strategyId seed {d d' p p' : Json}, d.sorted = d'.sorted → p.sorted = p'.sorted →
    runner strategyId d p seed = runner strategyId d' p' seed

/-- An execution of a job ran an executable strategy on the job's inputs. -/
theorem experimentExecution_eq_ok {job : ExperimentJob} {e : Execution}
    (h : experimentExecution services runner job = .ok (some e)) :
    job.strategyId ∈ executableStrategyIds ∧
      runner job.strategyId job.dataset job.parameters.orEmpty job.randomSeed = .ok e.results ∧
      e.resultHash = services.hashJson e.results ∧
      e.inputs = inputHashes services job.dataset job.parameters job.randomSeed := by
  unfold experimentExecution at h
  split at h
  · cases h
  · split at h
    · cases h
    · cases h
    · rename_i results hrun
      cases h
      unfold runStrategy at hrun
      split at hrun
      · rename_i hid
        split at hrun
        · rename_i hok
          cases hrun
          exact ⟨hid, hok, rfl, rfl⟩
        · cases hrun
      · cases hrun

section Hashes

variable (hhash : Function.Injective services.sha256) (hdigest : ∀ bytes, services.sha256 bytes ≠ "")

include hhash in
/-- Values with one hash are the same up to the order of members. -/
theorem hashJson_injective {v w : Json} (h : services.hashJson v = services.hashJson w) :
    v.sorted = w.sorted :=
  Json.dumps_injective (encodeChars_injective (hhash h))

include hhash hdigest in
theorem datasetHash_injective {v w : Json} (h : services.datasetHash v = services.datasetHash w) :
    v.sorted = w.sorted := by
  cases v <;> cases w <;> first
    | rfl
    | exact absurd h (hdigest _)
    | exact absurd h.symm (hdigest _)
    | exact hashJson_injective hhash h

/-! ## What the manifest covers -/

/-- The stored inputs and results are those whose hashes the manifest contains, and executing the
strategy on the inputs gives the result whose hash it contains. -/
structure Covered (services : Services) (runner : Runner) (row : ResearchExperiment) : Prop where
  dataset : row.manifestJson.get? "dataset_hash" = some (.str (services.datasetHash row.datasetJson))
  parameters : row.manifestJson.get? "parameter_hash" =
    some (.str (services.hashJson row.parametersJson.orEmpty))
  seed : (row.manifestJson.get? "random_seed").bind Json.number? = some (.finite row.randomSeed)
  results : row.manifestJson.get? "result_hash" =
    some (.str (services.hashJson row.resultsJson.orEmpty))
  reexecuted : ∃ results,
    runner row.strategyId row.datasetJson row.parametersJson.orEmpty row.randomSeed = .ok results ∧
      row.manifestJson.get? "result_hash" = some (.str (services.hashJson results))

include hhash hdigest in
/-- The execution that a validation was given is one of the stored inputs. -/
theorem Checked.reexecuted {job : ExperimentJob} {execution : Option Execution}
    (h : Checked services row execution) (hrunner : OrderFree runner)
    (hjob : experimentExecution services runner job = .ok execution) :
    ∃ results,
      runner row.strategyId row.datasetJson row.parametersJson.orEmpty row.randomSeed =
        .ok results ∧ row.resultHash = services.hashJson results := by
  obtain ⟨e, he, hid, hinputs, hresult⟩ := h.reproduced
  rw [he] at hjob
  obtain ⟨hjobId, hrun, hhashed, hjobInputs⟩ := experimentExecution_eq_ok hjob
  have hsameId : job.strategyId = row.strategyId := by
    rw [List.mem_singleton.mp hjobId, List.mem_singleton.mp hid]
  have hunchanged := h.inputs
  simp only [inputsUnchanged, Bool.and_eq_true, decide_eq_true_eq] at hunchanged
  have hrecorded : inputHashes services job.dataset job.parameters job.randomSeed =
      recordedInputs row := hjobInputs.symm.trans hinputs
  obtain ⟨hdataset, hparameters, hseed⟩ := Inputs.mk.injEq .. ▸ hrecorded
  have hd := datasetHash_injective hhash hdigest (hdataset.trans hunchanged.1.symm)
  have hp := hashJson_injective hhash (hparameters.trans hunchanged.2.symm)
  refine ⟨e.results, ?_, hresult.symm.trans hhashed⟩
  rw [← hsameId, ← hseed, ← hrunner _ _ hd hp]
  exact hrun

/-- A row that a validation job sets to VALIDATED has a manifest that was signed, and is covered
by it exactly when the stored results still hash to the recorded value. -/
theorem validation_covers_iff {services : Services} {runner : Runner} (signed : Bytes → Prop)
    (hhash : Function.Injective services.sha256) (hdigest : ∀ bytes, services.sha256 bytes ≠ "")
    (hrunner : OrderFree runner) {job : ExperimentJob} {execution : Option Execution}
    (hjob : experimentExecution services runner job = .ok execution)
    {row row' : ResearchExperiment} {report : Report} {experimentId userId : String}
    (hsigned : services.verifyManifestSignature row.manifestJson row.manifestSignature = true →
      signed (encodeChars (row.manifestJson.dumps signedStyle)))
    (hvalid : finalizeValidateJob services row experimentId userId execution = .ok (report, row'))
    (hstatus : row'.status = .validated) :
    signed (encodeChars (row.manifestJson.dumps signedStyle)) ∧
      (Covered services runner row ↔
        services.hashJson row.resultsJson.orEmpty = row.resultHash) := by
  have hchecked := validateRow_validated (finalizeValidateJob_eq_ok hvalid).2 hstatus
  have hunchanged := hchecked.inputs
  simp only [inputsUnchanged, Bool.and_eq_true, decide_eq_true_eq] at hunchanged
  have hdataset : row.manifestJson.get? "dataset_hash" = some (.str row.datasetHash) :=
    hchecked.text (by simp [boundFields, toExperiment])
  have hparameters : row.manifestJson.get? "parameter_hash" = some (.str row.parameterHash) :=
    hchecked.text (by simp [boundFields, toExperiment])
  have hresult : row.manifestJson.get? "result_hash" = some (.str row.resultHash) :=
    hchecked.text (by simp [boundFields, toExperiment])
  refine ⟨hsigned hchecked.signed, ?_, ?_⟩
  · intro hcovered
    have hsame := hresult.symm.trans hcovered.results
    rw [Option.some.injEq, Json.str.injEq] at hsame
    exact hsame.symm
  · intro hresults
    obtain ⟨results, hrun, hhashed⟩ := hchecked.reexecuted hhash hdigest hrunner hjob
    exact
      { dataset := hunchanged.1 ▸ hdataset
        parameters := hunchanged.2 ▸ hparameters
        seed := hchecked.seed
        results := hresults ▸ hresult
        reexecuted := ⟨results, hrun, hhashed ▸ hresult⟩ }

end Hashes

/-! ## Edited results -/

/-- One bar, from which two events are generated and none is traded on. -/
def replayedDataset : Json :=
  .arr [.obj [("timestamp", .int 1700000000), ("open", .int 100), ("high", .int 102),
    ("low", .int 99), ("close", .int 100)]]

def replayedParameters : Json :=
  .obj [("events_per_bar", .int 2)]

/-- `0.0` and `100000.0` -/
def noMoney : Json :=
  literal ['0', '.', '0'] isFloatText_zero

def initialMoney : Json :=
  literal ['1', '0', '0', '0', '0', '0', '.', '0'] rfl

/-- The result of the strategy, with a profit and a fill ratio written into it or not. -/
def replayedResults (edited : Bool) : Json :=
  .obj [
    ("l2_dataset_hash", .str "f364239a41b79dd1570e160eb87678c11d2f90483b9b839d62fb1140ad8af42a"),
    ("data_source", .str "synthetic"), ("total_events", .int 2), ("strategy_signals", .int 0),
    ("portfolio", .obj [("trading_mode", .str "paper"), ("initial_cash", initialMoney),
      ("cash", initialMoney), ("committed_cash", noMoney),
      ("mark_price", literal "99.99000000000001".toList (by decide)),
      ("total_realized_pnl", .int 0), ("total_unrealized_pnl", .int 0),
      ("total_pnl", if edited then literal ['1', '.', '0'] isFloatText_one else noMoney),
      ("equity", initialMoney), ("positions", .obj []), ("total_orders", .int 0),
      ("total_fills", .int 0), ("events_processed", .int 2)]),
    ("execution_metrics", .obj (if edited then [("fill_ratio", literal ['1', '.', '0'] isFloatText_one)]
      else [("total_orders", .int 0)])),
    ("implementation_shortfall", .obj [("total_is", noMoney), ("total_is_bps", .int 0)]),
    ("fills_hash", .str "4f53cda18c2baa0c0354bb5f9a3ecbe5ed12ab4d8e11ba873c2f11161202b945"),
    ("orders_hash", .str "4f53cda18c2baa0c0354bb5f9a3ecbe5ed12ab4d8e11ba873c2f11161202b945"),
    ("max_position_size", literal ['1', '0', '0', '.', '0'] rfl), ("latency_ms", .int 0)]

/-- The row of the experiment before its manifest; its results are edited or not. -/
def unsignedRow (edited : Bool) : ResearchExperiment where
  id := "QS-1A2B3C4D"
  userId := "researcher"
  strategyId := "obi_momentum"
  strategyVersion := "1.0"
  datasetId := "bars"
  datasetJson := replayedDataset
  datasetHash := "929a9102cfa035f43db25511c99cc2afdff712428f030a77ab038f263020083d"
  parametersJson := replayedParameters
  parameterHash := "48e0739d09e29cd2ed3f519900dcb45be15922c05c2e24b20d6058b8ebd5767d"
  codeCommit := "unknown"
  randomSeed := 42
  executionModel := "LOB_QUEUE_V2"
  latencyModel := "zero"
  status := .completed
  resultHash := "6618d2aed387a8e68c89f155b3344305c43fefb9e4c2ffc6f6986555f0215289"
  resultsJson := replayedResults edited
  validationGatesJson := .obj []
  manifestSignature :=
    "hmac-sha256:7a9948891cc25fbba64924a699b54db4208bb179dbfe8b789a6ceec17f88ed2d"
  createdAt := some ⟨"1760000000.5".toList, by decide⟩
  completedAt := some ⟨"1760000060.25".toList, by decide⟩
  strategyHash := some "ac3cf80a76571d94188bc6697f42783ecef41dc64c438462b54fafb70bc1591e"
  dependencyLockHash := some "5b72a4b3a07b7dbc47828771ef75aedfef6d928362a0f4a4486889dcb8d1bd7c"
  engineVersion := some engineVersion
  signingKeyId := some "key-1"
  manifestJson := .null
  approvedBy := none
  approvedAt := none

/-- The manifest of the experiment. -/
def replayedManifest : Json :=
  buildManifest (toExperiment (unsignedRow false))

/-- The row whose results were edited after they had been signed. -/
def editedRow : ResearchExperiment :=
  { unsignedRow true with manifestJson := replayedManifest }

/-- The hashed texts of the experiment. -/
def replayedDigests : Digests where
  table := [
    (encodeChars (replayedDataset.dumps hashedStyle),
      0x929a9102cfa035f43db25511c99cc2afdff712428f030a77ab038f263020083d),
    (encodeChars (replayedParameters.dumps hashedStyle),
      0x48e0739d09e29cd2ed3f519900dcb45be15922c05c2e24b20d6058b8ebd5767d),
    (encodeChars ((replayedResults false).dumps hashedStyle),
      0x6618d2aed387a8e68c89f155b3344305c43fefb9e4c2ffc6f6986555f0215289),
    (encodeChars ((replayedResults true).dumps hashedStyle),
      0x910e6cfdc4f23a0742a54d5536c4fa36e3af5fbe765de20367e598a0ba765381)]
  nodup := by decide
  small := by decide

/-- The hashes of the experiment, and the HMAC of its manifest in a development environment with
the secret `secret`. -/
def replayedServices : Services where
  sha256 := replayedDigests.hash
  production := false
  dsaSign _ := none
  hmacSha256 text :=
    if text = encodeChars (replayedManifest.dumps signedStyle) then
      "7a9948891cc25fbba64924a699b54db4208bb179dbfe8b789a6ceec17f88ed2d"
    else ""
  manifestPublicKey _ := none
  dsaVerify _ _ _ := false
  keyId := some "key-1"

/-- The strategy on the sample inputs. -/
def replayedRunner : Runner := fun _ dataset parameters seed =>
  if dataset.dumps hashedStyle = replayedDataset.dumps hashedStyle ∧
      parameters.dumps hashedStyle = replayedParameters.dumps hashedStyle ∧ seed = 42 then
    .ok (replayedResults false)
  else .error "not the sample inputs"

/-- The job of the validation. -/
def replayedJob : ExperimentJob :=
  ⟨"QS-1A2B3C4D", "obi_momentum", replayedDataset, replayedParameters, 42, true⟩

/-- What the job hands back. -/
def replayedExecution : Execution where
  results := replayedResults false
  resultHash := replayedServices.hashJson (replayedResults false)
  inputs := inputHashes replayedServices replayedDataset replayedParameters 42

theorem replayedExecution_eq :
    experimentExecution replayedServices replayedRunner replayedJob =
      .ok (some replayedExecution) := by
  have hrun : replayedRunner "obi_momentum" replayedDataset replayedParameters.orEmpty 42 =
      .ok (replayedResults false) :=
    if_pos ⟨rfl, rfl, rfl⟩
  simp only [experimentExecution, replayedJob, runStrategy, executableStrategyIds,
    List.mem_singleton, if_true, hrun, replayedExecution, Bool.true_eq_false, if_false]

/-- The parts of the edited row, evaluated together. -/
theorem editedRow_evaluated :
    editedRow.manifestSignature ≠ "" ∧
      afterPrefix "hmac-sha256:" editedRow.manifestSignature =
        some "7a9948891cc25fbba64924a699b54db4208bb179dbfe8b789a6ceec17f88ed2d" ∧
      ((boundFields (toExperiment editedRow)).all fun field =>
        ((editedRow.manifestJson.get? field.1).getD .null).same field.2) = true ∧
      (validateForDeployment (toExperiment editedRow)).toOption.any
        (·.gates.all Gate.passed) = true ∧
      ¬(editedRow.strategyId ∉ executableStrategyIds ∨ editedRow.resultHash = "") := by
  decide +kernel

/-- The texts differ at an early character, and so do their digests. -/
theorem replayedDigests_evaluated :
    (replayedDigests.table.map Prod.fst).Nodup ∧
      replayedDigests.table.map (fun entry => hexdigest entry.2) =
        ["929a9102cfa035f43db25511c99cc2afdff712428f030a77ab038f263020083d",
          "48e0739d09e29cd2ed3f519900dcb45be15922c05c2e24b20d6058b8ebd5767d",
          "6618d2aed387a8e68c89f155b3344305c43fefb9e4c2ffc6f6986555f0215289",
          "910e6cfdc4f23a0742a54d5536c4fa36e3af5fbe765de20367e598a0ba765381"] ∧
      "910e6cfdc4f23a0742a54d5536c4fa36e3af5fbe765de20367e598a0ba765381" ≠
        editedRow.resultHash := by
  decide +kernel

theorem replayedRunner_orderFree : OrderFree replayedRunner := by
  intro strategyId seed d d' p p' hd hp
  unfold replayedRunner Json.dumps
  rw [hd, hp]

/-- The hashes of the texts, in the order of the table. -/
theorem hashJson_replayed (v : Json) (n : ℕ)
    (h : (replayedDigests.table.map Prod.fst)[n]? = some (encodeChars (v.dumps hashedStyle))) :
    some (replayedServices.hashJson v) =
      (replayedDigests.table.map fun entry => hexdigest entry.2)[n]? := by
  rw [List.getElem?_map] at h ⊢
  obtain ⟨entry, hentry, hkey⟩ := Option.map_eq_some_iff.mp h
  have hmem : (encodeChars (v.dumps hashedStyle), entry.2) ∈ replayedDigests.table := by
    rw [← hkey]
    exact List.mem_of_getElem? hentry
  rw [hentry]
  exact congrArg some (replayedDigests.hash_of_mem replayedDigests_evaluated.1 hmem)

theorem hashJson_replayedDataset : replayedServices.hashJson replayedDataset =
    "929a9102cfa035f43db25511c99cc2afdff712428f030a77ab038f263020083d" := by
  have h := hashJson_replayed replayedDataset 0 rfl
  rw [replayedDigests_evaluated.2.1] at h
  exact Option.some.inj h

theorem hashJson_replayedParameters : replayedServices.hashJson replayedParameters =
    "48e0739d09e29cd2ed3f519900dcb45be15922c05c2e24b20d6058b8ebd5767d" := by
  have h := hashJson_replayed replayedParameters 1 rfl
  rw [replayedDigests_evaluated.2.1] at h
  exact Option.some.inj h

/-- The hash of the result, and the one of the edited results. -/
theorem hashJson_replayedResults (edited : Bool) :
    replayedServices.hashJson (replayedResults edited) =
      if edited then "910e6cfdc4f23a0742a54d5536c4fa36e3af5fbe765de20367e598a0ba765381"
      else "6618d2aed387a8e68c89f155b3344305c43fefb9e4c2ffc6f6986555f0215289" := by
  cases edited with
  | false =>
    have h := hashJson_replayed (replayedResults false) 2 rfl
    rw [replayedDigests_evaluated.2.1] at h
    exact Option.some.inj h
  | true =>
    have h := hashJson_replayed (replayedResults true) 3 rfl
    rw [replayedDigests_evaluated.2.1] at h
    exact Option.some.inj h

/-- The stored results do not have the recorded hash. -/
theorem editedRow_results :
    replayedServices.hashJson editedRow.resultsJson.orEmpty ≠ editedRow.resultHash := by
  have hedited : editedRow.resultsJson.orEmpty = replayedResults true := rfl
  rw [hedited, hashJson_replayedResults]
  exact replayedDigests_evaluated.2.2

/-- The signature of the manifest still verifies, and it agrees with the edited row. -/
theorem editedRow_manifest : manifestView replayedServices editedRow = .ok ⟨true, true⟩ := by
  obtain ⟨hsigned, hstripped, hfields, -⟩ := editedRow_evaluated
  have hmac : replayedServices.hmacSha256 (encodeChars (replayedManifest.dumps signedStyle)) =
      "7a9948891cc25fbba64924a699b54db4208bb179dbfe8b789a6ceec17f88ed2d" := by
    simp only [replayedServices, if_true]
  have hsignature : replayedServices.verifyManifestSignature replayedManifest
      editedRow.manifestSignature = true :=
    verifyManifestSignature_hmac hsigned hstripped rfl hmac
  exact manifestView_of_valid rfl hsignature hfields

/-- The edited row is validated. -/
theorem editedRow_validated : ∃ report row',
    finalizeValidateJob replayedServices editedRow "QS-1A2B3C4D" "researcher"
      (some replayedExecution) = .ok (report, row') ∧ row'.status = .validated := by
  obtain ⟨-, -, -, hgates, hexecuted⟩ := editedRow_evaluated
  have hrecorded : replayedExecution.inputs = recordedInputs editedRow := by
    have hinputs : replayedExecution.inputs =
        ⟨replayedServices.hashJson replayedDataset, replayedServices.hashJson replayedParameters,
          42⟩ := rfl
    rw [hinputs, hashJson_replayedDataset, hashJson_replayedParameters]
    rfl
  have hresult : replayedExecution.resultHash = editedRow.resultHash := by
    simp only [replayedExecution, hashJson_replayedResults, Bool.false_eq_true, if_false]
    rfl
  have hinputs : inputsUnchanged replayedServices editedRow = true := by
    have hunchanged : inputsUnchanged replayedServices editedRow =
        (decide (replayedServices.hashJson replayedDataset = editedRow.datasetHash) &&
          decide (replayedServices.hashJson replayedParameters = editedRow.parameterHash)) := rfl
    rw [hunchanged, hashJson_replayedDataset, hashJson_replayedParameters, Bool.and_eq_true,
      decide_eq_true_eq, decide_eq_true_eq]
    exact ⟨rfl, rfl⟩
  have hreplay : (replayOutcome editedRow (some replayedExecution)).resultReproduced =
      some true := by
    simp only [replayOutcome, if_neg hexecuted, hrecorded, hresult, decide_true, Bool.and_true]
  rcases hdeployment : validateForDeployment (toExperiment editedRow) with e | deployment
  · rw [hdeployment] at hgates
    cases hgates
  · rw [hdeployment] at hgates
    exact validateRow_of_passed hdeployment hgates editedRow_manifest hinputs hreplay

theorem validation_covers_iff_sample : ¬ Covered replayedServices replayedRunner editedRow := by
  obtain ⟨report, row', hvalid, hstatus⟩ := editedRow_validated
  have hcovers := validation_covers_iff (fun text => text = encodeChars (replayedManifest.dumps
      signedStyle)) (fun a b h => Digests.hash_injective _ a b h) (Digests.hash_ne_empty _)
    replayedRunner_orderFree replayedExecution_eq (fun _ => rfl) hvalid hstatus
  exact fun hcovered => editedRow_results (hcovers.2.mp hcovered)

/-- A validation passes on results that nobody signed. -/
theorem validation_covers_edited : ∃ report row',
    experimentExecution replayedServices replayedRunner replayedJob =
        .ok (some replayedExecution) ∧
      finalizeValidateJob replayedServices editedRow "QS-1A2B3C4D" "researcher"
        (some replayedExecution) = .ok (report, row') ∧ row'.status = .validated ∧
          ¬ Covered replayedServices replayedRunner editedRow := by
  obtain ⟨report, row', hvalid, hstatus⟩ := editedRow_validated
  refine ⟨report, row', replayedExecution_eq, hvalid, hstatus, fun hcovered => ?_⟩
  have hrecorded : editedRow.manifestJson.get? "result_hash" = some (.str editedRow.resultHash) :=
    rfl
  have hsame := hrecorded.symm.trans hcovered.results
  rw [Option.some.injEq, Json.str.injEq] at hsame
  exact editedRow_results hsame.symm

end QuantumSentinel.Research
