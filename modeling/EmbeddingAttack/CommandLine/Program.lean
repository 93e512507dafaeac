import EmbeddingAttack.Attack.ParameterFile
import EmbeddingAttack.CommandLine.Arguments
import EmbeddingAttack.CommandLine.Mixer
import EmbeddingAttack.Engine.Reference
import EmbeddingAttack.Instance.Directory
import EmbeddingAttack.Json.Writer
import EmbeddingAttack.Lattice.FreeDimensionsText
import EmbeddingAttack.Text.Quoted
import EmbeddingAttack.Trials.Report

/-!
# The command line program

Attacks challenges of a directory, or generated instances, over a range of dimensions, and reports
on each trial.  The program is a function of its arguments and the files that it finds.  Its clock
counts the work of the engine, so that a run can be repeated.
-/

namespace EmbeddingAttack.CommandLine

/-- What a run of the program leaves: the exit code, the two outputs, and the files. -/
structure Result where
  exitCode : Nat
  stdout : String
  stderr : String
  files : FileTree

/-- The layout of the report. -/
inductive ReportFormat where
  | plain
  | json

/-- Everything that the command line says. -/
structure Settings where
  plan : TrialPlan
  challengeDirectory : String
  synthetic : Bool
  parameterFile : Option String
  logLevel : String
  format : ReportFormat
  parameters : AttackParameters Float

/-- The options for a number without a sign, with the parameter that each sets. -/
def natOptions : List (String × (AttackParameters Float → Nat → AttackParameters Float)) :=
  [("samples", fun p x => { p with samples := some x }),
    ("tours", fun p x => { p with tours := x }),
    ("jump", fun p x => { p with jump := x }),
    ("extra-dim4free", fun p x => { p with extraFreeDimensions := x }),
    ("enum-crossover", fun p x => { p with enumerationCrossover := x }),
    ("threads", fun p x => { p with threads := x }),
    ("lookahead-steps", fun p x => { p with lookaheadSteps := x }),
    ("search-dim-margin", fun p x => { p with searchDimensionMargin := x })]

/-- The options for a number, with the parameter that each sets. -/
def floatOptions : List (String × (AttackParameters Float → Float → AttackParameters Float)) :=
  [("alpha", fun p x => { p with alpha := x }),
    ("goal-margin", fun p x => { p with goalMargin := x }),
    ("svp-bkz-time-factor", fun p x => { p with searchTimeFactor := x }),
    ("cost-exponent", fun p x => { p with costExponent := x }),
    ("cost-dim-offset", fun p x => { p with costOffset := x })]

/-- The options for a truth value, with the parameter that each sets. -/
def boolOptions : List (String × (AttackParameters Float → Bool → AttackParameters Float)) :=
  [("dummy-tracer", fun p x => { p with dummyTracer := x }),
    ("verbose", fun p x => { p with verbose := x })]

/-- The options for a path, which must not be empty. -/
def pathOptions : List String :=
  ["challenge-dir", "params", "solution-dir"]

/-- The options for a number without a sign that say which trials to run. -/
def planOptions : List String :=
  ["upper-bound", "step-size", "trials", "workers", "seed"]

def freeDimensions? (text : String) : Option (FreeDimensions Float) :=
  (FreeDimensions.ofText text).toOption

def specification : Specification where
  options :=
    [⟨"help", .immediate 'h'⟩, ⟨"version", .immediate 'V'⟩,
      ⟨"synthetic", .flag⟩,
      ⟨"log-level", .value fun _ => true⟩,
      ⟨"format", .value fun s => s == "plain" || s == "json"⟩,
      ⟨"blocksizes", .value fun _ => true⟩,
      ⟨"dim4free-fun", .value fun s => (freeDimensions? s).isSome⟩] ++
    planOptions.map (fun name => ⟨name, .value fun s => (nat? s).isSome⟩) ++
    natOptions.map (fun o => ⟨o.1, .value fun s => (nat? s).isSome⟩) ++
    floatOptions.map (fun o => ⟨o.1, .value fun s => (float? s).isSome⟩) ++
    boolOptions.map (fun o => ⟨o.1, .value fun s => (bool? s).isSome⟩) ++
    pathOptions.map (fun name => ⟨name, .value (!·.isEmpty)⟩)
  positional := [fun s => (nat? s).isSome]

/-- Changes parameters by those of the given options that are there. -/
def applyOptions {τ : Type} (a : Arguments) (read? : String → Option τ)
    (options : List (String × (AttackParameters Float → τ → AttackParameters Float)))
    (p : AttackParameters Float) : AttackParameters Float :=
  options.foldl (fun p (name, set) =>
    match (a.value? name).bind read? with
    | some x => set p x
    | none => p) p

/-- The attack parameters that the options ask for. -/
def attackParameters (a : Arguments) : AttackParameters Float :=
  let p := applyOptions a nat? natOptions .standard
  let p := applyOptions a float? floatOptions p
  let p := applyOptions a bool? boolOptions p
  let p := applyOptions a freeDimensions?
    [("dim4free-fun", fun p f => { p with freeDimensions := f })] p
  let p := applyOptions a some
    [("solution-dir", fun p s => { p with solutionDirectory := s })] p
  { p with blocksizes := a.value? "blocksizes" }

def settings (a : Arguments) : Settings :=
  let natValue (name : String) : Option Nat := (a.value? name).bind nat?
  { plan :=
      { lowerBound := (a.positional.head?.bind nat?).getD 0
        upperBound := natValue "upper-bound"
        stepSize := (natValue "step-size").getD 1
        trials := (natValue "trials").getD 1
        seed := (natValue "seed").getD 0 }
    challengeDirectory := (a.value? "challenge-dir").getD "lwechallenge"
    synthetic := a.has "synthetic"
    parameterFile := a.value? "params"
    logLevel := (a.value? "log-level").getD "info"
    format := if a.value? "format" = some "json" then .json else .plain
    parameters := attackParameters a }

def logLevels : List String :=
  ["error", "warn", "info", "debug", "trace"]

/-- The clock of a run: one millionth of a second for each step and each node of an enumeration. -/
def workClock : Clock Float Statistics := fun work =>
  (Float.ofNat (work.iterations + work.nodes) * 1e-6, work)

/-- Runs one trial with an engine of its own. -/
def kernel (S : Settings) (p : AttackParameters Float) : Trials.Kernel Float FileTree :=
  fun job files =>
    let source : InstanceSource Float :=
      if S.synthetic then Synthetic.source none
      else ChallengeDirectory.source files S.challengeDirectory
    let attack : Attack Float := ⟨p, source, Estimate.cheapest p.costExponent 3⟩
    let engine := ReferenceEngine.engine (BlockReduction.standard : BlockReduction Float)
    match attack.run engine workClock job.n job.seed ({}, files) with
    | .ok outcome (_, files) => (.ok outcome, files)
    | .error e (_, files) => (.error e, files)

/-- Why the program ends without success. -/
inductive Fault where
  | logLevel (level : String)
  | failure (e : Failure Float)
  | unsolved

/-- A failure in the form of a constructor and its quoted text. -/
def Fault.text : Fault → String
  | .logLevel level => Text.quote ("unknown log level '" ++ level ++ "'")
  | .unsolved => Text.quote "no trial found a solution"
  | .failure e =>
    match e with
    | .parameters fault => "InvalidParameters(" ++ Text.quote fault.message ++ ")"
    | .parse fault => "Parse(" ++ Text.quote fault.message ++ ")"
    | .file fault => "IoError(" ++ Text.quote fault.message ++ ")"
    | e => Text.quote e.message

/-- The parameters of all trials: those of the parameter file where there is one, else those of the
options. -/
def Settings.attackParameters (S : Settings) (files : FileTree) :
    Except (Failure Float) (AttackParameters Float) := do
  let p ←
    match S.parameterFile with
    | some path => ParameterFile.load files path
    | none => pure S.parameters
  p.validate
  return p

/-- Runs all trials.  Returns the reports and the files afterwards. -/
def Settings.trials (S : Settings) (files : FileTree) :
    Except Fault (List (TrialReport Float) × FileTree) :=
  if S.logLevel ∈ logLevels then
    Except.mapError Fault.failure do
      let p ← S.attackParameters files
      Trials.runAll S.plan id (kernel S p) files
  else .error (.logLevel S.logLevel)

def Settings.report (S : Settings) (reports : List (TrialReport Float)) : String :=
  match S.format with
  | .plain => reportLines reports
  | .json => String.ofList (Json.pretty 0 (.list (TrialReport.toJson .float) reports))

/-- Runs the program with the given settings. -/
def Settings.run (S : Settings) (files : FileTree) : Result :=
  let failed (fault : Fault) : String := "Error: " ++ fault.text ++ "\n"
  match S.trials files with
  | .error fault => ⟨1, "", failed fault, files⟩
  | .ok (reports, files) =>
    let report := S.report reports ++ "\n"
    if reports.any (·.isSuccess) then ⟨0, report, "", files⟩
    else ⟨1, report, failed .unsolved, files⟩

def versionText : String :=
  "lwe-primal 0.1.0\n"

def usageText : String :=
  "Usage: lwe-primal [OPTIONS] <LOWER_BOUND>\n"

def helpText : String :=
  "Primal attack on LWE challenge instances with adaptive BKZ/search scheduling\n\n" ++ usageText ++
    "\nOptions:\n" ++
    String.join (specification.options.map fun o => "  --" ++ o.name ++
      (match o.kind with
        | .value _ => " <VALUE>"
        | _ => "") ++ "\n")

/-- Runs the program with the given arguments on the files that it finds. -/
def run (args : List String) (files : FileTree) : Result :=
  match specification.read args with
  | .usage => ⟨2, "", "error: invalid arguments\n\n" ++ usageText, files⟩
  | .immediate name => ⟨0, if name = "version" then versionText else helpText, "", files⟩
  | .arguments a => (settings a).run files

end EmbeddingAttack.CommandLine
