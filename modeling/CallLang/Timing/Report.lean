/-
# `CallLang.Timing.Report` — timing the benchmark and reporting it

A program is scanned, parsed and evaluated once before it is timed.  Then its
parsing is sampled, then its evaluation, on one clock that runs on.  The report
is a line for each of the two, and a document with all numbers at will.
-/
import CallLang.Run
import CallLang.Timing.Benchmark
import CallLang.Timing.Clock
import CallLang.Timing.Document
import CallLang.Timing.Options

namespace CallLang

/-! ## Rows -/

/-- The times of one stage of one program, in milliseconds per call. -/
structure TimingRow where
  benchmark : Benchmark
  stage : String
  size : Int
  mean : Real64
  median : Real64
  tail : Real64
  least : Real64
  greatest : Real64
  repeats : Int
  samples : Int

/-- Why a program could not be timed. -/
inductive CaseError
  | run (e : RunError)
  | stats (e : StatsError)
  deriving DecidableEq, Repr

/-- The text of the report. -/
def CaseError.message : CaseError → String
  | .run e => e.message
  | .stats e => e.message

/-- The percentile that is called the median. -/
def medianPlace : Real64 := (⟨5, -1⟩ : Decimal).toBinary false

/-- The percentile that shows the slow end. -/
def tailPlace : Real64 := (⟨95, -2⟩ : Decimal).toBinary false

/-- Sums up the times of a stage. -/
def TimingRow.ofTimes (benchmark : Benchmark) (stage : String) (size repeats samples : Int)
    (times : List Real64) : Except StatsError TimingRow :=
  match times with
  | [] => .error .divisionByZero
  | first :: rest => do
    let average ← CallLang.mean times
    let median ← percentile times medianPlace
    let tail ← percentile times tailPlace
    .ok ⟨benchmark, stage, size, average, median, tail,
      CallLang.least first rest, CallLang.greatest first rest, repeats, samples⟩

/-- Runs the program of a family and a size once. -/
def warmUp (benchmark : Benchmark) (size : Int) : Except CaseError Unit :=
  match (run .write (benchmark.source size)).result with
  | .ok _ => .ok ()
  | .error e => .error (.run e)

/-- Times the two stages of a program. -/
def timeCase (benchmark : Benchmark) (size repeats samples : Int) (clock : Clock) :
    Except CaseError (List TimingRow × Clock) := do
  warmUp benchmark size
  let measured : Except StatsError (List TimingRow × Clock) := do
    let (parseTimes, clock) ← clock.sample repeats samples.toNat
    let (evalTimes, clock) ← clock.sample repeats samples.toNat
    let parseRow ← TimingRow.ofTimes benchmark "parse" size repeats samples parseTimes
    let evalRow ← TimingRow.ofTimes benchmark "evaluate" size repeats samples evalTimes
    .ok ([parseRow, evalRow], clock)
  measured.mapError .stats

/-! ## Lines and documents -/

/-- A text filled up to a width with spaces. -/
def padRight (width : Nat) (text : String) : String :=
  text ++ String.ofList (List.replicate (width - text.length) ' ')

/-- An integer right-aligned in a width. -/
def alignedInt (width : Nat) (n : Int) : String :=
  String.ofList (padLeft width ' ' (integerText n).toList)

/-- The line that reports a row. -/
def TimingRow.line (r : TimingRow) : String :=
  padRight 10 r.benchmark.label ++ " " ++ padRight 8 r.stage ++ " n=" ++ alignedInt 4 r.size
    ++ " mean=" ++ r.mean.fixedText 8 3 ++ "ms p95=" ++ r.tail.fixedText 8 3 ++ "ms\n"

/-- The fields of a row, in order. -/
def TimingRow.fields (r : TimingRow) : List (String × Document) :=
  [ ("name", .text r.benchmark.label),
    ("stage", .text r.stage),
    ("n", .integer r.size),
    ("mean_ms", .real r.mean),
    ("p50_ms", .real r.median),
    ("p95_ms", .real r.tail),
    ("min_ms", .real r.least),
    ("max_ms", .real r.greatest),
    ("repeats", .integer r.repeats),
    ("samples", .integer r.samples) ]

/-! ## The whole benchmark -/

/-- Why a benchmark ends early. -/
inductive ReportError
  | options (e : OptionsError)
  | noSizes
  | sizes (e : IntegerTextError)
  | noSamples
  | timing (e : CaseError)
  | outputIsDirectory
  deriving DecidableEq, Repr

/-- The text of the report. -/
def ReportError.message : ReportError → String
  | .options _ => "The command line is not carried out."
  | .noSizes => "There are no sizes to split."
  | .sizes e => e.message
  | .noSamples => "There is no number of samples to take."
  | .timing e => e.message
  | .outputIsDirectory => "The document cannot be written over a directory."

/-- A benchmark: what it has written, the rows it has timed, and why it ended
early, if it did. -/
structure Report where
  options : Options := {}
  sizes : List Int := []
  text : String := ""
  rows : List TimingRow := []
  failure : Option ReportError := none

/-- The sizes that a command line asks for. -/
def Options.readSizes (o : Options) : Except ReportError (List Int) :=
  match o.sizes with
  | none => .error .noSizes
  | some text => (CallLang.readSizes text).mapError .sizes

namespace Report

/-- How often each stage is called in a sample. -/
def repeats : Int := 50

/-- Times one program.  That the number of samples is missing shows after the
program has been run once. -/
def timeNext (r : Report) (clock : Clock) (size : Int) (benchmark : Benchmark) :
    Except ReportError (List TimingRow × Clock) :=
  match r.options.samples with
  | some samples => (timeCase benchmark size repeats samples clock).mapError .timing
  | none => match warmUp benchmark size with
    | .ok _ => .error .noSamples
    | .error e => .error (.timing e)

/-- Times programs one after another until one fails. -/
def timeAll (r : Report) (clock : Clock) : List (Int × Benchmark) → Report
  | [] => r
  | (size, benchmark) :: rest =>
    match r.timeNext clock size benchmark with
    | .error e => { r with failure := some e }
    | .ok (rows, clock) =>
      let text := r.text ++ String.join (rows.map TimingRow.line)
      { r with text, rows := r.rows ++ rows }.timeAll clock rest

/-- The programs that are timed: every family at each size. -/
def cases (sizes : List Int) : List (Int × Benchmark) :=
  sizes.flatMap fun size => Benchmark.all.map fun benchmark => (size, benchmark)

/-- The path of the document, if one is to be written. -/
def output? (r : Report) : Option String :=
  let path := r.options.output.getD ""
  if r.failure.isSome || path = "" then none else some (plainPath path)

/-- The benchmark that a command line asks for, timed by a clock. -/
def ofArguments (arguments : List String) (clock : Clock) : Report :=
  match Options.read arguments with
  | .error e => { failure := some (.options e) }
  | .ok options =>
    match options.readSizes with
    | .error e => { options, failure := some e }
    | .ok sizes =>
      let start : Report := { options, sizes, text := "Call-expression benchmark\n" }
      let r := start.timeAll clock (cases sizes)
      if r.output?.any endsInDirectory then { r with failure := some .outputIsDirectory } else r

/-- The fields of the document, in order. -/
def fields (timestamp : String) (host : Document) (r : Report) : List (String × Document) :=
  [ ("timestamp_utc", .text timestamp),
    ("host", host),
    ("sizes", .list (r.sizes.map .integer)),
    ("samples", (r.options.samples.map Document.integer).getD (.list [])),
    ("rows", .list (r.rows.map fun row => .record row.fields)) ]

/-- The line that tells of a written document. -/
def writtenLine (path : String) : String :=
  "Wrote JSON: " ++ path ++ "\n"

/-- All that a benchmark writes to its output, once its document is written. -/
def transcript (r : Report) : String :=
  r.text ++ (r.output?.map writtenLine).getD ""

end Report

end CallLang
