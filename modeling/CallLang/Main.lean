/-
# `CallLang.Main` — the benchmark as a program

The program reads the clock around real calls and hands the readings to
`Report.ofArguments`, which does the rest.
-/
import CallLang.Timing.Report
import CallLang.Timing.Timestamp
import Std.Time.DateTime.Timestamp

namespace CallLang

/-- Makes a number of calls and keeps the last result from being dropped. -/
def callRepeatedly {α : Type} (calls : Nat) (work : Unit → α) (sink : IO.Ref (Option α)) :
    IO Unit := do
  for _ in [0:calls] do
    sink.set (some (work ()))

/-- Reads the clock before and after each sample of calls. -/
def gatherTicks {α : Type} (calls samples : Nat) (work : Unit → α) : IO (List Int) := do
  let sink ← IO.mkRef none
  let mut ticks := []
  for _ in [0:samples] do
    let start ← IO.monoNanosNow
    callRepeatedly calls work sink
    let stop ← IO.monoNanosNow
    ticks := (stop : Int) :: (start : Int) :: ticks
  return ticks.reverse

/-- Takes the readings for the programs in order, up to the first that fails. -/
def gatherAll (samples : Nat) : List (Int × Benchmark) → IO (List Int)
  | [] => return []
  | (size, benchmark) :: rest => do
    let tokens := tokenize (benchmark.source size)
    match warmUp benchmark size, parse tokens with
    | .ok _, .ok e => do
      let calls := Report.repeats.toNat
      let parsing ← gatherTicks calls samples fun _ => (parse tokens).isOk
      let evaluating ← gatherTicks calls samples fun _ => (evaluate .write e).result.isOk
      let others ← gatherAll samples rest
      return parsing ++ evaluating ++ others
    | _, _ => return []

/-- The readings for a command line; none when it is refused. -/
def ticksFor (arguments : List String) : IO (List Int) := do
  match Options.read arguments with
  | .error _ => return []
  | .ok options =>
    match options.readSizes with
    | .error _ => return []
    | .ok sizes => gatherAll (options.samples.getD 0).toNat (Report.cases sizes)

/-- The directory that a path lies in. -/
def parentPath (path : String) : String :=
  String.ofList (path.toList.reverse.dropWhile (· ≠ '/')).reverse

/-- Writes the document of a report, in a directory made for it if need be. -/
def writeDocument (path : String) (r : Report) : IO Unit := do
  let now ← Std.Time.Timestamp.now
  let host := Document.record [("clock", .text "monotonic")]
  let document := Document.record (r.fields (utcStamp now.toSecondsSinceUnixEpoch.val) host)
  if parentPath path ≠ "" then IO.FS.createDirAll (parentPath path)
  IO.FS.writeFile path (document.render 0)

/-- Explains the options. -/
def usage : String :=
  "usage: [-h] [--ns NS] [--samples SAMPLES] [--json-out JSON_OUT]\n"

/-- The benchmark as a program. -/
def benchmarkMain (arguments : List String) : IO UInt32 := do
  let r := Report.ofArguments arguments ⟨← ticksFor arguments, 0⟩
  IO.print r.text
  match r.failure with
  | some (.options .help) => do
    IO.print usage
    return OptionsError.help.exitCode.toUInt32
  | some (.options .refused) => do
    IO.eprint usage
    return OptionsError.refused.exitCode.toUInt32
  | some e => do
    IO.eprintln e.message
    return 1
  | none => do
    match r.output? with
    | some path => do
      writeDocument path r
      IO.print (Report.writtenLine path)
    | none => pure ()
    return 0

end CallLang

/-- Times the benchmark programs as the command line asks. -/
def main (arguments : List String) : IO UInt32 :=
  CallLang.benchmarkMain arguments
