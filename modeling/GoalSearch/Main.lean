import GoalSearch.Command.Logging
import GoalSearch.Command.Machine
import GoalSearch.Command.Report

/-!
# The command line

Reads the arguments, runs the benchmark generation by generation with new readings of the clock and of
the memory in between, and prints the log and the report.
-/

namespace GoalSearch.Command

/-- The arguments, with every word that names a file replaced by the lines of the file. -/
partial def expand (words : List String) : IO (List String) := do
  let parts ← words.mapM fun word => do
    if word.startsWith "@" then
      expand (← IO.FS.lines (String.ofList (word.toList.drop 1))).toList
    else return [word]
  return parts.flatten

def pageSize : Int := 4096

def memoryInUse : IO (Option Int) := do
  try
    let fields := (← IO.FS.readFile "/proc/self/statm").splitOn " "
    return (fields[1]? >>= String.toInt?).map (· * pageSize)
  catch _ => return none

def currentTime : IO Int := return Int.ofNat (← IO.monoNanosNow)

structure Sink where
  least : Level
  label : Goal → String
  write : String → IO Unit

/-- Takes new readings, runs a computation and prints what it logged. -/
def stage {α : Type} (sink : Sink) (x : SearchM Statement Machine α)
    (s : Search Statement Machine) : IO (Except Fault α × Search Statement Machine) := do
  let machine := s.scene.outside.observe (← currentTime) (← memoryInUse)
  let (r, s) := x { s with scene := { s.scene with outside := machine } }
  for (level, text) in Notice.shown sink.label sink.least s.scene.log do
    sink.write s!"[{level.name}] {text}"
  return (r, { s with scene := { s.scene with log := #[] }, events := #[] })

partial def advance (sink : Sink) (setup : Setup Statement Machine)
    (s : Search Statement Machine) : IO (Except Fault Unit × Search Statement Machine) := do
  match ← stage sink (SearchM.goesOn setup) s with
  | (.ok true, s) =>
    match ← stage sink (SearchM.advance setup) s with
    | (.ok _, s) => advance sink setup s
    | failed => return failed
  | (.ok false, s) => return (.ok (), s)
  | (.error fault, s) => return (.error fault, s)

def search (sink : Sink) (styled : Bool) (config : Config) (b : Benchmark)
    (s : Search Statement Machine) : ExceptT Fault IO (Outcome × Shown) := do
  let source := Machine.random
  let session := Report.session Machine.surroundings source config b
  let (r, s) ← stage sink (do
    let setup ← session.prepare
    SearchM.log (.searchStarted session.goals.length)
    SearchM.initialise setup
    return setup) s
  let setup ← liftExcept r
  let (r, s) ← advance sink setup s
  let (finished, s) ← stage sink (do
    let finished ← Session.always (do
      let _ ← liftExcept r
      let result ← SearchM.finalise setup
      Session.reportEnd setup
      return result) (SearchM.log .searchStopped)
    Session.reportResult finished
    return finished) s
  let result ← liftExcept finished
  let (r, _) ← stage sink (Report.conclude Machine.surroundings source styled b result) s
  liftExcept r

def grant (r : Request) : IO UInt32 := do
  let plan := LogPlan.ofRequest r
  let file ← r.logFile.mapM fun path => IO.FS.Handle.mk path .append
  let write (line : String) : IO Unit :=
    match file with
    | some handle => handle.putStrLn line
    | none => IO.eprintln line
  let machine := Machine.ofSeed r.config.seed (← currentTime) (← memoryInUse)
  let sink : Sink := ⟨plan.level, fun _ => "", write⟩
  match ← stage sink (Report.prepare Machine.random r.config) { scene := ⟨#[], machine, #[]⟩ } with
  | (.ok (some b), s) =>
    if plan.hasConsole then IO.eprintln Report.busy
    match ← (search { sink with label := b.label } plan.hasConsole r.config b s).run with
    | .ok (outcome, .line text) => do
      IO.println text
      return outcome.status.toUInt32
    | .ok (outcome, .status text) => do
      IO.println text
      return outcome.status.toUInt32
    | .ok (outcome, .table t) => do
      t.draw.forM IO.println
      return outcome.status.toUInt32
    | .error fault => do
      IO.eprintln fault.message
      return 1
  | (.ok none, _) => return Outcome.setupFailed.status.toUInt32
  | (.error fault, _) => do
    IO.eprintln fault.message
    return 1

end GoalSearch.Command

open GoalSearch Command

def main (args : List String) : IO UInt32 := do
  match read (← expand args) with
  | .request r => grant r
  | .version => do
    IO.println version
    return 0
  | .help => do
    (usage).forM IO.println
    return 0
  | .denied => do
    IO.eprintln "A form that switches off takes no value."
    return 0
  | .invalid => do
    IO.eprintln "The command line makes no sense; see --help."
    return 2
