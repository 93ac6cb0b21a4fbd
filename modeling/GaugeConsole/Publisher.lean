import GaugeConsole.Console

/-!
# Publishing

A scrape is served the view that was published last. A refresh takes a snapshot of the surface and
publishes it, and only then brings the self metrics up to date, so that a view shows them as they
were one refresh earlier. A refresh that fails publishes nothing.

The refresh loop refreshes at fixed intervals: each pass waits for what its refresh left of the
interval, or reports that nothing was left. A wait that is too long for the system to count breaks
the loop off.
-/

namespace GaugeConsole

/-- Readings of the time in seconds, and how many of them were taken. -/
structure Clock where
  readings : Nat → Binary64
  taken : Nat := 0

namespace Clock

def now (c : Clock) : Binary64 := c.readings c.taken

def advance (c : Clock) : Clock := { c with taken := c.taken + 1 }

/-- A clock that starts at zero and goes on by the same step with each reading. -/
def steady (step : Binary64) : Clock := ⟨fun n => n.repeat (· + step) .zero, 0⟩

end Clock

inductive WaitError where
  /-- The nanoseconds cannot be counted. -/
  | tooLong
deriving DecidableEq, Repr

namespace WaitError

def message : WaitError → String
  | tooLong => "timestamp out of range for platform time_t"

end WaitError

/-- Whether the system can wait for so many seconds, of which it counts the nanoseconds. -/
def Binary64.isCountable (seconds : Binary64) : Bool :=
  (seconds * .ofNat 1000000000).lt (.ofNat (1 <<< 63))

structure Publisher where
  /-- Seconds from one refresh to the next. -/
  interval : Binary64
  published : List MetricFamily := []
  refreshCount : Nat := 0
  running : Bool := false

namespace Publisher

/-- Whether the refresh loop can be waited for when the publishing stops. It gets a second more than
the interval. -/
def isPatient (p : Publisher) : Bool := (p.interval + .ofNat 1).isCountable

end Publisher

/-- A console with its publisher and the clock that they go by. -/
structure Session where
  console : Console
  publisher : Publisher
  clock : Clock

namespace Session

/-- The first step of a refresh: it looks at the clock and asks the surface what it shows. -/
def ask (s : Session) : Session × Except CollectError (List MetricFamily) :=
  ({ s with clock := s.clock.advance }, s.console.snapshot)

/-- The second step of a refresh. -/
def publish (s : Session) (view : List MetricFamily) : Session :=
  { s with publisher := { s.publisher with
      published := view, refreshCount := s.publisher.refreshCount + 1 } }

/-- The last step of a refresh that began at some time: it brings the self metrics up to date. -/
def account (s : Session) (start : Binary64) : Session :=
  match s.console.self with
  | none => s
  | some self =>
    let r := s.console.registry
    let self := self.setActive r.familyCount r.seriesCount
    let self := self.recordDuration (s.clock.now - start)
    { s with console := { s.console with self := some self }, clock := s.clock.advance }

def refresh (s : Session) : Session × Except CollectError Unit :=
  match s.ask with
  | (asked, .error e) => (asked, .error e)
  | (asked, .ok view) => ((asked.publish view).account s.clock.now, .ok ())

end Session

/-- What a pass of the refresh loop does after its refresh. -/
inductive Pause where
  | wait (seconds : Binary64)
  | overrun (elapsed : Binary64)
  /-- It should wait, and cannot. -/
  | failed (seconds : Binary64) (error : WaitError)
deriving DecidableEq

namespace Pause

/-- Waits for what is left of the interval, if anything is. -/
def after (interval elapsed : Binary64) (roused : Bool) : Pause :=
  let left := interval - elapsed
  if Binary64.zero.lt left then
    if roused || left.isCountable then wait left else failed left .tooLong
  else overrun elapsed

/-- How long the loop is to wait, if it is. -/
def wait? : Pause → Option Binary64
  | wait seconds | failed seconds _ => some seconds
  | overrun _ => none

/-- Why the loop breaks off, if it does. -/
def error? : Pause → Option WaitError
  | failed _ e => some e
  | wait _ | overrun _ => none

end Pause

structure Pass where
  failure : Option CollectError
  pause : Pause
deriving DecidableEq

namespace Pass

def records (interval : Binary64) (p : Pass) : List Record :=
  (p.failure.map fun e =>
    (⟨.error, .exporter, "Error refreshing snapshot: " ++ e.message⟩ : Record)).toList
  ++ match p.pause with
    | .wait _ | .failed .. => []
    | .overrun elapsed => [⟨.warning, .exporter, "Refresh took " ++ elapsed.fixed 3
        ++ "s, longer than interval " ++ interval.toText ++ "s"⟩]

end Pass

/-- A time that the loop finds itself not stopped, and what others do then. -/
structure Round where
  /-- What they do at the console just before the pass. -/
  meanwhile : Console → Console := id
  /-- Whether they tell the loop to stop before it waits. Then the wait is over at once, and it does
  not matter how long it should be. -/
  roused : Bool := false

namespace Session

/-- Others do something at the console. -/
def beside (f : Console → Console) (s : Session) : Session := { s with console := f s.console }

/-- One pass of the refresh loop: a refresh between two readings of the clock, and then a pause. -/
def pass (s : Session) (roused : Bool) : Session × Pass :=
  let start := s.clock.now
  let (s, result) := { s with clock := s.clock.advance }.refresh
  let elapsed := s.clock.now - start
  let failure := match result with
    | .ok _ => none
    | .error e => some e
  ({ s with clock := s.clock.advance }, ⟨failure, .after s.publisher.interval elapsed roused⟩)

/-- The refresh loop until it is stopped or breaks off. It makes a pass for each round, and if one
of them cannot wait, that is the last one. -/
def run (s : Session) : List Round → Session × List Pass
  | [] => (s, [])
  | r :: rest =>
    let (s, p) := (s.beside r.meanwhile).pass r.roused
    if p.pause.error?.isSome then (s, [p])
    else
      let (s, ps) := s.run rest
      (s, p :: ps)

def runRecords (interval : Binary64) (passes : List Pass) : List Record :=
  ⟨.info, .exporter, "Starting exporter refresh loop"⟩ :: passes.flatMap (Pass.records interval)

def stop (s : Session) : Session × List Record :=
  ({ s with publisher := { s.publisher with running := false } },
    [⟨.info, .exporter, "Stopping exporter"⟩])

end Session

end GaugeConsole
