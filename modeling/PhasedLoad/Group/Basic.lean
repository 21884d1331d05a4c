import PhasedLoad.World

/-!
A group of workers at work: its workers, its reporter, and what they have counted and left in the
history so far.
-/

namespace PhasedLoad

/-- The work of one group in one phase execution. -/
structure GroupRun where
  name : GroupName
  instances : Nat
  duration : Duration
  /-- How long a worker pauses before each call. -/
  delay : Duration
  /-- How long a worker waits for each reply. -/
  timeout : Duration
  body : String
  reportInterval : Duration

def GroupRun.call (run : GroupRun) : Call := ⟨run.body, some run.timeout⟩

inductive Activity
  | pausing
  /-- A call that started at `since` and will have this reply. -/
  | awaiting (since : Instant) (reply : Reply)

structure Worker where
  number : Nat
  /-- When the pause or the call ends. -/
  due : Instant
  activity : Activity
  /-- The statuses that came back to this worker. -/
  codes : Histogram

def GroupRun.caller (run : GroupRun) (w : Worker) : Caller := .worker run.name.group w.number

def GroupRun.worker (run : GroupRun) (now : Instant) (number : Nat) : Worker :=
  ⟨number, Instant.wake now run.delay, .pausing, []⟩

structure Reporter where
  interval : Duration
  /-- When the next report is due. -/
  next : Instant
  /-- The counters at the last report and when that was; none before the first, which tells
  nothing. -/
  last : Option (Snapshot × Instant)

namespace Reporter

def start (interval : Duration) (now : Instant) : Reporter := ⟨interval, now, none⟩

/-- What there is to report at the due instant: nothing as long as nothing is counted. -/
def report? (r : Reporter) (current : Snapshot) : Option IntervalReport :=
  match r.last with
  | none => none
  | some (earlier, at_) =>
    if current = .zero then none
    else some (.between earlier current (Instant.elapsed at_ r.next))

def tick (r : Reporter) (current : Snapshot) : Reporter :=
  { r with next := Instant.wake r.next r.interval, last := some (current, r.next) }

/-- At least the number of reports due before `t`. -/
def ticksBefore (r : Reporter) (t : Instant) : Nat :=
  (t - r.next) / min r.interval.nanos Instant.farAway + 1

/-- The reports due before `t`, of at most `n`, while the counters stay the same. -/
def reportsBefore (t : Instant) (current : Snapshot) :
    Nat → Reporter → List (Instant × IntervalReport) × Reporter
  | 0, r => ([], r)
  | n + 1, r =>
    if r.next < t then
      let (reports, r') := reportsBefore t current n (r.tick current)
      ((r.report? current).toList.map (r.next, ·) ++ reports, r')
    else ([], r)

end Reporter

structure GroupState (σ : Type) where
  world : World σ
  stats : Statistics
  /-- Those that have not ended, by their numbers. -/
  workers : List Worker
  /-- None for an interval of no length, at which the reporter breaks down. -/
  reporter : Option Reporter
  /-- Workers that broke down at this instant; it is noticed when nothing else happens at it. -/
  broken : List Breakdown
  /-- How many steps were taken. -/
  steps : Nat
  /-- What happened, last to first. -/
  past : History

namespace GroupState

variable {σ : Type}

def start (run : GroupRun) (world : World σ) (stats : Statistics) : GroupState σ :=
  { world := world
    stats := stats
    workers := (List.range run.instances).map fun i => run.worker world.now (i + 1)
    reporter := if run.reportInterval.isZero then none
      else some (.start run.reportInterval world.now)
    broken := []
    steps := 0
    past := [] }

def note (s : GroupState σ) (event : Event) : GroupState σ :=
  { s with past := ⟨s.world.now, event⟩ :: s.past }

def log (s : GroupState σ) (event : LogEvent) : GroupState σ := s.note (.logged event)

def put (s : GroupState σ) (w : Worker) : GroupState σ :=
  { s with workers := s.workers.map fun v => if v.number = w.number then w else v }

def drop (s : GroupState σ) (w : Worker) : GroupState σ :=
  { s with workers := s.workers.filter fun v => v.number != w.number }

/-- Without a worker that hands in its statuses. -/
def retire (s : GroupState σ) (w : Worker) : GroupState σ :=
  { s.drop w with stats := s.stats.mergeCodes w.codes }

def retireAll (s : GroupState σ) : GroupState σ :=
  { s with stats := s.workers.foldl (fun st w => st.mergeCodes w.codes) s.stats, workers := [] }

/-- With the breakdowns of this instant noticed. -/
def notice (run : GroupRun) (s : GroupState σ) : GroupState σ :=
  { s.broken.foldl (fun s why => s.log (.workerBroken run.name why)) s with broken := [] }

def report (run : GroupRun) (t : Instant) (s : GroupState σ) : GroupState σ :=
  match s.reporter with
  | none => s
  | some r =>
    let (reports, r) := r.reportsBefore t s.stats.counters (r.ticksBefore t)
    { s with
      reporter := some r
      past := reports.reverse.map (fun p => ⟨p.1, .logged (.interval run.name p.2)⟩) ++ s.past }

def advance (run : GroupRun) (t : Instant) (s : GroupState σ) : GroupState σ :=
  if s.world.now < t then
    let s := (s.notice run).report run t
    { s with world := s.world.advance t }
  else s

def nextDue? (s : GroupState σ) : Option Instant := (s.workers.map (·.due)).min?

end GroupState

end PhasedLoad
