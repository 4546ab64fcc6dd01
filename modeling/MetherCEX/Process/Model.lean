import MetherCEX.Concurrent.Changes
import MetherCEX.Wal.Recovery

/-!
# The engine process

The engine runs with a journal, a stream and a snapshot file (`main.rs`). A
placement goes through the stages of its mode: in sync mode its events are
appended to the journal, published one by one and acknowledged one by one before
the book is committed; in async mode they are appended, the book is committed, and
a pipeline publishes and acknowledges them later. Every stage can fail, the process
can stop between any two steps, and a startup recovers from the snapshot file or
from the backend, replays the journal and publishes what is not acknowledged.
-/

namespace MetherCEX

open WalLine

inductive StreamMode
  | off
  | sync
  | async
  deriving DecidableEq

structure Config where
  engineId : String
  subjectOf : Market → String
  mode : StreamMode
  wal : Bool
  compactOnStart : Bool

/-- What a publication returned, after its retries, and whether the stream has stored the event. -/
structure PublishOutcome where
  ok : Bool
  stored : Bool
  deriving DecidableEq

/-- Where the publication of a placement stands; `n` events are done. -/
inductive Stage
  | appending
  | publishing (n : ℕ)
  | acking (n : ℕ)
  | ready
  | enqueueing (n : ℕ)
  | failed
  deriving DecidableEq

/-- The numbered events of a placement on their way to the stream. -/
structure Publication where
  orderId : OrderId
  pairs : List (ℕ × MatchEvent)
  stage : Stage
  reached : Bool

namespace Publication

def withStage (P : Publication) (stage : Stage) : Publication := { P with stage := stage }

def afterAck (P : Publication) (n : ℕ) : Stage :=
  if n + 1 < P.pairs.length then .acking (n + 1) else .ready

def Pending (P : Publication) : Bool :=
  match P.stage with
  | .enqueueing _ => false
  | .failed => false
  | _ => true

end Publication

namespace Config

variable (cfg : Config)

def guarded : Bool :=
  match cfg.mode with
  | .off => false
  | .sync => true
  | .async => cfg.wal

def firstStage : Stage := if cfg.wal then .appending else .publishing 0

def afterAppend : Stage := if cfg.mode = .sync then .publishing 0 else .ready

def afterPublish (P : Publication) (n : ℕ) : Stage :=
  if n + 1 < P.pairs.length then .publishing (n + 1)
  else if cfg.wal then .acking 0 else .ready

end Config

/-- The memory of the running process: the engine with its placements and its
snapshot task, the publications, the queue of the pipeline, the events that are
published and not yet acknowledged, and the rows a startup has still to publish. -/
structure Memory where
  race : RaceState
  publications : SortedMap ℕ Publication
  queue : List (ℕ × MatchEvent)
  toAck : List (ℕ × MatchEvent)
  boot : List (ℕ × MatchEvent)
  sinceRead : Changes

structure Process where
  memory : Option Memory
  journal : List WalLine
  unsynced : List WalLine
  snapshotFile : Option EnginePersistenceSnapshot
  stream : List (ℕ × MatchEvent)
  allocated : List (ℕ × MatchEvent)
  acked : List (ℕ × MatchEvent)
  accepted : List OrderId
  succeeded : List OrderId
  failed : List OrderId
  lastBook : List Order
  recoveries : List (List Order × List Order)
  sinceSaved : Changes

inductive ProcessAction
  | place (job : ℕ) (now : ℕ → ℕ) (o : Order)
  | append (job : ℕ) (outcome : AppendOutcome)
  | publish (job : ℕ) (outcome : PublishOutcome)
  | ack (job : ℕ) (outcome : AppendOutcome)
  | commit (job : ℕ)
  | inner (a : RaceAction)
  | enqueue (job : ℕ)
  | saveSnapshot
  | dropSnapshot
  | pipelinePublish (q : ℕ × MatchEvent) (outcome : PublishOutcome)
  | bootPublish (outcome : PublishOutcome)
  | ackPublished (q : ℕ × MatchEvent) (outcome : AppendOutcome)
  | crash
  | restart (survived : ℕ) (backend : Option (List Order × ℕ))

/-- The engine a startup begins with: the snapshot, else the state of the backend,
else nothing. -/
def startEngine (snapshot : Option EnginePersistenceSnapshot)
    (backend : Option (List Order × ℕ)) : Engine :=
  match snapshot, backend with
  | some snap, _ => snap.applySnapshotToEngine
  | none, some (orders, lastEngineEventId) => .restoreOrderbook orders lastEngineEventId
  | none, none => .new

def backendOrders (snapshot : Option EnginePersistenceSnapshot)
    (backend : Option (List Order × ℕ)) : List Order :=
  match snapshot, backend with
  | none, some (orders, _) => orders
  | _, _ => []

namespace Process

def init : Process := ⟨none, [], [], none, [], [], [], [], [], [], [], [], .none⟩

def whenRunning (p : Process) (f : Memory → Process) : Process :=
  match p.memory with
  | none => p
  | some m => f m

def withMemory (p : Process) (m : Memory) : Process := { p with memory := some m }

def appendLines (p : Process) (lines : List WalLine) : AppendOutcome → Process
  | .ok => { p with journal := p.journal ++ p.unsynced ++ lines, unsynced := [] }
  | .failed n _ => { p with unsynced := p.unsynced ++ lines.take n }

def store (p : Process) (q : ℕ × MatchEvent) (outcome : PublishOutcome) : Process :=
  { p with stream := if outcome.stored then p.stream ++ [q] else p.stream }

/-- The process ends; the books it had committed are recorded. -/
def stop (p : Process) (m : Memory) : Process :=
  { p with memory := none, lastBook := m.race.engine.orders }

section

variable (cfg : Config)

def serving (m : Memory) : Bool :=
  m.boot.isEmpty && (decide (cfg.mode ≠ .sync) || m.toAck.isEmpty)

def fail (p : Process) (m : Memory) (job : ℕ) (P : Publication) : Process :=
  { p with
    memory := some { m with
      race := m.race.step cfg.engineId (.abort job)
      publications := m.publications.insert job (P.withStage .failed) }
    failed := P.orderId :: p.failed }

/-- A placement that waits for the journal or the stream: the trial match and the ids. -/
def placeGuarded (p : Process) (m : Memory) (job : ℕ) (now : ℕ → ℕ) (o : Order) : Process :=
  let m' := { m with race := m.race.step cfg.engineId (.reserve job now o) }
  let pairs := m.race.engine.pendingPairs now o
  if pairs = [] then
    { p with
      memory := some m'
      accepted := o.id :: p.accepted
      succeeded := o.id :: p.succeeded }
  else
    { p with
      memory := some { m' with
        publications := m.publications.insert job ⟨o.id, pairs, cfg.firstStage, false⟩ }
      allocated := p.allocated ++ pairs }

/-- A placement that commits at once; in async mode its events are queued. -/
def placeDirect (p : Process) (m : Memory) (now : ℕ → ℕ) (o : Order) : Process :=
  let pairs := (m.race.engine.placeOrder now o).2
  { p with
    memory := some { m with
      race := { m.race with engine := (m.race.engine.placeOrder now o).1 }
      queue := if cfg.mode = .async then m.queue ++ pairs else m.queue
      sinceRead :=
        if m.race.hasRead o.market then m.sinceRead ++ ⟨pairs, []⟩ else m.sinceRead }
    accepted := o.id :: p.accepted
    succeeded := o.id :: p.succeeded
    allocated := p.allocated ++ pairs
    sinceSaved := p.sinceSaved ++ ⟨pairs, []⟩ }

def place (p : Process) (m : Memory) (job : ℕ) (now : ℕ → ℕ) (o : Order) : Process :=
  if serving cfg m = false ∨ job ∈ m.race.jobs.keys ∨ job ∈ m.publications.keys ∨
      o.market ∈ m.race.locks then p
  else if cfg.guarded then p.placeGuarded cfg m job now o
  else p.placeDirect cfg m now o

def append (p : Process) (m : Memory) (job : ℕ) (outcome : AppendOutcome) : Process :=
  match m.publications.get? job with
  | some P =>
    if P.stage = .appending then
      let p' := p.appendLines ((walRowsForPairs cfg.subjectOf P.pairs).map
        (.evt cfg.engineId)) outcome
      match outcome with
      | .ok => p'.withMemory { m with
          publications := m.publications.insert job (P.withStage cfg.afterAppend) }
      | .failed _ _ => p'.fail cfg m job P
    else p
  | none => p

def publish (p : Process) (m : Memory) (job : ℕ) (outcome : PublishOutcome) : Process :=
  match m.publications.get? job with
  | some P =>
    match P.stage with
    | .publishing n =>
      match P.pairs[n]? with
      | some q =>
        if outcome.ok then
          (p.store q outcome).withMemory { m with
            publications := m.publications.insert job
              { P with stage := cfg.afterPublish P n, reached := true } }
        else
          (p.store q outcome).fail cfg m job
            { P with reached := P.reached || outcome.stored }
      | none => p
    | _ => p
  | none => p

def ack (p : Process) (m : Memory) (job : ℕ) (outcome : AppendOutcome) : Process :=
  match m.publications.get? job with
  | some P =>
    match P.stage with
    | .acking n =>
      match P.pairs[n]? with
      | some q =>
        let p' := p.appendLines [.ack q.1] outcome
        match outcome with
        | .ok => { p' with
            memory := some { m with
              publications := m.publications.insert job (P.withStage (P.afterAck n)) }
            acked := p.acked ++ [q] }
        | .failed _ _ => p'.fail cfg m job P
      | none => p
    | _ => p
  | none => p

def commit (p : Process) (m : Memory) (job : ℕ) : Process :=
  match m.publications.get? job with
  | some P =>
    if P.stage = .ready then
      { p with
        memory := some { m with
          race := m.race.step cfg.engineId (.commit job)
          publications := m.publications.insert job (P.withStage (.enqueueing 0))
          sinceRead := m.race.sinceRead m.sinceRead (.commit job) }
        accepted := P.orderId :: p.accepted
        succeeded := P.orderId :: p.succeeded
        sinceSaved := p.sinceSaved ++ m.race.changesIn (fun _ => true) (.commit job) }
    else p
  | none => p

def inner (p : Process) (m : Memory) (a : RaceAction) : Process :=
  if a.free ∧ serving cfg m then
    { p with
      memory := some { m with
        race := m.race.step cfg.engineId a
        sinceRead := m.race.sinceRead m.sinceRead a }
      sinceSaved := p.sinceSaved ++ m.race.changesIn (fun _ => true) a }
  else p

def enqueue (p : Process) (m : Memory) (job : ℕ) : Process :=
  match m.publications.get? job, m.race.jobs.get? job with
  | some P, some J =>
    match P.stage with
    | .enqueueing n =>
      match P.pairs[n]? with
      | some q =>
        if cfg.mode = .async ∧ J.phase = .recorded then
          p.withMemory { m with
            publications := m.publications.insert job (P.withStage (.enqueueing (n + 1)))
            queue := m.queue ++ [q] }
        else p
      | none => p
    | _ => p
  | _, _ => p

def saveSnapshot (p : Process) (m : Memory) : Process :=
  match m.race.reader with
  | some r =>
    match r.snapshot with
    | some snap =>
      { p with
        memory := some { m with race := { m.race with reader := none } }
        snapshotFile := some snap
        sinceSaved := m.sinceRead }
    | none => p
  | none => p

/-- The snapshot cannot be written; the file stays as it is. -/
def dropSnapshot (p : Process) (m : Memory) : Process :=
  p.withMemory { m with race := { m.race with reader := none } }

/-- The pipeline publishes a queued event; a failure is only logged. -/
def pipelinePublish (p : Process) (m : Memory) (q : ℕ × MatchEvent) (outcome : PublishOutcome) :
    Process :=
  if cfg.mode = .async ∧ q ∈ m.queue then
    (p.store q outcome).withMemory { m with
      queue := m.queue.erase q
      toAck := if outcome.ok && cfg.wal then m.toAck ++ [q] else m.toAck }
  else p

/-- A startup in sync mode publishes its next row; a failure ends the process. -/
def bootPublish (p : Process) (m : Memory) (outcome : PublishOutcome) : Process :=
  match m.boot, m.toAck with
  | q :: boot, [] =>
    if outcome.ok then (p.store q outcome).withMemory { m with boot := boot, toAck := [q] }
    else (p.store q outcome).stop m
  | _, _ => p

/-- The acknowledgement of an event that the pipeline or the startup has published. -/
def ackPublished (p : Process) (m : Memory) (q : ℕ × MatchEvent) (outcome : AppendOutcome) :
    Process :=
  if q ∈ m.toAck then
    let p' := p.appendLines [.ack q.1] outcome
    let m' := { m with toAck := m.toAck.erase q }
    match outcome with
    | .ok => { p' with memory := some m', acked := p.acked ++ [q] }
    | .failed _ _ => if cfg.mode = .sync then p'.stop m else p'.withMemory m'
  else p

/-- The journal as a startup finds it: compacted, with the lines that survived. -/
def journalAtStart (p : Process) (survived : ℕ) : List WalLine :=
  if cfg.compactOnStart then
    compactJournalKeepUnackedOnly cfg.engineId (p.journal ++ p.unsynced.take survived)
  else p.journal ++ p.unsynced.take survived

def rowsAtStart (p : Process) (survived : ℕ) : List WalPendingEvent :=
  if cfg.wal then scanUnackedForEngine cfg.engineId (journalAtStart cfg p survived) else []

def booted (e : Engine) (rows : List WalPendingEvent) : Memory where
  race := .init e
  publications := .empty
  queue := if cfg.mode = .async then rows.map fun row => (row.eventId, row.event) else []
  toAck := []
  boot := if cfg.mode = .sync then rows.map fun row => (row.eventId, row.event) else []
  sinceRead := .none

def replayed (e : Engine) (rows : List WalPendingEvent) : Changes :=
  ⟨(e.rowsToApply rows).map fun row => (row.eventId, row.event), []⟩

def restart (p : Process) (survived : ℕ) (backend : Option (List Order × ℕ)) : Process :=
  let p' := { p with journal := journalAtStart cfg p survived, unsynced := [] }
  match (startEngine p.snapshotFile backend).replayRows (rowsAtStart cfg p survived) with
  | .error _ => p'
  | .ok e =>
    { p' with
      memory := some (booted cfg e (rowsAtStart cfg p survived))
      accepted := (backendOrders p.snapshotFile backend).map Order.id ++ p.accepted
      recoveries :=
        if p.snapshotFile.isSome then p.recoveries ++ [(p.lastBook, e.orders)]
        else p.recoveries
      sinceSaved := replayed (startEngine p.snapshotFile backend) (rowsAtStart cfg p survived) }

def step (p : Process) : ProcessAction → Process
  | .place job now o => p.whenRunning fun m => p.place cfg m job now o
  | .append job outcome => p.whenRunning fun m => p.append cfg m job outcome
  | .publish job outcome => p.whenRunning fun m => p.publish cfg m job outcome
  | .ack job outcome => p.whenRunning fun m => p.ack cfg m job outcome
  | .commit job => p.whenRunning fun m => p.commit cfg m job
  | .inner a => p.whenRunning fun m => p.inner cfg m a
  | .enqueue job => p.whenRunning fun m => p.enqueue cfg m job
  | .saveSnapshot => p.whenRunning fun m => p.saveSnapshot m
  | .dropSnapshot => p.whenRunning fun m => p.dropSnapshot m
  | .pipelinePublish q outcome => p.whenRunning fun m => p.pipelinePublish cfg m q outcome
  | .bootPublish outcome => p.whenRunning fun m => p.bootPublish m outcome
  | .ackPublished q outcome => p.whenRunning fun m => p.ackPublished cfg m q outcome
  | .crash => p.whenRunning fun m => p.stop m
  | .restart survived backend =>
    match p.memory with
    | none => p.restart cfg survived backend
    | some _ => p

end

end Process

end MetherCEX
