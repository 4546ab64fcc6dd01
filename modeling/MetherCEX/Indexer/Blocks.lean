import Mathlib.Order.MinMax
import MetherCEX.Lib.Run

/-!
# The blocks that the EVM indexer scans

`ChainIndexer` scans the blocks of one chain for transfers to watched addresses. It keeps the
number of the last processed block in memory and in `indexer_state`.
-/

namespace MetherCEX

open Run Option

abbrev TaskId := ℕ

inductive TaskStage
  /-- The number of the head. -/
  | head
  /-- The heartbeat, which writes the number. -/
  | heartbeat (number target : ℕ)
  /-- The block. -/
  | fetch (n : ℕ)
  /-- The records of the native transfers. -/
  | native (n : ℕ)
  /-- The logs and the records of the token transfers; was the native part free of errors? -/
  | tokens (n : ℕ) (clean : Bool)
  /-- The update of the stored cursor. -/
  | store (n : ℕ)
  deriving DecidableEq

/-- A task. That of a tick goes on with the next block up to its target, `processed` blocks
after its start. -/
structure IndexerTask where
  stage : TaskStage
  loop : Option (ℕ × ℕ)
  deriving DecidableEq

inductive IndexerAnswer
  | ok
  | head (n : ℕ)
  /-- There is no such block. -/
  | missing
  /-- An error that is logged within the scan. -/
  | logged
  /-- An error that ends the task. -/
  | error
  deriving DecidableEq

/-- The stored cursor, the cursor in the memory of the process, if there is one, its tasks, the
blocks that were scanned without an error, and the number that was stored first. -/
structure IndexerState where
  stored : Option ℕ
  lastProcessed : Option ℕ
  tasks : TaskId → Option IndexerTask
  scanned : List ℕ
  first : Option ℕ

/-- Blocks below the head that the poll leaves alone, and `MAX_PER_TICK`. -/
structure IndexerConfig where
  confirmations : ℕ
  maxPerTick : ℕ

inductive IndexerAction
  /-- A start whose look at `indexer_state` works or fails, with the number of the head. -/
  | start (works : Bool) (head : ℕ)
  | announce (t : TaskId) (n : ℕ)
  | tick (t : TaskId)
  | answer (t : TaskId) (a : IndexerAnswer)
  | crash
  deriving DecidableEq

namespace IndexerState

variable (cfg : IndexerConfig) (s : IndexerState) (t : TaskId) (last : ℕ)
  (a : IndexerAnswer)

def init : IndexerState := ⟨none, none, fun _ => none, [], none⟩

def setStored (n : ℕ) : IndexerState :=
  { s with stored := some n, first := s.first.orElse fun _ => some n }

/-- `loadLastProcessedBlock`. -/
def start (works : Bool) (head : ℕ) : IndexerState :=
  match s.lastProcessed with
  | some _ => s
  | none =>
    if works then
      match s.stored with
      | some n => { s with lastProcessed := some n }
      | none => { s.setStored head with lastProcessed := some head }
    else { s with lastProcessed := some head }

def setTask (task : Option IndexerTask) : IndexerState :=
  { s with tasks := Function.update s.tasks t task }

def goOn (loop : Option (ℕ × ℕ)) (stage : TaskStage) : IndexerState :=
  s.setTask t (some ⟨stage, loop⟩)

/-- An announced block is processed unless it is at or below the cursor. -/
def announce (n : ℕ) : IndexerState :=
  match s.lastProcessed, s.tasks t with
  | some last, none => if n ≤ last then s else s.goOn t none (.fetch n)
  | _, _ => s

def tick : IndexerState :=
  match s.lastProcessed, s.tasks t with
  | some _, none => s.goOn t none .head
  | _, _ => s

def catchUp (target : ℕ) (processed : ℕ) : IndexerState :=
  if last < target ∧ processed < cfg.maxPerTick then
    s.goOn t (some (target, processed)) (.fetch (last + 1))
  else s.setTask t none

/-- `processBlock` has returned. -/
def blockDone (loop : Option (ℕ × ℕ)) : IndexerState :=
  match loop with
  | none => s.setTask t none
  | some (target, processed) => s.catchUp cfg t last target (processed + 1)

def advance (loop : Option (ℕ × ℕ)) (n : ℕ) : IndexerState :=
  { s with lastProcessed := some n }.goOn t loop (.store n)

/-- `UPDATE indexer_state SET last_block`, which does nothing without a row. -/
def updateLastProcessedBlock (n : ℕ) : IndexerState :=
  match s.stored with
  | none => s
  | some _ => s.setStored n

/-- `INSERT … ON CONFLICT DO UPDATE SET last_block = GREATEST(…)`. -/
def writeHeartbeat (n : ℕ) : IndexerState :=
  match s.stored with
  | none => s.setStored n
  | some m => s.setStored (max m n)

def handle (loop : Option (ℕ × ℕ)) : TaskStage → IndexerState
  | .head =>
    match a with
    | .head head =>
      let target := head - cfg.confirmations
      s.goOn t none (.heartbeat (max last target) target)
    | _ => s.setTask t none
  | .heartbeat number target =>
    match a with
    | .ok => (s.writeHeartbeat number).catchUp cfg t last target 0
    | _ => s.setTask t none
  | .fetch n =>
    match a with
    | .ok => s.goOn t loop (.native n)
    | _ => s.blockDone cfg t last loop
  | .native n =>
    match a with
    | .ok => s.goOn t loop (.tokens n true)
    | .logged => s.goOn t loop (.tokens n false)
    | _ => s.blockDone cfg t last loop
  | .tokens n clean =>
    match clean, a with
    | true, .ok => { s with scanned := s.scanned ++ [n] }.advance t loop n
    | _, _ => s.advance t loop n
  | .store n =>
    match a with
    | .ok => (s.updateLastProcessedBlock n).blockDone cfg t last loop
    | _ => s.blockDone cfg t last loop

def answer : IndexerState :=
  match s.lastProcessed, s.tasks t with
  | some last, some task => s.handle cfg t last a task.loop task.stage
  | _, _ => s

def step : IndexerAction → IndexerState
  | .start works head => s.start works head
  | .announce t n => s.announce t n
  | .tick t => s.tick t
  | .answer t a => s.answer cfg t a
  | .crash => { s with lastProcessed := none, tasks := fun _ => none }

def run (cfg : IndexerConfig) (acts : List IndexerAction) : IndexerState :=
  acts.foldl (step cfg) init

variable {cfg s t last a} {n v : ℕ} {stage : TaskStage} {loop : Option (ℕ × ℕ)}

/-- An answer with which a task leaves no block behind: a scan hides no error, and a tick finds
nothing to catch up with. -/
def Honest (cfg : IndexerConfig) (last : ℕ) (a : IndexerAnswer) : TaskStage → Prop
  | .head => ∀ head, a = .head head → head - cfg.confirmations ≤ last
  | .native _ => a ≠ .logged
  | .tokens _ _ => a = .ok
  | _ => True

instance : ∀ stage, Decidable (Honest cfg last a stage)
  | .head =>
    match a with
    | .head head => decidable_of_iff (head - cfg.confirmations ≤ last) (by simp [Honest])
    | .ok | .missing | .logged | .error => isTrue nofun
  | .native _ => inferInstanceAs (Decidable (a ≠ .logged))
  | .tokens _ _ => inferInstanceAs (Decidable (a = .ok))
  | .heartbeat _ _ | .fetch _ | .store _ => inferInstanceAs (Decidable True)

/-- A start finds the stored number, an announcement leaves no gap above the cursor, and an
answer is honest. -/
def SkipsNothing (cfg : IndexerConfig) (s : IndexerState) : IndexerAction → Prop
  | .start works _ => works = true
  | .announce _ n => ∀ last ∈ s.lastProcessed, n ≤ last + 1
  | .answer t a => ∀ last ∈ s.lastProcessed, ∀ task ∈ s.tasks t, Honest cfg last a task.stage
  | .tick _ | .crash => True

instance (act) : Decidable (s.SkipsNothing cfg act) := by
  cases act <;> dsimp only [SkipsNothing] <;> infer_instance

/-- Every block above the number stored first, up to this one, was scanned. -/
def CoveredUpTo (s : IndexerState) (v : ℕ) : Prop :=
  ∀ f ∈ s.first, ∀ n ≤ v, f < n → n ∈ s.scanned
  deriving Decidable

def NothingSkipped (s : IndexerState) : Prop := ∀ v ∈ s.stored, s.CoveredUpTo v
  deriving Decidable

/-- The number to which a task takes a cursor next, or the last one before the block that it
still has to scan. -/
def upTo : TaskStage → ℕ
  | .head => 0
  | .heartbeat number _ => number
  | .fetch n | .native n | .tokens n _ => n - 1
  | .store n => n

/-- A task is ready if the blocks up to its own are covered and its scan is clean so far. -/
structure Ready (s : IndexerState) (stage : TaskStage) : Prop where
  covered : s.CoveredUpTo (upTo stage)
  clean : ∀ n clean, stage = .tokens n clean → clean = true

/-- A process that runs has found or stored a number, and what the cursors and the tasks rely on
is covered. -/
structure Gapless (s : IndexerState) : Prop where
  stored_of_running : ∀ last ∈ s.lastProcessed, s.stored.isSome
  isSome_first : s.first.isSome = s.stored.isSome
  idle : s.lastProcessed = none → ∀ t, s.tasks t = none
  stored : s.NothingSkipped
  memory : ∀ last ∈ s.lastProcessed, s.CoveredUpTo last
  tasks : ∀ t, ∀ task ∈ s.tasks t, s.Ready task.stage

theorem gapless_init : Gapless init where
  stored_of_running := nofun
  isSome_first := rfl
  idle _ _ := rfl
  stored := nofun
  memory := nofun
  tasks := nofun

theorem CoveredUpTo.mono (hv : s.CoveredUpTo v) (hnv : n ≤ v) : s.CoveredUpTo n :=
  fun f hf m hm hfm => hv f hf m (Nat.le_trans hm hnv) hfm

theorem coveredUpTo_max (hv : s.CoveredUpTo v) (hn : s.CoveredUpTo n) :
    s.CoveredUpTo (max v n) := by
  intro f hf m hm hfm
  rcases le_max_iff.mp hm with hm | hm
  · exact hv f hf m hm hfm
  · exact hn f hf m hm hfm

theorem coveredUpTo_of_scanned (hn : s.CoveredUpTo (n - 1)) :
    CoveredUpTo { s with scanned := s.scanned ++ [n] } n := by
  intro f hf m hm hfm
  rcases Nat.eq_or_lt_of_le hm with rfl | hlt
  · simp
  · exact List.mem_append_left _ (hn f hf m (by omega) hfm)

namespace Gapless

variable (hs : s.Gapless) (hlast : s.lastProcessed = some last)

include hs

theorem scan (n : ℕ) : Gapless { s with scanned := s.scanned ++ [n] } where
  stored_of_running := hs.stored_of_running
  isSome_first := hs.isSome_first
  idle := hs.idle
  stored v hv f hf m hm hfm := List.mem_append_left _ (hs.stored v hv f hf m hm hfm)
  memory v hv f hf m hm hfm := List.mem_append_left _ (hs.memory v hv f hf m hm hfm)
  tasks t task htask :=
    { covered := fun f hf m hm hfm =>
        List.mem_append_left _ ((hs.tasks t task htask).covered f hf m hm hfm)
      clean := (hs.tasks t task htask).clean }

include hlast

theorem setTask {task : Option IndexerTask} (htask : ∀ w ∈ task, s.Ready w.stage) :
    (s.setTask t task).Gapless where
  stored_of_running := hs.stored_of_running
  isSome_first := hs.isSome_first
  idle hnone := absurd (hlast.symm.trans hnone) nofun
  stored := hs.stored
  memory := hs.memory
  tasks u w hw := by
    have hready : s.Ready w.stage := by
      rcases update_eq_some hw with ⟨-, hw⟩ | ⟨-, hw⟩
      · exact htask w hw
      · exact hs.tasks u w hw
    exact ⟨hready.covered, hready.clean⟩

theorem goOn (hstage : s.Ready stage) : (s.goOn t loop stage).Gapless :=
  hs.setTask hlast fun _ hw => mem_some.mp hw ▸ hstage

theorem finish : (s.setTask t none).Gapless :=
  hs.setTask hlast nofun

theorem catchUp {target processed : ℕ} : (s.catchUp cfg t last target processed).Gapless := by
  unfold IndexerState.catchUp
  split
  · exact hs.goOn hlast ⟨hs.memory last hlast, nofun⟩
  · exact hs.finish hlast

theorem blockDone : (s.blockDone cfg t last loop).Gapless := by
  unfold IndexerState.blockDone
  split
  · exact hs.finish hlast
  · exact hs.catchUp hlast

theorem setStored (hv : s.CoveredUpTo v) : (s.setStored v).Gapless := by
  obtain ⟨f, hf⟩ := isSome_iff_exists.mp
    (hs.isSome_first.trans (hs.stored_of_running last hlast))
  have hfirst : (s.setStored v).first = s.first := by rw [IndexerState.setStored, hf]; rfl
  have hcov : ∀ {m}, s.CoveredUpTo m → (s.setStored v).CoveredUpTo m := by
    intro m hm
    unfold CoveredUpTo
    rw [hfirst]
    exact hm
  exact
    { stored_of_running := fun _ _ => rfl
      isSome_first := by rw [hfirst, hf]; rfl
      idle := hs.idle
      stored := fun w hw => mem_some.mp hw ▸ hcov hv
      memory := fun w hw => hcov (hs.memory w hw)
      tasks := fun u w hw => ⟨hcov (hs.tasks u w hw).covered, (hs.tasks u w hw).clean⟩ }

theorem updateLastProcessedBlock (hv : s.CoveredUpTo v) :
    (s.updateLastProcessedBlock v).Gapless := by
  unfold IndexerState.updateLastProcessedBlock
  split
  · exact hs
  · exact hs.setStored hlast hv

theorem writeHeartbeat (hv : s.CoveredUpTo v) : (s.writeHeartbeat v).Gapless := by
  unfold IndexerState.writeHeartbeat
  split
  · exact hs.setStored hlast hv
  · rename_i m hm
    exact hs.setStored hlast (coveredUpTo_max (hs.stored m hm) hv)

theorem advance (hn : s.CoveredUpTo n) : (s.advance t loop n).Gapless := by
  have hmoved : Gapless { s with lastProcessed := some n } :=
    { stored_of_running := fun _ _ => hs.stored_of_running last hlast
      isSome_first := hs.isSome_first
      idle := nofun
      stored := hs.stored
      memory := fun w hw => mem_some.mp hw ▸ hn
      tasks := fun u w hw => ⟨(hs.tasks u w hw).covered, (hs.tasks u w hw).clean⟩ }
  exact hmoved.goOn rfl ⟨hn, nofun⟩

end Gapless

theorem lastProcessed_updateLastProcessedBlock :
    (s.updateLastProcessedBlock v).lastProcessed = s.lastProcessed := by
  unfold updateLastProcessedBlock
  split <;> rfl

theorem lastProcessed_writeHeartbeat : (s.writeHeartbeat v).lastProcessed = s.lastProcessed := by
  unfold writeHeartbeat
  split <;> rfl

theorem Gapless.handle (hs : s.Gapless) (hlast : s.lastProcessed = some last) (hready :
    s.Ready stage) (ha : Honest cfg last a stage) : (s.handle cfg t last a loop stage).Gapless := by
  cases stage with
  | head =>
    simp only [IndexerState.handle]
    split
    · rename_i head
      -- the cursor is not behind, so the heartbeat writes the cursor itself
      have hmax : max last (head - cfg.confirmations) = last := max_eq_left (ha head rfl)
      refine hs.goOn hlast ⟨?_, nofun⟩
      rw [upTo, hmax]
      exact hs.memory last hlast
    · exact hs.finish hlast
  | heartbeat number target =>
    simp only [IndexerState.handle]
    split
    · exact (hs.writeHeartbeat hlast hready.covered).catchUp
        (lastProcessed_writeHeartbeat.trans hlast)
    · exact hs.finish hlast
  | fetch n =>
    simp only [IndexerState.handle]
    split
    · exact hs.goOn hlast ⟨hready.covered, nofun⟩
    · exact hs.blockDone hlast
  | native n =>
    simp only [IndexerState.handle]
    split
    · refine hs.goOn hlast ⟨hready.covered, ?_⟩
      rintro m clean ⟨⟩
      rfl
    · exact absurd rfl ha
    · exact hs.blockDone hlast
  | tokens n clean =>
    obtain rfl := hready.clean n clean rfl
    obtain rfl : a = .ok := ha
    exact (hs.scan n).advance hlast (coveredUpTo_of_scanned hready.covered)
  | store n =>
    simp only [IndexerState.handle]
    split
    · exact (hs.updateLastProcessedBlock hlast hready.covered).blockDone
        (lastProcessed_updateLastProcessedBlock.trans hlast)
    · exact hs.blockDone hlast

theorem Gapless.start (hs : s.Gapless) (head : ℕ) : (s.start true head).Gapless := by
  unfold IndexerState.start
  split
  · exact hs
  · rename_i hnone
    have htasks : ∀ t, s.tasks t = none := hs.idle hnone
    rw [if_pos rfl]
    split
    · rename_i n hn
      exact
        { stored_of_running := fun _ _ => by rw [hn]; rfl
          isSome_first := hs.isSome_first
          idle := nofun
          stored := hs.stored
          memory := fun w hw => mem_some.mp hw ▸ hs.stored n hn
          tasks := fun u w hw => absurd (htasks u) (ne_none_iff_exists'.mpr ⟨w, hw⟩) }
    · rename_i hstored
      -- the number stored now is the first one, and no block lies above it and up to it
      have hfirst : (s.setStored head).first = some head := by
        have hnofirst : s.first = none :=
          isNone_iff_eq_none.mp (by simpa [hstored] using hs.isSome_first)
        rw [IndexerState.setStored, hnofirst]
        rfl
      have hcov : (s.setStored head).CoveredUpTo head := by
        intro f hf m hm hfm
        rw [hfirst, mem_some] at hf
        omega
      exact
        { stored_of_running := fun _ _ => rfl
          isSome_first := by rw [hfirst]; rfl
          idle := nofun
          stored := fun w hw => mem_some.mp hw ▸ hcov
          memory := fun w hw => mem_some.mp hw ▸ hcov
          tasks := fun u w hw => absurd (htasks u) (ne_none_iff_exists'.mpr ⟨w, hw⟩) }

theorem Gapless.step {act : IndexerAction} (hs : s.Gapless) (hact : s.SkipsNothing cfg act) :
    (s.step cfg act).Gapless := by
  cases act with
  | start works head =>
    obtain rfl : works = true := hact
    exact hs.start head
  | announce t n =>
    simp only [IndexerState.step, IndexerState.announce]
    split
    · rename_i last hlast htask
      split_ifs
      · exact hs
      · have hn : n ≤ last + 1 := hact last hlast
        exact hs.goOn hlast ⟨(hs.memory last hlast).mono (by rw [upTo]; omega), nofun⟩
    · exact hs
  | tick t =>
    simp only [IndexerState.step, IndexerState.tick]
    split
    · rename_i last hlast htask
      exact hs.goOn hlast ⟨fun f _ m hm hfm => absurd hfm (by rw [upTo] at hm; omega), nofun⟩
    · exact hs
  | answer t a =>
    simp only [IndexerState.step, IndexerState.answer]
    split
    · rename_i last task hlast htask
      exact hs.handle hlast (hs.tasks t task htask) (hact last hlast task htask)
    · exact hs
  | crash =>
    exact
      { stored_of_running := nofun
        isSome_first := hs.isSome_first
        idle := fun _ _ => rfl
        stored := hs.stored
        memory := nofun
        tasks := nofun }

/-- In a run whose steps skip nothing, every block above the number stored first and up to the
stored one was scanned without an error. -/
theorem blocks_scanned (cfg : IndexerConfig) (acts : List IndexerAction)
    (hacts : Along (step cfg) (SkipsNothing cfg) init acts) : (run cfg acts).NothingSkipped :=
  (hacts.invariant (P := Gapless) gapless_init fun _ _ hs hact => hs.step hact).stored

def cleanScan (t : TaskId) (n : ℕ) : List IndexerAction :=
  [.announce t n, .answer t .ok, .answer t .ok, .answer t .ok, .answer t .ok]

def steadyRun : List IndexerAction :=
  [.start true 100, .announce 0 101, .answer 0 .error] ++ cleanScan 0 101 ++ cleanScan 1 102 ++
    [.tick 2, .answer 2 (.head 114), .answer 2 .ok, .crash, .start true 150] ++ cleanScan 0 103

theorem steadyRun_scanned :
    Along (step ⟨12, 10⟩) (SkipsNothing ⟨12, 10⟩) init steadyRun ∧
      (run ⟨12, 10⟩ steadyRun).stored = some 103 ∧ (run ⟨12, 10⟩ steadyRun).NothingSkipped :=
  ⟨by decide +kernel, by decide +kernel, blocks_scanned _ _ (by decide +kernel)⟩

/-- The heartbeat stores a number, and the process crashes before it has fetched a block. -/
def heartbeatRun : List IndexerAction :=
  [.start true 100, .tick 0, .answer 0 (.head 150), .answer 0 .ok, .crash, .start true 150]

def gapRun : List IndexerAction := .start true 100 :: cleanScan 0 103

def loggedRun : List IndexerAction :=
  [.start true 100, .announce 0 101, .answer 0 .ok, .answer 0 .ok, .answer 0 .error,
    .answer 0 .ok]

def unreadRun : List IndexerAction :=
  [.start true 100, .crash, .start false 120] ++ cleanScan 0 121

theorem blocks_skipped :
    ¬ (run ⟨12, 10⟩ heartbeatRun).NothingSkipped ∧ ¬ (run ⟨12, 10⟩ gapRun).NothingSkipped ∧
      ¬ (run ⟨12, 10⟩ loggedRun).NothingSkipped ∧ ¬ (run ⟨12, 10⟩ unreadRun).NothingSkipped := by
  decide +kernel

end IndexerState

end MetherCEX
