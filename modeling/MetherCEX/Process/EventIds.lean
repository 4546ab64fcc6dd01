import MetherCEX.Process.Numbered

/-!
# Event ids across restarts

The ids of match events come from a counter in memory. A startup sets it from the snapshot file or
from the backend; the replay of the journal does not move it.
-/

namespace MetherCEX

open Run

namespace Process

variable {cfg : Config} {p p' : Process} {a : ProcessAction}

/-- The ids were given in increasing order, and the counter is above them. -/
structure Increasing (p : Process) : Prop where
  sorted : (p.allocated.map Prod.fst).Pairwise (· < ·)
  bounded : ∀ q ∈ p.allocated, q.1 + 1 < usizeBound
  next : ∀ m ∈ p.memory, ∀ q ∈ p.allocated, q.1 < m.race.engine.nextEventId

/-- The next id that a startup finds, in the snapshot file, else at the backend, is
above the given ids. -/
def NextIdAbove (allocated : List (ℕ × MatchEvent)) :
    Option EnginePersistenceSnapshot → Option (List Order × ℕ) → Prop
  | some snap, _ => ∀ q ∈ allocated, q.1 < snap.nextEventId
  | none, some (_, lastEngineEventId) => ∀ q ∈ allocated, q.1 ≤ lastEngineEventId
  | none, none => allocated = []

instance (allocated : List (ℕ × MatchEvent)) (snapshot backend) :
    Decidable (NextIdAbove allocated snapshot backend) := by
  dsimp only [NextIdAbove]
  split <;> infer_instance

/-- The counter does not wrap, and a startup that gets through the replay finds a
next id above the ids given before. -/
def FreshIds (cfg : Config) (p : Process) : ProcessAction → Prop
  | .place _ now o =>
    ∀ m ∈ p.memory,
      m.race.engine.nextEventId + (m.race.engine.trialMatch now o).1.length < usizeBound
  | .restart survived backend =>
    p.memory.isNone →
    (startEngine p.snapshotFile backend).ReplaySucceeds (rowsAtStart cfg p survived) →
      NextIdAbove p.allocated p.snapshotFile backend
  | _ => True

instance (cfg : Config) (p : Process) (a) : Decidable (FreshIds cfg p a) := by
  cases a <;> dsimp only [FreshIds] <;> infer_instance

namespace Increasing

theorem init : Increasing .init where
  sorted := List.Pairwise.nil
  bounded := nofun
  next _ hm := by cases hm

variable (h : Increasing p)

include h

theorem keep {m m' : Memory} (hm : p.memory = some m) (halloc : p'.allocated = p.allocated)
    (hm' : p'.memory = some m') (hnext : m'.race.engine.nextEventId = m.race.engine.nextEventId) :
    Increasing p' := by
  refine ⟨halloc ▸ h.sorted, halloc ▸ h.bounded, fun _ hmem q hq => ?_⟩
  rw [hm'] at hmem
  cases hmem
  rw [hnext]
  exact h.next m hm q (halloc ▸ hq)

theorem down (halloc : p'.allocated = p.allocated) (hm' : p'.memory = none) : Increasing p' := by
  refine ⟨halloc ▸ h.sorted, halloc ▸ h.bounded, fun _ hmem => ?_⟩
  rw [hm'] at hmem
  cases hmem

theorem allocate {m m' : Memory} (hm : p.memory = some m) {now : ℕ → ℕ} {o : Order}
    (hbound : m.race.engine.nextEventId + (m.race.engine.trialMatch now o).1.length < usizeBound)
    (halloc : p'.allocated = p.allocated ++ m.race.engine.pendingPairs now o)
    (hm' : p'.memory = some m') (hnext : m'.race.engine.nextEventId =
    m.race.engine.nextEventId + (m.race.engine.trialMatch now o).1.length) : Increasing p' := by
  have hnew : ∀ q ∈ m.race.engine.pendingPairs now o, m.race.engine.nextEventId ≤ q.1 ∧
      q.1 < m.race.engine.nextEventId + (m.race.engine.trialMatch now o).1.length := by
    intro q hq
    exact Engine.mem_numberEvents hq hbound
  refine ⟨?_, fun q hq => ?_, fun _ hmem q hq => ?_⟩
  · rw [halloc, List.map_append, List.pairwise_append]
    refine ⟨h.sorted, Engine.numberEvents_sorted hbound, fun i hi j hj => ?_⟩
    obtain ⟨q, hq, rfl⟩ := List.mem_map.mp hi
    obtain ⟨r, hr, rfl⟩ := List.mem_map.mp hj
    exact lt_of_lt_of_le (h.next m hm q hq) (hnew r hr).1
  · rw [halloc] at hq
    rcases List.mem_append.mp hq with hq | hq
    · exact h.bounded q hq
    · have := (hnew q hq).2
      omega
  · rw [hm'] at hmem
    cases hmem
    rw [halloc] at hq
    rw [hnext]
    rcases List.mem_append.mp hq with hq | hq
    · exact lt_of_lt_of_le (h.next m hm q hq) (Nat.le_add_right _ _)
    · exact (hnew q hq).2

theorem start_next {backend : Option (List Order × ℕ)}
    (habove : NextIdAbove p.allocated p.snapshotFile backend) :
    ∀ q ∈ p.allocated, q.1 < (startEngine p.snapshotFile backend).nextEventId := by
  intro q hq
  have hbound := h.bounded q hq
  cases hsnap : p.snapshotFile with
  | some snap =>
    rw [hsnap] at habove
    exact lt_of_lt_of_le (habove q hq) (le_max_left _ _)
  | none =>
    rw [hsnap] at habove
    cases backend with
    | none =>
      have hnil : p.allocated = [] := habove
      rw [hnil] at hq
      exact nomatch hq
    | some state =>
      have hle : q.1 ≤ state.2 := habove q hq
      exact lt_min (Nat.lt_succ_of_le hle) (by omega)

theorem move (hc : FreshIds cfg p a) (hmv : Move cfg p a p') : Increasing p' := by
  cases hmv with
  | placeAtOnce hm => exact h.keep hm rfl rfl rfl
  | placeReserve hm => exact h.allocate hm (hc _ hm) rfl rfl (Nat.mod_eq_of_lt (hc _ hm))
  | placeDirect hm =>
    exact h.allocate hm (hc _ hm) rfl rfl (Engine.nextEventId_placeOrder _ _ _ (hc _ hm))
  | append hm => exact h.keep hm rfl rfl rfl
  | appendFails hm => exact h.keep hm rfl rfl (RaceState.quiet_abort cfg.engineId _).nextEventId_eq
  | publish hm => exact h.keep hm rfl rfl rfl
  | publishFails hm => exact h.keep hm rfl rfl (RaceState.quiet_abort cfg.engineId _).nextEventId_eq
  | ack hm => exact h.keep hm rfl rfl rfl
  | ackFails hm => exact h.keep hm rfl rfl (RaceState.quiet_abort cfg.engineId _).nextEventId_eq
  | commit hm => exact h.keep hm rfl rfl (RaceState.commit_nextEventId cfg.engineId _)
  | inner hm ha => exact h.keep hm rfl rfl (RaceState.quiet_of_free _ ha).nextEventId_eq
  | enqueue hm | saveSnapshot hm | dropSnapshot hm | pipelinePublish hm | bootPublish hm =>
    exact h.keep hm rfl rfl rfl
  | bootFails hm => exact h.down rfl rfl
  | ackPublished hm | ackLost hm => exact h.keep hm rfl rfl rfl
  | ackStops hm | crash hm => exact h.down rfl rfl
  | restartFails hm => exact h.down rfl hm
  | restart hm hreplay =>
    refine ⟨h.sorted, h.bounded, fun _ hmem q hq => ?_⟩
    cases hmem
    have hrows := Engine.replayRows_spec (rowsAtStart_sorted cfg p _) hreplay
    have hlt := h.start_next (hc (by rw [hm]; rfl) ⟨_, hreplay⟩) q hq
    rw [← hrows.nextEventId_eq] at hlt
    exact hlt

end Increasing

/-- The ids increase in the order in which they were given, and nothing is written
or published under another id. -/
structure NeverReused (cfg : Config) (p : Process) : Prop where
  sorted : (p.allocated.map Prod.fst).Pairwise (· < ·)
  stream : ∀ q ∈ p.stream, q ∈ p.allocated
  rows : ∀ row ∈ p.rows cfg, (row.eventId, row.event) ∈ p.allocated

/-- When every startup finds a next id above the ids given before, no id is given
twice. -/
theorem run_never_reuses_ids (cfg : Config) (acts : List ProcessAction)
    (h : Along (step cfg) (FreshIds cfg) .init acts) :
    NeverReused cfg (acts.foldl (step cfg) .init) := by
  have hnum := numbered_run cfg acts
  have hinc : Increasing (acts.foldl (step cfg) .init) :=
    run_invariant (fun _ _ _ hp hc hmv => hp.move hc hmv) h Increasing.init
  exact ⟨hinc.sorted, hnum.stream, hnum.rows⟩

def syncConfig : Config := ⟨"default", fun _ => "match.events.default.p0", .sync, true, true⟩

def restingAsk : ProcessAction :=
  .place 1 id ⟨1, 10, "BTC_USDT", .sell, .limit, some 100, 2, 2, 5⟩

/-- A buy of 1 matches the sell, is published and acknowledged, and commits. -/
def buyOne (job : ℕ) (orderId : OrderId) : List ProcessAction :=
  [.place job id ⟨orderId, 11, "BTC_USDT", .buy, .limit, some 100, 1, 1, 6⟩,
    .append job .ok, .publish job ⟨true, true⟩, .ack job .ok, .commit job,
    .inner (.insertNext job), .inner (.record job)]

def takeSnapshot : List ProcessAction :=
  [.inner .start, .inner (.readMarket "BTC_USDT"), .inner .readApplied, .inner .readNext,
    .saveSnapshot]

def firstStart : ProcessAction := .restart 0 none

def currentSnapshotRun : List ProcessAction :=
  [firstStart, restingAsk] ++ buyOne 2 2 ++ takeSnapshot ++ [.crash, .restart 0 none] ++
    buyOne 3 3

theorem currentSnapshotRun_never_reuses_ids :
    Along (step syncConfig) (FreshIds syncConfig) .init currentSnapshotRun ∧
    (currentSnapshotRun.foldl (step syncConfig) .init).allocated.map Prod.fst = [1, 2] ∧
    NeverReused syncConfig (currentSnapshotRun.foldl (step syncConfig) .init) :=
  have h : Along (step syncConfig) (FreshIds syncConfig) .init currentSnapshotRun := by
    decide +kernel
  ⟨h, by decide +kernel, run_never_reuses_ids syncConfig currentSnapshotRun h⟩

def staleSnapshotRun : List ProcessAction :=
  [firstStart, restingAsk] ++ takeSnapshot ++ buyOne 2 2 ++ [.crash, .restart 0 none] ++
    buyOne 3 3

def backendRun : List ProcessAction :=
  [firstStart, restingAsk] ++ buyOne 2 2 ++
    [.crash, .restart 0 (some ([⟨1, 10, "BTC_USDT", .sell, .limit, some 100, 2, 1, 5⟩], 0))] ++
    buyOne 3 3

/-- Both recoveries give the id 1 to a second fill. -/
theorem restart_reuses_ids :
    (staleSnapshotRun.foldl (step syncConfig) .init).allocated.map Prod.fst = [1, 1] ∧
    (backendRun.foldl (step syncConfig) .init).allocated.map Prod.fst = [1, 1] ∧
    ¬ NeverReused syncConfig (staleSnapshotRun.foldl (step syncConfig) .init) ∧
    ¬ NeverReused syncConfig (backendRun.foldl (step syncConfig) .init) := by
  have hstale : (staleSnapshotRun.foldl (step syncConfig) .init).allocated.map Prod.fst =
    [1, 1] := by decide +kernel
  have hback : (backendRun.foldl (step syncConfig) .init).allocated.map Prod.fst = [1, 1] := by
    decide +kernel
  refine ⟨hstale, hback, fun h => ?_, fun h => ?_⟩
  · exact absurd (hstale ▸ h.sorted) (by decide)
  · exact absurd (hback ▸ h.sorted) (by decide)

end Process

end MetherCEX
