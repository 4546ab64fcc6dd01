import MetherCEX.Process.Model

/-!
# What a step of the process can do

`Move cfg p a p'` lists the steps of the process that change something, each with the state it
needs and the state it leads to.
-/

namespace MetherCEX

namespace Process

inductive Move (cfg : Config) (p : Process) : ProcessAction → Process → Prop
  | placeAtOnce {m : Memory} {job : ℕ} {now : ℕ → ℕ} {o : Order} (hm : p.memory = some m)
      (hnil : m.race.engine.pendingPairs now o = []) (hlock : o.market ∉ m.race.locks) :
      Move cfg p (.place job now o)
        { p with
          memory := some { m with race := { m.race with
            engine := m.race.engine.commitBook o.market (m.race.engine.trialMatch now o).2 } }
          accepted := o.id :: p.accepted
          succeeded := o.id :: p.succeeded }
  | placeReserve {m : Memory} {job : ℕ} {now : ℕ → ℕ} {o : Order} (hm : p.memory = some m)
      (hjob : job ∉ m.race.jobs.keys) (hfresh : job ∉ m.publications.keys)
      (hlock : o.market ∉ m.race.locks) :
      Move cfg p (.place job now o)
        { p with
          memory := some { m with
            race := { m.race with
              engine := m.race.engine.fetchAdd (m.race.engine.trialMatch now o).1.length
              jobs := m.race.jobs.insert job ⟨o.market, (m.race.engine.trialMatch now o).2,
                m.race.engine.pendingPairs now o, .reserved⟩
              locks := o.market :: m.race.locks }
            publications := m.publications.insert job
              ⟨o.id, m.race.engine.pendingPairs now o, cfg.firstStage, false⟩ }
          allocated := p.allocated ++ m.race.engine.pendingPairs now o }
  | placeDirect {m : Memory} {job : ℕ} {now : ℕ → ℕ} {o : Order} (hm : p.memory = some m)
      (hlock : o.market ∉ m.race.locks) :
      Move cfg p (.place job now o) (p.placeDirect cfg m now o)
  | append {m : Memory} {job : ℕ} {P : Publication} (hm : p.memory = some m)
      (hP : m.publications.get? job = some P) (hstage : P.stage = .appending) :
      Move cfg p (.append job .ok)
        ((p.appendLines ((walRowsForPairs cfg.subjectOf P.pairs).map (.evt cfg.engineId)) .ok)
          |>.withMemory { m with
            publications := m.publications.insert job (P.withStage cfg.afterAppend) })
  | appendFails {m : Memory} {job : ℕ} {P : Publication} {n : ℕ} {err : String}
      (hm : p.memory = some m) (hP : m.publications.get? job = some P)
      (hstage : P.stage = .appending) :
      Move cfg p (.append job (.failed n err))
        ((p.appendLines ((walRowsForPairs cfg.subjectOf P.pairs).map (.evt cfg.engineId))
          (.failed n err)).fail cfg m job P)
  | publish {m : Memory} {job n : ℕ} {P : Publication} {q : ℕ × MatchEvent}
      {outcome : PublishOutcome} (hm : p.memory = some m)
      (hP : m.publications.get? job = some P) (hstage : P.stage = .publishing n)
      (hq : P.pairs[n]? = some q) (hok : outcome.ok = true) :
      Move cfg p (.publish job outcome)
        ((p.store q outcome).withMemory { m with
          publications := m.publications.insert job
            { P with stage := cfg.afterPublish P n, reached := true } })
  | publishFails {m : Memory} {job n : ℕ} {P : Publication} {q : ℕ × MatchEvent}
      {outcome : PublishOutcome} (hm : p.memory = some m)
      (hP : m.publications.get? job = some P) (hstage : P.stage = .publishing n)
      (hq : P.pairs[n]? = some q) (hok : outcome.ok = false) :
      Move cfg p (.publish job outcome)
        ((p.store q outcome).fail cfg m job { P with reached := P.reached || outcome.stored })
  | ack {m : Memory} {job n : ℕ} {P : Publication} {q : ℕ × MatchEvent} (hm : p.memory = some m)
      (hP : m.publications.get? job = some P) (hstage : P.stage = .acking n)
      (hq : P.pairs[n]? = some q) :
      Move cfg p (.ack job .ok)
        { p.appendLines [.ack q.1] .ok with
          memory := some { m with
            publications := m.publications.insert job (P.withStage (P.afterAck n)) }
          acked := p.acked ++ [q] }
  | ackFails {m : Memory} {job n : ℕ} {P : Publication} {q : ℕ × MatchEvent} {k : ℕ}
      {err : String} (hm : p.memory = some m) (hP : m.publications.get? job = some P)
      (hstage : P.stage = .acking n) (hq : P.pairs[n]? = some q) :
      Move cfg p (.ack job (.failed k err))
        ((p.appendLines [.ack q.1] (.failed k err)).fail cfg m job P)
  | commit {m : Memory} {job : ℕ} {P : Publication} (hm : p.memory = some m)
      (hP : m.publications.get? job = some P) (hstage : P.stage = .ready) :
      Move cfg p (.commit job)
        { p with
          memory := some { m with
            race := m.race.step cfg.engineId (.commit job)
            publications := m.publications.insert job (P.withStage (.enqueueing 0))
            sinceRead := m.race.sinceRead m.sinceRead (.commit job) }
          accepted := P.orderId :: p.accepted
          succeeded := P.orderId :: p.succeeded
          sinceSaved := p.sinceSaved ++ m.race.changesIn (fun _ => true) (.commit job) }
  | inner {m : Memory} {a : RaceAction} (hm : p.memory = some m) (ha : a.free = true) :
      Move cfg p (.inner a)
        { p with
          memory := some { m with
            race := m.race.step cfg.engineId a
            sinceRead := m.race.sinceRead m.sinceRead a }
          sinceSaved := p.sinceSaved ++ m.race.changesIn (fun _ => true) a }
  | enqueue {m : Memory} {job n : ℕ} {P : Publication} {J : PlacementJob} {q : ℕ × MatchEvent}
      (hm : p.memory = some m) (hP : m.publications.get? job = some P)
      (hJ : m.race.jobs.get? job = some J) (hrec : J.phase = .recorded)
      (hstage : P.stage = .enqueueing n) (hq : P.pairs[n]? = some q) :
      Move cfg p (.enqueue job)
        (p.withMemory { m with
          publications := m.publications.insert job (P.withStage (.enqueueing (n + 1)))
          queue := m.queue ++ [q] })
  | saveSnapshot {m : Memory} {r : SnapshotReader} {snap : EnginePersistenceSnapshot}
      (hm : p.memory = some m) (hr : m.race.reader = some r) (hsnap : r.snapshot = some snap) :
      Move cfg p .saveSnapshot
        { p with
          memory := some { m with race := { m.race with reader := none } }
          snapshotFile := some snap
          sinceSaved := m.sinceRead }
  | dropSnapshot {m : Memory} (hm : p.memory = some m) :
      Move cfg p .dropSnapshot (p.dropSnapshot m)
  | pipelinePublish {m : Memory} {q : ℕ × MatchEvent} {outcome : PublishOutcome}
      (hm : p.memory = some m) (hq : q ∈ m.queue) :
      Move cfg p (.pipelinePublish q outcome)
        ((p.store q outcome).withMemory { m with
          queue := m.queue.erase q
          toAck := if outcome.ok && cfg.wal then m.toAck ++ [q] else m.toAck })
  | bootPublish {m : Memory} {q : ℕ × MatchEvent} {boot : List (ℕ × MatchEvent)}
      {outcome : PublishOutcome} (hm : p.memory = some m) (hboot : m.boot = q :: boot) :
      Move cfg p (.bootPublish outcome)
        ((p.store q outcome).withMemory { m with boot := boot, toAck := [q] })
  | bootFails {m : Memory} {q : ℕ × MatchEvent} {boot : List (ℕ × MatchEvent)}
      {outcome : PublishOutcome} (hm : p.memory = some m) (hboot : m.boot = q :: boot)
      (hok : outcome.ok = false) :
      Move cfg p (.bootPublish outcome) ((p.store q outcome).stop m)
  | ackPublished {m : Memory} {q : ℕ × MatchEvent} (hm : p.memory = some m) (hq : q ∈ m.toAck) :
      Move cfg p (.ackPublished q .ok)
        { p.appendLines [.ack q.1] .ok with
          memory := some { m with toAck := m.toAck.erase q }
          acked := p.acked ++ [q] }
  | ackLost {m : Memory} {q : ℕ × MatchEvent} {k : ℕ} {err : String} (hm : p.memory = some m)
      (hq : q ∈ m.toAck) :
      Move cfg p (.ackPublished q (.failed k err))
        ((p.appendLines [.ack q.1] (.failed k err)).withMemory
          { m with toAck := m.toAck.erase q })
  | ackStops {m : Memory} {q : ℕ × MatchEvent} {k : ℕ} {err : String} (hm : p.memory = some m)
      (hq : q ∈ m.toAck) :
      Move cfg p (.ackPublished q (.failed k err))
        ((p.appendLines [.ack q.1] (.failed k err)).stop m)
  | crash {m : Memory} (hm : p.memory = some m) : Move cfg p .crash (p.stop m)
  | restartFails {survived : ℕ} {backend : Option (List Order × ℕ)} (hm : p.memory = none) :
      Move cfg p (.restart survived backend)
        { p with journal := journalAtStart cfg p survived, unsynced := [] }
  | restart {survived : ℕ} {backend : Option (List Order × ℕ)} {e : Engine}
      (hm : p.memory = none)
      (hreplay : (startEngine p.snapshotFile backend).replayRows (rowsAtStart cfg p survived) =
        .ok e) :
      Move cfg p (.restart survived backend)
        { p with
          journal := journalAtStart cfg p survived
          unsynced := []
          memory := some (booted cfg e (rowsAtStart cfg p survived))
          accepted := (backendOrders p.snapshotFile backend).map Order.id ++ p.accepted
          recoveries :=
            if p.snapshotFile.isSome then p.recoveries ++ [(p.lastBook, e.orders)]
            else p.recoveries
          sinceSaved :=
            replayed (startEngine p.snapshotFile backend) (rowsAtStart cfg p survived) }

variable {cfg : Config} {p : Process}

/-- The step `a` that leads to `p'` is a move or does nothing. -/
def MoveOrStay (cfg : Config) (p : Process) (a : ProcessAction) (p' : Process) : Prop :=
  p' = p ∨ Move cfg p a p'

theorem whenRunning_move {f : Memory → Process} {a : ProcessAction} (h : ∀ m, p.memory = some m →
    MoveOrStay cfg p a (f m)) : MoveOrStay cfg p a (p.whenRunning f) := by
  unfold whenRunning
  split
  · exact .inl rfl
  · rename_i m hm
    exact h m hm

section

variable {m : Memory} (hm : p.memory = some m)

include hm

theorem place_move (job : ℕ) (now : ℕ → ℕ) (o : Order) :
    MoveOrStay cfg p (.place job now o) (p.place cfg m job now o) := by
  unfold place
  split_ifs with hstop hguard
  · exact .inl rfl
  · right
    rw [not_or, not_or, not_or] at hstop
    obtain ⟨-, hjob, hfresh, hlock⟩ := hstop
    unfold placeGuarded
    have hpairs : m.race.engine.pendingPairs now o = [] ↔
        (m.race.engine.trialMatch now o).1 = [] := by
      simp [Engine.pendingPairs, numberEvents]
    dsimp only
    split_ifs with hnil
    · rw [RaceState.reserve_of_nil hjob hlock (hpairs.mp hnil)]
      exact Move.placeAtOnce hm hnil hlock
    · rw [RaceState.reserve_of_ne_nil hjob hlock (mt hpairs.mpr hnil)]
      exact Move.placeReserve hm hjob hfresh hlock
  · rw [not_or, not_or, not_or] at hstop
    exact .inr (Move.placeDirect hm hstop.2.2.2)

theorem append_move (job : ℕ) (outcome : AppendOutcome) :
    MoveOrStay cfg p (.append job outcome) (p.append cfg m job outcome) := by
  unfold append
  split
  · rename_i P hP
    split_ifs with hstage
    · cases outcome with
      | ok => exact .inr (Move.append hm hP hstage)
      | failed n err => exact .inr (Move.appendFails hm hP hstage)
    · exact .inl rfl
  · exact .inl rfl

theorem publish_move (job : ℕ) (outcome : PublishOutcome) :
    MoveOrStay cfg p (.publish job outcome) (p.publish cfg m job outcome) := by
  unfold publish
  split
  · rename_i P hP
    split
    · rename_i n hstage
      split
      · rename_i q hq
        split_ifs with hok
        · exact .inr (Move.publish hm hP hstage hq hok)
        · exact .inr (Move.publishFails hm hP hstage hq (Bool.eq_false_iff.mpr hok))
      · exact .inl rfl
    · exact .inl rfl
  · exact .inl rfl

theorem ack_move (job : ℕ) (outcome : AppendOutcome) :
    MoveOrStay cfg p (.ack job outcome) (p.ack cfg m job outcome) := by
  unfold ack
  split
  · rename_i P hP
    split
    · rename_i n hstage
      split
      · rename_i q hq
        cases outcome with
        | ok => exact .inr (Move.ack hm hP hstage hq)
        | failed k err => exact .inr (Move.ackFails hm hP hstage hq)
      · exact .inl rfl
    · exact .inl rfl
  · exact .inl rfl

theorem commit_move (job : ℕ) : MoveOrStay cfg p (.commit job) (p.commit cfg m job) := by
  unfold commit
  split
  · rename_i P hP
    split_ifs with hstage
    · exact .inr (Move.commit hm hP hstage)
    · exact .inl rfl
  · exact .inl rfl

theorem inner_move (a : RaceAction) : MoveOrStay cfg p (.inner a) (p.inner cfg m a) := by
  unfold inner
  split_ifs with ha
  · exact .inr (Move.inner hm ha.1)
  · exact .inl rfl

theorem enqueue_move (job : ℕ) : MoveOrStay cfg p (.enqueue job) (p.enqueue cfg m job) := by
  unfold enqueue
  split
  · rename_i P J hP hJ
    split
    · rename_i n hstage
      split
      · rename_i q hq
        split_ifs with hrec
        · exact .inr (Move.enqueue hm hP hJ hrec.2 hstage hq)
        · exact .inl rfl
      · exact .inl rfl
    · exact .inl rfl
  · exact .inl rfl

theorem saveSnapshot_move : MoveOrStay cfg p .saveSnapshot (p.saveSnapshot m) := by
  unfold saveSnapshot
  split
  · rename_i r hr
    split
    · rename_i snap hsnap
      exact .inr (Move.saveSnapshot hm hr hsnap)
    · exact .inl rfl
  · exact .inl rfl

theorem pipelinePublish_move (q : ℕ × MatchEvent) (outcome : PublishOutcome) :
    MoveOrStay cfg p (.pipelinePublish q outcome) (p.pipelinePublish cfg m q outcome) := by
  unfold pipelinePublish
  by_cases hq : cfg.mode = .async ∧ q ∈ m.queue
  · rw [if_pos hq]
    exact .inr (Move.pipelinePublish hm hq.2)
  · rw [if_neg hq]
    exact .inl rfl

theorem bootPublish_move (outcome : PublishOutcome) :
    MoveOrStay cfg p (.bootPublish outcome) (p.bootPublish m outcome) := by
  unfold bootPublish
  split
  · rename_i q boot hboot hack
    split_ifs with hok
    · exact .inr (Move.bootPublish hm hboot)
    · exact .inr (Move.bootFails hm hboot (Bool.eq_false_iff.mpr hok))
  · exact .inl rfl

theorem ackPublished_move (q : ℕ × MatchEvent) (outcome : AppendOutcome) :
    MoveOrStay cfg p (.ackPublished q outcome) (p.ackPublished cfg m q outcome) := by
  unfold ackPublished
  by_cases hq : q ∈ m.toAck
  · rw [if_pos hq]
    cases outcome with
    | ok => exact .inr (Move.ackPublished hm hq)
    | failed k err =>
      dsimp only
      split_ifs
      · exact .inr (Move.ackStops hm hq)
      · exact .inr (Move.ackLost hm hq)
  · rw [if_neg hq]
    exact .inl rfl

end

theorem restart_move (hm : p.memory = none) (survived : ℕ) (backend : Option (List Order × ℕ)) :
    Move cfg p (.restart survived backend) (p.restart cfg survived backend) := by
  unfold restart
  split
  · exact Move.restartFails hm
  · rename_i e hreplay
    exact Move.restart hm hreplay

theorem step_move (cfg : Config) (p : Process) (a : ProcessAction) :
    p.step cfg a = p ∨ Move cfg p a (p.step cfg a) := by
  cases a with
  | place job now o => exact whenRunning_move fun m hm => place_move hm job now o
  | append job outcome => exact whenRunning_move fun m hm => append_move hm job outcome
  | publish job outcome => exact whenRunning_move fun m hm => publish_move hm job outcome
  | ack job outcome => exact whenRunning_move fun m hm => ack_move hm job outcome
  | commit job => exact whenRunning_move fun m hm => commit_move hm job
  | inner a => exact whenRunning_move fun m hm => inner_move hm a
  | enqueue job => exact whenRunning_move fun m hm => enqueue_move hm job
  | saveSnapshot => exact whenRunning_move fun m hm => saveSnapshot_move hm
  | dropSnapshot => exact whenRunning_move fun m hm => .inr (Move.dropSnapshot hm)
  | pipelinePublish q outcome =>
    exact whenRunning_move fun m hm => pipelinePublish_move hm q outcome
  | bootPublish outcome => exact whenRunning_move fun m hm => bootPublish_move hm outcome
  | ackPublished q outcome => exact whenRunning_move fun m hm => ackPublished_move hm q outcome
  | crash => exact whenRunning_move fun m hm => .inr (Move.crash hm)
  | restart survived backend =>
    simp only [step]
    split
    · rename_i hm
      exact .inr (restart_move hm survived backend)
    · exact .inl rfl

/-- What every move that meets the condition keeps holds in every run whose steps
meet it. -/
theorem run_invariant {C : Process → ProcessAction → Prop} {P : Process → Prop} (hmove : ∀ p a p',
    P p → C p a → Move cfg p a p' → P p') {p : Process} {acts : List ProcessAction}
    (h : Run.Along (step cfg) C p acts) (h0 : P p) : P (acts.foldl (step cfg) p) := by
  refine h.invariant h0 fun p a hp ha => ?_
  rcases step_move cfg p a with heq | hmv
  · rw [heq]
    exact hp
  · exact hmove p a _ hp ha hmv

end Process

end MetherCEX
