import MetherCEX.Process.EventIds

/-!
# Fills and recoveries

A startup restores the snapshot and applies the rows of the journal that are not acknowledged.
-/

namespace MetherCEX

open Run List Engine

namespace Process

/-- The committed books: those in memory, or the last ones before the process ended. -/
def book (p : Process) : List Order :=
  match p.memory with
  | some m => m.race.engine.orders
  | none => p.lastBook

theorem book_of_running {p : Process} {m : Memory} (hm : p.memory = some m) :
    p.book = m.race.engine.orders := by
  rw [book, hm]

theorem book_of_down {p : Process} (hm : p.memory = none) : p.book = p.lastBook := by
  rw [book, hm]

/-- Every recovered order was in the books before the crash, with at least the
remainder it has now. -/
def ForgetsNoFill (p : Process) : Prop :=
  ∀ r ∈ p.recoveries, ∀ x ∈ r.2, ∃ y ∈ r.1, y.id = x.id ∧ x.remaining ≤ y.remaining
  deriving Decidable

/-- What a startup from the snapshot applies contains every fill since the snapshot
was read that names one of its orders, and none of its orders was cancelled since. -/
def FillsInJournal (p : Process) (snap : EnginePersistenceSnapshot)
    (rows : List WalPendingEvent) : Prop :=
  (p.sinceSaved.fills.filter fun q => decide (∃ y ∈ snap.orders, q.2.Names y.id)).Subperm
      (replayed snap.applySnapshotToEngine rows).fills ∧
    ∀ y ∈ snap.orders, y.id ∉ p.sinceSaved.cancelled
  deriving Decidable

/-- Placed orders have something left, an id that does not rest and belongs to their market; so have
the orders of the backend, which have distinct ids. -/
def KeepsFills (cfg : Config) (marketOf : OrderId → Market) (p : Process) :
    ProcessAction → Prop
  | .place _ _ o => ∀ m ∈ p.memory, m.race.engine.Admits marketOf o
  | .restart survived backend =>
    ((backendOrders p.snapshotFile backend).map Order.id).Nodup ∧
    (∀ o ∈ backendOrders p.snapshotFile backend, 0 < o.remaining ∧ marketOf o.id = o.market) ∧
    (p.memory = none → ∀ snap ∈ p.snapshotFile,
      snap.applySnapshotToEngine.ReplaySucceeds (rowsAtStart cfg p survived) →
        FillsInJournal p snap (rowsAtStart cfg p survived))
  | _ => True

instance (cfg : Config) (marketOf : OrderId → Market) (p : Process) :
    ∀ a, Decidable (KeepsFills cfg marketOf p a)
  | .place _ _ o => inferInstanceAs (Decidable (∀ m ∈ p.memory, m.race.engine.Admits marketOf o))
  | .restart .. => inferInstanceAs (Decidable (_ ∧ _ ∧ (_ → ∀ snap ∈ p.snapshotFile, _ → _)))
  | .append .. | .publish .. | .ack .. | .commit _ | .inner _ | .enqueue _ | .saveSnapshot
  | .dropSnapshot | .pipelinePublish .. | .bootPublish _ | .ackPublished .. | .crash =>
    .isTrue trivial

variable {cfg : Config} {marketOf : OrderId → Market} {p p' : Process} {a : ProcessAction}

/-- The books, what a snapshot in progress has read and the snapshot file fit
together. -/
structure Ledger (marketOf : OrderId → Market) (p : Process) : Prop where
  booked : ∀ m ∈ p.memory, m.race.Booked marketOf
  reader : ∀ m ∈ p.memory, ∀ r ∈ m.race.reader,
    RaceState.ReadAccount marketOf r m.sinceRead m.race.engine.orders
  distinct : (p.book.map Order.id).Nodup
  file_distinct : ∀ snap ∈ p.snapshotFile, (snap.orders.map Order.id).Nodup
  file_sound : ∀ snap ∈ p.snapshotFile, ∀ o ∈ snap.orders,
    0 < o.remaining ∧ marketOf o.id = o.market
  file_covers : ∀ snap ∈ p.snapshotFile, Covers snap.orders p.sinceSaved p.book
  recoveries : p.ForgetsNoFill

namespace Ledger

theorem init (marketOf : OrderId → Market) : Ledger marketOf .init where
  booked _ hm := by cases hm
  reader _ hm := by cases hm
  distinct := nodup_nil
  file_distinct _ hsnap := by cases hsnap
  file_sound _ hsnap := by cases hsnap
  file_covers _ hsnap := by cases hsnap
  recoveries := forall_mem_nil _

variable {m m' : Memory} {snap : EnginePersistenceSnapshot}

variable (h : Ledger marketOf p)

include h

theorem down (hm : p.memory = some m) (hm' : p'.memory = none)
    (hlast : p'.lastBook = m.race.engine.orders) (hfile : p'.snapshotFile = p.snapshotFile) (hrec :
    p'.recoveries = p.recoveries) (hsaved : p'.sinceSaved = p.sinceSaved) : Ledger marketOf p' := by
  have hbook : p'.book = p.book := by rw [book_of_running hm, book_of_down hm', hlast]
  refine ⟨fun n hn => ?_, fun n hn => ?_, hbook ▸ h.distinct, hfile ▸ h.file_distinct,
    hfile ▸ h.file_sound, ?_, ?_⟩
  · rw [hm'] at hn
    cases hn
  · rw [hm'] at hn
    cases hn
  · rw [hfile, hbook, hsaved]
    exact h.file_covers
  · rw [ForgetsNoFill, hrec]
    exact h.recoveries

variable {now : ℕ → ℕ} {o : Order} {backend : Option (List Order × ℕ)} {e : Engine}

section Running

variable (hm : p.memory = some m) (hm' : p'.memory = some m')
  (hfile : p'.snapshotFile = p.snapshotFile) (hrec : p'.recoveries = p.recoveries)

include hm hm' hfile hrec

theorem change (hbooked : m'.race.Booked marketOf)
    (hreader : ∀ r ∈ m'.race.reader, RaceState.ReadAccount marketOf r m'.sinceRead
    m'.race.engine.orders) (hcovers : ∀ saved, Covers saved p.sinceSaved m.race.engine.orders →
    Covers saved p'.sinceSaved m'.race.engine.orders) : Ledger marketOf p' := by
  have hbook := book_of_running hm
  have hbook' := book_of_running hm'
  refine ⟨fun n hn => ?_, fun n hn => ?_, ?_, hfile ▸ h.file_distinct, hfile ▸ h.file_sound,
    fun snap hsnap => ?_, ?_⟩
  · rw [hm'] at hn
    cases hn
    exact hbooked
  · rw [hm'] at hn
    cases hn
    exact hreader
  · rw [hbook']
    exact hbooked.owned.wellFormed.distinct
  · rw [hbook']
    exact hcovers _ (hbook ▸ h.file_covers snap (hfile ▸ hsnap))
  · rw [ForgetsNoFill, hrec]
    exact h.recoveries

theorem raceStep (engineId : String) {a : RaceAction} (ha : ∀ job now o, a ≠ .reserve job now o)
    (hrace : m'.race = m.race.step engineId a) (hread : m'.sinceRead =
    m.race.sinceRead m.sinceRead a) (hsaved : p'.sinceSaved = p.sinceSaved ++
    m.race.changesIn (fun _ => true) a) : Ledger marketOf p' := by
  have hb := h.booked m hm
  have hchange := m.race.change_step engineId a
  refine h.change hm hm' hfile hrec ?_ ?_ fun saved hcov => ?_
  · rw [hrace]
    exact hb.change ha hchange
  · rw [hrace, hread]
    exact RaceState.ReadAccount.step (h.reader m hm) hb hchange ha
  · rw [hrace, hsaved]
    exact hcov.change (hb.changesIn_positive _ a) fun y _ hnot =>
      hb.restingQty_change hchange ha rfl hnot

variable (hread : m'.sinceRead = m.sinceRead) (hsaved : p'.sinceSaved = p.sinceSaved)

include hread hsaved

theorem grow (hbooked : m'.race.Booked marketOf) (hreader : m'.race.reader = m.race.reader)
    (hgrow : ∀ z, restingQty z m.race.engine.orders ≤ restingQty z m'.race.engine.orders) :
    Ledger marketOf p' := by
  refine h.change hm hm' hfile hrec hbooked ?_ fun saved hcov => ?_
  · rw [hreader, hread]
    exact fun r hr => (h.reader m hm r hr).mono hgrow
  · rw [hsaved]
    exact hcov.mono hgrow

theorem keep (hrace : m'.race = m.race) : Ledger marketOf p' := by
  refine h.grow hm hm' hfile hrec hread hsaved ?_ ?_ ?_ <;> rw [hrace]
  · exact h.booked m hm
  · exact fun _ => le_rfl

theorem fail (engineId : String) {job : ℕ} (hrace : m'.race = m.race.step engineId (.abort job)) :
    Ledger marketOf p' := by
  obtain ⟨hengine, hreader⟩ := RaceState.abort_eq (s := m.race) engineId job
  refine h.grow hm hm' hfile hrec hread hsaved ?_ ?_ ?_ <;> rw [hrace]
  · exact (h.booked m hm).change (by simp) (m.race.change_step engineId _)
  · exact hreader
  · rw [hengine]
    exact fun _ => le_rfl

theorem placeAtOnce (hnil : m.race.engine.pendingPairs now o = []) (hlock : o.market ∉ m.race.locks)
    (ho : m.race.engine.Admits marketOf o)
    (hrace : m'.race = { m.race with
      engine := m.race.engine.commitBook o.market (m.race.engine.trialMatch now o).2 }) :
    Ledger marketOf p' := by
  have hb := h.booked m hm
  have hmatched := hb.owned.matched ho now
  have hevents : (m.race.engine.trialMatch now o).1 = [] := by
    rw [← numberEvents_snd m.race.engine.nextEventId (m.race.engine.trialMatch now o).1]
    exact congrArg (map Prod.snd) hnil
  refine h.grow hm hm' hfile hrec hread hsaved ?_ ?_ ?_ <;> rw [hrace]
  · exact hb.setBook hlock (hb.owned.commit hmatched.distinct hmatched.positive hmatched.owned)
      fun _ hne => bookOf_commitBook_of_ne _ _ hne
  · intro z
    have hle := hmatched.restingQty_commit z
    rwa [hevents, filledQty_nil, add_zero] at hle

end Running

theorem placeDirect (hm : p.memory = some m) (hlock : o.market ∉ m.race.locks)
    (ho : m.race.engine.Admits marketOf o) : Ledger marketOf (p.placeDirect cfg m now o) := by
  have hb := h.booked m hm
  have hmatched := hb.owned.matched ho now
  have hcommit := hb.owned.commit hmatched.distinct hmatched.positive hmatched.owned
  have hbooks := m.race.engine.orderBooks_placeOrder now o
  have horders : (m.race.engine.placeOrder now o).1.orders =
      (m.race.engine.commitBook o.market (m.race.engine.trialMatch now o).2).orders := by
    rw [orders, hbooks]
    rfl
  have hevents := m.race.engine.events_placeOrder now o
  have hpos : ∀ q ∈ (m.race.engine.placeOrder now o).2, 0 < q.2.quantity := fun q hq =>
    hmatched.events_pos q.2 (hevents ▸ mem_map_of_mem hq)
  have htaken : ∀ z, restingQty z m.race.engine.orders ≤
      restingQty z (m.race.engine.placeOrder now o).1.orders +
        Changes.takenFrom z ⟨(m.race.engine.placeOrder now o).2, []⟩ := by
    intro z
    rw [horders, Changes.takenFrom, hevents]
    exact hmatched.restingQty_commit z
  refine h.change hm rfl rfl rfl ?_ (fun r hr => ?_) fun saved hcov => ?_
  · refine hb.setBook hlock (hcommit.congr hbooks) fun _ hne => ?_
    rw [bookOf, hbooks]
    exact bookOf_commitBook_of_ne _ _ hne
  · have hacc := h.reader m hm r hr
    dsimp only
    split_ifs with hseen
    · exact { hacc with covers := hacc.covers.change hpos fun y _ _ => htaken y.id }
    · refine { hacc with covers := ⟨hacc.covers.positive, fun y hy hnot => ?_⟩ }
      have hne : marketOf y.id ≠ o.market := fun heq =>
        hseen (heq ▸ hacc.hasRead_of_mem hr hy)
      rw [horders, hb.owned.restingQty_commit_of_ne hcommit hne]
      exact hacc.covers.restingQty_le y hy hnot
  · exact hcov.change hpos fun y _ _ => htaken y.id

theorem saveSnapshot (hm : p.memory = some m) {r : SnapshotReader} (hr : m.race.reader = some r)
    (hsnap : r.snapshot = some snap) (hm' : p'.memory = some m')
    (hrace : m'.race = { m.race with reader := none }) (hfile : p'.snapshotFile = some snap)
    (hrec : p'.recoveries = p.recoveries) (hsaved : p'.sinceSaved = m.sinceRead) :
    Ledger marketOf p' := by
  have hb := h.booked m hm
  have hacc := h.reader m hm r hr
  have hperm := (hacc.snapshot snap hsnap).2
  have hbook : p'.book = m.race.engine.orders := by rw [book_of_running hm', hrace]
  refine ⟨fun n hn => ?_, fun n hn r hr => ?_, ?_, fun s hs => ?_, fun s hs => ?_, fun s hs => ?_,
    ?_⟩
  · rw [hm'] at hn
    cases hn
    rw [hrace]
    exact ⟨hb.owned, hb.waiting, hb.alone⟩
  · rw [hm'] at hn
    cases hn
    rw [hrace] at hr
    cases hr
  · rw [hbook]
    exact hb.owned.wellFormed.distinct
  · rw [hfile] at hs
    cases hs
    exact (hperm.map Order.id).nodup_iff.mpr hacc.distinct
  · rw [hfile] at hs
    cases hs
    exact fun o ho => hacc.sound o (hperm.mem_iff.mp ho)
  · rw [hfile] at hs
    cases hs
    rw [hbook, hsaved]
    exact hacc.covers.perm hperm
  · rw [ForgetsNoFill, hrec]
    exact h.recoveries

omit h

theorem takenFrom_replayed (z : OrderId) (e : Engine) (rows : List WalPendingEvent) : (replayed
    e rows).takenFrom z = filledQty z ((e.rowsToApply rows).map WalPendingEvent.event) := by
  rw [Changes.takenFrom, replayed, map_map]
  rfl

variable (h : Ledger marketOf p)

include h

theorem restored (hfile : p.snapshotFile = some snap) :
    snap.applySnapshotToEngine.WellFormed ∧ snap.applySnapshotToEngine.orders.Perm snap.orders :=
  restore_orders_perm (h.file_distinct snap hfile)
    (fun o ho => (h.file_sound snap hfile o ho).1) snap.nextEventId
    snap.bookAppliedMatchEventIds.dedup

theorem start_owned (hid : ((backendOrders p.snapshotFile backend).map Order.id).Nodup)
    (hsound : ∀ o ∈ backendOrders p.snapshotFile backend, 0 < o.remaining ∧
    marketOf o.id = o.market) : (startEngine p.snapshotFile backend).Owned marketOf := by
  cases hfile : p.snapshotFile with
  | some snap =>
    obtain ⟨hwf, hperm⟩ := h.restored hfile
    exact ⟨hwf, fun x hx => (h.file_sound snap hfile x (hperm.mem_iff.mp hx)).2⟩
  | none =>
    rw [hfile] at hid hsound
    cases backend with
    | none => exact ⟨Engine.WellFormed.new, nofun⟩
    | some state =>
      obtain ⟨hwf, hperm⟩ := foldl_insertOrder_spec Engine.WellFormed.new hid
        fun o ho => (hsound o ho).1
      exact ⟨hwf.congr rfl, fun x hx => (hsound x (hperm.mem_iff.mp hx)).2⟩

theorem recovered (hm : p.memory = none)
    (hfile : p.snapshotFile = some snap) {rows : List WalPendingEvent} (hwf : e.WellFormed) (hrows :
    Engine.RowsApplied snap.applySnapshotToEngine rows e) (hjournal : FillsInJournal p snap rows) :
    ∀ x ∈ e.orders, ∃ y ∈ p.lastBook, y.id = x.id ∧ x.remaining ≤ y.remaining := by
  intro x hx
  obtain ⟨y, hy, hxy⟩ := hrows.from_before x hx
  have hsnap : y ∈ snap.orders := mem_of_mem_restore hy
  have hcovers := (h.file_covers snap hfile).restingQty_le y hsnap (hjournal.2 y hsnap)
  have hpos : ∀ q ∈ (replayed snap.applySnapshotToEngine rows).fills, 0 < q.2.quantity := by
    intro q hq
    obtain ⟨row, hrow, rfl⟩ := mem_map.mp hq
    exact hrows.positive row hrow
  have htaken := Changes.takenFrom_le (z := y.id) hjournal.1
    (fun q _ hz => decide_eq_true ⟨y, hsnap, hz⟩) hpos
  have hle : restingQty x.id e.orders ≤ restingQty x.id p.lastBook := by
    have happlied := hrows.restingQty_le y.id
    have hrestored := restingQty_perm y.id (h.restored hfile).2
    rw [takenFrom_replayed] at htaken
    rw [book_of_down hm] at hcovers
    rw [hxy.id_eq]
    linarith
  rw [restingQty_of_mem hwf.distinct hx] at hle
  -- something rests under the id, so an order with the id was in the books
  have hrest : ∃ w ∈ p.lastBook, w.id = x.id := by
    by_contra hnone
    have hzero : restingQty x.id p.lastBook = 0 :=
      restingQty_eq_zero fun w hw hwx => hnone ⟨w, hw, hwx⟩
    exact absurd (hwf.positive x hx) (not_lt.mpr (hzero ▸ hle))
  obtain ⟨w, hw, hwx⟩ := hrest
  have hdistinct := h.distinct
  rw [book_of_down hm] at hdistinct
  rw [← hwx, restingQty_of_mem hdistinct hw] at hle
  exact ⟨w, hw, hwx, hle⟩

theorem restart (hm : p.memory = none) {survived : ℕ} (hc : KeepsFills cfg marketOf p (.restart
    survived backend)) (hreplay : (startEngine p.snapshotFile backend).replayRows (rowsAtStart
    cfg p survived) = .ok e) (hm' : p'.memory = some m') (hrace : m'.race = .init e) (hfile :
    p'.snapshotFile = p.snapshotFile) (hsaved : p'.sinceSaved = replayed (startEngine p.snapshotFile
    backend) (rowsAtStart cfg p survived)) (hrec : p'.recoveries = if p.snapshotFile.isSome
    then p.recoveries ++ [(p.lastBook, e.orders)] else p.recoveries) : Ledger marketOf p' := by
  obtain ⟨hid, hsound, hjournal⟩ := hc
  have howned := h.start_owned hid hsound
  have hrows := replayRows_spec (rowsAtStart_sorted cfg p survived) hreplay
  have hwf := hrows.wellFormed howned.wellFormed
  have hbook : p'.book = e.orders := by
    rw [book_of_running hm', hrace]
    rfl
  refine ⟨fun n hn => ?_, fun n hn r hr => ?_, ?_, hfile ▸ h.file_distinct, hfile ▸ h.file_sound,
    fun snap hsnap => ⟨fun q hq => ?_, fun y hy _ => ?_⟩, fun r hr => ?_⟩
  · rw [hm'] at hn
    cases hn
    rw [hrace]
    refine RaceState.Booked.init ⟨hwf, fun x hx => ?_⟩
    obtain ⟨y, hy, hxy⟩ := hrows.from_before x hx
    rw [hxy.id_eq, hxy.market_eq]
    exact howned.market_eq y hy
  · rw [hm'] at hn
    cases hn
    rw [hrace] at hr
    cases hr
  · rw [hbook]
    exact hwf.distinct
  · rw [hsaved] at hq
    obtain ⟨row, hrow, rfl⟩ := mem_map.mp hq
    exact hrows.positive row hrow
  · rw [hfile] at hsnap
    rw [hsaved, takenFrom_replayed, hbook, ← restingQty_perm y.id (h.restored hsnap).2]
    have hstart : startEngine p.snapshotFile backend = snap.applySnapshotToEngine := by
      rw [Option.mem_def.mp hsnap]
      rfl
    rw [← hstart]
    exact hrows.restingQty_ge howned.wellFormed y.id
  · rw [hrec] at hr
    cases hsnap : p.snapshotFile with
    | none =>
      rw [hsnap] at hr
      exact h.recoveries r hr
    | some snap =>
      rw [hsnap] at hr hrows hreplay
      rcases mem_append.mp hr with hr | hr
      · exact h.recoveries r hr
      · rw [mem_singleton.mp hr]
        exact h.recovered hm hsnap hwf hrows (hjournal hm snap hsnap ⟨e, hreplay⟩)

theorem move (hc : KeepsFills cfg marketOf p a) (hmv : Move cfg p a p') : Ledger marketOf p' := by
  cases hmv with
  | placeAtOnce hm hnil hlock =>
    exact h.placeAtOnce hm rfl rfl rfl rfl rfl hnil hlock (hc _ hm) rfl
  | @placeReserve m job now o hm hjob hfresh hlock =>
    exact h.change hm rfl rfl rfl ((h.booked m hm).reserve hlock (hc m hm) job now)
      (h.reader m hm) fun _ hsaved => hsaved
  | placeDirect hm hlock => exact h.placeDirect hm hlock (hc _ hm)
  | append hm => exact h.keep hm rfl rfl rfl rfl rfl rfl
  | appendFails hm => exact h.fail hm rfl rfl rfl rfl rfl cfg.engineId rfl
  | publish hm => exact h.keep hm rfl rfl rfl rfl rfl rfl
  | publishFails hm => exact h.fail hm rfl rfl rfl rfl rfl cfg.engineId rfl
  | ack hm => exact h.keep hm rfl rfl rfl rfl rfl rfl
  | ackFails hm => exact h.fail hm rfl rfl rfl rfl rfl cfg.engineId rfl
  | commit hm => exact h.raceStep hm rfl rfl rfl cfg.engineId (by simp) rfl rfl rfl
  | @inner m a hm ha =>
    refine h.raceStep hm rfl rfl rfl cfg.engineId ?_ rfl rfl rfl
    rintro job now o rfl
    cases ha
  | enqueue hm => exact h.keep hm rfl rfl rfl rfl rfl rfl
  | saveSnapshot hm hr hsnap => exact h.saveSnapshot hm hr hsnap rfl rfl rfl rfl rfl
  | dropSnapshot hm =>
    refine h.change hm rfl rfl rfl ?_ (fun r hr => by cases hr) fun _ hsaved => hsaved
    exact ⟨(h.booked _ hm).owned, (h.booked _ hm).waiting, (h.booked _ hm).alone⟩
  | pipelinePublish hm | bootPublish hm => exact h.keep hm rfl rfl rfl rfl rfl rfl
  | bootFails hm => exact h.down hm rfl rfl rfl rfl rfl
  | ackPublished hm | ackLost hm => exact h.keep hm rfl rfl rfl rfl rfl rfl
  | ackStops hm | crash hm => exact h.down hm rfl rfl rfl rfl rfl
  | restartFails hm =>
    exact ⟨h.booked, h.reader, h.distinct, h.file_distinct, h.file_sound, h.file_covers,
      h.recoveries⟩
  | restart hm hreplay => exact h.restart hm hc hreplay rfl rfl rfl rfl rfl

end Ledger

/-- When a startup finds in the journal every fill that the snapshot lacks, and no
order of the snapshot was cancelled since, no fill is forgotten. -/
theorem recovered_le_committed (cfg : Config) (marketOf : OrderId → Market)
    (acts : List ProcessAction)
    (h : Along (step cfg) (KeepsFills cfg marketOf) .init acts) :
    ForgetsNoFill (acts.foldl (step cfg) .init) :=
  (run_invariant (fun _ _ _ hp hc hmv => hp.move hc hmv) h (Ledger.init marketOf)).recoveries

/-- A fill is saved, two orders that are placed later match each other, and the
process crashes and recovers. -/
def savedFillRun : List ProcessAction :=
  [firstStart, restingAsk] ++ buyOne 2 2 ++ takeSnapshot ++
    [.place 3 id ⟨3, 12, "BTC_USDT", .sell, .limit, some 99, 1, 1, 7⟩] ++ buyOne 4 4 ++
    [.crash, .restart 0 none]

theorem savedFillRun_recovered_le_committed :
    Along (step syncConfig) (KeepsFills syncConfig fun _ => "BTC_USDT") .init savedFillRun ∧
    (savedFillRun.foldl (step syncConfig) .init).recoveries.map
      (fun r => r.2.map fun x => (x.id, x.remaining)) = [[(1, 1)]] ∧
    ForgetsNoFill (savedFillRun.foldl (step syncConfig) .init) :=
  have h : Along (step syncConfig) (KeepsFills syncConfig fun _ => "BTC_USDT") .init
      savedFillRun := by decide +kernel
  ⟨h, by decide +kernel, recovered_le_committed syncConfig _ savedFillRun h⟩

def partlyFilledRun : List ProcessAction :=
  [firstStart, restingAsk] ++ takeSnapshot ++ buyOne 2 2 ++ [.crash, .restart 0 none]

def asyncConfig : Config := { syncConfig with mode := .async }

def saleEvent : MatchEvent := ⟨"BTC_USDT", 2, 1, 11, 10, 2, 1, 11, 10, .buy, 100, 2, 0⟩

/-- A sell of 2 is saved and then filled; the pipeline publishes and acknowledges
the event. -/
def whollyFilledRun : List ProcessAction :=
  [firstStart, restingAsk] ++ takeSnapshot ++
    [.place 2 id ⟨2, 11, "BTC_USDT", .buy, .limit, some 100, 2, 2, 6⟩, .append 2 .ok, .commit 2,
      .inner (.insertNext 2), .inner (.record 2), .enqueue 2,
      .pipelinePublish (1, saleEvent) ⟨true, true⟩, .ackPublished (1, saleEvent) .ok,
      .crash, .restart 0 none]

def cancelledRun : List ProcessAction :=
  [firstStart, restingAsk] ++ takeSnapshot ++
    [.inner (.cancelIn "BTC_USDT" 1), .crash, .restart 0 none]

/-- The recovered book has the sell with 2 in all three runs: where 1 was left, where it
was filled and where it was cancelled. -/
theorem recovery_forgets_fills : (partlyFilledRun.foldl (step syncConfig) .init).recoveries.map
    (fun r => (r.1.map fun x => (x.id, x.remaining), r.2.map fun x => (x.id, x.remaining))) =
    [([(1, 1)], [(1, 2)])] ∧ (whollyFilledRun.foldl (step asyncConfig) .init).recoveries.map
    (fun r => (r.1.map fun x => (x.id, x.remaining), r.2.map fun x => (x.id, x.remaining))) =
    [([], [(1, 2)])] ∧ ¬ ForgetsNoFill (partlyFilledRun.foldl (step syncConfig) .init) ∧
    ¬ ForgetsNoFill (whollyFilledRun.foldl (step asyncConfig) .init) ∧
    ¬ ForgetsNoFill (cancelledRun.foldl (step syncConfig) .init) := by
  refine ⟨?_, ?_, ?_, ?_, ?_⟩ <;> decide +kernel

end Process

end MetherCEX
