import MetherCEX.Wal.Recovery
import MetherCEX.Wal.Snapshot

/-!
# Replaying the journal at startup

At startup the engine loads the last snapshot and applies the unacknowledged rows of the journal
to its books, in the order of their ids; one row that cannot be applied stops the startup
(`main.rs`).
-/

namespace MetherCEX

open WalLine List

inductive WalOp
  | place (now : ℕ → ℕ) (o : Order) (append : AppendOutcome) (publish : Except String Unit)
  | cancel (orderId : OrderId)
  | ack (eventId : ℕ)

structure WalEngine where
  engine : Engine
  journal : List WalLine

namespace WalEngine

section

variable (engineId : String) (subjectOf : Market → String)

def step (s : WalEngine) : WalOp → WalEngine
  | .place now o append publish =>
    { engine := (s.engine.placeOrderWalPublishCommitBook now o
        (fun _ => append.result) fun _ => publish).1
      journal := s.journal ++
        (append.written (walRowsForPairs subjectOf (s.engine.pendingPairs now o))).map
          (.evt engineId) }
  | .cancel orderId => { s with engine := s.engine.cancelOrder orderId }
  | .ack eventId => { s with journal := s.journal ++ [.ack eventId] }

/-- The operations one after the other, from an empty engine and journal. -/
def run (ops : List WalOp) : WalEngine :=
  ops.foldl (step engineId subjectOf) ⟨Engine.new, []⟩

/-- The engine that the startup restores from the snapshot taken after `ops`. -/
def restored (ops : List WalOp) : Engine :=
  (EnginePersistenceSnapshot.fromEngine (run engineId subjectOf ops).engine
    engineId).applySnapshotToEngine

/-- The rows that the startup replays after a crash at the end of `ops`. -/
def unacked (ops : List WalOp) : List WalPendingEvent :=
  scanUnackedForEngine engineId (run engineId subjectOf ops).journal

end

end WalEngine

def WalOp.placed? : WalOp → Option Order
  | .place _ o _ _ => some o
  | _ => none

def walPlaced (ops : List WalOp) : List Order := ops.filterMap WalOp.placed?

structure FreshWalPlacements (ops : List WalOp) : Prop where
  nodup : ((walPlaced ops).map Order.id).Nodup
  positive : ∀ o ∈ walPlaced ops, 0 < o.remaining

theorem walPlaced_append (ops ops' : List WalOp) :
    walPlaced (ops ++ ops') = walPlaced ops ++ walPlaced ops' :=
  filterMap_append

namespace FreshWalPlacements

variable {ops ops' : List WalOp}

theorem init (h : FreshWalPlacements (ops ++ ops')) : FreshWalPlacements ops := by
  obtain ⟨hnodup, hpos⟩ := h
  rw [walPlaced_append, map_append] at hnodup
  refine ⟨(nodup_append.mp hnodup).1, fun o ho => hpos o ?_⟩
  rw [walPlaced_append]
  exact mem_append_left _ ho

theorem id_ne (h : FreshWalPlacements (ops ++ ops')) {o o' : Order} (ho : o ∈ walPlaced ops)
    (ho' : o' ∈ walPlaced ops') : o.id ≠ o'.id := by
  have hnodup := h.nodup
  rw [walPlaced_append, map_append] at hnodup
  exact (nodup_append.mp hnodup).2.2 _ (mem_map_of_mem ho) _
    (mem_map_of_mem ho')

end FreshWalPlacements

/-- The rows of the journal are reflected in the books or name an order that does
not rest. -/
structure JournalInvariant (engineId : String) (ops : List WalOp) (s : WalEngine) :
    Prop where
  wellFormed : s.engine.WellFormed
  resting_placed : ∀ x ∈ s.engine.orders, ∃ o ∈ walPlaced ops, x.id = o.id
  rows : ∀ row ∈ rowsOf engineId s.journal,
    row.eventId ∈ s.engine.bookAppliedMatchEventIds ∨
      ∃ o ∈ walPlaced ops, row.event.Names o.id ∧ ∀ x ∈ s.engine.orders, x.id ≠ o.id

namespace JournalInvariant

variable {engineId : String} {subjectOf : Market → String} {ops : List WalOp} {s : WalEngine}

theorem nil : JournalInvariant engineId [] ⟨Engine.new, []⟩ := by
  refine ⟨Engine.WellFormed.new, ?_, ?_⟩
  · exact nofun
  · exact nofun

theorem cancel (h : JournalInvariant engineId ops s) (orderId : OrderId) : JournalInvariant
    engineId (ops ++ [.cancel orderId]) (s.step engineId subjectOf (.cancel orderId)) := by
  have hplaced : walPlaced (ops ++ [.cancel orderId]) = walPlaced ops := by
    simp [walPlaced, WalOp.placed?]
  have hsub : ∀ x ∈ (s.engine.cancelOrder orderId).orders, x ∈ s.engine.orders := by
    intro x hx
    rw [Engine.orders_cancelOrder] at hx
    exact mem_of_mem_filter hx
  refine ⟨h.wellFormed.cancelOrder orderId, fun x hx => ?_, fun row hrow => ?_⟩
  · rw [hplaced]
    exact h.resting_placed x (hsub x hx)
  · rw [hplaced]
    rcases h.rows row hrow with happ | ⟨o, ho, hname, hmiss⟩
    · exact .inl happ
    · exact .inr ⟨o, ho, hname, fun x hx => hmiss x (hsub x hx)⟩

theorem ack (h : JournalInvariant engineId ops s) (eventId : ℕ) : JournalInvariant
    engineId (ops ++ [.ack eventId]) (s.step engineId subjectOf (.ack eventId)) := by
  have hplaced : walPlaced (ops ++ [.ack eventId]) = walPlaced ops := by
    simp [walPlaced, WalOp.placed?]
  have hrows : rowsOf engineId (s.journal ++ [.ack eventId]) = rowsOf engineId s.journal := by
    simp [rowsOf, row?]
  refine ⟨h.wellFormed, ?_, ?_⟩
  · rw [hplaced]
    exact h.resting_placed
  · intro row hrow
    rw [hplaced]
    refine h.rows row ?_
    rwa [← hrows]

end JournalInvariant

theorem names_of_mem_walRowsForPairs {e : Engine} {o : Order} {subjectOf : Market → String}
    (hwf : (e.insertOrder o).WellFormed) (now : ℕ → ℕ) {row : WalPendingEvent}
    (hrow : row ∈ walRowsForPairs subjectOf (e.pendingPairs now o)) :
    row.event.Names o.id ∧ row.eventId ∈ (e.pendingPairs now o).map Prod.fst := by
  obtain ⟨p, hp, rfl⟩ := mem_map.mp hrow
  refine ⟨?_, mem_map_of_mem hp⟩
  have hev : p.2 ∈ (e.trialMatch now o).1 := by
    rw [← Engine.numberEvents_snd e.nextEventId (e.trialMatch now o).1]
    exact mem_map_of_mem hp
  obtain ⟨-, -, m, -, -, hnames⟩ := (Engine.trialMatch_outcome hwf now).events p.2 hev
  exact (hnames o.id).mpr (.inl rfl)

namespace JournalInvariant

variable {engineId : String} {subjectOf : Market → String} {ops : List WalOp} {s : WalEngine}

/-- A change keeps the invariant when it adds at most the placed order `o` to the books,
and every new row is applied or names `o` while `o` does not rest. -/
theorem of_placed (h : JournalInvariant engineId ops s) {ops' : List WalOp} {s' : WalEngine}
    {o : Order} (hplaced : walPlaced ops' = walPlaced ops ++ [o]) (hfresh : ∀ x ∈ walPlaced ops,
    x.id ≠ o.id) (hwf : s'.engine.WellFormed) (hafter : ∀ x ∈ s'.engine.orders, x.id = o.id ∨
    ∃ y ∈ s.engine.orders, x.id = y.id) (happlied : ∀ id ∈ s.engine.bookAppliedMatchEventIds, id ∈
    s'.engine.bookAppliedMatchEventIds) (hrows : ∀ row ∈ rowsOf engineId s'.journal, row ∈ rowsOf
    engineId s.journal ∨ row.eventId ∈ s'.engine.bookAppliedMatchEventIds ∨ row.event.Names o.id ∧
    ∀ x ∈ s'.engine.orders, x.id ≠ o.id) : JournalInvariant engineId ops' s' := by
  have hold : ∀ x ∈ walPlaced ops, x ∈ walPlaced ops' := by
    intro x hx
    rw [hplaced]
    exact mem_append_left _ hx
  have hself : o ∈ walPlaced ops' := by
    rw [hplaced]
    exact mem_append_right _ (mem_singleton.mpr rfl)
  refine ⟨hwf, fun x hx => ?_, fun row hrow => ?_⟩
  · rcases hafter x hx with hxo | ⟨y, hy, hxy⟩
    · exact ⟨o, hself, hxo⟩
    · obtain ⟨z, hz, hyz⟩ := h.resting_placed y hy
      exact ⟨z, hold z hz, hxy.trans hyz⟩
  · rcases hrows row hrow with hrow | happ | ⟨hname, hmiss⟩
    · rcases h.rows row hrow with happ | ⟨z, hz, hname, hmiss⟩
      · exact .inl (happlied _ happ)
      · -- an order placed earlier that does not rest does not come back
        refine .inr ⟨z, hold z hz, hname, fun x hx => ?_⟩
        rcases hafter x hx with hxo | ⟨y, hy, hxy⟩
        · rw [hxo]
          exact Ne.symm (hfresh z hz)
        · rw [hxy]
          exact hmiss y hy
    · exact .inl happ
    · exact .inr ⟨o, hself, hname, hmiss⟩

theorem place (h : JournalInvariant engineId ops s) {now : ℕ → ℕ} {o : Order}
    {append : AppendOutcome} {publish : Except String Unit} (hfresh : ∀ x ∈ walPlaced ops,
    x.id ≠ o.id) (hpos : 0 < o.remaining) : JournalInvariant engineId (ops ++
    [.place now o append publish]) (s.step engineId subjectOf (.place now o append publish)) := by
  have hplaced : walPlaced (ops ++ [.place now o append publish]) = walPlaced ops ++ [o] := by
    simp [walPlaced, WalOp.placed?]
  have hnew : ∀ x ∈ s.engine.orders, x.id ≠ o.id := by
    intro x hx hxo
    obtain ⟨y, hy, hxy⟩ := h.resting_placed x hx
    exact hfresh y hy (hxy.symm.trans hxo)
  have hwf : (s.engine.insertOrder o).WellFormed :=
    h.wellFormed.insertOrder (fun x hx hxo => absurd hxo (hnew x hx)) hpos
  have hout := Engine.commitOutcome hwf now
  -- what rests after the commit is the order itself or was there before
  have hafter : ∀ x ∈ (s.engine.commitBook o.market (s.engine.trialMatch now o).2).orders,
      x.id = o.id ∨ ∃ y ∈ s.engine.orders, x.id = y.id := by
    intro x hx
    obtain ⟨y, hy, hxy, -⟩ := hout.from_before x hx
    rw [hxy, Order.withRemaining_id]
    rcases Engine.mem_of_mem_insertOrder hy with rfl | hy
    · exact .inl rfl
    · exact .inr ⟨y, hy, rfl⟩
  have hrowmem : ∀ row ∈ rowsOf engineId
      (s.step engineId subjectOf (.place now o append publish)).journal,
      row ∈ rowsOf engineId s.journal ∨
        row ∈ walRowsForPairs subjectOf (s.engine.pendingPairs now o) := by
    intro row hrow
    simp only [WalEngine.step, rowsOf_append, rowsOf_map_evt] at hrow
    rcases mem_append.mp hrow with hrow | hrow
    · exact .inl hrow
    · exact .inr (append.written_subset _ hrow)
  have hengine : (s.step engineId subjectOf (.place now o append publish)).engine =
      (s.engine.placeGuarded now o fun _ => do append.result; publish).1 := rfl
  rcases Engine.placeGuarded_cases s.engine now o
    (fun _ => do append.result; publish) with ⟨hnil, hres⟩ | ⟨err, -, hres⟩ | ⟨-, hres⟩
  · -- no events: nothing is written, the book is committed
    rw [hres] at hengine
    apply h.of_placed hplaced hfresh
    · rw [hengine]
      exact hout.wellFormed
    · rw [hengine]
      exact hafter
    · rw [hengine]
      exact fun id hid => hid
    · intro row hrow
      rcases hrowmem row hrow with hrow | hrow
      · exact .inl hrow
      · rw [hnil] at hrow
        cases hrow
  · -- the callback failed: the books are as before, and the taker does not rest
    rw [hres] at hengine
    have hcounted : (s.engine.fetchAdd (s.engine.trialMatch now o).1.length).WellFormed :=
      h.wellFormed.congr rfl
    have hsame : ∀ x ∈ (s.step engineId subjectOf (.place now o append publish)).engine.orders,
        x ∈ s.engine.orders := by
      rw [hengine]
      exact fun x hx => (Engine.orders_enterMarket_perm _ _).mem_iff.mp hx
    apply h.of_placed hplaced hfresh
    · rw [hengine]
      exact hcounted.enterMarket o.market
    · exact fun x hx => .inr ⟨x, hsame x hx, rfl⟩
    · rw [hengine]
      exact fun id hid => hid
    · intro row hrow
      exact (hrowmem row hrow).imp_right fun hrow =>
        .inr ⟨(names_of_mem_walRowsForPairs hwf now hrow).1, fun x hx => hnew x (hsame x hx)⟩
  · -- committed: the ids of the new rows are recorded as applied
    rw [hres] at hengine
    have hbooks : (s.step engineId subjectOf (.place now o append publish)).engine.orderBooks =
        (s.engine.commitBook o.market (s.engine.trialMatch now o).2).orderBooks := by
      rw [hengine]
      exact Engine.orderBooks_recordEvents _ _
    have happ : ∀ id, id ∈ s.engine.bookAppliedMatchEventIds ∨
        id ∈ (s.engine.pendingPairs now o).map Prod.fst → id ∈ (s.step engineId subjectOf
          (.place now o append publish)).engine.bookAppliedMatchEventIds := by
      intro id hid
      rw [hengine]
      exact Engine.mem_applied_recordEvents.mpr hid
    apply h.of_placed hplaced hfresh
    · exact hout.wellFormed.congr hbooks
    · rw [Engine.orders, hbooks]
      exact hafter
    · exact fun id hid => happ id (.inl hid)
    · intro row hrow
      exact (hrowmem row hrow).imp_right fun hrow =>
        .inl (happ _ (.inr (names_of_mem_walRowsForPairs hwf now hrow).2))

end JournalInvariant

section Crash

variable (engineId : String) (subjectOf : Market → String)

@[simp] theorem WalEngine.run_concat (ops : List WalOp) (op : WalOp) : run
    engineId subjectOf (ops ++ [op]) = (run engineId subjectOf ops).step engineId subjectOf op := by
  simp [run]

variable {engineId subjectOf}

theorem FreshWalPlacements.last {ops : List WalOp} {now : ℕ → ℕ}
    {o : Order} {append : AppendOutcome} {publish : Except String Unit} (h : FreshWalPlacements (ops
    ++ [.place now o append publish])) : (∀ x ∈ walPlaced ops, x.id ≠ o.id) ∧ 0 < o.remaining := by
  have hlast : o ∈ walPlaced [.place now o append publish] := by
    simp [walPlaced, WalOp.placed?]
  refine ⟨fun x hx => h.id_ne hx hlast, h.positive o ?_⟩
  rw [walPlaced_append]
  exact mem_append_right _ hlast

theorem journalInvariant_run {ops : List WalOp} (h : FreshWalPlacements ops) :
    JournalInvariant engineId ops (WalEngine.run engineId subjectOf ops) := by
  induction ops using List.reverseRecOn with
  | nil => exact JournalInvariant.nil
  | append_singleton ops op ih =>
    rw [WalEngine.run_concat]
    cases op with
    | place now o append publish => exact (ih h.init).place h.last.1 h.last.2
    | cancel orderId => exact (ih h.init).cancel orderId
    | ack eventId => exact (ih h.init).ack eventId

theorem mem_rowsOf_run_append {ops₁ ops₂ : List WalOp} (h : FreshWalPlacements (ops₁ ++ ops₂))
    {row : WalPendingEvent} (hrow : row ∈ rowsOf engineId (WalEngine.run engineId subjectOf (ops₁
    ++ ops₂)).journal) : row ∈ rowsOf engineId (WalEngine.run engineId subjectOf ops₁).journal ∨
    ∃ o ∈ walPlaced ops₂, row.event.Names o.id := by
  induction ops₂ using List.reverseRecOn with
  | nil =>
    rw [append_nil] at hrow
    exact .inl hrow
  | append_singleton ops₂ op ih =>
    rw [← append_assoc] at h
    rw [← append_assoc, WalEngine.run_concat] at hrow
    have hearlier : row ∈ rowsOf engineId
        (WalEngine.run engineId subjectOf (ops₁ ++ ops₂)).journal →
        row ∈ rowsOf engineId (WalEngine.run engineId subjectOf ops₁).journal ∨
          ∃ o ∈ walPlaced (ops₂ ++ [op]), row.event.Names o.id := by
      intro hrow
      rcases ih h.init hrow with hrow | ⟨o, ho, hname⟩
      · exact .inl hrow
      · rw [walPlaced_append]
        exact .inr ⟨o, mem_append_left _ ho, hname⟩
    cases op with
    | place now o append publish =>
      simp only [WalEngine.step, rowsOf_append, rowsOf_map_evt] at hrow
      rcases mem_append.mp hrow with hrow | hrow
      · exact hearlier hrow
      · have hinv : JournalInvariant engineId (ops₁ ++ ops₂)
            (WalEngine.run engineId subjectOf (ops₁ ++ ops₂)) :=
          journalInvariant_run h.init
        have hwf := hinv.wellFormed.insertOrder (o := o) (fun x hx hxo => by
          obtain ⟨y, hy, hxy⟩ := hinv.resting_placed x hx
          exact absurd (hxy.symm.trans hxo) (h.last.1 y hy)) h.last.2
        refine .inr ⟨o, by simp [walPlaced, WalOp.placed?], ?_⟩
        exact (names_of_mem_walRowsForPairs hwf now (append.written_subset _ hrow)).1
    | cancel orderId => exact hearlier hrow
    | ack eventId =>
      refine hearlier ?_
      simpa [WalEngine.step, rowsOf, row?] using hrow

/-- The replay after a crash succeeds when the snapshot reflects every
unacknowledged row, and with fresh order ids in no other case. -/
theorem replay_succeeds_iff_reflected (engineId : String) (subjectOf : Market → String)
    (ops₁ ops₂ : List WalOp) : ((∀ row ∈ WalEngine.unacked engineId subjectOf (ops₁ ++ ops₂),
    row.eventId ∈ (WalEngine.run engineId subjectOf ops₁).engine.bookAppliedMatchEventIds) →
    (WalEngine.restored engineId subjectOf ops₁).ReplaySucceeds
    (WalEngine.unacked engineId subjectOf (ops₁ ++ ops₂))) ∧ (FreshWalPlacements (ops₁ ++ ops₂) →
    ((WalEngine.restored engineId subjectOf ops₁).ReplaySucceeds (WalEngine.unacked engineId
    subjectOf (ops₁ ++ ops₂)) ↔ ∀ row ∈ WalEngine.unacked engineId subjectOf (ops₁ ++ ops₂),
    row.eventId ∈ (WalEngine.run engineId subjectOf ops₁).engine.bookAppliedMatchEventIds)) := by
  have happ : ∀ id, id ∈ (WalEngine.restored engineId subjectOf ops₁).bookAppliedMatchEventIds ↔
      id ∈ (WalEngine.run engineId subjectOf ops₁).engine.bookAppliedMatchEventIds := by
    intro id
    rw [WalEngine.restored, EnginePersistenceSnapshot.mem_applied_applySnapshotToEngine]
    exact Engine.mem_bookAppliedMatchIdsSnapshot
  have hok : (∀ row ∈ WalEngine.unacked engineId subjectOf (ops₁ ++ ops₂),
      row.eventId ∈ (WalEngine.run engineId subjectOf ops₁).engine.bookAppliedMatchEventIds) →
      (WalEngine.restored engineId subjectOf ops₁).ReplaySucceeds
        (WalEngine.unacked engineId subjectOf (ops₁ ++ ops₂)) := fun h =>
    ⟨_, Engine.replayRows_of_applied fun row hrow => (happ _).mpr (h row hrow)⟩
  refine ⟨hok, fun hfresh => ⟨fun hsucc => ?_, hok⟩⟩
  by_contra hnot
  obtain ⟨row, hnot⟩ := not_forall.mp hnot
  obtain ⟨hrow, hid⟩ := Classical.not_imp.mp hnot
  have hinv : JournalInvariant engineId ops₁ (WalEngine.run engineId subjectOf ops₁) :=
    journalInvariant_run hfresh.init
  have hsub : ∀ x ∈ (WalEngine.restored engineId subjectOf ops₁).orders,
      x ∈ (WalEngine.run engineId subjectOf ops₁).engine.orders := fun x hx =>
    (Engine.collectAllOrders_perm _).mem_iff.mp (Engine.mem_of_mem_restore hx)
  refine Engine.not_replaySucceeds_of_missing ?_ ⟨row, hrow, fun h => hid ((happ _).mp h)⟩ hsucc
  intro r hr hrid
  have hlast := (mem_scanUnackedForEngine.mp hr).1
  rcases mem_rowsOf_run_append hfresh (mem_of_lastRow? hlast).1 with hr | ⟨o, ho, hname⟩
  · rcases hinv.rows r hr with hmem | ⟨o, -, hname, hmiss⟩
    · exact absurd ((happ _).mpr hmem) hrid
    · exact ⟨o.id, hname, fun x hx => hmiss x (hsub x hx)⟩
  · refine ⟨o.id, hname, fun x hx hxo => ?_⟩
    obtain ⟨y, hy, hxy⟩ := hinv.resting_placed x (hsub x hx)
    exact hfresh.id_ne hy ho (hxy.symm.trans hxo)

end Crash

/-- A sell rests, and a later buy is matched with it; the match is journalled and
committed. -/
def askThenBid : List WalOp :=
  [.place id ⟨1, 10, "BTC_USDT", .sell, .limit, some 100, 2, 2, 5⟩ .ok (.ok ()),
    .place id ⟨2, 11, "BTC_USDT", .buy, .limit, some 100, 1, 1, 6⟩ .ok (.ok ())]

theorem askThenBid_replay_succeeds :
    FreshWalPlacements (askThenBid ++ [.cancel 1]) ∧
    (WalEngine.unacked "default" id (askThenBid ++ [.cancel 1])).map
      WalPendingEvent.eventId = [1] ∧
    (WalEngine.restored "default" id askThenBid).ReplaySucceeds
      (WalEngine.unacked "default" id (askThenBid ++ [.cancel 1])) :=
  have hfresh : FreshWalPlacements (askThenBid ++ [.cancel 1]) :=
    ⟨by decide, by decide +kernel⟩
  ⟨hfresh, by decide +kernel,
    ((replay_succeeds_iff_reflected "default" id askThenBid [.cancel 1]).2 hfresh).mpr
      (by decide +kernel)⟩

/-- With the snapshot between the two placements, the restored books do not have
the buy, and its row stops the startup. -/
theorem replay_aborts_on_later_taker :
    ¬ (WalEngine.restored "default" id (askThenBid.take 1)).ReplaySucceeds
      (WalEngine.unacked "default" id (askThenBid.take 1 ++ askThenBid.drop 1)) ∧
    ((WalEngine.restored "default" id (askThenBid.take 1)).replayRows
      (WalEngine.unacked "default" id (askThenBid.take 1 ++ askThenBid.drop 1))).map
        (fun _ => ()) = .error (.missingOrder false true 2 1) :=
  ⟨by decide +kernel, by decide +kernel⟩

end MetherCEX
