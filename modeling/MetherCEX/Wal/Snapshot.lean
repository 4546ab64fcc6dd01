import MetherCEX.Engine.Placement

/-!
# The persistence snapshot

A snapshot holds the resting orders, the next event id and the ids of the events that the orders
already reflect (`persistence.rs`).
-/

namespace MetherCEX

open List

def snapshotVersion : ℕ := 1

structure EnginePersistenceSnapshot where
  v : ℕ
  engineId : String
  nextEventId : ℕ
  bookAppliedMatchEventIds : List ℕ
  orders : List Order
  deriving DecidableEq

namespace EnginePersistenceSnapshot

def fromEngine (e : Engine) (engineId : String) : EnginePersistenceSnapshot where
  v := snapshotVersion
  engineId := engineId
  nextEventId := e.nextEventId
  bookAppliedMatchEventIds := e.bookAppliedMatchIdsSnapshot
  orders := e.collectAllOrders

def applySnapshotToEngine (snap : EnginePersistenceSnapshot) : Engine :=
  .restoreFromPersistenceSnapshot snap.orders snap.nextEventId
    snap.bookAppliedMatchEventIds.dedup

end EnginePersistenceSnapshot

namespace Engine

variable {e : Engine}

theorem collectAllOrders_perm (e : Engine) : e.collectAllOrders.Perm e.orders :=
  perm_insertionSort _ _

@[simp] theorem mem_bookAppliedMatchIdsSnapshot {id : ℕ} :
    id ∈ e.bookAppliedMatchIdsSnapshot ↔ id ∈ e.bookAppliedMatchEventIds := by
  rw [bookAppliedMatchIdsSnapshot, mem_insertionSort]

variable {orders : List Order} {x : Order}

theorem mem_of_mem_foldl_insertOrder (hx : x ∈ (orders.foldl insertOrder e).orders) :
    x ∈ e.orders ∨ x ∈ orders := by
  induction orders generalizing e with
  | nil => exact .inl hx
  | cons o orders ih =>
    rcases ih hx with hx | hx
    · rcases mem_of_mem_insertOrder hx with rfl | hx
      · exact .inr mem_cons_self
      · exact .inl hx
    · exact .inr (mem_cons_of_mem o hx)

theorem foldl_insertOrder_spec (h : e.WellFormed) (hid : ((e.orders ++ orders).map Order.id).Nodup)
    (hpos : ∀ o ∈ orders, 0 < o.remaining) : (orders.foldl insertOrder e).WellFormed ∧
    (orders.foldl insertOrder e).orders.Perm (e.orders ++ orders) := by
  induction orders generalizing e with
  | nil =>
    rw [append_nil]
    exact ⟨h, List.Perm.refl _⟩
  | cons o orders ih =>
    have hfresh : ∀ x ∈ e.orders, x.id ≠ o.id := by
      intro x hx
      rw [map_append, nodup_append] at hid
      exact hid.2.2 _ (mem_map_of_mem hx) _ (mem_map_of_mem mem_cons_self)
    have hperm : ((e.insertOrder o).orders ++ orders).Perm (e.orders ++ o :: orders) :=
      ((insertOrder_orders_perm_of_fresh h hfresh).append_right orders).trans
        perm_middle.symm
    have hwf := h.insertOrder (fun x hx hxo => absurd hxo (hfresh x hx))
      (hpos o mem_cons_self)
    obtain ⟨hwf', horders⟩ := ih hwf ((hperm.map Order.id).nodup_iff.mpr hid)
      fun x hx => hpos x (mem_cons_of_mem o hx)
    exact ⟨hwf', horders.trans hperm⟩

theorem mem_of_mem_restore {n : ℕ} {applied : List ℕ}
    (hx : x ∈ (restoreFromPersistenceSnapshot orders n applied).orders) : x ∈ orders := by
  rcases mem_of_mem_foldl_insertOrder (e := { new with bookAppliedMatchEventIds := applied })
    hx with hx | hx
  · exact absurd hx not_mem_nil
  · exact hx

theorem restore_orders_perm (hid : (orders.map Order.id).Nodup) (hpos : ∀ o ∈ orders,
    0 < o.remaining) (n : ℕ) (applied : List ℕ) : (restoreFromPersistenceSnapshot orders n
    applied).WellFormed ∧ (restoreFromPersistenceSnapshot orders n applied).orders.Perm orders := by
  have hnew : ({ new with bookAppliedMatchEventIds := applied } : Engine).WellFormed :=
    WellFormed.new.congr rfl
  obtain ⟨hwf, hperm⟩ := foldl_insertOrder_spec hnew hid hpos
  exact ⟨hwf.congr rfl, hperm⟩

theorem applied_foldl_insertOrder (orders : List Order) (e : Engine) :
    (orders.foldl insertOrder e).bookAppliedMatchEventIds = e.bookAppliedMatchEventIds := by
  induction orders generalizing e with
  | nil => rfl
  | cons o orders ih => exact ih (e.insertOrder o)

@[simp] theorem applied_restore (orders : List Order) (n : ℕ) (applied : List ℕ) :
    (restoreFromPersistenceSnapshot orders n applied).bookAppliedMatchEventIds = applied :=
  applied_foldl_insertOrder orders _

end Engine

namespace EnginePersistenceSnapshot

theorem mem_applied_applySnapshotToEngine {snap : EnginePersistenceSnapshot} {id : ℕ} : id ∈
    snap.applySnapshotToEngine.bookAppliedMatchEventIds ↔ id ∈ snap.bookAppliedMatchEventIds := by
  rw [applySnapshotToEngine, Engine.applied_restore, mem_dedup]

theorem orders_apply_fromEngine {e : Engine} (h : e.WellFormed) (engineId : String) :
    (fromEngine e engineId).applySnapshotToEngine.WellFormed ∧
      (fromEngine e engineId).applySnapshotToEngine.orders.Perm e.orders := by
  have hperm := e.collectAllOrders_perm
  obtain ⟨hwf, horders⟩ := Engine.restore_orders_perm
    ((hperm.map Order.id).nodup_iff.mpr h.distinct)
    (fun o ho => h.positive o (hperm.mem_iff.mp ho)) e.nextEventId
    e.bookAppliedMatchIdsSnapshot.dedup
  exact ⟨hwf, horders.trans hperm⟩

end EnginePersistenceSnapshot

end MetherCEX
