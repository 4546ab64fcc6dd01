import MetherCEX.Engine.ExecutionPrice
import MetherCEX.Spot.Funds

/-!
# Self-trades

The engine skips the user's own resting orders, and the settlement refuses an event of one user.
-/

namespace MetherCEX

open List Checks

/-- The event names two users, and no settlement of it ends with `SELF_TRADE_REJECTED`. -/
structure MatchEvent.TwoUsers (ev : MatchEvent) : Prop where
  sides : ev.bidUserId ≠ ev.askUserId
  users : ev.takerUserId ≠ ev.makerUserId
  settles : ∀ ctx ledger id bal,
    processSettlementEventRow ctx ledger id ev.payload bal ≠ .error .selfTradeRejected

theorem ne_selfTradeRejected {ctx : SettlementContext}
    {ledger : List LedgerEntry} {id : ℕ} {p : EnginePayload} {bal : Balances}
    (h : p.takerUserId ≠ p.makerUserId) :
    processSettlementEventRow ctx ledger id p bal ≠ .error .selfTradeRejected := by
  have hresolve : resolveMarketAssets ctx p.symbol ≠ .error .selfTradeRejected := by
    simp only [ne_eq, resolveMarketAssets, bind_eq_error, orRefuse_eq_error, pure_ne_error,
      reduceCtorEq, and_false, exists_false, or_self, not_false_eq_true]
  intro herror
  unfold processSettlementEventRow at herror
  split_ifs at herror
  · simp only [bind_eq_error, hresolve, pure_ne_error, and_false, exists_false, or_self] at herror
  · simp only [settle, bind_eq_error, refuseIf_eq_error, refuseIf_eq_ok, hresolve, reduceCtorEq,
      and_false, false_or, exists_const, pure_ne_error, or_false, and_true] at herror
    obtain ⟨market, -, -, -, hself⟩ := herror
    exact h hself

theorem twoUsers_of_mem_matchOrders {b : OrderBook} {market : Market} {now : ℕ → ℕ} {id : OrderId}
    {ev : MatchEvent} (hev : ev ∈ (b.matchOrders market now id).1) : ev.TwoUsers := by
  obtain ⟨taker, -, maker, -, huser, -, q, t, rfl⟩ := OrderBook.exists_fill_of_mem_matchOrders hev
  unfold eventOf
  cases taker.side with
  | buy => exact ⟨huser.symm, huser.symm, fun _ _ _ _ => ne_selfTradeRejected huser.symm⟩
  | sell => exact ⟨huser, huser.symm, fun _ _ _ _ => ne_selfTradeRejected huser.symm⟩

/-- No sequence of placements and cancellations, with any ids, prices and quantities, makes the
engine match two orders of one user. -/
theorem run_never_self_trades (ops : List EngineOp) :
    (EngineTrace.run ops).events.Forall MatchEvent.TwoUsers := by
  induction ops using reverseRecOn with
  | nil => trivial
  | append_singleton ops op ih =>
    rw [EngineTrace.run_concat]
    cases op with
    | cancel orderId => exact ih
    | place now o =>
      rw [EngineTrace.events_step_place, Engine.events_placeOrder, forall_append]
      exact ⟨ih, forall_iff_forall_mem.mpr fun ev hev => twoUsers_of_mem_matchOrders hev⟩

end MetherCEX
