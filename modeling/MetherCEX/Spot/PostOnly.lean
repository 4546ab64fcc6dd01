import MetherCEX.Spot.Consistency

/-!
# Post-only orders

A post-only order is checked against the best prices of the order table, and placed on the engine
later.
-/

namespace MetherCEX

open Run

/-- A resting order that an order of the side could meet has a price, and it is no better
than the best price that was read. -/
def BestPrices.Covers (best : BestPrices) (side : Side) (price : Option Price) : Prop :=
  ∃ q ∈ price,
    match side with
    | .buy => 0 < best.bestAsk ∧ best.bestAsk ≤ q
    | .sell => 0 < best.bestBid ∧ q ≤ best.bestBid

instance (best : BestPrices) : (side : Side) → (price : Option Price) →
    Decidable (best.Covers side price)
  | .buy, price => inferInstanceAs (Decidable (∃ q ∈ price, _ ∧ _))
  | .sell, price => inferInstanceAs (Decidable (∃ q ∈ price, _ ∧ _))

theorem not_priceCrosses_of_covers {best : BestPrices} {o m : Order} {p : Price}
    (hp : o.price = some p) (hcheck : ¬ PostOnlyWouldTake best o.side p)
    (hcovers : best.Covers o.side m.price) : ¬ PriceCrosses o m := by
  intro hcross
  obtain ⟨q, hq, hbest⟩ := hcovers
  have hreach := hcross p q hp hq
  unfold PostOnlyWouldTake at hcheck
  cases hs : o.side with
  | buy =>
    simp only [hs] at hreach hbest hcheck
    exact hcheck ⟨hbest.1, hbest.2.trans hreach⟩
  | sell =>
    simp only [hs] at hreach hbest hcheck
    exact hcheck ⟨hbest.1, hreach.trans hbest.2⟩

namespace SpotState

/-- When a post-only order is placed, the orders of other users on the opposite side have
prices no better than the one its check has read. -/
def CheckStillCovers (s : SpotState) : SpotAction → Prop
  | .place i _ answer =>
    answer ≠ .refused → ∀ f ∈ s.forwarded[i]?, ∀ a ∈ s.accepted, a.1 = f.order.id →
      a.2.postOnly = true →
        ∀ m ∈ (s.engine.bookOf f.order.market).ordersOn f.order.side.opposite,
          m.userId ≠ f.order.userId → a.2.best.Covers f.order.side m.price
  | _ => True

instance (s : SpotState) : ∀ act, Decidable (s.CheckStillCovers act)
  | .place .. => inferInstanceAs (Decidable (_ → _))
  | .check .. | .commit .. | .trigger .. | .readCancel .. | .cancelOnEngine .. | .commitCancel ..
  | .settle _ => .isTrue trivial

/-- No post-only order is the taker of an event. -/
def PostOnlyNeverTakes (s : SpotState) : Prop :=
  ∀ a ∈ s.accepted, a.2.postOnly = true → ∀ ev ∈ s.produced, ev.takerOrderId ≠ a.1

variable {s s' : SpotState}

/-- A post-only order goes to the engine once, with the price that was checked. -/
theorem Consistent.postOnly_forwarded (hs : s.Consistent) {f : Forwarded} {c : CheckedOrder} (hmem :
    f ∈ s.forwarded) (hc : (f.order.id, c) ∈ s.accepted) (hpost : c.postOnly = true) : f.order.id
    ∉ s.placed ∧ ∃ p, f.order.price = some p ∧ ¬ PostOnlyWouldTake c.best f.order.side p := by
  obtain ⟨c', hc', hof⟩ := hs.forwarded_of f hmem
  obtain rfl := hs.request_unique hc hc'
  have hvalid := hs.accepted_valid _ hc
  have hkind : c.kind = .limit := (hvalid.post_only hpost).1
  have hroute : f.restore = none := by
    by_contra hne
    have hstop := (hof.stop hne).1
    rw [hkind] at hstop
    cases hstop
  obtain ⟨-, nowMs, horder⟩ := hof.route hroute
  have hprice := hvalid.price_iff
  rw [hkind] at hprice
  obtain ⟨p, hp⟩ := Option.isSome_iff_exists.mp hprice
  refine ⟨hs.route_new f hmem hroute, p, ?_, ?_⟩
  · rw [horder]
    exact hp
  · have hside : f.order.side = c.side := by rw [horder]; rfl
    rw [hside]
    exact hvalid.post_only_price hpost p hp

theorem Consistent.postOnly_placed (hs : s.Consistent) {f : Forwarded}
    {c : CheckedOrder} (clock : ℕ → ℕ) (hmem : f ∈ s.forwarded) (hc : (f.order.id, c) ∈ s.accepted)
    (hpost : c.postOnly = true) (hcovers : ∀ m ∈ (s.engine.bookOf f.order.market).ordersOn
    f.order.side.opposite, m.userId ≠ f.order.userId → c.best.Covers f.order.side m.price) :
    (s.engine.placeOrder clock f.order).2.map Prod.snd = [] := by
  obtain ⟨hnew, p, hp, hcheck⟩ := hs.postOnly_forwarded hmem hc hpost
  apply List.eq_nil_iff_forall_not_mem.mpr
  intro ev hev
  obtain ⟨-, m, hm, -⟩ :=
    (Engine.placeOrder_takes (hs.fresh_of_route hnew) clock).makers ev hev
  obtain ⟨hside, huser, hcross⟩ := OrderBook.mem_eligibleMakers.mp hm
  exact not_priceCrosses_of_covers hp hcheck (hcovers m hside huser) hcross

theorem PostOnlyNeverTakes.step (h : s.PostOnlyNeverTakes) (hs : s.Consistent)
    (cfg : RouteConfig) (markets : Market → Option SpotMarket) (act : SpotAction)
    (hact : s.CheckStillCovers act) : (s.step cfg markets act).PostOnlyNeverTakes := by
  cases tradeStep hs cfg markets act with
  | same _ accepted produced _ =>
    rw [PostOnlyNeverTakes, accepted, produced]
    exact h
  | stored id c hnew _ accepted produced _ =>
    rw [PostOnlyNeverTakes, accepted, produced]
    intro a ha hpost ev hev
    rcases List.mem_append.mp ha with ha | ha
    · exact h a ha hpost ev hev
    · rw [List.mem_singleton.mp ha]
      intro heq
      have hnames := (hs.produced_legs ev hev).1
      rw [heq] at hnames
      exact hnew (hs.placed_accepted id (hs.produced_placed ev hev id hnames))
  | placed i clock answer f heq hanswer hget _ accepted produced _ =>
    subst heq
    rw [PostOnlyNeverTakes, accepted, produced]
    intro a ha hpost ev hev htaker
    rcases List.mem_append.mp hev with hev | hev
    · exact h a ha hpost ev hev htaker
    · have hid : a.1 = f.order.id := htaker.symm.trans (Engine.taker_of_mem_placeOrder hev).1
      have hnone := hs.postOnly_placed clock (List.mem_of_getElem? hget)
        (hid ▸ ha) hpost (hact hanswer f hget a ha hid hpost)
      rw [hnone] at hev
      exact List.not_mem_nil hev
  | cancelled id _ accepted produced _ =>
    rw [PostOnlyNeverTakes, accepted, produced]
    exact h

/-- In every run in which the check of a post-only order still covers the book when the
order is placed, no post-only order takes. -/
theorem post_only_never_takes (cfg : RouteConfig) (markets : Market → Option SpotMarket)
    (acts : List SpotAction)
    (h : Along (SpotState.step cfg markets) CheckStillCovers SpotState.init acts) :
    (run cfg markets acts).PostOnlyNeverTakes := by
  have hboth : (run cfg markets acts).Consistent ∧
      (run cfg markets acts).PostOnlyNeverTakes := by
    apply h.invariant (P := fun s => s.Consistent ∧ s.PostOnlyNeverTakes)
    · exact ⟨Consistent.init, fun a ha => absurd ha List.not_mem_nil⟩
    · rintro s act ⟨hs, hp⟩ hact
      exact ⟨hs.step cfg markets act, hp.step hs cfg markets act hact⟩
  exact hboth.2

def makerRun : List SpotAction :=
  placeNow 7 (sampleBody "sell" "limit" "gtc" (.finite 100) 1 false) 1 1000 ++
    placeNow 8 (sampleBody "buy" "limit" "gtc" (.finite 99) 1 true) 2 2000 ++
    placeNow 9 (sampleBody "sell" "limit" "gtc" (.finite 99) 1 false) 3 3000

theorem makerRun_post_only_never_takes :
    (run ⟨false⟩ sampleMarkets makerRun).produced.map MatchEvent.makerOrderId = [2] ∧
      (run ⟨false⟩ sampleMarkets makerRun).PostOnlyNeverTakes :=
  ⟨by decide +kernel, post_only_never_takes ⟨false⟩ sampleMarkets makerRun (by decide +kernel)⟩

def overtakenRun : List SpotAction :=
  [.check 8 (sampleBody "buy" "limit" "gtc" (.finite 100) 1 true)] ++
    [.check 7 (sampleBody "sell" "limit" "gtc" (.finite 100) 1 false), .commit 1 1 1000,
      .place 0 (fun _ => 1000) .ok, .commit 0 2 2000, .place 0 (fun _ => 2000) .ok]

/-- The rest of a market sell is in the book without a price, so the table has no ask price
for the check of a post-only buy to see. -/
def unpricedRun : List SpotAction :=
  placeNow 7 (sampleBody "buy" "limit" "gtc" (.finite 100) 1 false) 1 1000 ++
    placeNow 8 (sampleBody "sell" "market" "" .blank 2 false) 2 2000 ++
    placeNow 9 (sampleBody "buy" "limit" "gtc" (.finite 90) 1 true) 3 3000

theorem post_only_order_takes :
    ¬ (run ⟨false⟩ sampleMarkets overtakenRun).PostOnlyNeverTakes ∧
      ¬ (run ⟨false⟩ sampleMarkets unpricedRun).PostOnlyNeverTakes := by
  have htakes : ∀ acts ∈ [overtakenRun, unpricedRun],
      ∃ a ∈ (run ⟨false⟩ sampleMarkets acts).accepted, a.2.postOnly = true ∧
        ∃ ev ∈ (run ⟨false⟩ sampleMarkets acts).produced, ev.takerOrderId = a.1 := by
    decide +kernel
  constructor
  · intro h
    obtain ⟨a, ha, hpost, ev, hev, htaker⟩ := htakes overtakenRun (by simp)
    exact h a ha hpost ev hev htaker
  · intro h
    obtain ⟨a, ha, hpost, ev, hev, htaker⟩ := htakes unpricedRun (by simp)
    exact h a ha hpost ev hev htaker

end SpotState

end MetherCEX
