import MetherCEX.Spot.Consistency

/-!
# Orders that must not rest

The user may ask for an order that is matched at once or not at all: a market order,
or one that is immediate-or-cancel or fill-or-kill. What is sent to the engine does not
say so, and the engine puts every rest into the book.
-/

namespace MetherCEX

open Run List

namespace SpotState

/-- An order that must not rest meets enough liquidity when it is placed. -/
def EnoughLiquidity (s : SpotState) : SpotAction → Prop
  | .place i _ answer =>
    answer ≠ .refused → ∀ f ∈ s.forwarded[i]?, ∀ a ∈ s.accepted, a.1 = f.order.id →
      a.2.Immediate →
        f.order.remaining ≤ (s.engine.bookOf f.order.market).liquidity f.order
  | _ => True

instance (s : SpotState) (act) : Decidable (s.EnoughLiquidity act) := by
  cases act <;> dsimp only [EnoughLiquidity] <;> infer_instance

/-- No order that must not rest is in the engine's book, and a fill-or-kill order that was
matched was matched completely. -/
structure ImmediateNeverRests (s : SpotState) : Prop where
  not_resting : ∀ x ∈ s.engine.orders, ∀ a ∈ s.accepted, a.1 = x.id → ¬ a.2.Immediate
  fok_whole : ∀ a ∈ s.accepted, a.2.timeInForce = .fok → (∃ ev ∈ s.produced, ev.Names a.1) →
    a.2.qtyRounded ≤ filledQty a.1 s.produced

namespace ImmediateNeverRests

variable {s s' : SpotState}

theorem stored (h : s.ImmediateNeverRests) (hs : s.Consistent) {id : OrderId} {c : CheckedOrder}
    (hnew : id ∉ s.accepted.map Prod.fst) (engine : s'.engine = s.engine) (accepted : s'.accepted =
    s.accepted ++ [(id, c)]) (produced : s'.produced = s.produced) : s'.ImmediateNeverRests := by
  constructor
  · rw [engine, accepted]
    intro x hx a ha heq
    rcases mem_append.mp ha with ha | ha
    · exact h.not_resting x hx a ha heq
    · rw [mem_singleton.mp ha] at heq
      exact absurd (hs.placed_accepted x.id (hs.resting_placed x hx)) (heq ▸ hnew)
  · rw [accepted, produced]
    intro a ha hfok hevent
    rcases mem_append.mp ha with ha | ha
    · exact h.fok_whole a ha hfok hevent
    · obtain ⟨ev, hev, hnames⟩ := hevent
      rw [mem_singleton.mp ha] at hnames
      exact absurd (hs.placed_accepted id (hs.produced_placed ev hev id hnames)) hnew

section Placed

variable {f : Forwarded} {c : CheckedOrder} {clock : ℕ → ℕ}

variable (clock) in
theorem filled (h : s.ImmediateNeverRests) (hs : s.Consistent)
    (hc : (f.order.id, c) ∈ s.accepted) (hof : ForwardedOf s.produced f c) (himm : c.Immediate)
    (hliq : f.order.remaining ≤ (s.engine.bookOf f.order.market).liquidity f.order) :
    (∀ x ∈ s.engine.orders, x.id ≠ f.order.id) ∧ filledQty
    f.order.id ((s.engine.placeOrder clock f.order).2.map Prod.snd) = f.order.remaining := by
  have hfresh : ∀ x ∈ s.engine.orders, x.id ≠ f.order.id :=
    fun x hx heq => h.not_resting x hx _ hc heq.symm himm
  refine ⟨hfresh, (Engine.placeOrder_takes hfresh clock).filled ?_ hof.nonneg hliq⟩
  exact fun x hx => hs.resting_pos x (Engine.mem_orders_of_mem_bookOf hx)

theorem placed (h : s.ImmediateNeverRests) (hs : s.Consistent) (hmem : f ∈ s.forwarded)
    (hliq : ∀ a ∈ s.accepted, a.1 = f.order.id → a.2.Immediate → f.order.remaining ≤
    (s.engine.bookOf f.order.market).liquidity f.order) (engine : s'.engine = (s.engine.placeOrder
    clock f.order).1) (accepted : s'.accepted = s.accepted) (produced : s'.produced =
    s.produced ++ (s.engine.placeOrder clock f.order).2.map Prod.snd) : s'.ImmediateNeverRests := by
  obtain ⟨c, hc, hof⟩ := hs.forwarded_of f hmem
  constructor
  · rw [engine, accepted]
    intro x hx a ha heq himm
    by_cases hid : a.1 = f.order.id
    · -- the order itself: everything of it was filled, so nothing rests
      obtain ⟨id, ca⟩ := a
      obtain rfl : id = f.order.id := hid
      obtain rfl := hs.request_unique hc ha
      obtain ⟨hfresh, hfilled⟩ := h.filled clock hs hc hof himm (hliq _ hc rfl himm)
      rcases Engine.rest_of_mem_orders_placeOrder hfresh hx with ⟨y, hy, hxy⟩ | ⟨-, hpos⟩
      · exact hfresh y hy (hxy.id_eq.symm.trans heq.symm)
      · rw [hfilled, sub_self] at hpos
        exact lt_irrefl 0 hpos
    · obtain ⟨y, rfl | hy, hxy⟩ := Engine.exists_of_mem_orders_placeOrder hx
      · exact hid (heq.trans hxy.id_eq)
      · exact h.not_resting y hy a ha (heq.trans hxy.id_eq) himm
  · rw [accepted, produced]
    intro a ha hfok hevent
    have himm : a.2.Immediate := .inr (.inr hfok)
    rw [filledQty_append]
    by_cases hid : a.1 = f.order.id
    · obtain ⟨id, ca⟩ := a
      obtain rfl : id = f.order.id := hid
      obtain rfl := hs.request_unique hc ha
      obtain ⟨-, hfilled⟩ := h.filled clock hs hc hof himm (hliq _ hc rfl himm)
      rw [hfilled]
      by_cases hold : ∃ ev ∈ s.produced, ev.Names f.order.id
      · exact (h.fok_whole _ hc hfok hold).trans (le_add_of_nonneg_right hof.nonneg)
      · have hzero : filledQty f.order.id s.produced = 0 :=
          filledQty_eq_zero fun ev hev hnames => hold ⟨ev, hev, hnames⟩
        rw [hzero, zero_add, hof.whole.resolve_right hold]
    · -- another order: it neither is the order of the request nor meets it in the book
      have hnew : ∀ ev ∈ (s.engine.placeOrder clock f.order).2.map Prod.snd,
          ¬ ev.Names a.1 := by
        intro ev hev hnames
        rcases Engine.names_of_mem_placeOrder hev hnames with heq | ⟨y, hy, heq⟩
        · exact hid heq
        · exact h.not_resting y hy a ha heq.symm himm
      rw [filledQty_eq_zero hnew, add_zero]
      obtain ⟨ev, hev, hnames⟩ := hevent
      rcases mem_append.mp hev with hev | hev
      · exact h.fok_whole a ha hfok ⟨ev, hev, hnames⟩
      · exact absurd hnames (hnew ev hev)

end Placed

theorem step (h : s.ImmediateNeverRests) (hs : s.Consistent) (cfg : RouteConfig)
    (markets : Market → Option SpotMarket) (act : SpotAction) (hact : s.EnoughLiquidity act) :
    (s.step cfg markets act).ImmediateNeverRests := by
  cases tradeStep hs cfg markets act with
  | same engine accepted produced _ =>
    constructor
    · rw [engine, accepted]
      exact h.not_resting
    · rw [accepted, produced]
      exact h.fok_whole
  | stored id c hnew engine accepted produced _ =>
    exact h.stored hs hnew engine accepted produced
  | placed i clock answer f heq hanswer hget engine accepted produced _ =>
    subst heq
    exact h.placed hs (mem_of_getElem? hget)
      (fun a ha hid himm => hact hanswer f hget a ha hid himm) engine accepted produced
  | cancelled id engine accepted produced _ =>
    constructor
    · rw [engine, accepted, Engine.orders_cancelOrder]
      exact fun x hx => h.not_resting x (mem_of_mem_filter hx)
    · rw [accepted, produced]
      exact h.fok_whole

end ImmediateNeverRests

/-- In every run in which the orders that must not rest meet enough liquidity, none of
them rests, and a fill-or-kill order that is not filled completely causes no event. -/
theorem immediate_never_rests (cfg : RouteConfig) (markets : Market → Option SpotMarket)
    (acts : List SpotAction)
    (h : Along (SpotState.step cfg markets) EnoughLiquidity SpotState.init acts) :
    (run cfg markets acts).ImmediateNeverRests := by
  have hboth : (run cfg markets acts).Consistent ∧
      (run cfg markets acts).ImmediateNeverRests := by
    apply h.invariant (P := fun s => s.Consistent ∧ s.ImmediateNeverRests)
    · refine ⟨Consistent.init, ⟨fun x hx => absurd hx ?_, fun a ha => absurd ha ?_⟩⟩
      · exact not_mem_nil
      · exact not_mem_nil
    · rintro s act ⟨hs, hp⟩ hact
      exact ⟨hs.step cfg markets act, hp.step hs cfg markets act hact⟩
  exact hboth.2

def filledRun : List SpotAction :=
  placeNow 7 (sampleBody "sell" "limit" "gtc" (.finite 100) 3 false) 1 1000 ++
    placeNow 8 (sampleBody "buy" "market" "" .blank 1 false) 2 2000 ++
    placeNow 9 (sampleBody "buy" "limit" "fok" (.finite 101) 2 false) 3 3000

theorem filledRun_immediate_never_rests :
    (run ⟨false⟩ sampleMarkets filledRun).produced.map MatchEvent.quantity = [1, 2] ∧
      (run ⟨false⟩ sampleMarkets filledRun).ImmediateNeverRests :=
  ⟨by decide +kernel, immediate_never_rests ⟨false⟩ sampleMarkets filledRun (by decide +kernel)⟩

def marketRun : List SpotAction :=
  placeNow 7 (sampleBody "sell" "limit" "gtc" (.finite 100) 1 false) 1 1000 ++
    placeNow 8 (sampleBody "buy" "market" "" .blank 2 false) 2 2000

def iocRun : List SpotAction :=
  placeNow 7 (sampleBody "sell" "limit" "gtc" (.finite 100) 1 false) 1 1000 ++
    placeNow 8 (sampleBody "buy" "limit" "ioc" (.finite 100) 2 false) 2 2000

/-- A fill-or-kill order that the table can fill and the book cannot, because a fill is
not settled yet. -/
def fokRun : List SpotAction :=
  placeNow 7 (sampleBody "sell" "limit" "gtc" (.finite 100) 2 false) 1 1000 ++
    placeNow 8 (sampleBody "buy" "limit" "gtc" (.finite 100) 1 false) 2 2000 ++
    placeNow 9 (sampleBody "buy" "limit" "fok" (.finite 100) 2 false) 3 3000

/-- In each of these runs the order is left in the book, and the fill-or-kill order is
filled by half. -/
theorem immediate_order_rests : (∀ acts ∈ [marketRun, iocRun, fokRun], ¬ (run ⟨false⟩ sampleMarkets
    acts).ImmediateNeverRests) ∧ filledQty 3 (run ⟨false⟩ sampleMarkets fokRun).produced = 1 := by
  have hresting : ∀ acts ∈ [marketRun, iocRun, fokRun],
      ∃ x ∈ (run ⟨false⟩ sampleMarkets acts).engine.orders,
        ∃ a ∈ (run ⟨false⟩ sampleMarkets acts).accepted, a.1 = x.id ∧ a.2.Immediate := by
    decide +kernel
  constructor
  · intro acts hacts h
    obtain ⟨x, hx, a, ha, heq, himm⟩ := hresting acts hacts
    exact h.not_resting x hx a ha heq himm
  · decide +kernel

end SpotState

end MetherCEX
