import MetherCEX.Spot.Consistency

/-!
# Time priority between orders of the route

Orders of one market, side and price are matched by the time they carry and then by their id.
-/

namespace MetherCEX

open Run List OrderBook SpotState

def SameLevel (a b : Order) : Prop :=
  a.market = b.market ∧ a.side = b.side ∧ a.price = b.price
  deriving Decidable

def KeyBefore (a b : Order) : Prop :=
  a.createdAt < b.createdAt ∨ a.createdAt = b.createdAt ∧ a.id < b.id
  deriving Decidable

variable {a b a' b' : Order}

theorem not_precedes_of_keyBefore {s : Side} (hprice : a.price = b.price) (h : KeyBefore a b) :
    ¬ Precedes s b a := by
  rintro (hbetter | ⟨-, hkey⟩)
  · rw [hprice] at hbetter
    cases s <;> cases hp : b.price <;> simp [BetterPrice, hp] at hbetter
  · rcases h with h | ⟨h, h'⟩
    · rcases hkey with hk | ⟨hk, -⟩ <;> omega
    · rcases hkey with hk | ⟨-, hk⟩
      · omega
      · exact absurd h' (not_lt.mpr hk)

theorem sameLevel_of_descends (ha : a.Descends a') (hb : b.Descends b') :
    SameLevel a b ↔ SameLevel a' b' := by
  rw [ha.1, hb.1]
  exact Iff.rfl

theorem keyBefore_of_descends (ha : a.Descends a') (hb : b.Descends b') :
    KeyBefore a b ↔ KeyBefore a' b' := by
  rw [ha.1, hb.1]
  exact Iff.rfl

namespace OrderBook

variable {b : OrderBook} {o m₁ m₂ : Order}

theorem full_before {fpre fpost : List (Order × Quantity)} {q : Quantity}
    (hfs : referenceFills b o = fpre ++ (m₂, q) :: fpost) (h₁ : m₁ ∈ eligibleMakers b o)
    (hprice : m₁.price = m₂.price) (hkey : KeyBefore m₁ m₂) : (m₁, m₁.remaining) ∈ fpre := by
  have hsorted : (eligibleMakers b o).Pairwise (Precedes o.side.opposite) := by
    rw [eligibleMakers_eq]
    exact (b.ordersOn_sorted _).filter _
  have hprefix := GreedyFill.fills_prefix Order.remaining o.remaining (eligibleMakers b o)
  rw [show GreedyFill.fills Order.remaining o.remaining (eligibleMakers b o) =
    fpre ++ (m₂, q) :: fpost from hfs, map_append, map_cons] at hprefix
  obtain ⟨rest, hrest⟩ := hprefix
  rw [append_assoc, cons_append] at hrest
  rw [← hrest] at h₁ hsorted
  have hmem : m₁ ∈ fpre.map Prod.fst := by
    rcases mem_append.mp h₁ with h₁ | h₁
    · exact h₁
    · have hnot := not_precedes_of_keyBefore (s := o.side.opposite) hprice hkey
      rcases mem_cons.mp h₁ with rfl | h₁
      · -- an order is not before itself
        rcases hkey with hlt | ⟨-, hlt⟩
        · exact absurd hlt (lt_irrefl _)
        · exact absurd hlt (lt_irrefl _)
      · have htail := (pairwise_append.mp hsorted).2.1
        exact absurd ((pairwise_cons.mp htail).1 m₁ h₁) hnot
  obtain ⟨⟨m, qm⟩, hf, rfl⟩ := mem_map.mp hmem
  have hfull : qm = m.remaining := GreedyFill.full_of_mem_append hfs (m, qm) hf
  rw [← hfull]
  exact hf

theorem filledQty_before (hid : b.DistinctIds) (ho : o ∈ b.orders)
    (h₁ : m₁ ∈ b.orders) (h₂ : m₂ ∈ b.orders) (hlevel : SameLevel m₁ m₂) (hkey : KeyBefore m₁ m₂)
    (huser : m₁.userId ≠ o.userId) (hne : m₂.id ≠ o.id) {market : Market} {now : ℕ → ℕ}
    {pre post : List MatchEvent} {ev : MatchEvent} (hes : referenceEvents b market now o =
    pre ++ ev :: post) (hnames : ev.Names m₂.id) : filledQty m₁.id pre = m₁.remaining := by
  obtain ⟨fpre, ⟨m, q⟩, fpost, t, -, hfs, rfl, rfl, -⟩ := fillEvents_split hes
  have hf : (m, q) ∈ referenceFills b o := by
    rw [hfs]
    exact mem_append_right _ mem_cons_self
  have helig : m ∈ eligibleMakers b o := mem_of_mem_referenceFills hf
  obtain ⟨hside, -, hcross⟩ := mem_eligibleMakers.mp helig
  obtain rfl : m = m₂ := by
    apply hid.eq_of_id_eq (mem_orders_of_mem_ordersOn hside) h₂
    exact (((eventOf_names market o m _ q t m₂.id).mp hnames).resolve_left hne).symm
  have helig₁ : m₁ ∈ eligibleMakers b o := by
    rw [mem_eligibleMakers]
    refine ⟨?_, huser, ?_⟩
    · rw [← side_of_mem_ordersOn hside, ← hlevel.2.1]
      exact mem_ordersOn_side h₁
    · intro p p' hp hp'
      exact hcross p p' hp (hlevel.2.2 ▸ hp')
  have hmem := full_before hfs helig₁ hlevel.2.2 hkey
  have hids : (fpre.map fun f => f.1.id).Nodup := by
    have hnodup := referenceFills_ids_nodup hid o
    rw [hfs, map_append] at hnodup
    exact (nodup_append.mp hnodup).1
  have hne₁ : m₁.id ≠ o.id := id_ne_of_mem_opposite hid ho (mem_eligibleMakers.mp helig₁).1
  rw [filledQty_fillEvents, if_neg hne₁]
  exact givenQty_of_mem hids hmem

end OrderBook

/-- On a well-formed engine an order with the smaller key is filled completely before
another of its level gets anything. -/
theorem Engine.filledQty_before {e : Engine} {o m₁ m₂ : Order} (h : e.WellFormed) (hfresh : ∀ x ∈
    e.orders, x.id ≠ o.id) (hnonneg : 0 ≤ o.remaining) (h₁ : m₁ ∈ e.orders) (h₂ : m₂ ∈ e.orders)
    (hlevel : SameLevel m₁ m₂) (hkey : KeyBefore m₁ m₂) (huser : m₁.userId ≠ o.userId)
    {now : ℕ → ℕ} {pre post : List MatchEvent} {ev : MatchEvent}
    (hes : (e.placeOrder now o).2.map Prod.snd = pre ++ ev :: post)
    (hnames : ev.Names m₂.id) : filledQty m₁.id pre = m₁.remaining := by
  have hevents := events_placeOrder e now o
  rw [hes] at hevents
  rcases hnonneg.eq_or_lt with hzero | hpos
  · have hnone := insertAndMatch_of_nonpos (b := e.bookOf o.market)
      (fun x hx => hfresh x (mem_orders_of_mem_bookOf hx)) hzero.symm.le.not_gt o.market now
    rw [trialMatch, hnone] at hevents
    exact absurd hevents (by simp)
  · have hinsert : (e.insertOrder o).WellFormed :=
      h.insertOrder (fun x hx heq => absurd heq (hfresh x hx)) hpos
    have hperm := insertOrder_orders_perm_of_fresh h hfresh
    have ho : o ∈ (e.insertOrder o).orders := hperm.mem_iff.mpr mem_cons_self
    have hold : ∀ x ∈ e.orders, x ∈ (e.insertOrder o).orders :=
      fun x hx => hperm.mem_iff.mpr (mem_cons_of_mem o hx)
    have hob := hinsert.mem_bookOf ho
    rw [trialMatch_eq, (matchOrders_eq_reference (hinsert.distinctIds _)
      (hinsert.positiveRemaining _) hob o.market now).1] at hevents
    have hdistinct := hinsert.distinctIds o.market
    -- the event names the second order, so both are in the book of the market
    have hbook₂ : m₂ ∈ ((e.insertOrder o).bookOf o.market).orders := by
      obtain ⟨f, hf, t, rfl⟩ := mem_referenceEvents
        (hevents ▸ mem_append_right pre mem_cons_self)
      have hmaker := mem_orders_of_mem_ordersOn
        (mem_eligibleMakers.mp (mem_of_mem_referenceFills hf)).1
      have hid : m₂.id = f.1.id :=
        ((eventOf_names _ _ _ _ _ _ _).mp hnames).resolve_left (hfresh m₂ h₂)
      rw [List.inj_on_of_nodup_map hinsert.distinct (hold m₂ h₂)
        (mem_orders_of_mem_bookOf hmaker) hid]
      exact hmaker
    have hbook₁ : m₁ ∈ ((e.insertOrder o).bookOf o.market).orders := by
      rw [← hinsert.market_of_mem hbook₂, ← hlevel.1]
      exact hinsert.mem_bookOf (hold m₁ h₁)
    exact OrderBook.filledQty_before hdistinct hob hbook₁ hbook₂ hlevel hkey huser
      (hfresh m₂ h₂) hevents.symm hnames

/-- A step of the order route, of the cancel route or of the settlement. -/
def SpotAction.IsRoute : SpotAction → Prop
  | .trigger _ _ _ => False
  | _ => True

namespace SpotState

def PlacedBefore (s : SpotState) (x y : OrderId) : Prop := s.placed.idxOf x < s.placed.idxOf y

/-- An order that is placed carries a later time and id than those that rest at its price. -/
def LaterKey (s : SpotState) : SpotAction → Prop
  | .place i _ answer =>
    answer ≠ .refused → ∀ f ∈ s.forwarded[i]?, ∀ x ∈ s.engine.orders,
      SameLevel x f.order → KeyBefore x f.order
  | _ => True

instance : DecidablePred SpotAction.IsRoute
  | .trigger .. => .isFalse id
  | .check .. | .commit .. | .place .. | .readCancel .. | .cancelOnEngine .. | .commitCancel ..
  | .settle _ => .isTrue trivial

instance (s : SpotState) : ∀ act, Decidable (s.LaterKey act)
  | .place .. => inferInstanceAs (Decidable (_ → _))
  | .check .. | .commit .. | .trigger .. | .readCancel .. | .cancelOnEngine .. | .commitCancel ..
  | .settle _ => .isTrue trivial

/-- The engine is well formed, only orders of the route are on their way, and the orders of
a level rest in the order in which they were placed. -/
structure RestsByArrival (s : SpotState) : Prop where
  wellFormed : s.engine.WellFormed
  route : ∀ f ∈ s.forwarded, f.restore = none
  by_arrival : ∀ x ∈ s.engine.orders, ∀ y ∈ s.engine.orders, SameLevel x y →
    s.PlacedBefore x.id y.id → KeyBefore x y

variable {s s' : SpotState}

theorem mem_forwarded_step {cfg : RouteConfig} {markets : Market → Option SpotMarket}
    {act : SpotAction} (hroute : act.IsRoute) :
    ∀ f ∈ (s.step cfg markets act).forwarded, f ∈ s.forwarded ∨ f.restore = none := by
  intro f hf
  cases act with
  | check userId body =>
    simp only [step, check] at hf
    split at hf
    · exact .inl hf
    · exact .inl hf
  | commit i id nowMs =>
    simp only [step, commit] at hf
    split at hf
    · exact .inl hf
    · split_ifs at hf
      · exact .inl hf
      · exact .inl hf
      · exact .inl hf
      · rcases mem_append.mp hf with hf | hf
        · exact .inl hf
        · rw [mem_singleton.mp hf]
          exact .inr rfl
  | place i clock answer =>
    left
    simp only [step, place] at hf
    split at hf
    · exact hf
    · cases answer with
      | ok => exact List.eraseIdx_subset hf
      | refused | lost => exact List.eraseIdx_subset (forwarded_engineFailed _ _ ▸ hf)
  | trigger id lastPrice nowMs => exact hroute.elim
  | readCancel userId id =>
    simp only [step, readCancel] at hf
    split at hf
    · exact .inl hf
    · split_ifs at hf
      · exact .inl hf
      · exact .inl hf
  | cancelOnEngine i =>
    simp only [step, cancelOnEngine] at hf
    split at hf
    · exact .inl hf
    · exact .inl hf
  | commitCancel i =>
    simp only [step, commitCancel] at hf
    split at hf
    · exact .inl hf
    · exact .inl hf
  | settle i =>
    simp only [step, settle] at hf
    split at hf
    · exact .inl hf
    · split at hf
      · exact .inl hf
      · split_ifs at hf
        · exact .inl hf
        · exact .inl hf

namespace RestsByArrival

theorem placedBefore_of_append (hs : s.Consistent) {x y : Order} {id : OrderId}
    (hx : x ∈ s.engine.orders) (hy : y ∈ s.engine.orders) (h : (s.placed ++ [id]).idxOf x.id <
    (s.placed ++ [id]).idxOf y.id) : s.PlacedBefore x.id y.id := by
  rwa [List.idxOf_append_of_mem (hs.resting_placed x hx),
    List.idxOf_append_of_mem (hs.resting_placed y hy)] at h

theorem placed (h : s.RestsByArrival) (hs : s.Consistent) {f : Forwarded} {clock : ℕ → ℕ} (hmem :
    f ∈ s.forwarded) (hkey : ∀ x ∈ s.engine.orders, SameLevel x f.order → KeyBefore x f.order)
    (engine : s'.engine = (s.engine.placeOrder clock f.order).1) (placed : s'.placed = s.placed
    ++ [f.order.id]) (hroute : ∀ g ∈ s'.forwarded, g.restore = none) : s'.RestsByArrival := by
  have hnew : f.order.id ∉ s.placed := hs.route_new f hmem (h.route f hmem)
  have hfresh := hs.fresh_of_route hnew
  obtain ⟨c, -, hof⟩ := hs.forwarded_of f hmem
  refine ⟨?_, hroute, ?_⟩
  · rw [engine]
    exact h.wellFormed.placeOrder hfresh clock
  · intro x hx y hy hlevel hbefore
    rw [engine] at hx hy
    rw [PlacedBefore, placed] at hbefore
    have hlast : (s.placed ++ [f.order.id]).idxOf f.order.id = s.placed.length := by
      rw [List.idxOf_append_of_notMem hnew]
      simp
    obtain ⟨x', hx', hxx⟩ := Engine.exists_of_mem_orders_placeOrder hx
    obtain ⟨y', hy', hyy⟩ := Engine.exists_of_mem_orders_placeOrder hy
    rw [hxx.id_eq, hyy.id_eq] at hbefore
    rw [sameLevel_of_descends hxx hyy] at hlevel
    rw [keyBefore_of_descends hxx hyy]
    rcases hx' with rfl | hx'
    · -- nothing is placed after the order that was placed last
      rw [hlast] at hbefore
      rcases hy' with rfl | hy'
      · rw [hlast] at hbefore
        exact absurd hbefore (lt_irrefl _)
      · rw [List.idxOf_append_of_mem (hs.resting_placed y' hy')] at hbefore
        exact absurd hbefore List.idxOf_le_length.not_gt
    · rcases hy' with rfl | hy'
      · exact hkey x' hx' hlevel
      · exact h.by_arrival x' hx' y' hy' hlevel (placedBefore_of_append hs hx' hy' hbefore)

theorem step (h : s.RestsByArrival) (hs : s.Consistent) (cfg : RouteConfig)
    (markets : Market → Option SpotMarket) (act : SpotAction) (hact : act.IsRoute)
    (hkey : s.LaterKey act) : (s.step cfg markets act).RestsByArrival := by
  have hroute : ∀ f ∈ (s.step cfg markets act).forwarded, f.restore = none := by
    intro f hf
    rcases mem_forwarded_step hact f hf with hf | hf
    · exact h.route f hf
    · exact hf
  cases tradeStep hs cfg markets act with
  | same engine _ _ placed | stored id c hnew engine _ _ placed =>
    refine ⟨engine ▸ h.wellFormed, hroute, ?_⟩
    simp only [PlacedBefore, engine, placed]
    exact h.by_arrival
  | placed i clock answer f heq hanswer hget engine _ _ placed =>
    subst heq
    exact h.placed hs (mem_of_getElem? hget) (hkey hanswer f hget) engine placed hroute
  | cancelled id engine _ _ placed =>
    refine ⟨engine ▸ h.wellFormed.cancelOrder id, hroute, ?_⟩
    simp only [PlacedBefore, engine, placed, Engine.orders_cancelOrder]
    exact fun x hx y hy => h.by_arrival x (mem_of_mem_filter hx) y
      (mem_of_mem_filter hy)

end RestsByArrival

/-- The placement of `f` fills of two resting orders of a level, neither of the taker's
user, the one that was placed first completely before the other gets anything. -/
def EarlierFilledFirst (s : SpotState) (f : Forwarded) (clock : ℕ → ℕ) : Prop :=
  ∀ m₁ ∈ s.engine.orders, ∀ m₂ ∈ s.engine.orders, SameLevel m₁ m₂ →
    m₁.userId ≠ f.order.userId → m₂.userId ≠ f.order.userId → s.PlacedBefore m₁.id m₂.id →
      ∀ pre ev post, (s.engine.placeOrder clock f.order).2.map Prod.snd = pre ++ ev :: post →
        ev.Names m₂.id → filledQty m₁.id pre = m₁.remaining

/-- After every run of the route in which each order carries a later time and id than
those at its price when it is placed, a placement fills the order that was placed earlier
first. -/
theorem earlier_filled_first (cfg : RouteConfig) (markets : Market → Option SpotMarket)
    (acts : List SpotAction) (h : Along (SpotState.step cfg markets) (fun s a => a.IsRoute ∧
    s.LaterKey a) SpotState.init acts) (f : Forwarded) (hf : f ∈ (run cfg markets acts).forwarded)
    (clock : ℕ → ℕ) : (run cfg markets acts).EarlierFilledFirst f clock := by
  have hboth : (run cfg markets acts).Consistent ∧ (run cfg markets acts).RestsByArrival := by
    apply h.invariant (P := fun s => s.Consistent ∧ s.RestsByArrival)
    · refine ⟨Consistent.init, Engine.WellFormed.new, ?_, ?_⟩
      · exact forall_mem_nil _
      · exact forall_mem_nil _
    · rintro s act ⟨hs, hp⟩ ⟨hact, hkey⟩
      exact ⟨hs.step cfg markets act, hp.step hs cfg markets act hact hkey⟩
  obtain ⟨hs, hp⟩ := hboth
  obtain ⟨c, -, hof⟩ := hs.forwarded_of f hf
  intro m₁ h₁ m₂ h₂ hlevel huser _ hbefore pre ev post hes hnames
  exact Engine.filledQty_before hp.wellFormed
    (hs.fresh_of_route (hs.route_new f hf (hp.route f hf))) hof.nonneg h₁ h₂ hlevel
    (hp.by_arrival m₁ h₁ m₂ h₂ hlevel hbefore) huser hes hnames

/-- Two sells at one price, the first with the given id and the second with the id 2, a
given time later; a buy is on its way. -/
def twoSells (firstId : OrderId) (secondMs : ℕ) : List SpotAction :=
  placeNow 7 (sampleBody "sell" "limit" "gtc" (.finite 100) 1 false) firstId 1000 ++
    placeNow 8 (sampleBody "sell" "limit" "gtc" (.finite 100) 1 false) 2 secondMs ++
    [.check 9 (sampleBody "buy" "limit" "gtc" (.finite 100) 2 false), .commit 0 3 3000]

/-- The buy of `twoSells`. -/
def sampleTaker : Forwarded :=
  ⟨⟨3, 9, "BTC_USDT", .buy, .limit, some 100, 2, 2, 3⟩, none⟩

theorem twoSells_earlier_filled_first :
    sampleTaker ∈ (run ⟨false⟩ sampleMarkets (twoSells 5 2000)).forwarded ∧
      (run ⟨false⟩ sampleMarkets (twoSells 5 2000)).EarlierFilledFirst sampleTaker (fun _ => 0) :=
  ⟨by decide +kernel, earlier_filled_first ⟨false⟩ sampleMarkets (twoSells 5 2000)
    (by decide +kernel) sampleTaker (by decide +kernel) (fun _ => 0)⟩

def sampleSell (id : OrderId) (userId : UserId) : Order :=
  ⟨id, userId, "BTC_USDT", .sell, .limit, some 100, 1, 1, 1⟩

/-- Both sells carry the same second, and the id of the second one is smaller: it is
filled first. -/
theorem later_order_filled_first :
    sampleTaker ∈ (run ⟨false⟩ sampleMarkets (twoSells 5 1900)).forwarded ∧ ¬ (run
    ⟨false⟩ sampleMarkets (twoSells 5 1900)).EarlierFilledFirst sampleTaker (fun _ => 0) := by
  have hmakers : ((run ⟨false⟩ sampleMarkets (twoSells 5 1900)).engine.placeOrder
      (fun _ => 0) sampleTaker.order).2.map Prod.snd =
        [] ++ ⟨"BTC_USDT", 3, 2, 9, 8, 3, 2, 9, 8, .buy, 100, 1, 0⟩ ::
          [⟨"BTC_USDT", 3, 5, 9, 7, 3, 5, 9, 7, .buy, 100, 1, 0⟩] := by
    decide +kernel
  refine ⟨by decide +kernel, fun h => ?_⟩
  have hfilled := h (sampleSell 5 7) (by decide +kernel) (sampleSell 2 8) (by decide +kernel)
    (by decide +kernel) (by decide) (by decide) (by unfold PlacedBefore; decide +kernel) _ _ _
    hmakers (by decide)
  exact absurd hfilled (by decide +kernel)

end SpotState

end MetherCEX
