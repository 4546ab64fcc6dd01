import MetherCEX.Lib.Tally
import MetherCEX.Spot.Traded

/-!
# The book in memory

The API process keeps the sum of the open quantity per price in memory
(`spot-in-memory-orderbook.service.ts`) and serves it as the order book.
-/

namespace MetherCEX

open Decimal Run Table Tally List Function

/-- The text of a price: its value and the number of its decimal places. -/
structure PriceText where
  value : ℚ
  scale : ℕ
  deriving DecidableEq

def columnText (scale : ℕ) (price : ℚ) : PriceText := ⟨price, scale⟩

/-- The text of a number without trailing zeros, as the engine gets and returns it. -/
def decimalText (price : ℚ) : PriceText :=
  ⟨price, ((List.range 29).find? fun k => decide (OnGrid k price)).getD 28⟩

/-- `BookSide`: the quantity under every price text. -/
abbrev Levels := AList fun _ : PriceText => ℚ

namespace Levels

def qtyPrecision : ℕ := 8

def addLiquidity (l : Levels) (price : PriceText) (qty : ℚ) : Levels :=
  let q := roundDown qtyPrecision qty
  if q ≤ 0 then l
  else l.insert price (roundDown qtyPrecision ((l.lookup price).getD 0 + q))

def removeLiquidity (l : Levels) (price : PriceText) (qty : ℚ) : Levels :=
  let q := roundDown qtyPrecision qty
  if q ≤ 0 then l
  else
    let next := roundDown qtyPrecision ((l.lookup price).getD 0 - q)
    if next ≤ 0 then l.erase price else l.insert price next

/-- The quantity at a price, whatever its text. -/
def qtyAt (l : Levels) (price : ℚ) : ℚ :=
  tally (fun e : Sigma fun _ : PriceText => ℚ => e.1.value) Sigma.snd l.entries price

end Levels

structure SymbolBook where
  bids : Levels
  asks : Levels

namespace SymbolBook

def empty : SymbolBook := ⟨∅, ∅⟩

def levels (b : SymbolBook) : Side → Levels
  | .buy => b.bids
  | .sell => b.asks

def update (b : SymbolBook) (side : Side) (f : Levels → Levels) : SymbolBook :=
  match side with
  | .buy => { b with bids := f b.bids }
  | .sell => { b with asks := f b.asks }

end SymbolBook

/-- The settings: those of the route, and the places of the price column. -/
structure BookConfig where
  route : RouteConfig
  markets : Market → Option SpotMarket
  priceScale : ℕ

def defaultLevels : ℕ := 50

def bestFirst (rows : List OrderRow) (market : Market) (side : Side) : List ℚ :=
  match side with
  | .buy => ((openPrices rows market .buy).dedup).insertionSort (· ≥ ·)
  | .sell => ((openPrices rows market .sell).dedup).insertionSort (· ≤ ·)

def openQty (rows : List OrderRow) (market : Market) (side : Side) (price : ℚ) : ℚ :=
  ((rows.filter fun r => r.market == market && r.side == side && r.isOpen &&
    r.price == some price).map OrderRow.remaining).sum

/-- A side of the book as it is read from the table (`getOrderbookFromDb` and
`replaceFromSnapshot`). -/
def hydratedSide (priceScale : ℕ) (rows : List OrderRow) (market : Market) (side : Side) :
    Levels :=
  ((bestFirst rows market side).take defaultLevels).foldl
    (fun l p => l.insert (columnText priceScale p) (roundDown 12 (openQty rows market side p))) ∅

structure MemoryState where
  spot : SpotState
  books : Market → SymbolBook
  warmed : List Market

inductive BookRequest
  | subscribe (symbol : Market)
  | place (userId : UserId) (body : PlaceBody) (id : OrderId) (nowMs : ℕ) (clock : ℕ → ℕ)
  | settle (i : ℕ)
  | cancel (userId : UserId) (id : OrderId)

namespace MemoryState

def init : MemoryState := ⟨.init, fun _ => .empty, []⟩

def updateBook (s : MemoryState) (symbol : Market) (f : SymbolBook → SymbolBook) : MemoryState :=
  { s with books := update s.books symbol (f (s.books symbol)) }

section Requests

variable (cfg : BookConfig)

/-- `ensureMemoryBookHydrated`. -/
def ensureHydrated (s : MemoryState) (symbol : Market) : MemoryState :=
  if symbol ∈ s.warmed then s
  else
    { s.updateBook symbol fun _ =>
        ⟨hydratedSide cfg.priceScale s.spot.orders symbol .buy,
          hydratedSide cfg.priceScale s.spot.orders symbol .sell⟩ with
      warmed := symbol :: s.warmed }

/-- `applyOneEngineEvent`: what was matched is removed on the side of the maker. -/
def applyEvent (symbol : Market) (s : MemoryState) (ev : MatchEvent) : MemoryState :=
  if ev.market = symbol then
    s.updateBook symbol fun b =>
      b.update ev.takerSide.opposite fun l => l.removeLiquidity (decimalText ev.price) ev.quantity
  else s

/-- A limit order is added with the quantity of the row that was stored. -/
def addResting (s : MemoryState) (c : CheckedOrder) : MemoryState :=
  match c.kind, c.price with
  | .limit, some p =>
    if 0 < c.qtyRounded then
      s.updateBook c.market fun b =>
        b.update c.side fun l => l.addLiquidity (columnText cfg.priceScale p) c.qtyRounded
    else s
  | _, _ => s

def place (s : MemoryState) (userId : UserId) (body : PlaceBody) (id : OrderId) (nowMs : ℕ)
    (clock : ℕ → ℕ) : MemoryState :=
  match checkOrder cfg.route cfg.markets (bestPrices s.spot.orders) userId body with
  | .error _ => s
  | .ok c =>
    if id ∈ s.spot.orders.map OrderRow.id ∨ c.fokNotFillable s.spot.orders then s
    else
      let spot := ((s.spot.check cfg.route cfg.markets userId body).commit 0 id nowMs).place 0
        clock .ok
      let events := spot.produced.drop s.spot.produced.length
      let s := ({ s with spot := spot } : MemoryState).ensureHydrated cfg c.market
      (events.foldl (applyEvent c.market) s).addResting cfg c

def cancel (s : MemoryState) (userId : UserId) (id : OrderId) : MemoryState :=
  match s.spot.orders.find? fun r => r.id == id && r.userId == userId with
  | none => s
  | some r =>
    if r.isCancellable then
      let spot := ((s.spot.readCancel userId id).cancelOnEngine 0).commitCancel 0
      let s := ({ s with spot := spot } : MemoryState).ensureHydrated cfg r.market
      match r.price with
      | none => s
      | some p =>
        s.updateBook r.market fun b => b.update r.side fun l =>
          l.removeLiquidity (columnText cfg.priceScale p)
            (roundDown 8 (r.quantity - r.filledQuantity))
    else s

def step (s : MemoryState) : BookRequest → MemoryState
  | .subscribe symbol => s.ensureHydrated cfg symbol
  | .place userId body id nowMs clock => s.place cfg userId body id nowMs clock
  | .settle i => { s with spot := s.spot.settle cfg.markets i }
  | .cancel userId id => s.cancel cfg userId id

/-- The state after a run from an empty table, an empty engine and an empty memory. -/
def run (reqs : List BookRequest) : MemoryState := reqs.foldl (step cfg) init

end Requests

def levelQty (orders : List Order) (symbol : Market) (side : Side) (price : ℚ) : ℚ :=
  tally (fun x : Order => (x.market, x.side, x.price)) Order.remaining orders
    (symbol, side, some price)

def engineQty (s : MemoryState) (symbol : Market) (side : Side) (price : ℚ) : ℚ :=
  levelQty s.spot.engine.orders symbol side price

def memoryQty (s : MemoryState) (symbol : Market) (side : Side) (price : ℚ) : ℚ :=
  ((s.books symbol).levels side).qtyAt price

def Tracks (s : MemoryState) : Prop :=
  ∀ symbol side price, s.memoryQty symbol side price = s.engineQty symbol side price

end MemoryState

namespace Levels

variable {l : Levels} {k : PriceText} {q : ℚ}

theorem lookup_insert_getD (l : Levels) (k k' : PriceText) (v : ℚ) :
    ((l.insert k v).lookup k').getD 0 = if k' = k then v else (l.lookup k').getD 0 := by
  split_ifs with hk
  · subst hk
    rw [AList.lookup_insert]
    rfl
  · rw [AList.lookup_insert_ne hk]

theorem lookup_erase_getD (l : Levels) (k k' : PriceText) :
    ((l.erase k).lookup k').getD 0 = if k' = k then 0 else (l.lookup k').getD 0 := by
  split_ifs with hk
  · subst hk
    rw [AList.lookup_erase]
    rfl
  · rw [AList.lookup_erase_ne hk]

theorem lookup_addLiquidity
    (hq : 0 < q) (hgrid : OnGrid 8 q) (hlevel : OnGrid 8 ((l.lookup k).getD 0)) (k' : PriceText) :
    ((l.addLiquidity k q).lookup k').getD 0 = (l.lookup k').getD 0 + if k' = k then q else 0 := by
  unfold addLiquidity qtyPrecision
  dsimp only
  rw [hgrid.roundDown_eq, if_neg hq.not_ge, lookup_insert_getD, (hlevel.add hgrid).roundDown_eq]
  split_ifs with hk
  · rw [hk]
  · rw [add_zero]

theorem lookup_removeLiquidity (hq : 0 ≤ q) (hle : q ≤ (l.lookup k).getD 0) (hgrid : OnGrid 8 q)
    (hlevel : OnGrid 8 ((l.lookup k).getD 0)) (k' : PriceText) : ((l.removeLiquidity k q).lookup
    k').getD 0 = (l.lookup k').getD 0 - if k' = k then q else 0 := by
  unfold removeLiquidity qtyPrecision
  dsimp only
  rw [hgrid.roundDown_eq, (hlevel.sub hgrid).roundDown_eq]
  split_ifs with hzero hnext hk hk hk
  · rw [le_antisymm hzero hq, sub_zero]
  · rw [sub_zero]
  · subst hk
    rw [lookup_erase_getD, if_pos rfl]
    linarith
  · rw [lookup_erase_getD, if_neg hk, sub_zero]
  · subst hk
    rw [lookup_insert_getD, if_pos rfl]
  · rw [lookup_insert_getD, if_neg hk, sub_zero]

theorem mem_keys_addLiquidity {k' : PriceText} (h : k' ∈ (l.addLiquidity k q).keys) :
    k' = k ∨ k' ∈ l.keys := by
  unfold addLiquidity at h
  dsimp only at h
  split_ifs at h
  · exact .inr h
  · exact (AList.mem_insert _).mp h

theorem mem_keys_removeLiquidity {k' : PriceText} (h : k' ∈ (l.removeLiquidity k q).keys) :
    k' = k ∨ k' ∈ l.keys := by
  unfold removeLiquidity at h
  dsimp only at h
  split_ifs at h
  · exact .inr h
  · exact .inr (AList.mem_erase.mp h).2
  · exact (AList.mem_insert _).mp h

end Levels

theorem SymbolBook.levels_update (b : SymbolBook) (side side' : Side) (f : Levels → Levels) :
    (b.update side f).levels side' =
      if side' = side then f (b.levels side) else b.levels side' := by
  cases side <;> cases side' <;> rfl

namespace MemoryState

variable {cfg : BookConfig} {s : MemoryState}

theorem levels_updateBook (s : MemoryState) (symbol symbol' : Market) (side side' : Side)
    (f : Levels → Levels) : ((s.updateBook symbol fun b => b.update side f).books symbol').levels
    side' = if symbol' = symbol ∧
    side' = side then f ((s.books symbol).levels side) else (s.books symbol').levels side' := by
  by_cases hsymbol : symbol' = symbol
  · subst hsymbol
    simp [updateBook, SymbolBook.levels_update]
  · simp [updateBook, hsymbol]

/-- The route has a book to change, and the order that is placed is a limit order that is not
matched, with at most eight places. -/
def RestsUnmatched (cfg : BookConfig) (s : MemoryState) : BookRequest → Prop
  | .place userId body id nowMs clock =>
    ∀ c ∈ (checkOrder cfg.route cfg.markets (bestPrices s.spot.orders) userId body).toOption,
      c.kind = .limit ∧ c.market ∈ s.warmed ∧ OnGrid 8 c.qtyRounded ∧
        (s.spot.engine.placeOrder clock (c.rustOrder id nowMs)).2 = []
  | _ => True

instance (cfg : BookConfig) (s : MemoryState) (req : BookRequest) :
    Decidable (s.RestsUnmatched cfg req) := by
  cases req <;> dsimp only [RestsUnmatched] <;> infer_instance

structure Backed (e : Engine) (r : OrderRow) : Prop where
  priced : r.price.isSome = true
  nonneg : 0 ≤ r.quantity
  grid : OnGrid 8 r.quantity
  resting : 0 < r.quantity → ∃ x ∈ e.orders, x.id = r.id ∧
    (x.market, x.side, x.price) = (r.market, r.side, r.price) ∧ x.remaining = r.quantity
  absent : r.quantity = 0 → ∀ x ∈ e.orders, x.id ≠ r.id

/-- Nothing was matched, and the levels are those of the engine. -/
structure Tracked (cfg : BookConfig) (s : MemoryState) : Prop where
  traded : s.spot.Traded
  checked : s.spot.checked = []
  forwarded : s.spot.forwarded = []
  cancelling : s.spot.cancelling = []
  produced : s.spot.produced = []
  warm : ∀ r ∈ s.spot.orders, r.market ∈ s.warmed
  unfilled : ∀ r ∈ s.spot.orders, r.filledQuantity = 0
  engine_rows : ∀ r ∈ s.spot.orders, r.cancelsOnEngine = true
  backed : ∀ r ∈ s.spot.orders, r.isCancellable = true → Backed s.spot.engine r
  grid : ∀ x ∈ s.spot.engine.orders, OnGrid 8 x.remaining
  cold : ∀ symbol, symbol ∉ s.warmed → s.books symbol = .empty
  keys : ∀ symbol side, ∀ k ∈ ((s.books symbol).levels side).keys,
    k = columnText cfg.priceScale k.value
  level : ∀ symbol side price,
    (((s.books symbol).levels side).lookup (columnText cfg.priceScale price)).getD 0 =
      s.engineQty symbol side price

namespace Tracked

theorem init : Tracked cfg MemoryState.init := by
  refine ⟨SpotState.Traded.init, rfl, rfl, rfl, rfl, ?_, ?_, ?_, ?_, ?_, fun _ _ => rfl, ?_, ?_⟩
  iterate 5 exact forall_mem_nil _
  · intro symbol side k hk
    cases side <;> exact absurd hk not_mem_nil
  · intro symbol side price
    cases side <;> rfl

theorem tracks (h : s.Tracked cfg) : s.Tracks := by
  intro symbol side price
  rw [← h.level symbol side price]
  have hcanon : ∀ p, (columnText cfg.priceScale p).value = p := fun _ => rfl
  exact tally_entries_of_unique (h.keys symbol side) hcanon price

theorem engineQty_grid (h : s.Tracked cfg) (symbol : Market) (side : Side) (price : ℚ) :
    OnGrid 8 (s.engineQty symbol side price) := by
  apply OnGrid.list_sum
  intro q hq
  obtain ⟨x, hx, rfl⟩ := mem_map.mp hq
  exact h.grid x (mem_of_mem_filter hx)

theorem ensureHydrated (h : s.Tracked cfg) (symbol : Market) :
    (s.ensureHydrated cfg symbol).Tracked cfg := by
  unfold MemoryState.ensureHydrated
  split_ifs with hwarm
  · exact h
  · have hopen : ∀ side, openPrices s.spot.orders symbol side = [] := by
      intro side
      have hnone : (s.spot.orders.filter fun r =>
          r.market == symbol && r.side == side && r.isOpen) = [] := by
        rw [filter_eq_nil_iff]
        intro r hr hmatch
        simp only [Bool.and_eq_true, beq_iff_eq] at hmatch
        exact hwarm (hmatch.1.1 ▸ h.warm r hr)
      rw [openPrices, hnone]
      rfl
    have hempty : ∀ side, hydratedSide cfg.priceScale s.spot.orders symbol side = ∅ := by
      intro side
      cases side <;> simp [hydratedSide, bestFirst, hopen]
    have hbooks : (s.updateBook symbol fun _ =>
        ⟨hydratedSide cfg.priceScale s.spot.orders symbol .buy,
          hydratedSide cfg.priceScale s.spot.orders symbol .sell⟩).books = s.books := by
      rw [hempty, hempty]
      exact update_eq_self_iff.mpr (h.cold symbol hwarm).symm
    refine { h with warm := ?_, cold := ?_, keys := ?_, level := ?_ }
    · exact fun r hr => mem_cons_of_mem _ (h.warm r hr)
    · intro symbol' hcold
      rw [hbooks]
      exact h.cold symbol' fun hmem => hcold (mem_cons_of_mem _ hmem)
    · rw [hbooks]
      exact h.keys
    · rw [hbooks]
      exact h.level

end Tracked

theorem spot_place_eq {spot : SpotState} {markets : Market → Option SpotMarket}
    {route : RouteConfig} (hchecked : spot.checked = []) (hforwarded : spot.forwarded = [])
    {userId : UserId} {body : PlaceBody} {c : CheckedOrder}
    (hcheck : checkOrder route markets (bestPrices spot.orders) userId body = .ok c)
    (hkind : c.kind = .limit) {id : OrderId} (hid : id ∉ spot.orders.map OrderRow.id)
    (hfok : c.fokNotFillable spot.orders = false) (nowMs : ℕ) (clock : ℕ → ℕ) :
    ((spot.check route markets userId body).commit 0 id nowMs).place 0 clock .ok =
      { spot with
        orders := spot.orders ++ [c.row id]
        engine := (spot.engine.placeOrder clock (c.rustOrder id nowMs)).1
        unsettled := spot.unsettled ++
          (spot.engine.placeOrder clock (c.rustOrder id nowMs)).2.map Prod.snd
        produced := spot.produced ++
          (spot.engine.placeOrder clock (c.rustOrder id nowMs)).2.map Prod.snd
        accepted := spot.accepted ++ [(id, c)]
        placed := spot.placed ++ [id] } := by
  have hstop : c.kind.isStop = false := by rw [hkind]; rfl
  simp [SpotState.check, hcheck, hchecked, SpotState.commit, hid, hfok, hstop, hforwarded,
    SpotState.place, SpotState.placeOnEngine, CheckedOrder.rustOrder]

theorem spot_cancel_eq {spot : SpotState} (hcancelling : spot.cancelling = []) {userId : UserId}
    {id : OrderId} {r : OrderRow}
    (hfind : spot.orders.find? (fun r => r.id == id && r.userId == userId) = some r)
    (hcancellable : r.isCancellable = true) (hengine : r.cancelsOnEngine = true) :
    ((spot.readCancel userId id).cancelOnEngine 0).commitCancel 0 =
      { spot with engine := spot.engine.cancelOrder r.id }.updateOrder r.id
        fun r => { r with status := .cancelled } := by
  simp [SpotState.readCancel, hfind, hcancellable, hcancelling, SpotState.cancelOnEngine, hengine,
    SpotState.commitCancel, SpotState.updateOrder]

theorem perm_cons_filter_id {l : List Order} (h : (l.map Order.id).Nodup) {x : Order}
    (hx : x ∈ l) : l.Perm (x :: l.filter fun o => decide (o.id ≠ x.id)) := by
  have hperm := filter_append_perm (fun o : Order => decide (o.id = x.id)) l
  rw [filter_key_eq Order.id h hx] at hperm
  simpa using hperm.symm

theorem levelQty_cons {orders orders' : List Order} {x : Order} (hperm : orders'.Perm (x :: orders))
    (symbol : Market) (side : Side) (price : ℚ) :
    levelQty orders' symbol side price = levelQty orders symbol side price +
      if (x.market, x.side, x.price) = (symbol, side, some price) then x.remaining else 0 := by
  rw [levelQty, tally_perm _ _ hperm, tally_cons, add_comm]
  rfl

namespace Tracked

variable (h : s.Tracked cfg)

include h

variable {nowMs : ℕ} {id : OrderId} {c : CheckedOrder} {e : Engine} {p : ℚ} {r : OrderRow}

section Store

variable (hvalid : c.Valid) (hkind : c.kind = .limit) (hgrid : OnGrid 8 c.qtyRounded)
  (hid : id ∉ s.spot.orders.map OrderRow.id)
  (hperm : e.orders.Perm (if 0 < c.qtyRounded then c.rustOrder id nowMs :: s.spot.engine.orders
    else s.spot.engine.orders)) (hfresh : ∀ x ∈ s.spot.engine.orders, x.id ≠ id)

include hvalid hkind hgrid hid hperm hfresh

theorem backed_store : ∀ r ∈ s.spot.orders ++ [c.row id], r.isCancellable = true → Backed e r := by
  have hold : ∀ x ∈ s.spot.engine.orders, x ∈ e.orders := by
    intro x hx
    rw [hperm.mem_iff]
    split_ifs
    · exact mem_cons_of_mem _ hx
    · exact hx
  intro r hr hcancellable
  rcases mem_append.mp hr with hr | hr
  · have hback := h.backed r hr hcancellable
    have hne : id ≠ r.id := fun heq => hid (heq ▸ mem_map_of_mem hr)
    refine ⟨hback.priced, hback.nonneg, hback.grid, fun hpos => ?_, fun hzero x hx => ?_⟩
    · obtain ⟨x, hx, hxr⟩ := hback.resting hpos
      exact ⟨x, hold x hx, hxr⟩
    · rw [hperm.mem_iff] at hx
      split_ifs at hx
      · rcases mem_cons.mp hx with rfl | hx
        · exact hne
        · exact hback.absent hzero x hx
      · exact hback.absent hzero x hx
  · rw [mem_singleton.mp hr]
    have hpriced : c.price.isSome = true := by
      rw [hvalid.price_iff, hkind]
      rfl
    refine ⟨hpriced, hvalid.qty_nonneg, hgrid, fun hpos => ?_, fun hzero x hx => ?_⟩
    · have hpos : 0 < c.qtyRounded := hpos
      rw [if_pos hpos] at hperm
      exact ⟨_, hperm.mem_iff.mpr mem_cons_self, rfl, rfl, rfl⟩
    · have hzero : c.qtyRounded = 0 := hzero
      rw [if_neg hzero.not_gt] at hperm
      exact hfresh x (hperm.mem_iff.mp hx)

theorem addResting
    (htraded : SpotState.Traded { s.spot with
      orders := s.spot.orders ++ [c.row id]
      engine := e
      accepted := s.spot.accepted ++ [(id, c)]
      placed := s.spot.placed ++ [id] }) (hp : c.price = some p) (hwarm : c.market ∈ s.warmed) :
    Tracked cfg (MemoryState.addResting cfg { s with
      spot := { s.spot with
        orders := s.spot.orders ++ [c.row id]
        engine := e
        accepted := s.spot.accepted ++ [(id, c)]
        placed := s.spot.placed ++ [id] } } c) := by
  have hbacked := h.backed_store hvalid hkind hgrid hid hperm hfresh
  have hengine : (c.row id).cancelsOnEngine = true := by
    simp [OrderRow.cancelsOnEngine, CheckedOrder.row, hkind, OrderKind.isStop]
  have hlevel := h.level c.market c.side p
  have hlevelgrid := h.engineQty_grid c.market c.side p
  rw [← hlevel] at hlevelgrid
  have hgrids : ∀ x ∈ e.orders, OnGrid 8 x.remaining := by
    intro x hx
    rw [hperm.mem_iff] at hx
    split_ifs at hx
    · rcases mem_cons.mp hx with rfl | hx
      · exact hgrid
      · exact h.grid x hx
    · exact h.grid x hx
  simp only [MemoryState.addResting, hkind, hp]
  split_ifs with hpos
  · rw [if_pos hpos] at hperm
    refine ⟨htraded, h.checked, h.forwarded, h.cancelling, h.produced,
      forall_mem_concat h.warm hwarm, forall_mem_concat h.unfilled rfl,
      forall_mem_concat h.engine_rows hengine, hbacked, hgrids, ?_, ?_, ?_⟩
    · intro symbol hcold
      have hne : symbol ≠ c.market := fun heq => hcold (heq ▸ hwarm)
      rw [updateBook]
      exact (update_of_ne hne _ _).trans (h.cold symbol hcold)
    · intro symbol side k hk
      rw [levels_updateBook] at hk
      split_ifs at hk
      · rcases Levels.mem_keys_addLiquidity hk with rfl | hk
        · rfl
        · exact h.keys _ _ k hk
      · exact h.keys _ _ k hk
    · intro symbol side price
      have hbefore := h.level symbol side price
      change _ = levelQty e.orders symbol side price
      rw [levels_updateBook, levelQty_cons hperm]
      by_cases hkey : symbol = c.market ∧ side = c.side
      · obtain ⟨rfl, rfl⟩ := hkey
        rw [if_pos ⟨rfl, rfl⟩, Levels.lookup_addLiquidity hpos hgrid hlevelgrid]
        refine congrArg₂ (· + ·) hbefore ?_
        by_cases hprice : price = p
        · simp [CheckedOrder.rustOrder, hp, hprice]
        · simp [CheckedOrder.rustOrder, hp, hprice, columnText, Ne.symm hprice]
      · rw [if_neg hkey, if_neg, add_zero]
        · exact hbefore
        · intro heq
          simp only [CheckedOrder.rustOrder, Prod.mk.injEq] at heq
          exact hkey ⟨heq.1.symm, heq.2.1.symm⟩
  · rw [if_neg hpos] at hperm
    refine ⟨htraded, h.checked, h.forwarded, h.cancelling, h.produced,
      forall_mem_concat h.warm hwarm, forall_mem_concat h.unfilled rfl,
      forall_mem_concat h.engine_rows hengine, hbacked, hgrids, h.cold, h.keys, ?_⟩
    intro symbol side price
    exact (h.level symbol side price).trans (tally_perm _ _ hperm.symm _)

end Store

theorem place {userId : UserId} {body : PlaceBody} {clock : ℕ → ℕ}
    (hreq : s.RestsUnmatched cfg (.place userId body id nowMs clock)) :
    (s.place cfg userId body id nowMs clock).Tracked cfg := by
  have htraded : (((s.spot.check cfg.route cfg.markets userId body).commit 0 id nowMs).place 0
      clock .ok).Traded :=
    h.traded.steps cfg.route cfg.markets [.check userId body, .commit 0 id nowMs,
      .place 0 clock .ok] (by simp [SpotAction.Succeeds])
  unfold MemoryState.place
  split
  case h_1 => exact h
  case h_2 c hcheck =>
    by_cases hrefused : id ∈ s.spot.orders.map OrderRow.id ∨ c.fokNotFillable s.spot.orders = true
    · rw [if_pos hrefused]
      exact h
    · rw [if_neg hrefused]
      obtain ⟨hid, hfok⟩ := not_or.mp hrefused
      have hvalid := checkOrder_valid hcheck
      obtain ⟨hkind, hwarm, hgrid, hnone⟩ := hreq c (by rw [hcheck]; rfl)
      have hnew : id ∉ s.spot.placed := fun hmem => by
        have := h.traded.consistent.placed_accepted id hmem
        rw [← h.traded.consistent.ids_eq] at this
        exact hid this
      have hfresh : ∀ x ∈ s.spot.engine.orders, x.id ≠ id :=
        fun x hx heq => hnew (heq ▸ h.traded.consistent.resting_placed x hx)
      have hperm := Engine.orders_perm_of_no_events h.traded.wellFormed hfresh hnone
      rw [spot_place_eq h.checked h.forwarded hcheck hkind hid (Bool.eq_false_of_not_eq_true hfok)
        nowMs clock] at htraded ⊢
      simp only [hnone, map_nil, append_nil, drop_length, foldl_nil]
        at htraded ⊢
      rw [MemoryState.ensureHydrated, if_pos hwarm]
      obtain ⟨p, hp⟩ := Option.isSome_iff_exists.mp
        (hvalid.price_iff.trans (by rw [hkind]; rfl) : c.price.isSome = true)
      exact h.addResting hvalid hkind hgrid hid hperm hfresh htraded hp hwarm

theorem levelQty_cancelOrder
    (hback : Backed s.spot.engine r) (symbol : Market) (side : Side) (price : ℚ) :
    levelQty (s.spot.engine.cancelOrder r.id).orders symbol side price = s.engineQty symbol side
    price - if (r.market, r.side, r.price) = (symbol, side, some price) then r.quantity else 0 := by
  rw [Engine.orders_cancelOrder]
  rcases hback.nonneg.eq_or_lt with hzero | hpos
  · have hall : (s.spot.engine.orders.filter fun x => decide (x.id ≠ r.id)) =
        s.spot.engine.orders :=
      filter_eq_self.mpr fun x hx => decide_eq_true (hback.absent hzero.symm x hx)
    rw [hall, ← hzero, ite_self, sub_zero]
    rfl
  · obtain ⟨x, hx, hid, hkey, hremaining⟩ := hback.resting hpos
    have hperm := perm_cons_filter_id h.traded.wellFormed.distinct hx
    rw [engineQty, levelQty_cons hperm, hkey, hremaining, hid, add_sub_cancel_right]

theorem removeResting (hwarm : r.market ∈ s.warmed) (hback : Backed s.spot.engine r)
    (hp : r.price = some p)
    (htraded : ({ s.spot with engine := s.spot.engine.cancelOrder r.id }.updateOrder r.id
      fun r => { r with status := .cancelled }).Traded) :
    Tracked cfg (MemoryState.updateBook { s with
        spot := { s.spot with engine := s.spot.engine.cancelOrder r.id }.updateOrder r.id
          fun r => { r with status := .cancelled } } r.market fun b =>
      b.update r.side fun l => l.removeLiquidity (columnText cfg.priceScale p) r.quantity) := by
  have hqty := h.levelQty_cancelOrder hback
  have hlevel := h.level r.market r.side p
  have hlevelgrid := h.engineQty_grid r.market r.side p
  rw [← hlevel] at hlevelgrid
  have hsub : ∀ x ∈ (s.spot.engine.cancelOrder r.id).orders, x ∈ s.spot.engine.orders := by
    intro x hx
    rw [Engine.orders_cancelOrder] at hx
    exact mem_of_mem_filter hx
  have hle : r.quantity ≤
      (((s.books r.market).levels r.side).lookup (columnText cfg.priceScale p)).getD 0 := by
    have hnonneg : 0 ≤ levelQty (s.spot.engine.cancelOrder r.id).orders r.market r.side p :=
      tally_nonneg _ fun x hx _ => (h.traded.wellFormed.positive x (hsub x hx)).le
    rw [hqty, hp, if_pos rfl] at hnonneg
    rw [hlevel]
    linarith
  have hrow : ∀ r' ∈ (s.spot.updateOrder r.id fun r => { r with status := .cancelled }).orders,
      r'.market ∈ s.warmed ∧ r'.filledQuantity = 0 ∧ r'.cancelsOnEngine = true := by
    intro r' hr'
    obtain ⟨q, hq, ⟨-, rfl⟩ | ⟨-, rfl⟩⟩ := SpotState.mem_updateOrder hr'
    · exact ⟨h.warm q hq, h.unfilled q hq, h.engine_rows q hq⟩
    · exact ⟨h.warm r' hq, h.unfilled r' hq, h.engine_rows r' hq⟩
  refine ⟨htraded, h.checked, h.forwarded, h.cancelling, h.produced, fun r' hr' => (hrow r' hr').1,
    fun r' hr' => (hrow r' hr').2.1, fun r' hr' => (hrow r' hr').2.2, ?_,
    fun x hx => h.grid x (hsub x hx), ?_, ?_, ?_⟩
  · intro r' hr' hcancellable
    obtain ⟨q, hq, ⟨-, rfl⟩ | ⟨hne, rfl⟩⟩ := SpotState.mem_updateOrder hr'
    · simp [OrderRow.isCancellable] at hcancellable
    · have hold := h.backed r' hq hcancellable
      refine { hold with resting := fun hpos => ?_, absent := fun hzero x hx => ?_ }
      · obtain ⟨x, hx, hid, hxr⟩ := hold.resting hpos
        refine ⟨x, ?_, hid, hxr⟩
        change x ∈ (s.spot.engine.cancelOrder r.id).orders
        rw [Engine.orders_cancelOrder]
        exact mem_filter.mpr ⟨hx, decide_eq_true (hid ▸ hne)⟩
      · exact hold.absent hzero x (hsub x hx)
  · intro symbol hcold
    have hne : symbol ≠ r.market := fun heq => hcold (heq ▸ hwarm)
    rw [updateBook]
    exact (update_of_ne hne _ _).trans (h.cold symbol hcold)
  · intro symbol side k hk
    rw [levels_updateBook] at hk
    split_ifs at hk
    · rcases Levels.mem_keys_removeLiquidity hk with rfl | hk
      · rfl
      · exact h.keys _ _ k hk
    · exact h.keys _ _ k hk
  · intro symbol side price
    have hbefore := h.level symbol side price
    change _ = levelQty (s.spot.engine.cancelOrder r.id).orders symbol side price
    rw [levels_updateBook, hqty]
    by_cases hkey : symbol = r.market ∧ side = r.side
    · obtain ⟨rfl, rfl⟩ := hkey
      rw [if_pos ⟨rfl, rfl⟩,
        Levels.lookup_removeLiquidity hback.nonneg hle hback.grid hlevelgrid]
      refine congrArg₂ (· - ·) hbefore ?_
      by_cases hprice : price = p
      · simp [hp, hprice]
      · simp [hp, hprice, columnText, Ne.symm hprice]
    · rw [if_neg hkey, if_neg, sub_zero]
      · exact hbefore
      · intro heq
        simp only [Prod.mk.injEq] at heq
        exact hkey ⟨heq.1.symm, heq.2.1.symm⟩

theorem cancel (userId : UserId) (id : OrderId) : (s.cancel cfg userId id).Tracked cfg := by
  have htraded : (((s.spot.readCancel userId id).cancelOnEngine 0).commitCancel 0).Traded :=
    h.traded.steps cfg.route cfg.markets [.readCancel userId id, .cancelOnEngine 0,
      .commitCancel 0] (by simp [SpotAction.Succeeds])
  unfold MemoryState.cancel
  split
  case h_1 => exact h
  case h_2 r hfind =>
    have hr := mem_of_find?_eq_some hfind
    by_cases hcancellable : r.isCancellable = true
    · rw [if_pos hcancellable]
      have hback := h.backed r hr hcancellable
      have hwarm := h.warm r hr
      obtain ⟨p, hp⟩ := Option.isSome_iff_exists.mp hback.priced
      rw [spot_cancel_eq h.cancelling hfind hcancellable (h.engine_rows r hr)] at htraded ⊢
      simp only [MemoryState.ensureHydrated]
      rw [if_pos hwarm]
      simp only [hp, h.unfilled r hr, sub_zero, hback.grid.roundDown_eq]
      exact h.removeResting hwarm hback hp htraded
    · rw [if_neg hcancellable]
      exact h

theorem settle (i : ℕ) : Tracked cfg { s with spot := s.spot.settle cfg.markets i } := by
  have hunsettled : s.spot.unsettled = [] :=
    subset_nil.mp (h.produced ▸ h.traded.consistent.unsettled_produced)
  have hnone : s.spot.settle cfg.markets i = s.spot := by
    rw [SpotState.settle, hunsettled]
    rfl
  rw [hnone]
  exact h

theorem step {req : BookRequest} (hreq : s.RestsUnmatched cfg req) :
    (s.step cfg req).Tracked cfg := by
  cases req with
  | subscribe symbol => exact h.ensureHydrated symbol
  | place userId body id nowMs clock => exact h.place hreq
  | settle i => exact h.settle i
  | cancel userId id => exact h.cancel userId id

end Tracked

end MemoryState

def sampleBook : BookConfig := ⟨⟨false⟩, sampleMarkets, 18⟩

def placeLimit (userId : UserId) (side : String) (price quantity : ℚ) (id : OrderId) :
    BookRequest :=
  .place userId (sampleBody side "limit" "gtc" (.finite price) quantity false) id (1000 * id)
    fun _ => 1000 * id

def firstOrderRun : List BookRequest := [placeLimit 1 "sell" 100 1 1]

def matchedRun : List BookRequest :=
  [.subscribe "BTC_USDT", placeLimit 1 "sell" 100 1 1, placeLimit 2 "buy" 100 1 2]

namespace MemoryState

/-- Two sells at one price and a buy below it are placed, and one of the sells is cancelled. -/
def restingRun : List BookRequest :=
  [.subscribe "BTC_USDT", placeLimit 1 "sell" 100 1 1, placeLimit 2 "sell" 100 2 2,
    placeLimit 3 "buy" 99 1 3, .cancel 1 1]

end MemoryState

end MetherCEX
