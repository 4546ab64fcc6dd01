import MetherCEX.Lib.Allocation
import MetherCEX.Engine.Provenance

/-!
# Best execution

What an incoming order could get from a book is an allocation over its makers: the orders of other
users on the opposite side that it crosses, each with at most what is left of it, and in total at
most what is left of the incoming order.
-/

namespace MetherCEX

open List

def makerPrice (m : Order) : Price := m.price.getD 0

def tradedQty (es : List MatchEvent) : Quantity := (es.map MatchEvent.quantity).sum

def tradedValue (es : List MatchEvent) : ℚ := (es.map fun ev => ev.price * ev.quantity).sum

namespace OrderBook

variable {b book : OrderBook} {incoming : Order} {id : OrderId}

/-- `a` is what the incoming order could get from each of its makers. -/
def IsAllocation (b : OrderBook) (incoming : Order) (a : Order → Quantity) : Prop :=
  GreedyFill.Allocation Order.remaining incoming.remaining (eligibleMakers b incoming) a

instance (b : OrderBook) (incoming : Order) (a : Order → Quantity) :
    Decidable (b.IsAllocation incoming a) :=
  inferInstanceAs (Decidable (GreedyFill.Allocation _ _ _ _))

def allocatedQty (b : OrderBook) (incoming : Order) (a : Order → Quantity) : Quantity :=
  ((eligibleMakers b incoming).map a).sum

def allocatedValue (b : OrderBook) (incoming : Order) (a : Order → Quantity) : ℚ :=
  ((eligibleMakers b incoming).map fun m => makerPrice m * a m).sum

/-- The maker, price and quantity of what an allocation gives, best maker first. -/
def allocatedFills (b : OrderBook) (incoming : Order) (a : Order → Quantity) :
    List (OrderId × Price × Quantity) :=
  ((eligibleMakers b incoming).filter fun m => decide (0 < a m)).map fun m =>
    (m.id, makerPrice m, a m)

theorem eligibleMakers_nodup (b : OrderBook) (incoming : Order) :
    (eligibleMakers b incoming).Nodup := by
  rw [eligibleMakers_eq]
  refine List.Nodup.filter _ ?_
  -- an order is stored under its own key, and the keys of a side are distinct
  cases incoming.side.opposite with
  | buy =>
    refine List.Nodup.of_map BidKey.fromOrder ?_
    rw [ordersOn, SortedMap.values, map_map, map_congr_left fun e he =>
      show (BidKey.fromOrder ∘ Prod.snd) e = e.1 from ((b.bids_keyed e he).1).symm]
    exact b.bids.keys_nodup
  | sell =>
    refine List.Nodup.of_map AskKey.fromOrder ?_
    rw [ordersOn, SortedMap.values, map_map, map_congr_left fun e he =>
      show (AskKey.fromOrder ∘ Prod.snd) e = e.1 from ((b.asks_keyed e he).1).symm]
    exact b.asks.keys_nodup

theorem eligibleMakers_sorted (b : OrderBook) (incoming : Order) :
    (eligibleMakers b incoming).Pairwise (Precedes incoming.side.opposite) := by
  rw [eligibleMakers_eq]
  exact (b.ordersOn_sorted _).filter _

/-- What one unit from the maker costs an incoming order of the side `s`; a sell is
paid. -/
def takerCost (s : Side) (m : Order) : ℚ :=
  match s with
  | .buy => makerPrice m
  | .sell => -makerPrice m

theorem takerCost_le_of_precedes {s : Side} {x y : Order} (h : Precedes s.opposite x y)
    (hx : x.price.isSome) (hy : y.price.isSome) : takerCost s x ≤ takerCost s y := by
  obtain ⟨p, hp⟩ := Option.isSome_iff_exists.mp hx
  obtain ⟨q, hq⟩ := Option.isSome_iff_exists.mp hy
  rw [Precedes, hp, hq, Option.some.injEq] at h
  simp only [takerCost, makerPrice, hp, hq, Option.getD_some]
  cases s with
  | buy => exact h.elim (fun hlt => le_of_lt hlt) fun heq => heq.1.le
  | sell => exact neg_le_neg (h.elim (fun hlt => le_of_lt hlt) fun heq => heq.1.ge)

theorem ordersOn_opposite_of_remove (h : b.removeOrderById id = some (incoming, book)) :
    book.ordersOn incoming.side.opposite = b.ordersOn incoming.side.opposite := by
  unfold removeOrderById at h
  split at h
  · rename_i key bid hfind
    cases h
    rw [(b.bids_keyed _ (SortedMap.mem_of_find?_eq_some hfind)).2]
    rfl
  · split at h
    · rename_i key ask hfind
      cases h
      rw [(b.asks_keyed _ (SortedMap.mem_of_find?_eq_some hfind)).2]
      rfl
    · cases h

variable (h : b.removeOrderById id = some (incoming, book))
variable (hpos : ∀ m ∈ eligibleMakers b incoming, 0 < m.remaining)

include h hpos

/-- The events of a match are those of the greedy fill, whatever ids the orders have. -/
theorem matchOrders_events (market : Market) (now : ℕ → ℕ) : (b.matchOrders market now id).1 =
    fillEvents (eventOf market incoming) now incoming (referenceFills b incoming) 0 := by
  have hopposite := ordersOn_opposite_of_remove h
  rw [referenceFills, eligibleMakers_eq, ← hopposite]
  rw [eligibleMakers_eq, ← hopposite] at hpos
  rw [matchOrders, h]
  cases hs : incoming.side with
  | buy | sell =>
    simp only [hs, eventOf]
    rw [hs] at hpos
    exact matchLoop_events (fun _ _ _ => rfl) (fun _ _ _ _ _ _ _ => rfl) incoming hpos

theorem tradedQty_matchOrders (market : Market) (now : ℕ → ℕ) :
    tradedQty (b.matchOrders market now id).1 = ((referenceFills b incoming).map Prod.snd).sum := by
  rw [tradedQty, matchOrders_events h hpos, map_fillEvents (f := Prod.snd)]
  exact fun x _ t => eventOf_quantity market incoming x.1 _ x.2 t

variable (hpriced : ∀ m ∈ b.ordersOn incoming.side.opposite, m.price.isSome)

include hpriced

omit h hpos in
theorem execPrice_eq_makerPrice {f : Order × Quantity} (hf : f ∈ referenceFills b incoming) :
    execPrice f.1 incoming = makerPrice f.1 := by
  have hmaker := (mem_eligibleMakers.mp (mem_of_mem_referenceFills hf)).1
  obtain ⟨p, hp⟩ := Option.isSome_iff_exists.mp (hpriced f.1 hmaker)
  simp [execPrice, makerPrice, hp]

theorem tradedValue_matchOrders (market : Market) (now : ℕ → ℕ) : tradedValue (b.matchOrders
    market now id).1 = ((referenceFills b incoming).map fun f => makerPrice f.1 * f.2).sum := by
  rw [tradedValue, matchOrders_events h hpos,
    map_fillEvents (f := fun f => makerPrice f.1 * f.2)]
  intro x hx t
  rw [eventOf_quantity, ← execPrice_eq_makerPrice hpriced hx]
  unfold eventOf
  cases incoming.side <;> rfl

theorem exists_isAllocation (market : Market) (now : ℕ → ℕ) : ∃ a, b.IsAllocation incoming a ∧
    (b.matchOrders market now id).1.map (fun ev => (ev.makerOrderId, ev.price, ev.quantity)) =
    b.allocatedFills incoming a := by
  obtain ⟨a, ha, hfills⟩ := GreedyFill.exists_allocation hpos (eligibleMakers_nodup b incoming)
    incoming.remaining
  refine ⟨a, ha, ?_⟩
  rw [matchOrders_events h hpos, map_fillEvents (f := fun f => (f.1.id, makerPrice f.1, f.2))]
  · rw [referenceFills, hfills, map_map]
    rfl
  · intro x hx t
    rw [← execPrice_eq_makerPrice hpriced hx]
    unfold eventOf
    cases incoming.side <;> rfl

omit h hpos in
theorem eligibleMakers_cost_sorted : (eligibleMakers b incoming).Pairwise
    fun x y => takerCost incoming.side x ≤ takerCost incoming.side y :=
  (eligibleMakers_sorted b incoming).imp_of_mem fun {x y} hx hy hxy =>
    takerCost_le_of_precedes hxy (hpriced x (mem_eligibleMakers.mp hx).1)
      (hpriced y (mem_eligibleMakers.mp hy).1)

omit h hpos hpriced in
theorem sum_neg_mul {α : Type*} (f g : α → ℚ) (l : List α) :
    (l.map fun x => -f x * g x).sum = -(l.map fun x => f x * g x).sum := by
  induction l with
  | nil => simp
  | cons x l ih =>
    simp only [map_cons, sum_cons, ih]
    ring

/-- Best execution. For a book whose opposite orders have a price and whose makers have
something left, the events of a match are an allocation; no allocation has a larger
quantity; for the same quantity none costs a buy less or brings a sell more; and when no
maker's price is negative, no allocation at all brings a sell more. -/
theorem matchOrders_best_execution (market : Market) (now : ℕ → ℕ) : (∃ a, b.IsAllocation incoming
    a ∧ (b.matchOrders market now id).1.map (fun ev => (ev.makerOrderId, ev.price, ev.quantity)) =
    b.allocatedFills incoming a) ∧ ∀ a, b.IsAllocation incoming a → b.allocatedQty incoming a ≤
    tradedQty (b.matchOrders market now id).1 ∧ (incoming.side = .buy → b.allocatedQty incoming a =
    tradedQty (b.matchOrders market now id).1 → tradedValue (b.matchOrders market now id).1 ≤
    b.allocatedValue incoming a) ∧ (incoming.side = .sell → b.allocatedQty incoming a =
    tradedQty (b.matchOrders market now id).1 ∨ (∀ m ∈ eligibleMakers b incoming, 0 ≤
    makerPrice m) → b.allocatedValue incoming a ≤ tradedValue (b.matchOrders market now id).1) := by
  refine ⟨exists_isAllocation h hpos hpriced market now, fun a ha => ?_⟩
  have hsorted := eligibleMakers_cost_sorted hpriced
  rw [tradedQty_matchOrders h hpos, tradedValue_matchOrders h hpos hpriced]
  refine ⟨ha.sum_le, fun hs hsum => ?_, fun hs hcase => ?_⟩
  · rw [hs] at hsorted
    exact ha.cost_le hsorted hsum
  · rw [hs] at hsorted
    have hle : ((referenceFills b incoming).map fun f => -makerPrice f.1 * f.2).sum ≤
        ((eligibleMakers b incoming).map fun m => -makerPrice m * a m).sum := by
      rcases hcase with hsum | hnonneg
      · exact ha.cost_le hsorted hsum
      · exact ha.cost_le_of_nonpos hsorted fun m hm => neg_nonpos.mpr (hnonneg m hm)
    have hfills := sum_neg_mul (fun f => makerPrice f.1) Prod.snd (referenceFills b incoming)
    rw [hfills, sum_neg_mul] at hle
    exact neg_le_neg_iff.mp hle

omit h hpos hpriced

def bestExecutionOrder : Order := ⟨4, 12, "BTC_USDT", .buy, .limit, some 102, 2, 2, 8⟩

/-- The buy may take from two asks; the ask of its own user is skipped and the last one
does not cross. -/
def bestExecutionBook : OrderBook :=
  [⟨1, 10, "BTC_USDT", .sell, .limit, some 101, 2, 2, 5⟩,
    ⟨2, 11, "BTC_USDT", .sell, .limit, some 100, 1, 1, 6⟩,
    ⟨3, 12, "BTC_USDT", .sell, .limit, some 99, 5, 5, 7⟩,
    ⟨5, 10, "BTC_USDT", .sell, .limit, some 103, 9, 9, 7⟩,
    bestExecutionOrder].foldl insert new

theorem bestExecutionBook_cost :
    (bestExecutionBook.matchOrders "BTC_USDT" (fun i => i) 4).1.map
      (fun ev => (ev.makerOrderId, ev.price, ev.quantity)) = [(2, 100, 1), (1, 101, 1)] ∧
    (∃ a, bestExecutionBook.IsAllocation bestExecutionOrder a ∧
      (bestExecutionBook.matchOrders "BTC_USDT" (fun i => i) 4).1.map
        (fun ev => (ev.makerOrderId, ev.price, ev.quantity)) =
          bestExecutionBook.allocatedFills bestExecutionOrder a) :=
  have hremove : bestExecutionBook.removeOrderById 4 = some (bestExecutionOrder,
      bestExecutionBook.removeBid (BidKey.fromOrder bestExecutionOrder)) :=
    removeOrderById_of_bid (b := bestExecutionBook) (o := bestExecutionOrder)
      (by decide +kernel) (by decide +kernel)
  ⟨by decide +kernel, (matchOrders_best_execution hremove (by decide +kernel)
    (by decide +kernel) "BTC_USDT" fun i => i).1⟩

def emptyMakerOrder : Order := ⟨3, 12, "BTC_USDT", .buy, .limit, some 100, 1, 1, 8⟩

def emptyMakerBook : OrderBook :=
  [⟨1, 10, "BTC_USDT", .sell, .limit, some 99, 2, 0, 5⟩,
    ⟨2, 11, "BTC_USDT", .sell, .limit, some 100, 1, 1, 6⟩,
    emptyMakerOrder].foldl insert new

/-- The loop ends at the ask with nothing left, although the other one could be taken. -/
theorem emptyMaker_blocks :
    (emptyMakerBook.ordersOn .sell).map Order.price = [some 99, some 100] ∧
    (emptyMakerBook.matchOrders "BTC_USDT" (fun i => i) 3).1 = [] ∧
    emptyMakerBook.IsAllocation emptyMakerOrder Order.remaining ∧
    emptyMakerBook.allocatedQty emptyMakerOrder Order.remaining = 1 := by
  decide +kernel

end OrderBook

end MetherCEX
