import Mathlib.Algebra.Order.Ring.Rat
import Mathlib.Tactic

/-!
# Orders and match events

The data model of the matching engine (`types.rs`). Decimals are exact
rationals, and a `Uuid` is the number its bytes spell, which is also how the
engine compares two of them. Time stamps and `usize` counters are natural
numbers; where the engine lets a counter wrap, the model reduces it modulo
`usizeBound`.
-/

namespace MetherCEX

abbrev Uuid := ℕ

abbrev OrderId := Uuid

abbrev UserId := Uuid

abbrev Market := String

abbrev Price := ℚ

abbrev Quantity := ℚ

/-- The number of values of a `usize` on the 64-bit targets of the engine. -/
def usizeBound : ℕ := 2 ^ 64

inductive Side
  | buy
  | sell
  deriving DecidableEq

inductive OrderType
  | limit
  | market
  deriving DecidableEq

/-- An order as it is sent to the engine. `price = none` is a market price. -/
structure Order where
  id : OrderId
  userId : UserId
  market : Market
  side : Side
  orderType : OrderType
  price : Option Price
  quantity : Quantity
  remaining : Quantity
  createdAt : ℕ
  deriving DecidableEq

/-- One fill between a bid and an ask, seen from the taker's call. -/
structure MatchEvent where
  market : Market
  bidOrderId : OrderId
  askOrderId : OrderId
  bidUserId : UserId
  askUserId : UserId
  takerOrderId : OrderId
  makerOrderId : OrderId
  takerUserId : UserId
  makerUserId : UserId
  takerSide : Side
  price : Price
  quantity : Quantity
  timestamp : ℕ
  deriving DecidableEq

namespace MatchEvent

/-- The event names the order `x`, as its bid or as its ask. -/
def Names (e : MatchEvent) (x : OrderId) : Prop :=
  e.bidOrderId = x ∨ e.askOrderId = x
  deriving Decidable

end MatchEvent

/-- The total quantity of the events that name the order `x`. -/
def filledQty (x : OrderId) (es : List MatchEvent) : Quantity :=
  ((es.filter fun e => e.Names x).map MatchEvent.quantity).sum

@[simp] theorem filledQty_nil (x : OrderId) : filledQty x [] = 0 := rfl

theorem filledQty_append (x : OrderId) (es fs : List MatchEvent) :
    filledQty x (es ++ fs) = filledQty x es + filledQty x fs := by
  simp [filledQty]

theorem filledQty_singleton (x : OrderId) (e : MatchEvent) :
    filledQty x [e] = if e.Names x then e.quantity else 0 := by
  by_cases h : e.Names x <;> simp [filledQty, h]

variable {es : List MatchEvent} {x : OrderId}

theorem filledQty_eq_zero (h : ∀ e ∈ es, ¬ e.Names x) : filledQty x es = 0 := by
  have hnil : (es.filter fun e => decide (e.Names x)) = [] := by
    rw [List.filter_eq_nil_iff]
    intro e he
    simpa using h e he
  rw [filledQty, hnil]
  rfl

theorem le_filledQty (h : ∀ e ∈ es, 0 < e.quantity) {e : MatchEvent} (he : e ∈ es)
    (hnames : e.Names x) : e.quantity ≤ filledQty x es := by
  apply List.single_le_sum
  · intro q hq
    obtain ⟨e', he', rfl⟩ := List.mem_map.mp hq
    exact (h e' (List.mem_of_mem_filter he')).le
  · exact List.mem_map_of_mem (List.mem_filter.mpr ⟨he, decide_eq_true hnames⟩)

theorem filledQty_of_getElem? {i : ℕ} {e : MatchEvent} (h : es[i]? = some e) :
    filledQty x es = (if e.Names x then e.quantity else 0) + filledQty x (es.eraseIdx i) := by
  obtain ⟨hi, rfl⟩ := List.getElem?_eq_some_iff.mp h
  have hperm := List.getElem_cons_eraseIdx_perm hi
  have hsum : filledQty x (es[i] :: es.eraseIdx i) = filledQty x es :=
    ((hperm.filter _).map _).sum_eq
  rw [← hsum, ← List.singleton_append, filledQty_append, filledQty_singleton]

theorem filledQty_nonneg (h : ∀ e ∈ es, 0 < e.quantity) : 0 ≤ filledQty x es := by
  apply List.sum_nonneg
  intro q hq
  obtain ⟨e, he, rfl⟩ := List.mem_map.mp hq
  exact (h e (List.mem_of_mem_filter he)).le

end MetherCEX
