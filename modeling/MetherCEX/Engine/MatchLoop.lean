import MetherCEX.Lib.SortedMap
import MetherCEX.Lib.Loop
import MetherCEX.Engine.OrderKey

/-!
# The matching loop

The two arms of `match_orders` (`orderbook.rs`) are one loop over the opposite side, `matchLoop`,
with the crossing test and the shape of an event as parameters.
-/

namespace MetherCEX

open SortedMap

/-- The order with another remaining quantity; nothing else of it changes. -/
def Order.withRemaining (o : Order) (r : Quantity) : Order := { o with remaining := r }

namespace Order

variable (o : Order) (r : Quantity)

@[simp] theorem withRemaining_id : (o.withRemaining r).id = o.id := rfl

@[simp] theorem withRemaining_userId : (o.withRemaining r).userId = o.userId := rfl

@[simp] theorem withRemaining_market : (o.withRemaining r).market = o.market := rfl

@[simp] theorem withRemaining_side : (o.withRemaining r).side = o.side := rfl

@[simp] theorem withRemaining_price : (o.withRemaining r).price = o.price := rfl

@[simp] theorem withRemaining_quantity : (o.withRemaining r).quantity = o.quantity := rfl

@[simp] theorem withRemaining_createdAt : (o.withRemaining r).createdAt = o.createdAt := rfl

@[simp] theorem withRemaining_remaining : (o.withRemaining r).remaining = r := rfl

@[simp] theorem withRemaining_withRemaining (r' : Quantity) :
    (o.withRemaining r).withRemaining r' = o.withRemaining r' := rfl

@[simp] theorem withRemaining_self : o.withRemaining o.remaining = o := rfl

end Order

@[simp] theorem BidKey.fromOrder_withRemaining (o : Order) (r : Quantity) :
    BidKey.fromOrder (o.withRemaining r) = BidKey.fromOrder o := rfl

@[simp] theorem AskKey.fromOrder_withRemaining (o : Order) (r : Quantity) :
    AskKey.fromOrder (o.withRemaining r) = AskKey.fromOrder o := rfl

/-- Every entry sits under the key of its order, on the order's own side. -/
def KeyedBy {K : Type} [LinearOrder K] (keyOf : Order → K) (side : Side)
    (m : SortedMap K Order) : Prop :=
  ∀ e ∈ m.entries, e.1 = keyOf e.2 ∧ e.2.side = side

namespace KeyedBy

variable {K : Type} [LinearOrder K] {keyOf : Order → K} {side : Side}
  {m : SortedMap K Order}

theorem insert (h : KeyedBy keyOf side m) {k : K} {o : Order} (hk : k = keyOf o)
    (hs : o.side = side) : KeyedBy keyOf side (m.insert k o) := by
  intro e he
  rcases mem_insert.mp he with rfl | ⟨he, -⟩
  · exact ⟨hk, hs⟩
  · exact h e he

theorem remove (h : KeyedBy keyOf side m) (k : K) : KeyedBy keyOf side (m.remove k) :=
  fun e he => h e (mem_remove.mp he).1

theorem retain (h : KeyedBy keyOf side m) (p : Order → Bool) : KeyedBy keyOf side (m.retain p) :=
  fun e he => h e (mem_retain.mp he).1

end KeyedBy

def priceBuyCrosses (incoming ask : Order) : Bool :=
  match incoming.price, ask.price with
  | none, _ => true
  | some _, none => true
  | some bp, some ap => decide (bp ≥ ap)

def priceSellCrosses (incoming bid : Order) : Bool :=
  match incoming.price, bid.price with
  | none, _ => true
  | some _, none => true
  | some sp, some bp => decide (sp ≤ bp)

def buyEvent (market : Market) (incoming ask : Order) (price : Price) (qty : Quantity)
    (timestamp : ℕ) : MatchEvent where
  market := market
  bidOrderId := incoming.id
  askOrderId := ask.id
  bidUserId := incoming.userId
  askUserId := ask.userId
  takerOrderId := incoming.id
  makerOrderId := ask.id
  takerUserId := incoming.userId
  makerUserId := ask.userId
  takerSide := .buy
  price := price
  quantity := qty
  timestamp := timestamp

def sellEvent (market : Market) (incoming bid : Order) (price : Price) (qty : Quantity)
    (timestamp : ℕ) : MatchEvent where
  market := market
  bidOrderId := bid.id
  askOrderId := incoming.id
  bidUserId := bid.userId
  askUserId := incoming.userId
  takerOrderId := incoming.id
  makerOrderId := bid.id
  takerUserId := incoming.userId
  makerUserId := bid.userId
  takerSide := .sell
  price := price
  quantity := qty
  timestamp := timestamp

def execPrice (maker incoming : Order) : Price :=
  (maker.price.or incoming.price).getD 0

/-- The loop variables of `match_orders`. -/
structure MatchState (K : Type) [LinearOrder K] where
  incoming : Order
  passive : SortedMap K Order
  events : List MatchEvent

section MatchLoop

variable {K : Type} [LinearOrder K]
variable (crosses : Order → Order → Bool)
variable (event : Order → Order → Price → Quantity → ℕ → MatchEvent) (now : ℕ → ℕ)

/-- The passive orders a round may match: another user's, at a crossing price. -/
def isCandidate (incoming o : Order) : Bool :=
  decide (o.userId ≠ incoming.userId) && crosses incoming o

/-- The body of the loop, once a candidate with a nonzero quantity is found. -/
def matchRound (s : MatchState K) (key : K) (maker : Order) : MatchState K :=
  let matchedQty := min s.incoming.remaining maker.remaining
  let incoming := s.incoming.withRemaining (s.incoming.remaining - matchedQty)
  let maker' := maker.withRemaining (maker.remaining - matchedQty)
  let passive := s.passive.remove key
  { incoming := incoming
    passive := if 0 < maker'.remaining then passive.insert key maker' else passive
    events := s.events ++
      [event incoming maker' (execPrice maker s.incoming) matchedQty
        (now s.events.length)] }

/-- One round of the `while` loop; `none` leaves it. -/
def matchStep (s : MatchState K) : Option (MatchState K) :=
  if 0 < s.incoming.remaining then
    match s.passive.find? (isCandidate crosses s.incoming) with
    | none => none
    | some (key, maker) =>
      if min s.incoming.remaining maker.remaining = 0 then none
      else some (matchRound event now s key maker)
  else none

/-- The `while` loop. One round more than there are passive orders is enough
(`matchLoop_stopped`). -/
def matchLoop (incoming : Order) (passive : SortedMap K Order) : MatchState K :=
  Loop.iterate (matchStep crosses event now) (passive.entries.length + 1)
    ⟨incoming, passive, []⟩

variable {crosses event now}

theorem isCandidate_eq_true {incoming o : Order} : isCandidate crosses incoming o = true ↔
    o.userId ≠ incoming.userId ∧ crosses incoming o = true := by
  simp [isCandidate]

variable {s' s : MatchState K} {maker : Order} {key : K}

theorem matchStep_eq_some (h : matchStep crosses event now s = some s') : ∃ key maker, 0 <
    s.incoming.remaining ∧ s.passive.find? (isCandidate crosses s.incoming) = some (key, maker) ∧
    min s.incoming.remaining maker.remaining ≠ 0 ∧ s' = matchRound event now s key maker := by
  rw [matchStep] at h
  split_ifs at h with hpos
  split at h
  · cases h
  · rename_i key maker hfind
    split_ifs at h with hzero
    exact ⟨key, maker, hpos, hfind, hzero, (Option.some.inj h).symm⟩

theorem matchRound_passive_of_rest (h : 0 < maker.remaining - min s.incoming.remaining
    maker.remaining) : (matchRound event now s key maker).passive = s.passive.insert
    key (maker.withRemaining (maker.remaining - min s.incoming.remaining maker.remaining)) :=
  (if_pos h).trans (insert_remove _ _ _)

theorem matchRound_passive_of_full (h : ¬ 0 < maker.remaining - min s.incoming.remaining
    maker.remaining) : (matchRound event now s key maker).passive = s.passive.remove key :=
  if_neg h

theorem matchRound_measure (hpos : 0 < s.incoming.remaining) (hmem : (key,
    maker) ∈ s.passive.entries) : (matchRound event now s key maker).passive.entries.length
    + (if 0 < (matchRound event now s key maker).incoming.remaining then 1 else 0) <
    s.passive.entries.length + (if 0 < s.incoming.remaining then 1 else 0) := by
  have hcons := (perm_cons_remove hmem).length_eq
  rw [List.length_cons] at hcons
  rw [if_pos hpos]
  by_cases hrest : 0 < maker.remaining - min s.incoming.remaining maker.remaining
  · -- the maker keeps a rest, so the whole incoming remainder was matched
    have hmin : min s.incoming.remaining maker.remaining = s.incoming.remaining :=
      min_eq_left (not_le.mp (inf_lt_right.mp (sub_pos.mp hrest))).le
    have hdone : (matchRound event now s key maker).incoming.remaining = 0 := by
      simp [matchRound, hmin]
    have hlen := (s.passive.insert_perm key (maker.withRemaining
      (maker.remaining - min s.incoming.remaining maker.remaining))).length_eq
    rw [List.length_cons] at hlen
    rw [hdone, matchRound_passive_of_rest hrest, hlen, hcons]
    simp
  · rw [matchRound_passive_of_full hrest, hcons]
    split_ifs <;> simp

theorem matchStep_measure (h : matchStep crosses event now s = some s') :
    s'.passive.entries.length + (if 0 < s'.incoming.remaining then 1 else 0) <
      s.passive.entries.length + (if 0 < s.incoming.remaining then 1 else 0) := by
  obtain ⟨key, maker, hpos, hfind, -, rfl⟩ := matchStep_eq_some h
  exact matchRound_measure hpos (mem_of_find?_eq_some hfind)

theorem matchLoop_stopped (incoming : Order) (passive : SortedMap K Order) :
    matchStep crosses event now (matchLoop crosses event now incoming passive) = none := by
  apply Loop.iterate_stops (fun s s' => matchStep_measure)
  show passive.entries.length + (if 0 < incoming.remaining then 1 else 0) ≤ _
  split_ifs <;> omega

theorem matchStep_keyed {keyOf : Order → K} {side : Side}
    (hkey : ∀ o r, keyOf (Order.withRemaining o r) = keyOf o) (hs : KeyedBy keyOf side s.passive)
    (h : matchStep crosses event now s = some s') : KeyedBy keyOf side s'.passive := by
  obtain ⟨key, maker, -, hfind, -, rfl⟩ := matchStep_eq_some h
  have hmaker := hs _ (mem_of_find?_eq_some hfind)
  by_cases hrest : 0 < maker.remaining - min s.incoming.remaining maker.remaining
  · rw [matchRound_passive_of_rest hrest]
    exact hs.insert (hmaker.1.trans (hkey _ _).symm) hmaker.2
  · rw [matchRound_passive_of_full hrest]
    exact hs.remove key

theorem matchLoop_keyed {keyOf : Order → K} {side : Side} (hkey : ∀ o r, keyOf (Order.withRemaining
    o r) = keyOf o) (incoming : Order) {passive : SortedMap K Order} (hp : KeyedBy keyOf
    side passive) : KeyedBy keyOf side (matchLoop crosses event now incoming passive).passive :=
  Loop.iterate_invariant (P := fun s => KeyedBy keyOf side s.passive)
    (fun _ _ hs h => matchStep_keyed hkey hs h) _ hp

theorem matchLoop_incoming (incoming : Order) (passive : SortedMap K Order) :
    ∃ r, (matchLoop crosses event now incoming passive).incoming = incoming.withRemaining r := by
  refine Loop.iterate_invariant
    (P := fun s : MatchState K => ∃ r, s.incoming = incoming.withRemaining r) ?_ _
    ⟨incoming.remaining, rfl⟩
  rintro s s' ⟨r, hr⟩ h
  obtain ⟨key, maker, -, -, -, rfl⟩ := matchStep_eq_some h
  exact ⟨_, by simp only [matchRound, hr, Order.withRemaining_withRemaining]; rfl⟩

end MatchLoop

end MetherCEX
