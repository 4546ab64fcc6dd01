import MetherCEX.Concurrent.RaceSteps

/-!
# What is committed after a snapshot has read a book

A snapshot reads the book of a market at one moment; the fills and cancellations
that are committed to the book afterwards are missing in it. `changesIn` is what a
step commits to the markets that a snapshot has read.
-/

namespace MetherCEX

open List

/-- Fills that were committed, and orders that were cancelled. -/
structure Changes where
  fills : List (ℕ × MatchEvent)
  cancelled : List OrderId

namespace Changes

def none : Changes := ⟨[], []⟩

instance : Append Changes := ⟨fun c d => ⟨c.fills ++ d.fills, c.cancelled ++ d.cancelled⟩⟩

@[simp] theorem fills_append (c d : Changes) : (c ++ d).fills = c.fills ++ d.fills := rfl

@[simp] theorem cancelled_append (c d : Changes) :
    (c ++ d).cancelled = c.cancelled ++ d.cancelled := rfl

@[simp] theorem append_none (c : Changes) : c ++ none = c := by
  cases c
  exact congrArg₂ Changes.mk (append_nil _) (append_nil _)

def takenFrom (z : OrderId) (c : Changes) : Quantity := filledQty z (c.fills.map Prod.snd)

theorem takenFrom_append (z : OrderId) (c d : Changes) :
    (c ++ d).takenFrom z = c.takenFrom z + d.takenFrom z := by
  rw [takenFrom, fills_append, map_append, filledQty_append]
  rfl

theorem takenFrom_nonneg {c : Changes} (h : ∀ q ∈ c.fills, 0 < q.2.quantity) (z : OrderId) :
    0 ≤ c.takenFrom z := by
  refine filledQty_nonneg fun ev hev => ?_
  obtain ⟨q, hq, rfl⟩ := mem_map.mp hev
  exact h q hq

theorem takenFrom_eq (z : OrderId) (c : Changes) : c.takenFrom z =
    ((c.fills.filter fun q => decide (q.2.Names z)).map fun q => q.2.quantity).sum := by
  rw [takenFrom, filledQty, filter_map, map_map]
  rfl

theorem takenFrom_le {c d : Changes} {z : OrderId} {f : ℕ × MatchEvent → Bool}
    (h : (c.fills.filter f).Subperm d.fills) (hf : ∀ q ∈ c.fills, q.2.Names z → f q = true)
    (hpos : ∀ q ∈ d.fills, 0 < q.2.quantity) : c.takenFrom z ≤ d.takenFrom z := by
  have hfilter : (c.fills.filter fun q => decide (q.2.Names z)) =
      (c.fills.filter f).filter fun q => decide (q.2.Names z) := by
    rw [filter_filter]
    refine filter_congr fun q hq => ?_
    by_cases hz : q.2.Names z
    · simp [hz, hf q hq hz]
    · simp [hz]
  have hsubperm := List.Subperm.filter (fun q : ℕ × MatchEvent => decide (q.2.Names z)) h
  obtain ⟨l, hperm, hsub⟩ := hsubperm
  rw [takenFrom_eq, takenFrom_eq, hfilter, ← (hperm.map _).sum_eq]
  refine (hsub.map _).sum_le_sum fun x hx => ?_
  obtain ⟨q, hq, rfl⟩ := mem_map.mp hx
  exact (hpos q (mem_of_mem_filter hq)).le

end Changes

/-- An order that was saved and not cancelled since has at most what rests of it in
the books, and what the fills took from it. -/
structure Covers (saved : List Order) (c : Changes) (book : List Order) : Prop where
  positive : ∀ q ∈ c.fills, 0 < q.2.quantity
  restingQty_le : ∀ y ∈ saved, y.id ∉ c.cancelled →
    restingQty y.id saved ≤ restingQty y.id book + c.takenFrom y.id

namespace Covers

variable {saved book book' : List Order} {c d : Changes}

theorem change (h : Covers saved c book) (hpos : ∀ q ∈ d.fills, 0 < q.2.quantity) (hbook : ∀ y ∈
    saved, y.id ∉ d.cancelled → restingQty y.id book ≤ restingQty y.id book' + d.takenFrom y.id) :
    Covers saved (c ++ d) book' := by
  refine ⟨fun q hq => ?_, fun y hy hnot => ?_⟩
  · rcases mem_append.mp hq with hq | hq
    · exact h.positive q hq
    · exact hpos q hq
  · rw [Changes.cancelled_append, mem_append, not_or] at hnot
    have hbefore := h.restingQty_le y hy hnot.1
    have hstep := hbook y hy hnot.2
    rw [Changes.takenFrom_append]
    linarith

theorem mono (h : Covers saved c book)
    (hbook : ∀ z, restingQty z book ≤ restingQty z book') : Covers saved c book' :=
  ⟨h.positive, fun y hy hnot =>
    (h.restingQty_le y hy hnot).trans (add_le_add_left (hbook y.id) _)⟩

theorem perm (h : Covers saved c book) {saved' : List Order} (hperm : saved'.Perm saved) :
    Covers saved' c book := by
  refine ⟨h.positive, fun y hy hnot => ?_⟩
  rw [restingQty_perm y.id hperm]
  exact h.restingQty_le y (hperm.mem_iff.mp hy) hnot

end Covers

section

variable (marketOf : OrderId → Market)

/-- The books are well formed, and every order rests in the market of its id. -/
structure Engine.Owned (e : Engine) : Prop where
  wellFormed : e.WellFormed
  market_eq : ∀ x ∈ e.orders, marketOf x.id = x.market

/-- The order has something left, its market is that of its id, and the id does not
rest. -/
def Engine.Admits (e : Engine) (o : Order) : Prop :=
  0 < o.remaining ∧ marketOf o.id = o.market ∧ ∀ x ∈ e.orders, x.id ≠ o.id
  deriving Decidable

/-- The book `book` can take the place of the book `b` of the market; what it lacks
is in the events. -/
structure Matched (market : Market) (b book : OrderBook) (events : List MatchEvent) :
    Prop where
  distinct : book.DistinctIds
  positive : book.PositiveRemaining
  owned : ∀ x ∈ book.orders, x.market = market ∧ marketOf x.id = market
  restingQty_le : ∀ z, restingQty z b.orders ≤ restingQty z book.orders + filledQty z events
  events_pos : ∀ ev ∈ events, 0 < ev.quantity

end

namespace Engine.Owned

variable {marketOf : OrderId → Market} {e : Engine} {market : Market} {book : OrderBook}

variable (h : e.Owned marketOf)

include h

theorem congr {e' : Engine} (heq : e'.orderBooks = e.orderBooks) : e'.Owned marketOf := by
  refine ⟨h.wellFormed.congr heq, ?_⟩
  rw [Engine.orders, heq]
  exact h.market_eq

theorem of_mem {x : Order} (hx : x ∈ (e.bookOf market).orders) : marketOf x.id = market := by
  rw [h.market_eq x (mem_orders_of_mem_bookOf hx), h.wellFormed.market_of_mem hx]

theorem ne_of_mem_other {x : Order} (hx : x ∈ e.otherOrders market) : marketOf x.id ≠ market := by
  rw [h.market_eq x (otherOrders_subset e market x hx)]
  exact h.wellFormed.market_ne_of_mem_otherOrders hx

theorem restingQty_eq (z : OrderId) :
    restingQty z e.orders = restingQty z (e.bookOf (marketOf z)).orders := by
  have hother : restingQty z (e.otherOrders (marketOf z)) = 0 := by
    refine restingQty_eq_zero fun x hx hxz => h.ne_of_mem_other hx ?_
    rw [hxz]
  rw [restingQty_perm z (e.orders_perm (marketOf z)), restingQty_append, hother, add_zero]

theorem commit (hid : book.DistinctIds) (hpos : book.PositiveRemaining) (howned : ∀ x ∈ book.orders,
    x.market = market ∧ marketOf x.id = market) : (e.commitBook market book).Owned marketOf := by
  refine ⟨h.wellFormed.commit hid hpos (fun x hx => (howned x hx).1) fun x hx y hy hxy => ?_,
    fun x hx => ?_⟩
  · exact h.ne_of_mem_other hy (hxy ▸ (howned x hx).2)
  · rcases mem_commitBook hx with hx | hx
    · rw [(howned x hx).1, (howned x hx).2]
    · exact h.market_eq x hx

theorem restingQty_commit_of_ne (hcommit : (e.commitBook market book).Owned marketOf)
    {z : OrderId} (hz : marketOf z ≠ market) :
    restingQty z (e.commitBook market book).orders = restingQty z e.orders := by
  rw [hcommit.restingQty_eq z, h.restingQty_eq z, bookOf_commitBook_of_ne e book hz]

omit h

theorem restingQty_commit_of_eq (hcommit : (e.commitBook market book).Owned marketOf)
    {z : OrderId} (hz : marketOf z = market) :
    restingQty z (e.commitBook market book).orders = restingQty z book.orders := by
  rw [hcommit.restingQty_eq z, hz, bookOf_commitBook_self]

theorem matched (h : e.Owned marketOf) {o : Order} (ho : e.Admits marketOf o) (now : ℕ → ℕ) :
    Matched marketOf o.market (e.bookOf o.market) (e.trialMatch now o).2
      (e.trialMatch now o).1 := by
  obtain ⟨hpos, hown, hfresh⟩ := ho
  have hwf : (e.insertOrder o).WellFormed :=
    h.wellFormed.insertOrder (fun x hx hxo => absurd hxo (hfresh x hx)) hpos
  have hout := trialMatch_outcome hwf now
  have hbook : (e.insertOrder o).bookOf o.market = (e.bookOf o.market).insert o :=
    bookOf_commitBook_self e o.market _
  refine ⟨hout.distinct, hout.positive, fun x hx => ?_, fun z => ?_,
    fun ev hev => (hout.events ev hev).1⟩
  · obtain ⟨y, hy, hxy⟩ := (e.trialMatch_provenance now o).1 x hx
    rw [hxy.market_eq, hxy.id_eq]
    rcases hy with rfl | hy
    · exact ⟨rfl, hown⟩
    · exact ⟨h.wellFormed.market_of_mem hy, h.of_mem hy⟩
  · have hperm := OrderBook.insert_orders_perm_of_fresh (b := e.bookOf o.market) (o := o)
      fun x hx => hfresh x (mem_orders_of_mem_bookOf hx)
    rw [hout.conserved z, hbook, restingQty_perm z hperm, restingQty_cons]
    split_ifs <;> linarith

end Engine.Owned

theorem Matched.restingQty_commit {marketOf : OrderId → Market}
    {e : Engine} {market : Market} {book : OrderBook} {events : List MatchEvent}
    (h : Matched marketOf market (e.bookOf market) book events) (z : OrderId) : restingQty
    z e.orders ≤ restingQty z (e.commitBook market book).orders + filledQty z events := by
  have hle := h.restingQty_le z
  rw [restingQty_perm z (e.orders_commitBook_perm market book),
    restingQty_perm z (e.orders_perm market), restingQty_append, restingQty_append]
  linarith

namespace RaceState

section

variable (s : RaceState)

/-- What a step commits to the books of the markets that `seen` selects. -/
def changesIn (seen : Market → Bool) : RaceAction → Changes
  | .commit job =>
    match s.jobs.get? job with
    | some ⟨market, _, pairs, .reserved⟩ => if seen market then ⟨pairs, []⟩ else .none
    | _ => .none
  | .cancelIn market orderId =>
    if seen market ∧ market ∉ s.locks ∧
        ∃ x ∈ (s.engine.bookOf market).orders, x.id = orderId then ⟨[], [orderId]⟩
    else .none
  | _ => .none

def hasRead (market : Market) : Bool :=
  match s.reader with
  | some r => decide (market ∈ r.markets)
  | none => false

/-- What was committed to the markets that the snapshot in progress has read, after
one more step. -/
def sinceRead (c : Changes) (a : RaceAction) : Changes :=
  match s.reader with
  | some _ => c ++ s.changesIn s.hasRead a
  | none => .none

/-- The books are well formed, and a placement that waits holds the lock of its
market and a matched copy of its book. -/
structure Booked (marketOf : OrderId → Market) (s : RaceState) : Prop where
  owned : s.engine.Owned marketOf
  waiting : ∀ job J, s.jobs.get? job = some J → J.phase = .reserved → J.market ∈ s.locks ∧
    Matched marketOf J.market (s.engine.bookOf J.market) J.book (J.pairs.map Prod.snd)
  alone : ∀ i I j J, s.jobs.get? i = some I → s.jobs.get? j = some J →
    I.phase = .reserved → J.phase = .reserved → I.market = J.market → i = j

end

variable {marketOf : OrderId → Market} {s : RaceState}

namespace Booked

theorem init {e : Engine} (h : e.Owned marketOf) : Booked marketOf (.init e) where
  owned := h
  waiting _ _ hJ := by cases hJ
  alone _ _ _ _ hI := by cases hI

variable (h : Booked marketOf s)

include h

theorem setBook {market : Market} (hlock : market ∉ s.locks) {e : Engine} (he : e.Owned marketOf)
    (hother : ∀ m, m ≠ market → e.bookOf m = s.engine.bookOf m) :
    Booked marketOf { s with engine := e } := by
  refine ⟨he, fun job J hJ hres => ?_, h.alone⟩
  obtain ⟨hmem, hmatched⟩ := h.waiting job J hJ hres
  rw [hother J.market fun heq => hlock (heq ▸ hmem)]
  exact ⟨hmem, hmatched⟩

theorem reserve {o : Order} (hlock : o.market ∉ s.locks) (ho : s.engine.Admits marketOf o)
    (job : ℕ) (now : ℕ → ℕ) :
    Booked marketOf { s with
      engine := s.engine.fetchAdd (s.engine.trialMatch now o).1.length
      jobs := s.jobs.insert job
        ⟨o.market, (s.engine.trialMatch now o).2, s.engine.pendingPairs now o, .reserved⟩
      locks := o.market :: s.locks } := by
  have hevents : (s.engine.pendingPairs now o).map Prod.snd = (s.engine.trialMatch now o).1 :=
    Engine.numberEvents_snd _ _
  have hne : ∀ {j J}, s.jobs.get? j = some J → J.phase = .reserved → J.market ≠ o.market :=
    fun hJ hres heq => hlock (heq ▸ (h.waiting _ _ hJ hres).1)
  refine ⟨h.owned.congr rfl, fun j J hJ hres => ?_, fun i I j J hI hJ hIres hJres heq => ?_⟩
  · rw [SortedMap.get?_insert] at hJ
    split_ifs at hJ
    · cases hJ
      refine ⟨mem_cons_self, ?_⟩
      rw [hevents]
      exact h.owned.matched ho now
    · obtain ⟨hmem, hmatched⟩ := h.waiting j J hJ hres
      exact ⟨mem_cons_of_mem _ hmem, hmatched⟩
  · rw [SortedMap.get?_insert] at hI hJ
    split_ifs at hI hJ with hi hj hj
    · rw [hi, hj]
    · cases hI
      exact absurd heq.symm (hne hJ hJres)
    · cases hJ
      exact absurd heq (hne hI hIres)
    · exact h.alone i I j J hI hJ hIres hJres heq

/-- A placement goes to a phase in which it does not wait, and gives back its lock if it has waited.
-/
theorem rephase (job : ℕ) (J : PlacementJob) (ph : JobPhase) (hph : ph ≠ .reserved) {e : Engine}
    (he : e.Owned marketOf) {locks : List Market}
    (hkeep : ∀ j K, j ≠ job → s.jobs.get? j = some K → K.phase = .reserved →
      K.market ∈ locks ∧ e.bookOf K.market = s.engine.bookOf K.market) :
    Booked marketOf
      { s with engine := e, jobs := s.jobs.insert job (J.withPhase ph), locks := locks } := by
  have hold : ∀ {j K}, (s.jobs.insert job (J.withPhase ph)).get? j = some K →
      K.phase = .reserved → j ≠ job ∧ s.jobs.get? j = some K := by
    intro j K hK hres
    rw [SortedMap.get?_insert] at hK
    split_ifs at hK with hj
    · cases hK
      exact absurd hres hph
    · exact ⟨hj, hK⟩
  refine ⟨he, fun j K hK hres => ?_, fun i I j K hI hK hIres hKres => ?_⟩
  · obtain ⟨hj, hK⟩ := hold hK hres
    obtain ⟨hmem, hbook⟩ := hkeep j K hj hK hres
    refine ⟨hmem, ?_⟩
    rw [hbook]
    exact (h.waiting j K hK hres).2
  · exact h.alone i I j K (hold hI hIres).2 (hold hK hKres).2 hIres hKres

theorem mem_erase {job : ℕ} {J : PlacementJob} (hJ : s.jobs.get? job = some J) (hres : J.phase =
    .reserved) {j : ℕ} {K : PlacementJob} (hj : j ≠ job) (hK : s.jobs.get? j = some K)
    (hKres : K.phase = .reserved) : K.market ≠ J.market ∧ K.market ∈ s.locks.erase J.market := by
  have hne : K.market ≠ J.market := fun heq => hj (h.alone j K job J hK hJ hKres hres heq)
  exact ⟨hne, (mem_erase_of_ne hne).mpr (h.waiting j K hK hKres).1⟩

theorem cancelBook {market : Market} (hlock : market ∉ s.locks) (orderId : OrderId) :
    Booked marketOf { s with
      engine := s.engine.commitBook market ((s.engine.bookOf market).cancelOrder orderId) } := by
  refine h.setBook hlock ?_ fun m hm => Engine.bookOf_commitBook_of_ne _ _ hm
  have hmem : ∀ x ∈ ((s.engine.bookOf market).cancelOrder orderId).orders,
      x ∈ (s.engine.bookOf market).orders := by
    intro x hx
    rw [OrderBook.orders_cancelOrder] at hx
    exact mem_of_mem_filter hx
  refine h.owned.commit ?_ (fun x hx => ?_) fun x hx => ?_
  · rw [OrderBook.DistinctIds, OrderBook.orders_cancelOrder]
    exact (h.owned.wellFormed.distinctIds market).sublist (filter_sublist.map _)
  · exact h.owned.wellFormed.positiveRemaining market x (hmem x hx)
  · exact ⟨h.owned.wellFormed.market_of_mem (hmem x hx), h.owned.of_mem (hmem x hx)⟩

theorem commitBook {job : ℕ} {J : PlacementJob} (hJ : s.jobs.get? job = some J)
    (hres : J.phase = .reserved) : (s.engine.commitBook J.market J.book).Owned marketOf := by
  obtain ⟨-, hmatched⟩ := h.waiting job J hJ hres
  exact h.owned.commit hmatched.distinct hmatched.positive hmatched.owned

theorem change {a : RaceAction} {s' : RaceState} (ha : ∀ job now o, a ≠ .reserve job now o)
    (hchange : s.Change a s') : Booked marketOf s' := by
  cases hchange with
  | none => exact h
  | rest | reserve => exact absurd rfl (ha _ _ _)
  | abort hJ hph =>
    exact h.rephase _ _ .aborted (by simp) h.owned
      fun j K hj hK hres => ⟨(h.mem_erase hJ hph hj hK hres).2, rfl⟩
  | commit hJ hph =>
    refine h.rephase _ _ (.committed _) (by simp) (h.commitBook hJ hph) fun j K hj hK hres => ?_
    obtain ⟨hne, hmem⟩ := h.mem_erase hJ hph hj hK hres
    exact ⟨hmem, Engine.bookOf_commitBook_of_ne _ _ hne⟩
  | @insertNext _ _ p =>
    have hbooks := s.engine.orderBooks_insertMatchEventSorted p.1 p.2
    refine h.rephase _ _ (.committed _) (by simp) (h.owned.congr hbooks) fun j K _ hK hres => ?_
    refine ⟨(h.waiting j K hK hres).1, ?_⟩
    rw [Engine.bookOf, hbooks]
    rfl
  | @record _ J =>
    have he : (s.engine.recordBookAppliedForEventIds J.ids).Owned marketOf := h.owned.congr rfl
    exact h.rephase _ _ .recorded (by simp) he
      fun j K _ hK hres => ⟨(h.waiting j K hK hres).1, rfl⟩
  | cancelIn hlock => exact h.cancelBook hlock _
  | start | readMarket | readApplied | readNext => exact ⟨h.owned, h.waiting, h.alone⟩

theorem changesIn_positive (seen : Market → Bool) (a : RaceAction) :
    ∀ q ∈ (s.changesIn seen a).fills, 0 < q.2.quantity := by
  intro q hq
  cases a with
  | commit job =>
    simp only [changesIn] at hq
    split at hq
    · rename_i market book pairs hJ
      split_ifs at hq
      · exact (h.waiting job _ hJ rfl).2.events_pos q.2 (mem_map_of_mem hq)
      · exact nomatch hq
    · exact nomatch hq
  | cancelIn market orderId =>
    simp only [changesIn] at hq
    split_ifs at hq <;> exact nomatch hq
  | _ => exact nomatch hq

theorem restingQty_commit {job : ℕ} {J : PlacementJob} (hJ : s.jobs.get? job = some J)
    (hres : J.phase = .reserved) {seen : Market → Bool} {z : OrderId} (hz : seen (marketOf z) =
    true) : restingQty z s.engine.orders ≤ restingQty z (s.engine.commitBook J.market J.book).orders
    + Changes.takenFrom z (if seen J.market then ⟨J.pairs, []⟩ else .none) := by
  split_ifs with hseen
  · exact (h.waiting job J hJ hres).2.restingQty_commit z
  · have hne : marketOf z ≠ J.market := fun heq => hseen (heq ▸ hz)
    rw [h.owned.restingQty_commit_of_ne (h.commitBook hJ hres) hne]
    exact (add_zero _).ge

theorem restingQty_cancel {market : Market} (hlock : market ∉ s.locks) (orderId : OrderId)
    {seen : Market → Bool} {z : OrderId} (hz : seen (marketOf z) = true) (hnot : z ∉ (s.changesIn
    seen (.cancelIn market orderId)).cancelled) : restingQty z s.engine.orders ≤ restingQty
    z (s.engine.commitBook market ((s.engine.bookOf market).cancelOrder orderId)).orders := by
  have hcommit := (h.cancelBook hlock orderId).owned
  by_cases hmarket : marketOf z = market
  · have hkeep : ∀ x ∈ (s.engine.bookOf market).orders, x.id = z → x.id ≠ orderId := by
      rintro x hx rfl rfl
      refine hnot ?_
      rw [changesIn, if_pos ⟨hmarket ▸ hz, hlock, x, hx, rfl⟩]
      exact mem_singleton.mpr rfl
    rw [Engine.Owned.restingQty_commit_of_eq hcommit hmarket, h.owned.restingQty_eq z, hmarket,
      OrderBook.orders_cancelOrder]
    exact (restingQty_filter fun x hx hxz => decide_eq_true (hkeep x hx hxz)).ge
  · exact (h.owned.restingQty_commit_of_ne hcommit hmarket).ge

theorem restingQty_change {a : RaceAction} {s' : RaceState} (hchange : s.Change a s')
    (ha : ∀ job now o, a ≠ .reserve job now o) {seen : Market → Bool} {z : OrderId}
    (hz : seen (marketOf z) = true) (hnot : z ∉ (s.changesIn seen a).cancelled) : restingQty
    z s.engine.orders ≤ restingQty z s'.engine.orders + (s.changesIn seen a).takenFrom z := by
  have hsame : ∀ {e : Engine}, e.orderBooks = s.engine.orderBooks →
      restingQty z s.engine.orders ≤ restingQty z e.orders + (s.changesIn seen a).takenFrom z := by
    intro e he
    rw [Engine.orders, Engine.orders, he]
    refine le_add_of_nonneg_right (Changes.takenFrom_nonneg (h.changesIn_positive seen a) z)
  cases hchange with
  | none | abort | record | start | readMarket | readApplied | readNext => exact hsame rfl
  | rest | reserve => exact absurd rfl (ha _ _ _)
  | @commit job J hJ hph =>
    obtain ⟨market, book, pairs, phase⟩ := J
    cases hph
    have hle := h.restingQty_commit hJ rfl hz
    simpa only [changesIn, hJ] using hle
  | insertNext => exact hsame (s.engine.orderBooks_insertMatchEventSorted _ _)
  | cancelIn hlock =>
    refine (h.restingQty_cancel hlock _ hz hnot).trans ?_
    exact le_add_of_nonneg_right (Changes.takenFrom_nonneg (h.changesIn_positive seen _) z)

end Booked

/-- What a snapshot in progress has read: orders with distinct ids, of the markets it
has read, that the books and the changes since the reads cover. -/
structure ReadAccount (marketOf : OrderId → Market) (r : SnapshotReader) (c : Changes)
    (book : List Order) : Prop where
  distinct : (r.orders.map Order.id).Nodup
  sound : ∀ o ∈ r.orders, 0 < o.remaining ∧ marketOf o.id = o.market
  market_mem : ∀ o ∈ r.orders, marketOf o.id ∈ r.markets
  covers : Covers r.orders c book
  snapshot : ∀ snap ∈ r.snapshot, r.applied ≠ none ∧ snap.orders.Perm r.orders

namespace ReadAccount

variable {r : SnapshotReader} {c : Changes}

theorem start (book : List Order) (markets : List Market) (base : List ℕ) :
    ReadAccount marketOf ⟨markets, [], [], [], base, none, none⟩ .none book where
  distinct := nodup_nil
  sound := forall_mem_nil _
  market_mem := forall_mem_nil _
  covers := ⟨forall_mem_nil _, forall_mem_nil _⟩
  snapshot _ hsnap := by cases hsnap

theorem hasRead_of_mem (h : ReadAccount marketOf r c s.engine.orders) (hr : s.reader = some r)
    {o : Order} (ho : o ∈ r.orders) : s.hasRead (marketOf o.id) = true := by
  rw [hasRead, hr]
  exact decide_eq_true (h.market_mem o ho)

theorem mono {book book' : List Order} (h : ReadAccount marketOf r c book)
    (hbook : ∀ z, restingQty z book ≤ restingQty z book') : ReadAccount marketOf r c book' :=
  { h with covers := h.covers.mono hbook }

theorem change (h : ReadAccount marketOf r c s.engine.orders) (hr : s.reader = some r)
    (hb : Booked marketOf s) {a : RaceAction} {s' : RaceState} (hchange : s.Change a s') (ha : ∀ job
    now o, a ≠ .reserve job now o) : ReadAccount marketOf r (s.sinceRead c a) s'.engine.orders := by
  rw [sinceRead, hr]
  exact { h with
    covers := h.covers.change (hb.changesIn_positive _ a) fun y hy hnot =>
      hb.restingQty_change hchange ha (h.hasRead_of_mem hr hy) hnot }

theorem readBook (h : ReadAccount marketOf r c s.engine.orders) (hb : Booked marketOf s)
    {market : Market} (hnew : market ∉ r.markets) (happlied : r.applied = none) :
    ReadAccount marketOf (s.readBook r market) c s.engine.orders := by
  have horders : (s.readBook r market).orders = r.orders ++ (s.engine.bookOf market).orders :=
    append_assoc _ _ _
  have hids : ∀ x ∈ r.orders, ∀ y ∈ (s.engine.bookOf market).orders, x.id ≠ y.id := by
    intro x hx y hy hxy
    exact hnew (hb.owned.of_mem hy ▸ hxy ▸ h.market_mem x hx)
  have hnonneg := Changes.takenFrom_nonneg h.covers.positive
  refine ⟨?_, fun o ho => ?_, fun o ho => ?_, ⟨h.covers.positive, fun y hy hnot => ?_⟩,
    fun snap hsnap => absurd happlied (h.snapshot snap hsnap).1⟩
  · rw [horders, map_append, nodup_append]
    refine ⟨h.distinct, hb.owned.wellFormed.distinctIds market, fun i hi j hj => ?_⟩
    obtain ⟨x, hx, rfl⟩ := mem_map.mp hi
    obtain ⟨y, hy, rfl⟩ := mem_map.mp hj
    exact hids x hx y hy
  · rw [horders] at ho
    rcases mem_append.mp ho with ho | ho
    · exact h.sound o ho
    · exact ⟨hb.owned.wellFormed.positiveRemaining market o ho,
        hb.owned.market_eq o (Engine.mem_orders_of_mem_bookOf ho)⟩
  · rw [horders] at ho
    rcases mem_append.mp ho with ho | ho
    · exact mem_cons_of_mem _ (h.market_mem o ho)
    · rw [hb.owned.of_mem ho]
      exact mem_cons_self
  · -- the market of the order was read before, or it is the one just read
    rw [horders] at hy ⊢
    rw [restingQty_append]
    rcases mem_append.mp hy with hy | hy
    · rw [restingQty_eq_zero fun x hx hxy => hids y hy x hx hxy.symm, add_zero]
      exact h.covers.restingQty_le y hy hnot
    · rw [restingQty_eq_zero fun x hx hxy => hids x hx y hy hxy, zero_add,
        hb.owned.restingQty_eq y.id, hb.owned.of_mem hy]
      exact le_add_of_nonneg_right (hnonneg y.id)

theorem step (hr : ∀ r ∈ s.reader, ReadAccount marketOf r c s.engine.orders) (hb : Booked marketOf
    s) {a : RaceAction} {s' : RaceState} (hchange : s.Change a s') (ha : ∀ job now o, a ≠ .reserve
    job now o) : ∀ r ∈ s'.reader, ReadAccount marketOf r (s.sinceRead c a) s'.engine.orders := by
  have hsame : ∀ r ∈ s.reader, ReadAccount marketOf r (s.sinceRead c a) s'.engine.orders :=
    fun r hmem => (hr r hmem).change hmem hb hchange ha
  cases hchange with
  | none | abort | commit | insertNext | record | cancelIn => exact hsame
  | rest | reserve => exact absurd rfl (ha _ _ _)
  | start hread =>
    rintro _ ⟨⟩
    rw [sinceRead, hread]
    exact ReadAccount.start _ _ _
  | readMarket hread happ hnew =>
    rintro _ ⟨⟩
    rw [sinceRead, hread]
    change ReadAccount marketOf _ (c ++ .none) _
    rw [Changes.append_none]
    exact (hr _ hread).readBook hb hnew happ
  | readApplied hread happ =>
    rintro _ ⟨⟩
    have h₀ := hsame _ hread
    exact { h₀ with
      snapshot := fun snap hsnap => absurd happ (h₀.snapshot snap hsnap).1 }
  | readNext hread happ hnext horders =>
    rintro _ ⟨⟩
    refine { hsame _ hread with snapshot := ?_ }
    rintro _ ⟨⟩
    exact ⟨by simp [happ], horders⟩

end ReadAccount

end RaceState

end MetherCEX
