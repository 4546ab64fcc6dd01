import MetherCEX.Lib.SeenQueue
import MetherCEX.Spot.EngineDedup
import MetherCEX.Spot.MemoryBook

/-!
# The messages of the order book writer

The writer of a shard takes the messages `spot.match.*` from a stream and changes its book.
-/

namespace MetherCEX

open Table List

structure LevelChange where
  side : Side
  price : PriceText
  quantity : ℚ
  deriving DecidableEq

inductive MatchKind
  | fills
  | bookAdjust
  deriving DecidableEq

structure SpotMatchPayload where
  kind : MatchKind
  symbol : Market
  eventKey : String
  takerSide : Side
  trades : List (PriceText × ℚ)
  resting : List LevelChange
  cancels : List LevelChange
  deriving DecidableEq

abbrev WriterBooks := Market → SymbolBook

namespace SpotMatchPayload

def add (symbol : Market) (c : LevelChange) (books : WriterBooks) : WriterBooks :=
  Function.update books symbol
    ((books symbol).update c.side fun l => l.addLiquidity c.price c.quantity)

def remove (symbol : Market) (c : LevelChange) (books : WriterBooks) : WriterBooks :=
  Function.update books symbol
    ((books symbol).update c.side fun l => l.removeLiquidity c.price c.quantity)

/-- The changes that `processMatchPayload` makes to the book, in their order. -/
def changes (p : SpotMatchPayload) : List (WriterBooks → WriterBooks) :=
  match p.kind with
  | .bookAdjust => p.cancels.map (remove p.symbol) ++ p.resting.map (add p.symbol)
  | .fills =>
    p.trades.map (fun t => remove p.symbol ⟨p.takerSide.opposite, t.1, t.2⟩) ++
      p.resting.map (add p.symbol)

def applyFirst (p : SpotMatchPayload) (n : ℕ) (books : WriterBooks) : WriterBooks :=
  (p.changes.take n).foldl (fun b f => f b) books

def applyTo (p : SpotMatchPayload) (books : WriterBooks) : WriterBooks :=
  p.applyFirst p.changes.length books

def safeKey (p : SpotMatchPayload) : List Char := p.eventKey.toList.take 200

end SpotMatchPayload

/-- Where an exception strikes: before the key is claimed, or after some changes of the
book. -/
inductive MessageFault
  | none
  | beforeClaim
  | afterChanges (n : ℕ)
  deriving DecidableEq

structure MatchDelivery where
  payload : SpotMatchPayload
  redis : RedisMode
  fault : MessageFault
  deriving DecidableEq

structure WriterState where
  redis : Finset (List Char)
  mem : SeenQueue String
  books : WriterBooks
  acked : List SpotMatchPayload

namespace WriterState

def maxMem : ℕ := 100000

def init (books : WriterBooks) : WriterState := ⟨∅, .empty, books, []⟩

def memConsume (s : WriterState) (p : SpotMatchPayload) : Bool × WriterState :=
  let r := s.mem.consume maxMem p.eventKey
  (r.1, { s with mem := r.2 })

def consumeMatchEventKeyDistributed (s : WriterState) (p : SpotMatchPayload) (redis : RedisMode) :
    Bool × WriterState :=
  match redis with
  | .disabled => s.memConsume p
  | .failing stored =>
    { s with redis := if stored then insert p.safeKey s.redis else s.redis }.memConsume p
  | .available =>
    if p.safeKey ∈ s.redis then (false, s)
    else { s with redis := insert p.safeKey s.redis }.memConsume p

def process (s : WriterState) (d : MatchDelivery) : WriterState :=
  match d.fault with
  | .afterChanges n => { s with books := d.payload.applyFirst n s.books }
  | _ => { s with books := d.payload.applyTo s.books, acked := s.acked ++ [d.payload] }

def deliver (s : WriterState) (d : MatchDelivery) : WriterState :=
  if d.fault = .beforeClaim then s
  else
    let r := s.consumeMatchEventKeyDistributed d.payload d.redis
    if r.1 then r.2.process d else { r.2 with acked := r.2.acked ++ [d.payload] }

end WriterState

/-- The messages whose keys were claimed, in the order of their first claims. -/
def claimed (ds : List MatchDelivery) : List SpotMatchPayload :=
  ds.foldl
    (fun ms d => if d.fault = .beforeClaim ∨ d.payload ∈ ms then ms else ms ++ [d.payload]) []

def MatchDelivery.Completes (d : MatchDelivery) : Prop :=
  match d.fault with
  | .afterChanges n => d.payload.changes.length ≤ n
  | _ => True

theorem claimed_concat (ds : List MatchDelivery) (d : MatchDelivery) :
    claimed (ds ++ [d]) = if d.fault = .beforeClaim ∨
    d.payload ∈ claimed ds then claimed ds else claimed ds ++ [d.payload] := by
  rw [claimed, foldl_append]
  rfl

theorem claimed_spec (ds : List MatchDelivery) :
    (claimed ds).Nodup ∧ ∀ p ∈ claimed ds, ∃ d ∈ ds, d.payload = p := by
  induction ds using List.reverseRecOn with
  | nil => simp [claimed]
  | append_singleton ds d ih =>
    obtain ⟨hnodup, hmem⟩ := ih
    have hold : ∀ p ∈ claimed ds, ∃ d' ∈ ds ++ [d], d'.payload = p := fun p hp =>
      (hmem p hp).imp fun _ h => ⟨mem_append_left _ h.1, h.2⟩
    rw [claimed_concat]
    split_ifs with hseen
    · exact ⟨hnodup, hold⟩
    · rw [not_or] at hseen
      constructor
      · rw [← concat_eq_append]
        exact hnodup.concat hseen.2
      · exact forall_mem_concat hold
          ⟨d, mem_append_right _ (mem_singleton_self _), rfl⟩

/-- Messages that Redis and the memory can tell apart and keep. -/
structure Distinguishable (messages : List SpotMatchPayload) : Prop where
  keys : (messages.map SpotMatchPayload.safeKey).Nodup
  room : messages.length ≤ WriterState.maxMem

theorem Distinguishable.eq_of_safeKey {messages : List SpotMatchPayload}
    (h : Distinguishable messages) {p q : SpotMatchPayload} (hp : p ∈ messages)
    (hq : q ∈ messages) (hkey : p.safeKey = q.safeKey) : p = q :=
  List.inj_on_of_nodup_map h.keys hp hq hkey

namespace WriterState

variable {s : WriterState} {books : WriterBooks} {messages : List SpotMatchPayload}
  {ds : List MatchDelivery} {p : SpotMatchPayload}

def claimedKeys (ds : List MatchDelivery) : Finset String :=
  ((claimed ds).map SpotMatchPayload.eventKey).toFinset

/-- The book has the claimed messages, and their keys are known. -/
structure Applied (books : WriterBooks) (ds : List MatchDelivery) (s : WriterState) : Prop where
  redis_claimed : ∀ k ∈ s.redis, ∃ p ∈ claimed ds, p.safeKey = k
  remembers : s.mem.Remembers (claimedKeys ds)
  books_eq : s.books = (claimed ds).foldl (fun b p => p.applyTo b) books
  acked_subset : s.acked ⊆ claimed ds

theorem mem_claimedKeys (hmessages : Distinguishable messages) (hds : ∀ p ∈ claimed ds,
    p ∈ messages) (hp : p ∈ messages) : p.eventKey ∈ claimedKeys ds ↔ p ∈ claimed ds := by
  constructor
  · intro h
    obtain ⟨q, hq, hkey⟩ := mem_map.mp (mem_toFinset.mp h)
    have hsafe : q.safeKey = p.safeKey := by rw [SpotMatchPayload.safeKey, hkey]; rfl
    rwa [← hmessages.eq_of_safeKey (hds q hq) hp hsafe]
  · exact fun h => mem_toFinset.mpr (mem_map_of_mem h)

theorem claimedKeys_concat (ds : List MatchDelivery) {d : MatchDelivery} (hfault : d.fault ≠
    .beforeClaim) : claimedKeys (ds ++ [d]) = insert d.payload.eventKey (claimedKeys ds) := by
  rw [claimedKeys, claimed_concat]
  split_ifs with hseen
  · exact (Finset.insert_eq_of_mem (mem_toFinset.mpr
      (mem_map_of_mem (hseen.resolve_left hfault)))).symm
  · ext k
    simp [claimedKeys]

theorem card_claimedKeys_le (hmessages : Distinguishable messages)
    (hds : ∀ p ∈ claimed ds, p ∈ messages) : (claimedKeys ds).card ≤ maxMem := by
  have hlength := ((claimed_spec ds).1.subperm hds).length_le
  have hcard := List.toFinset_card_le ((claimed ds).map SpotMatchPayload.eventKey)
  rw [length_map] at hcard
  exact hcard.trans (hlength.trans hmessages.room)

theorem Applied.claim (h : Applied books ds s) (hmessages : Distinguishable messages)
    (hds : ∀ p ∈ claimed ds, p ∈ messages) (hp : p ∈ messages) (redis : RedisMode)
    (hroom : (insert p.eventKey (claimedKeys ds)).card ≤ maxMem) :
    let r := s.consumeMatchEventKeyDistributed p redis
    r.1 = decide (p ∉ claimed ds) ∧ r.2.books = s.books ∧ r.2.acked = s.acked ∧
      (∀ k ∈ r.2.redis, k = p.safeKey ∨ k ∈ s.redis) ∧
      r.2.mem.Remembers (insert p.eventKey (claimedKeys ds)) := by
  have hfresh : (s.mem.consume maxMem p.eventKey).1 = decide (p ∉ claimed ds) := by
    rw [h.remembers.consume_eq, decide_eq_decide, mem_claimedKeys hmessages hds hp]
  have hmem := h.remembers.consume hroom
  unfold consumeMatchEventKeyDistributed
  cases redis with
  | disabled => exact ⟨hfresh, rfl, rfl, fun k hk => .inr hk, hmem⟩
  | failing stored =>
    refine ⟨hfresh, rfl, rfl, fun k hk => ?_, hmem⟩
    cases stored with
    | false => exact .inr hk
    | true => exact Finset.mem_insert.mp hk
  | available =>
    dsimp only
    split_ifs with htaken
    · obtain ⟨q, hq, hkey⟩ := h.redis_claimed _ htaken
      obtain rfl := hmessages.eq_of_safeKey (hds q hq) hp hkey
      refine ⟨by simpa using hq, rfl, rfl, fun k hk => .inr hk, ?_⟩
      rw [Finset.insert_eq_of_mem ((mem_claimedKeys hmessages hds hp).mpr hq)]
      exact h.remembers
    · exact ⟨hfresh, rfl, rfl, fun k hk => Finset.mem_insert.mp hk, hmem⟩

theorem redis_process (d : MatchDelivery) : (s.process d).redis = s.redis := by
  unfold process
  split <;> rfl

theorem mem_process (d : MatchDelivery) : (s.process d).mem = s.mem := by
  unfold process
  split <;> rfl

theorem acked_process {d : MatchDelivery} {ms : List SpotMatchPayload} (h : s.acked ⊆ ms) :
    (s.process d).acked ⊆ ms ++ [d.payload] := by
  unfold process
  split
  · exact fun _ hp => mem_append_left _ (h hp)
  · exact append_subset.mpr
      ⟨fun _ hp => mem_append_left _ (h hp), subset_append_right _ _⟩

theorem books_process {d : MatchDelivery} (hd : d.Completes) :
    (s.process d).books = d.payload.applyTo s.books := by
  unfold process
  unfold MatchDelivery.Completes at hd
  split
  case h_1 n hfault =>
    rw [hfault] at hd
    simp only [SpotMatchPayload.applyTo, SpotMatchPayload.applyFirst, take_of_length_le hd,
      take_length]
  case h_2 => rfl

theorem Applied.deliver (h : Applied books ds s) (hmessages : Distinguishable messages)
    {d : MatchDelivery} (hds : ∀ d' ∈ ds ++ [d], d'.payload ∈ messages) (hd : d.Completes) :
    Applied books (ds ++ [d]) (s.deliver d) := by
  have hclaimed : ∀ ds' ⊆ ds ++ [d], ∀ p ∈ claimed ds', p ∈ messages := by
    intro ds' hsub p hp
    obtain ⟨d', hd', rfl⟩ := (claimed_spec ds').2 p hp
    exact hds d' (hsub hd')
  unfold WriterState.deliver
  split_ifs with hfault
  · have hsame : claimed (ds ++ [d]) = claimed ds := by
      rw [claimed_concat, if_pos (.inl hfault)]
    exact ⟨hsame ▸ h.redis_claimed, by rw [claimedKeys, hsame]; exact h.remembers,
      hsame ▸ h.books_eq, hsame ▸ h.acked_subset⟩
  · have hp := hds d (mem_append_right _ (mem_singleton_self _))
    have hkeys := claimedKeys_concat ds hfault
    have hroom := card_claimedKeys_le hmessages (hclaimed _ (List.Subset.refl _))
    rw [hkeys] at hroom
    obtain ⟨hfresh, hbooks, hacked, hredis, hmem⟩ := h.claim hmessages
      (hclaimed ds (subset_append_left _ _)) hp d.redis hroom
    generalize s.consumeMatchEventKeyDistributed d.payload d.redis = r at *
    rw [← hkeys] at hmem
    dsimp only
    by_cases hseen : d.payload ∈ claimed ds
    · have hsame : claimed (ds ++ [d]) = claimed ds := by
        rw [claimed_concat, if_pos (.inr hseen)]
      rw [hfresh, if_neg (by simpa using hseen)]
      refine ⟨fun k hk => ?_, hmem, hsame ▸ hbooks.trans h.books_eq, ?_⟩
      · rw [hsame]
        rcases hredis k hk with rfl | hk
        · exact ⟨d.payload, hseen, rfl⟩
        · exact h.redis_claimed k hk
      · rw [hsame]
        exact append_subset.mpr ⟨hacked ▸ h.acked_subset, by simpa using hseen⟩
    · have hnew : claimed (ds ++ [d]) = claimed ds ++ [d.payload] := by
        rw [claimed_concat, if_neg (not_or.mpr ⟨hfault, hseen⟩)]
      rw [hfresh, if_pos (by simpa using hseen)]
      refine ⟨fun k hk => ?_, ?_, ?_, ?_⟩
      · rw [hnew]
        rw [redis_process] at hk
        rcases hredis k hk with rfl | hk
        · exact ⟨d.payload, by simp, rfl⟩
        · obtain ⟨q, hq, hkey⟩ := h.redis_claimed k hk
          exact ⟨q, mem_append_left _ hq, hkey⟩
      · rwa [mem_process]
      · rw [books_process hd, hnew, hbooks, h.books_eq, foldl_append]
        rfl
      · rw [hnew]
        exact acked_process (hacked ▸ h.acked_subset)

end WriterState

/-- In a run of deliveries of messages that can be told apart, in which no exception strikes
between the claim of a key and the last change of the book: once every message is acknowledged,
the book is that of all messages applied once, in the order of their first claims. -/
theorem messages_applied_once (messages : List SpotMatchPayload) (hmessages : Distinguishable
    messages) (books : WriterBooks) (ds : List MatchDelivery) (hds : ∀ d ∈ ds, d.payload ∈ messages)
    (hcomplete : ∀ d ∈ ds, d.Completes) (hacked : messages ⊆ (ds.foldl WriterState.deliver (.init
    books)).acked) : (claimed ds).Perm messages ∧ (ds.foldl WriterState.deliver (.init books)).books
    = (claimed ds).foldl (fun b p => p.applyTo b) books := by
  have happlied : WriterState.Applied books ds (ds.foldl WriterState.deliver (.init books)) := by
    clear hacked
    induction ds using List.reverseRecOn with
    | nil =>
      exact ⟨by simp [WriterState.init], SeenQueue.remembers_empty, rfl, nil_subset _⟩
    | append_singleton ds d ih =>
      rw [foldl_append]
      refine WriterState.Applied.deliver (ih ?_ ?_) hmessages hds ?_
      · exact fun d' hd' => hds d' (mem_append_left _ hd')
      · exact fun d' hd' => hcomplete d' (mem_append_left _ hd')
      · exact hcomplete d (mem_append_right _ (mem_singleton_self _))
  obtain ⟨hnodup, hmem⟩ := claimed_spec ds
  refine ⟨?_, happlied.books_eq⟩
  apply (perm_ext_iff_of_nodup hnodup hmessages.keys.of_map).mpr
  intro p
  constructor
  · intro hp
    obtain ⟨d, hd, rfl⟩ := hmem p hp
    exact hds d hd
  · exact fun hp => happlied.acked_subset (hacked hp)

def restingMessage : SpotMatchPayload :=
  { kind := .bookAdjust
    symbol := "BTC-USDT"
    eventKey := "rust-rest:1"
    takerSide := .buy
    trades := []
    resting := [⟨.buy, decimalText 100, 1⟩]
    cancels := [] }

/-- The processing of the message raises before it has changed the book. The message is
delivered again, dropped and acknowledged, and the book stays empty. -/
theorem failed_message_lost :
    let s := ([⟨restingMessage, .available, .afterChanges 0⟩,
      ⟨restingMessage, .available, .none⟩] : List MatchDelivery).foldl WriterState.deliver
        (.init fun _ => .empty)
    s.acked = [restingMessage] ∧ ((s.books "BTC-USDT").bids.lookup (decimalText 100)) = none ∧
      ((restingMessage.applyTo (fun _ => .empty) "BTC-USDT").bids.lookup (decimalText 100)) =
        some 1 := by
  decide +kernel

/-- The acknowledgement is lost and the message is delivered again, with Redis failing. -/
theorem redelivered_message_applied_once : (claimed [⟨restingMessage, .available, .none⟩,
    ⟨restingMessage, .failing false, .none⟩]).Perm [restingMessage] :=
  (messages_applied_once [restingMessage] ⟨by decide +kernel, by decide⟩
    (fun _ => .empty) [⟨restingMessage, .available, .none⟩,
      ⟨restingMessage, .failing false, .none⟩] (by simp) (by simp [MatchDelivery.Completes])
    (by decide +kernel)).1

/-- A call of `memConsume` with the bound `max`, and the keys that were accepted. -/
def consumeKey (max : ℕ) (s : List String × SeenQueue String) (key : String) :
    List String × SeenQueue String :=
  let r := s.2.consume max key
  (if r.1 then s.1 ++ [key] else s.1, r.2)

def consumeKeys (max : ℕ) (keys : List String) : List String × SeenQueue String :=
  keys.foldl (consumeKey max) ([], .empty)

theorem holds_consumeKeys (max : ℕ) (keys : List String) :
    (consumeKeys max keys).2.Holds max (consumeKeys max keys).1 := by
  induction keys using reverseRecOn with
  | nil => exact ⟨nodup_nil, drop_nil.symm, rfl⟩
  | append_singleton keys key ih =>
    rw [consumeKeys, foldl_concat]
    exact ih.consume

/-- The memory of the writer accepts exactly the keys that are not among the last `max` accepted
ones, and it holds just these, in the order in which they were accepted. -/
theorem memConsume_window (max : ℕ) (keys : List String) :
    let s := consumeKeys max keys
    let window := s.1.drop (s.1.length - max)
    (∀ key, (s.2.consume max key).1 = true ↔ key ∉ window) ∧ s.2.fifo = window ∧
      s.2.fifo.Nodup ∧ s.2.fifo.length ≤ max ∧ s.2.seen = s.2.fifo.toFinset := by
  have h := holds_consumeKeys max keys
  refine ⟨fun key => h.consume_iff, h.fifo_eq, h.nodup, ?_, h.seen_eq⟩
  rw [h.fifo_eq, length_drop]
  omega

end MetherCEX
