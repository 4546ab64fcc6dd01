import MetherCEX.Lib.MapDelta
import MetherCEX.Spot.MemoryBook

/-!
# The order-book stream

The server numbers what it sends about the book of a market
(`spot-orderbook-ws-engine.service.ts`). It keeps the book it has sent last, and sends the levels
that differ from it, or the whole book if there are many.
-/

namespace MetherCEX

open MapDelta Run List Option Function

/-- `isZeroQty`: a client takes such a level out of its book. -/
def IsZeroQty (q : ℚ) : Prop := q ≤ 0

instance : DecidablePred IsZeroQty := fun q => Rat.instDecidableLe q 0

theorem isZeroQty_zero : IsZeroQty 0 := le_refl 0

namespace Levels

def sorted (before : ℚ → ℚ → Prop) [DecidableRel before] (l : Levels) : Levels where
  entries := l.entries.insertionSort fun a b => before a.1.value b.1.value
  nodupKeys := (perm_nodupKeys (perm_insertionSort _ l.entries)).mpr l.nodupKeys

def take (depth : ℕ) (l : Levels) : Levels where
  entries := l.entries.take depth
  nodupKeys := l.nodupKeys.sublist (take_sublist depth l.entries)

def Positive (l : Levels) : Prop := ∀ e ∈ l.entries, 0 < e.2

instance (l : Levels) : Decidable l.Positive := List.decidableBAll _ _

theorem lookup_sorted (before : ℚ → ℚ → Prop) [DecidableRel before] (l : Levels)
    (k : PriceText) : (l.sorted before).lookup k = l.lookup k :=
  AList.perm_lookup (perm_insertionSort _ l.entries)

theorem Positive.sorted {l : Levels} (h : l.Positive) (before : ℚ → ℚ → Prop)
    [DecidableRel before] : (l.sorted before).Positive :=
  fun e he => h e ((perm_insertionSort _ l.entries).mem_iff.mp he)

theorem Positive.take {l : Levels} (h : l.Positive) (depth : ℕ) : (l.take depth).Positive :=
  fun e he => h e (mem_of_mem_take he)

theorem Positive.present {l : Levels} (h : l.Positive) : Present IsZeroQty l := by
  intro k v hv
  exact (h ⟨k, v⟩ (AList.mem_lookup_iff.mp hv)).not_ge

end Levels

namespace SymbolBook

def sorted (b : SymbolBook) : SymbolBook := ⟨b.bids.sorted (· ≥ ·), b.asks.sorted (· ≤ ·)⟩

/-- `snapshotTop` with `DEFAULT_L2_DEPTH`. -/
def snapshotTop (b : SymbolBook) : SymbolBook :=
  ⟨(b.bids.sorted (· ≥ ·)).take 50, (b.asks.sorted (· ≤ ·)).take 50⟩

def levelCount (b : SymbolBook) : ℕ := b.bids.entries.length + b.asks.entries.length

def Positive (b : SymbolBook) : Prop := b.bids.Positive ∧ b.asks.Positive

instance (b : SymbolBook) : Decidable b.Positive := inferInstanceAs (Decidable (_ ∧ _))

/-- The books have the same levels, in whatever order. -/
structure Same (b b' : SymbolBook) : Prop where
  bids : ∀ k, b.bids.lookup k = b'.bids.lookup k
  asks : ∀ k, b.asks.lookup k = b'.asks.lookup k

theorem Same.refl (b : SymbolBook) : b.Same b := ⟨fun _ => rfl, fun _ => rfl⟩

theorem Same.trans {b b' b'' : SymbolBook} (h : b.Same b') (h' : b'.Same b'') : b.Same b'' :=
  ⟨fun k => (h.bids k).trans (h'.bids k), fun k => (h.asks k).trans (h'.asks k)⟩

theorem Positive.snapshotTop {b : SymbolBook} (h : b.Positive) : b.snapshotTop.Positive :=
  ⟨(h.1.sorted _).take 50, (h.2.sorted _).take 50⟩

theorem positive_empty : empty.Positive :=
  ⟨nofun, nofun⟩

end SymbolBook

abbrev LevelChanges := List (PriceText × ℚ)

def computeOrderbookWsDelta (prev next : SymbolBook) : LevelChanges × LevelChanges :=
  (diff prev.bids next.bids, diff prev.asks next.asks)

def changedLevels (prev next : SymbolBook) : ℕ :=
  (computeOrderbookWsDelta prev next).1.length + (computeOrderbookWsDelta prev next).2.length

/-- `applyOrderbookDelta`: a quantity that is not positive removes its level. -/
def applyOrderbookDelta (b : SymbolBook) (bids asks : LevelChanges) : SymbolBook :=
  SymbolBook.sorted ⟨patch IsZeroQty b.bids bids, patch IsZeroQty b.asks asks⟩

theorem same_of_changedLevels_eq_zero {prev next : SymbolBook} (hprev : prev.Positive)
    (hnext : next.Positive) (h : changedLevels prev next = 0) : prev.Same next := by
  obtain ⟨hbids, hasks⟩ := Nat.add_eq_zero_iff.mp h
  constructor
  · exact lookup_eq_of_diff_eq_nil isZeroQty_zero hprev.1.present hnext.1.present
      (length_eq_zero_iff.mp hbids)
  · exact lookup_eq_of_diff_eq_nil isZeroQty_zero hprev.2.present hnext.2.present
      (length_eq_zero_iff.mp hasks)

theorem applyOrderbookDelta_same {prev next b : SymbolBook}
    (hprev : prev.Positive) (hnext : next.Positive) (hb : b.Same prev) : (applyOrderbookDelta
    b (computeOrderbookWsDelta prev next).1 (computeOrderbookWsDelta prev next).2).Same next := by
  constructor
  · intro k
    rw [applyOrderbookDelta, SymbolBook.sorted, Levels.lookup_sorted]
    exact lookup_patch_diff isZeroQty_zero hprev.1.present hnext.1.present hb.bids k
  · intro k
    rw [applyOrderbookDelta, SymbolBook.sorted, Levels.lookup_sorted]
    exact lookup_patch_diff isZeroQty_zero hprev.2.present hnext.2.present hb.asks k

/-- The levels are in the order of their prices, no two of which are equal. -/
def Levels.Ordered (before : ℚ → ℚ → Prop) (l : Levels) : Prop :=
  l.entries.Pairwise fun a b => before a.1.value b.1.value ∧ a.1.value ≠ b.1.value

instance (before : ℚ → ℚ → Prop) [DecidableRel before] (l : Levels) :
    Decidable (l.Ordered before) :=
  inferInstanceAs (Decidable (List.Pairwise _ _))

theorem Levels.Ordered.sorted_eq {before : ℚ → ℚ → Prop} [DecidableRel before] [Std.Total before]
    [IsTrans ℚ before] [Std.Antisymm before] {l next : Levels} (h : next.Ordered before)
    (hsame : ∀ k, l.lookup k = next.lookup k) : l.sorted before = next := by
  have hperm : (l.sorted before).entries.Perm next.entries := by
    apply List.lookup_ext (l.sorted before).nodupKeys next.nodupKeys
    intro k v
    change v ∈ (l.sorted before).lookup k ↔ v ∈ next.lookup k
    rw [Levels.lookup_sorted, hsame]
  have hvalues : (next.entries.map fun e => e.1.value).Nodup := by
    rw [List.Nodup, pairwise_map]
    exact h.imp And.right
  have : Std.Total fun a b : Sigma fun _ : PriceText => ℚ => before a.1.value b.1.value :=
    ⟨fun a b => Std.Total.total (r := before) _ _⟩
  have : IsTrans (Sigma fun _ : PriceText => ℚ) fun a b => before a.1.value b.1.value :=
    ⟨fun _ _ _ hab hbc => IsTrans.trans (r := before) _ _ _ hab hbc⟩
  apply AList.ext
  refine hperm.eq_of_pairwise (fun a b ha hb hab hba => ?_)
    (pairwise_insertionSort _ l.entries) (h.imp And.left)
  exact List.inj_on_of_nodup_map hvalues (hperm.mem_iff.mp ha) hb
    (Std.Antisymm.antisymm (r := before) _ _ hab hba)

namespace SymbolBook

def Ordered (b : SymbolBook) : Prop := b.bids.Ordered (· ≥ ·) ∧ b.asks.Ordered (· ≤ ·)

instance (b : SymbolBook) : Decidable b.Ordered := inferInstanceAs (Decidable (_ ∧ _))

theorem applyOrderbookDelta_eq {prev next : SymbolBook}
    (hprev : prev.Positive) (hnext : next.Positive) (hordered : next.Ordered) : applyOrderbookDelta
    prev (computeOrderbookWsDelta prev next).1 (computeOrderbookWsDelta prev next).2 = next := by
  have hbids := lookup_patch_diff isZeroQty_zero hprev.1.present hnext.1.present fun _ => rfl
  have hasks := lookup_patch_diff isZeroQty_zero hprev.2.present hnext.2.present fun _ => rfl
  unfold applyOrderbookDelta sorted computeOrderbookWsDelta
  rw [hordered.1.sorted_eq hbids, hordered.2.sorted_eq hasks]

/-- The books that a client computes from the differences of successive books. -/
def applyDeltas (cur prev : SymbolBook) : List SymbolBook → SymbolBook
  | [] => cur
  | next :: rest =>
    applyDeltas (applyOrderbookDelta cur (computeOrderbookWsDelta prev next).1
      (computeOrderbookWsDelta prev next).2) next rest

end SymbolBook

/-- A client that starts with the book `prev` and puts in the differences between `prev` and the
following books has the last of these books, level by level and in the same order. -/
theorem deltas_rebuild_books (prev : SymbolBook) (books : List SymbolBook)
    (hprev : prev.Positive) (hbooks : ∀ b ∈ books, b.Positive ∧ b.Ordered) :
    SymbolBook.applyDeltas prev prev books = (prev :: books).getLast (by simp) := by
  induction books generalizing prev with
  | nil => rfl
  | cons next books ih =>
    rw [forall_mem_cons] at hbooks
    obtain ⟨⟨hnext, hordered⟩, hrest⟩ := hbooks
    rw [SymbolBook.applyDeltas, SymbolBook.applyOrderbookDelta_eq hprev hnext hordered,
      ih next hnext hrest, getLast_cons_cons]

/-- A book with its number, `lastUpdateId`. -/
structure BookSnapshot where
  levels : SymbolBook
  lastUpdateId : ℕ

inductive FullKind
  | snapshot
  | update
  | resync
  deriving DecidableEq

inductive BookWire
  | full (kind : FullKind) (snap : BookSnapshot)
  | delta (seq : ℕ) (bids asks : LevelChanges)

def BookWire.seq : BookWire → ℕ
  | .full _ snap => snap.lastUpdateId
  | .delta seq _ _ => seq

/-- A message, and the book that the server has recorded for its number. -/
structure BookMessage where
  wire : BookWire
  recorded : SymbolBook

/-- What the trade page keeps, and whether it has asked for the book because of a gap. -/
structure StreamClient where
  lastSeq : Option ℕ
  book : Option SymbolBook
  gap : Bool

namespace StreamClient

def init : StreamClient := ⟨none, none, false⟩

/-- `onOrderbook` and `onOrderbookDelta`. -/
def handle (c : StreamClient) : BookWire → StreamClient
  | .full _ snap => { c with lastSeq := some snap.lastUpdateId, book := some snap.levels }
  | .delta seq bids asks =>
    match c.book, c.lastSeq with
    | some cur, some expected =>
      if seq = expected then c
      else if seq < expected then { c with gap := true }
      else if seq ≠ expected + 1 then { c with gap := true }
      else
        { c with
          lastSeq := some seq
          book := some (applyOrderbookDelta cur bids asks) }
    | _, _ => { c with gap := true }

def receive (ms : List BookMessage) : StreamClient := ms.foldl (fun c m => c.handle m.wire) init

end StreamClient

/-- A client that has got these messages has found no gap, and has the book that the server has
recorded for the number of the last one. -/
def InStep (ms : List BookMessage) : Prop :=
  (StreamClient.receive ms).gap = false ∧
    ∀ m ∈ ms.getLast?, (StreamClient.receive ms).lastSeq = some m.wire.seq ∧
      ∃ b, (StreamClient.receive ms).book = some b ∧ b.Same m.recorded

/-- The book in memory, the last number, the book sent last, and what every client got since it
has subscribed. -/
structure StreamState where
  book : SymbolBook
  seq : ℕ
  last : Option BookSnapshot
  inbox : ℕ → List BookMessage

inductive StreamAction
  | change (b : SymbolBook)
  | broadcast
  | resync
  | subscribe (client : ℕ) (hydrated : Bool)

namespace StreamState

def init : StreamState := ⟨.empty, 0, none, fun _ => []⟩

/-- `broadcastSerialized`: every subscriber of the channel gets the message. -/
def deliver (s : StreamState) (m : BookMessage) : StreamState :=
  { s with inbox := fun c => if (s.inbox c).isEmpty then [] else s.inbox c ++ [m] }

/-- `computeOrderbookWire`: the number and the last book are set also if nothing is sent. -/
def broadcast (s : StreamState) : StreamState :=
  let levels := s.book.snapshotTop
  let seq := s.seq + 1
  let snap : BookSnapshot := ⟨levels, seq⟩
  let s' := { s with seq := seq, last := some snap }
  match s.last with
  | none => s'.deliver ⟨.full .update snap, levels⟩
  | some prev =>
    let changed := changedLevels prev.levels levels
    let denom := max (max prev.levels.levelCount levels.levelCount) 1
    if changed = 0 then s'
    else if 40 < changed ∨ denom < 2 * changed then s'.deliver ⟨.full .update snap, levels⟩
    else
      let delta := computeOrderbookWsDelta prev.levels levels
      s'.deliver ⟨.delta seq delta.1 delta.2, levels⟩

/-- `broadcastOrderbookResync`. -/
def resync (s : StreamState) : StreamState :=
  let levels := s.book.snapshotTop
  let snap : BookSnapshot := ⟨levels, s.seq + 1⟩
  { s with seq := s.seq + 1, last := some snap }.deliver ⟨.full .resync snap, levels⟩

/-- What a subscriber gets: the book, or an empty one if it could not be filled. -/
def subscribed (s : StreamState) (hydrated : Bool) : SymbolBook :=
  if hydrated then s.book.snapshotTop else .empty

def prime (s : StreamState) (client : ℕ) (snap : BookSnapshot) : StreamState :=
  { s with
    last := some snap
    inbox := update s.inbox client
      (s.inbox client ++ [⟨.full .snapshot snap, snap.levels⟩]) }

/-- `primeOrderbookStateFromSubscribe`: the number of the last book is used again. -/
def subscribe (s : StreamState) (client : ℕ) (hydrated : Bool) : StreamState :=
  match s.last.filter fun prev => 0 < prev.lastUpdateId with
  | some prev => s.prime client ⟨s.subscribed hydrated, prev.lastUpdateId⟩
  | none => { s with seq := s.seq + 1 }.prime client ⟨s.subscribed hydrated, s.seq + 1⟩

def step (s : StreamState) : StreamAction → StreamState
  | .change b => { s with book := b }
  | .broadcast => s.broadcast
  | .resync => s.resync
  | .subscribe client hydrated => s.subscribe client hydrated

def run (acts : List StreamAction) : StreamState := acts.foldl step init

def Consistent (s : StreamState) : Prop :=
  ∀ c ms, ms <+: s.inbox c → InStep ms

/-- A broadcast finds a change, and a subscriber gets the levels sent last. -/
def ChangesOnly (s : StreamState) : StreamAction → Prop
  | .change b => b.Positive
  | .broadcast => ∀ prev ∈ s.last, changedLevels prev.levels s.book.snapshotTop ≠ 0
  | .resync => True
  | .subscribe _ hydrated => ∀ prev ∈ s.last, changedLevels prev.levels (s.subscribed hydrated) = 0

instance (s : StreamState) (act : StreamAction) : Decidable (s.ChangesOnly act) := by
  cases act <;> dsimp only [ChangesOnly] <;> infer_instance

end StreamState

namespace InStep

theorem nil : InStep [] := ⟨rfl, fun _ hm => absurd hm (not_mem_none _)⟩

theorem receive_append (ms : List BookMessage) (m : BookMessage) :
    StreamClient.receive (ms ++ [m]) = (StreamClient.receive ms).handle m.wire := by
  rw [StreamClient.receive, StreamClient.receive, foldl_append, foldl_cons,
    foldl_nil]

variable {ms : List BookMessage}

theorem append {m : BookMessage} {b : SymbolBook} (h : (StreamClient.receive ms).handle m.wire =
    ⟨some m.wire.seq, some b, false⟩) (hb : b.Same m.recorded) : InStep (ms ++ [m]) := by
  rw [InStep, receive_append, h]
  refine ⟨rfl, fun m' hm' => ?_⟩
  rw [getLast?_concat, mem_some] at hm'
  subst hm'
  exact ⟨rfl, b, rfl, hb⟩

theorem lookup_asks (h : InStep ms) (k : PriceText) : ∀ m ∈ ms.getLast?, ((StreamClient.receive
    ms).book.map fun b => b.asks.lookup k) = some (m.recorded.asks.lookup k) := by
  intro m hm
  obtain ⟨-, b, hbook, hb⟩ := h.2 m hm
  rw [hbook, map_some, hb.asks k]

theorem full (h : InStep ms) (kind : FullKind) (snap : BookSnapshot) :
    InStep (ms ++ [⟨.full kind snap, snap.levels⟩]) := by
  apply append _ (SymbolBook.Same.refl snap.levels)
  rw [StreamClient.handle, h.1]
  rfl

theorem delta (h : InStep ms) {m : BookMessage} (hm : m ∈ ms.getLast?) {prev next : SymbolBook}
    (hsame : m.recorded.Same prev) (hprev : prev.Positive) (hnext : next.Positive) :
    InStep (ms ++ [⟨.delta (m.wire.seq + 1) (computeOrderbookWsDelta prev next).1
      (computeOrderbookWsDelta prev next).2, next⟩]) := by
  obtain ⟨hseq, b, hbook, hb⟩ := h.2 m hm
  apply append _ (applyOrderbookDelta_same hprev hnext (hb.trans hsame))
  simp only [StreamClient.handle, hbook, hseq, h.1]
  rw [if_neg (Nat.succ_ne_self _), if_neg (Nat.not_lt.mpr (Nat.le_succ _)),
    if_neg (fun hne => hne rfl)]
  rfl

end InStep

namespace StreamState

/-- The number of the last book is the last number, and the last message of every client was
that book under that number. -/
structure Current (s : StreamState) : Prop where
  consistent : s.Consistent
  positive : s.book.Positive
  fresh : s.last = none → ∀ c, s.inbox c = []
  lastPositive : ∀ prev ∈ s.last, prev.levels.Positive
  lastSeq : ∀ prev ∈ s.last, prev.lastUpdateId = s.seq ∧ 0 < s.seq
  lastSent : ∀ prev ∈ s.last, ∀ c, ∀ m ∈ (s.inbox c).getLast?,
    m.wire.seq = s.seq ∧ m.recorded.Same prev.levels

namespace Current

variable {s : StreamState}

theorem init : StreamState.init.Current where
  consistent _ ms hms := by
    rw [List.prefix_nil.mp hms]
    exact InStep.nil
  positive := SymbolBook.positive_empty
  fresh _ _ := rfl
  lastPositive _ hprev := absurd hprev (not_mem_none _)
  lastSeq _ hprev := absurd hprev (not_mem_none _)
  lastSent _ hprev := absurd hprev (not_mem_none _)

variable (h : s.Current)

include h

theorem inbox_inStep (c : ℕ) : InStep (s.inbox c) :=
  h.consistent c _ (List.prefix_refl _)

theorem inStep_of_prefix {c : ℕ} {m : BookMessage} (hm : InStep (s.inbox c ++ [m]))
    {ms : List BookMessage} (hms : ms <+: s.inbox c ++ [m]) : InStep ms := by
  rcases List.prefix_concat_iff.mp hms with rfl | hms
  · exact hm
  · exact h.consistent c ms hms

theorem deliver {wire : BookWire} {levels : SymbolBook} (hlevels : levels.Positive)
    (hseq : wire.seq = s.seq + 1)
    (hstep : ∀ c, s.inbox c ≠ [] → InStep (s.inbox c ++ [⟨wire, levels⟩])) :
    ({ s with seq := s.seq + 1, last := some ⟨levels, s.seq + 1⟩ }.deliver
      ⟨wire, levels⟩).Current where
  consistent c ms hms := by
    simp only [StreamState.deliver] at hms
    split_ifs at hms with hempty
    · rw [List.prefix_nil.mp hms]
      exact InStep.nil
    · exact h.inStep_of_prefix (hstep c fun hnil => hempty (List.isEmpty_iff.mpr hnil)) hms
  positive := h.positive
  fresh hnone := absurd hnone (some_ne_none _)
  lastPositive prev hprev := by
    obtain rfl := some.inj hprev
    exact hlevels
  lastSeq prev hprev := by
    obtain rfl := some.inj hprev
    exact ⟨rfl, Nat.succ_pos _⟩
  lastSent prev hprev c m hm := by
    obtain rfl := some.inj hprev
    simp only [StreamState.deliver] at hm
    split_ifs at hm
    · exact absurd hm (not_mem_none _)
    · rw [getLast?_concat, mem_some] at hm
      subst hm
      exact ⟨hseq, SymbolBook.Same.refl levels⟩

theorem deliver_full (kind : FullKind) {levels : SymbolBook} (hlevels : levels.Positive) :
    ({ s with seq := s.seq + 1, last := some ⟨levels, s.seq + 1⟩ }.deliver
      ⟨.full kind ⟨levels, s.seq + 1⟩, levels⟩).Current :=
  h.deliver hlevels rfl fun c _ => (h.inbox_inStep c).full kind ⟨levels, s.seq + 1⟩

theorem broadcast (hchange : ∀ prev ∈ s.last, changedLevels prev.levels s.book.snapshotTop ≠ 0) :
    s.broadcast.Current := by
  have hnext : s.book.snapshotTop.Positive := h.positive.snapshotTop
  unfold StreamState.broadcast
  cases hlast : s.last with
  | none => exact h.deliver_full .update hnext
  | some prev =>
    simp only
    rw [if_neg (hchange prev hlast)]
    split_ifs
    · exact h.deliver_full .update hnext
    · refine h.deliver hnext rfl fun c hc => ?_
      have hm : (s.inbox c).getLast hc ∈ (s.inbox c).getLast? :=
        getLast?_eq_some_getLast hc
      obtain ⟨hseq, hsame⟩ := h.lastSent prev hlast c _ hm
      have hstep := (h.inbox_inStep c).delta hm hsame (h.lastPositive prev hlast) hnext
      rwa [hseq] at hstep

theorem prime (client : ℕ) {levels : SymbolBook} (hlevels : levels.Positive) {seq : ℕ}
    (hpos : 0 < seq)
    (hothers : ∀ c ≠ client, ∀ m ∈ (s.inbox c).getLast?,
      m.wire.seq = seq ∧ m.recorded.Same levels) :
    ({ s with seq := seq }.prime client ⟨levels, seq⟩).Current where
  consistent c ms hms := by
    by_cases hc : c = client
    · subst hc
      simp only [StreamState.prime, update_self] at hms
      exact h.inStep_of_prefix ((h.inbox_inStep c).full .snapshot ⟨levels, seq⟩) hms
    · simp only [StreamState.prime, update_of_ne hc] at hms
      exact h.consistent c ms hms
  positive := h.positive
  fresh hnone := absurd hnone (some_ne_none _)
  lastPositive prev hprev := by
    obtain rfl := some.inj hprev
    exact hlevels
  lastSeq prev hprev := by
    obtain rfl := some.inj hprev
    exact ⟨rfl, hpos⟩
  lastSent prev hprev c m hm := by
    obtain rfl := some.inj hprev
    by_cases hc : c = client
    · subst hc
      simp only [StreamState.prime, update_self, getLast?_concat,
        mem_some] at hm
      subst hm
      exact ⟨rfl, SymbolBook.Same.refl levels⟩
    · simp only [StreamState.prime, update_of_ne hc] at hm
      exact hothers c hc m hm

theorem positive_subscribed (hydrated : Bool) : (s.subscribed hydrated).Positive := by
  rw [subscribed]
  split_ifs
  · exact h.positive.snapshotTop
  · exact SymbolBook.positive_empty

theorem subscribe (client : ℕ) {hydrated : Bool} (hsame : ∀ prev ∈ s.last, changedLevels
    prev.levels (s.subscribed hydrated) = 0) : (s.subscribe client hydrated).Current := by
  have hlevels := h.positive_subscribed hydrated
  unfold StreamState.subscribe
  cases hlast : s.last with
  | none =>
    refine h.prime client hlevels (Nat.succ_pos _) fun c _ m hm => ?_
    rw [h.fresh hlast c] at hm
    exact absurd hm (not_mem_none _)
  | some prev =>
    obtain ⟨hseq, hpos⟩ := h.lastSeq prev hlast
    simp only [filter_some, hseq, hpos, decide_true, if_true]
    refine h.prime client hlevels hpos fun c _ m hm => ?_
    obtain ⟨hmseq, hm⟩ := h.lastSent prev hlast c m hm
    have hprev := h.lastPositive prev hlast
    exact ⟨hmseq, hm.trans (same_of_changedLevels_eq_zero hprev hlevels (hsame prev hlast))⟩

theorem step {act : StreamAction} (hact : s.ChangesOnly act) : (s.step act).Current := by
  cases act with
  | change b => exact { h with positive := hact }
  | broadcast => exact h.broadcast hact
  | resync => exact h.deliver_full .resync h.positive.snapshotTop
  | subscribe client hydrated => exact h.subscribe client hact

end Current

/-- If every broadcast finds a change and every subscriber gets the levels sent last, every
client finds no gap and has, after each message, the levels recorded for its number. -/
theorem stream_consistent (acts : List StreamAction) (h : Along step ChangesOnly init acts) :
    (run acts).Consistent :=
  (h.invariant (P := Current) Current.init fun _ _ hs hact => hs.step hact).consistent

def fourLevels (qty : ℚ) : SymbolBook where
  bids := [⟨⟨9, 0⟩, 2⟩, ⟨⟨10, 0⟩, 1⟩].toAList
  asks := [⟨⟨11, 0⟩, 3⟩, ⟨⟨12, 0⟩, qty⟩].toAList

def steadyRun : List StreamAction :=
  [.change (fourLevels 1), .subscribe 0 true, .change (fourLevels 2), .broadcast,
    .subscribe 1 true, .change (fourLevels 3), .broadcast, .resync]

theorem steadyRun_consistent :
    Along step ChangesOnly init steadyRun ∧ ((run steadyRun).inbox 0).length = 4 ∧
      (run steadyRun).Consistent := by
  have halong : Along step ChangesOnly init steadyRun := by decide +kernel
  exact ⟨halong, by decide +kernel, stream_consistent steadyRun halong⟩

theorem fourLevels_rebuilt :
    SymbolBook.applyDeltas (fourLevels 1) (fourLevels 1)
      [(fourLevels 2).sorted, (fourLevels 3).sorted] = (fourLevels 3).sorted :=
  deltas_rebuild_books (fourLevels 1) [(fourLevels 2).sorted, (fourLevels 3).sorted]
    (by decide +kernel) (by decide +kernel)

/-- A broadcast without a change takes the number `2`, and the client gets `3` after `1`. -/
def silentRun : List StreamAction :=
  [.change (fourLevels 1), .subscribe 0 true, .broadcast, .change (fourLevels 2), .broadcast]

/-- The second client gets the quantity `2`, and the difference to it is all that the first one
is sent. -/
def replacedRun : List StreamAction :=
  [.change (fourLevels 1), .subscribe 0 true, .change (fourLevels 2), .subscribe 1 true,
    .change ⟨(fourLevels 2).bids.insert ⟨8, 0⟩ 1, (fourLevels 2).asks⟩, .broadcast]

theorem stream_breaks : (StreamClient.receive ((run silentRun).inbox 0)).gap = true ∧
    ¬ (run silentRun).Consistent ∧ (StreamClient.receive ((run replacedRun).inbox 0)).gap = false ∧
    ¬ (run replacedRun).Consistent := by
  have hgap : (StreamClient.receive ((run silentRun).inbox 0)).gap = true := by decide +kernel
  refine ⟨hgap, fun h => ?_, by decide +kernel, fun h => ?_⟩
  · exact Bool.false_ne_true ((h 0 _ (List.prefix_refl _)).1.symm.trans hgap)
  · exact absurd ((h 0 _ (List.prefix_refl _)).lookup_asks ⟨12, 0⟩) (by decide +kernel)

end StreamState

end MetherCEX
