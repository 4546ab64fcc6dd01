import MetherCEX.Lib.Run
import MetherCEX.Wal.Snapshot

/-!
# Snapshots beside placements

`from_engine` reads the orders market by market, each under the lock of its market, then the
applied ids, then the next event id.
-/

namespace MetherCEX

open Run List SortedMap

inductive JobPhase
  | reserved
  | committed (left : List (ℕ × MatchEvent))
  | recorded
  | aborted
  deriving DecidableEq

/-- A placement with events: the market, the matched book and the numbered
events. -/
structure PlacementJob where
  market : Market
  book : OrderBook
  pairs : List (ℕ × MatchEvent)
  phase : JobPhase

namespace PlacementJob

def ids (J : PlacementJob) : List ℕ := J.pairs.map Prod.fst

def InBook (J : PlacementJob) : Bool :=
  match J.phase with
  | .committed _ => true
  | .recorded => true
  | _ => false

end PlacementJob

/-- A snapshot in progress: the markets that were there when it started, those it has read with
their orders, and the applied ids. -/
structure SnapshotReader where
  initial : List Market
  markets : List Market
  orders : List Order
  seen : List ℕ
  reflected : List ℕ
  applied : Option (List ℕ)
  snapshot : Option EnginePersistenceSnapshot

/-- The engine with its placements in flight, the locks they hold, and a snapshot in progress. -/
structure RaceState where
  engine : Engine
  jobs : SortedMap ℕ PlacementJob
  locks : List Market
  reader : Option SnapshotReader
  base : List ℕ

inductive RaceAction
  | reserve (job : ℕ) (now : ℕ → ℕ) (o : Order)
  | abort (job : ℕ)
  | commit (job : ℕ)
  | insertNext (job : ℕ)
  | record (job : ℕ)
  | cancelIn (market : Market) (orderId : OrderId)
  | start
  | readMarket (market : Market)
  | readApplied
  | readNext

namespace RaceState

def init (e : Engine) : RaceState := ⟨e, .empty, [], none, e.bookAppliedMatchEventIds⟩

def inBook (s : RaceState) (market : Market) : List (ℕ × PlacementJob) :=
  s.jobs.entries.filter fun q => q.2.InBook && decide (q.2.market = market)

def readBook (s : RaceState) (r : SnapshotReader) (market : Market) : SnapshotReader :=
  { r with
    markets := market :: r.markets
    orders := r.orders ++ (s.engine.bookOf market).snapshot.bids ++
      (s.engine.bookOf market).snapshot.asks
    seen := r.seen ++ (s.inBook market).map Prod.fst
    reflected := r.reflected ++ (s.inBook market).flatMap fun q => q.2.ids }

section

variable (engineId : String)

def step (s : RaceState) : RaceAction → RaceState
  | .reserve job now o =>
    if job ∈ s.jobs.keys ∨ o.market ∈ s.locks then s
    else if (s.engine.trialMatch now o).1 = [] then
      { s with engine := s.engine.commitBook o.market (s.engine.trialMatch now o).2 }
    else
      { s with
        engine := s.engine.fetchAdd (s.engine.trialMatch now o).1.length
        jobs := s.jobs.insert job
          ⟨o.market, (s.engine.trialMatch now o).2, s.engine.pendingPairs now o, .reserved⟩
        locks := o.market :: s.locks }
  | .abort job =>
    match s.jobs.get? job with
    | some ⟨market, book, pairs, .reserved⟩ =>
      { s with
        jobs := s.jobs.insert job ⟨market, book, pairs, .aborted⟩
        locks := s.locks.erase market }
    | _ => s
  | .commit job =>
    match s.jobs.get? job with
    | some ⟨market, book, pairs, .reserved⟩ =>
      { s with
        engine := s.engine.commitBook market book
        jobs := s.jobs.insert job ⟨market, book, pairs, .committed pairs⟩
        locks := s.locks.erase market }
    | _ => s
  | .insertNext job =>
    match s.jobs.get? job with
    | some ⟨market, book, pairs, .committed (p :: left)⟩ =>
      { s with
        engine := s.engine.insertMatchEventSorted p.1 p.2
        jobs := s.jobs.insert job ⟨market, book, pairs, .committed left⟩ }
    | _ => s
  | .record job =>
    match s.jobs.get? job with
    | some ⟨market, book, pairs, .committed []⟩ =>
      { s with
        engine := s.engine.recordBookAppliedForEventIds (pairs.map Prod.fst)
        jobs := s.jobs.insert job ⟨market, book, pairs, .recorded⟩ }
    | _ => s
  | .cancelIn market orderId =>
    match s.engine.orderBooks.get? market with
    | some book =>
      if market ∈ s.locks then s
      else { s with engine := s.engine.commitBook market (book.cancelOrder orderId) }
    | none => s
  | .start =>
    match s.reader with
    | none =>
      { s with reader := some ⟨s.engine.orderBooks.keys, [], [], [], s.base, none, none⟩ }
    | some _ => s
  | .readMarket market =>
    match s.reader with
    | some r =>
      if r.applied = none ∧ market ∉ r.markets ∧ market ∉ s.locks then
        { s with reader := some (s.readBook r market) }
      else s
    | none => s
  | .readApplied =>
    match s.reader with
    | some r =>
      if r.applied = none ∧ ∀ market ∈ r.initial, market ∈ r.markets then
        { s with
          reader := some { r with applied := some s.engine.bookAppliedMatchIdsSnapshot } }
      else s
    | none => s
  | .readNext =>
    match s.reader with
    | some r =>
      match r.applied, r.snapshot with
      | some applied, none =>
        { s with
          reader := some { r with
            snapshot := some
              { v := snapshotVersion
                engineId := engineId
                nextEventId := s.engine.nextEventId
                bookAppliedMatchEventIds := applied
                orders := r.orders.insertionSort fun a b =>
                  a.market < b.market ∨ a.market = b.market ∧ a.id ≤ b.id } } }
      | _, _ => s
    | none => s

end

def NoWrap (s : RaceState) : RaceAction → Prop
  | .reserve _ now o =>
    s.engine.nextEventId + (s.engine.trialMatch now o).1.length < usizeBound
  | _ => True

instance (s : RaceState) (a) : Decidable (s.NoWrap a) := by
  cases a <;> dsimp only [NoWrap] <;> infer_instance

end RaceState

/-- The ids of the placements are below the counter and belong to one placement
each; the applied ids are those of the recorded placements, and the reflected ones
those of the placements whose commit was seen. -/
structure RaceInvariant (s : RaceState) : Prop where
  base_lt : ∀ id ∈ s.base, id < s.engine.nextEventId
  ids_lt : ∀ j J, s.jobs.get? j = some J → ∀ id ∈ J.ids,
    id < s.engine.nextEventId ∧ id ∉ s.base
  ids_ne : ∀ j J, s.jobs.get? j = some J → J.ids ≠ []
  owner : ∀ j J j' J', s.jobs.get? j = some J → s.jobs.get? j' = some J' →
    ∀ id ∈ J.ids, id ∈ J'.ids → j = j'
  applied : ∀ id, id ∈ s.engine.bookAppliedMatchEventIds ↔
    id ∈ s.base ∨ ∃ j J, s.jobs.get? j = some J ∧ J.phase = .recorded ∧ id ∈ J.ids
  seen : ∀ r ∈ s.reader, ∀ j ∈ r.seen,
    ∃ J, s.jobs.get? j = some J ∧ J.InBook = true ∧ J.market ∈ r.markets
  reflected : ∀ r ∈ s.reader, ∀ id, id ∈ r.reflected ↔
    id ∈ s.base ∨ ∃ j J, s.jobs.get? j = some J ∧ j ∈ r.seen ∧ id ∈ J.ids
  applied_lt : ∀ r ∈ s.reader, ∀ applied ∈ r.applied, ∀ id ∈ applied,
    id < s.engine.nextEventId
  snapshot : ∀ r ∈ s.reader, ∀ snap ∈ r.snapshot,
    r.applied = some snap.bookAppliedMatchEventIds ∧
      ∀ id ∈ snap.bookAppliedMatchEventIds, id < snap.nextEventId

def PlacementJob.withPhase (J : PlacementJob) (ph : JobPhase) : PlacementJob :=
  { J with phase := ph }

namespace RaceState

/-- The steps that have no effect because a placement still has to store events or
a snapshot still has to read markets. -/
def Waits (s : RaceState) : RaceAction → Prop
  | .record job => ∀ J ∈ s.jobs.get? job, J.phase ≠ .committed []
  | .readApplied =>
    ∀ r ∈ s.reader, ¬ (r.applied = none ∧ ∀ market ∈ r.initial, market ∈ r.markets)
  | _ => True

inductive Change (s : RaceState) : RaceAction → RaceState → Prop
  | none {a : RaceAction} (h : s.Waits a) : Change s a s
  | rest {job : ℕ} {now : ℕ → ℕ} {o : Order} : Change s (.reserve job now o)
      { s with engine := s.engine.commitBook o.market (s.engine.trialMatch now o).2 }
  | reserve {job : ℕ} {now : ℕ → ℕ} {o : Order} (hjob : s.jobs.get? job = .none)
      (hne : (s.engine.trialMatch now o).1 ≠ []) : Change s (.reserve job now o)
      { s with
        engine := s.engine.fetchAdd (s.engine.trialMatch now o).1.length
        jobs := s.jobs.insert job
          ⟨o.market, (s.engine.trialMatch now o).2, s.engine.pendingPairs now o, .reserved⟩
        locks := o.market :: s.locks }
  | abort {job : ℕ} {J : PlacementJob} (hJ : s.jobs.get? job = some J)
      (hph : J.phase = .reserved) : Change s (.abort job)
      { s with
        jobs := s.jobs.insert job (J.withPhase .aborted)
        locks := s.locks.erase J.market }
  | commit {job : ℕ} {J : PlacementJob} (hJ : s.jobs.get? job = some J)
      (hph : J.phase = .reserved) : Change s (.commit job)
      { s with
        engine := s.engine.commitBook J.market J.book
        jobs := s.jobs.insert job (J.withPhase (.committed J.pairs))
        locks := s.locks.erase J.market }
  | insertNext {job : ℕ} {J : PlacementJob} {p : ℕ × MatchEvent} {left : List (ℕ × MatchEvent)}
      (hJ : s.jobs.get? job = some J) (hph : J.phase = .committed (p :: left)) :
      Change s (.insertNext job)
      { s with
        engine := s.engine.insertMatchEventSorted p.1 p.2
        jobs := s.jobs.insert job (J.withPhase (.committed left)) }
  | record {job : ℕ} {J : PlacementJob} (hJ : s.jobs.get? job = some J)
      (hph : J.phase = .committed []) : Change s (.record job)
      { s with
        engine := s.engine.recordBookAppliedForEventIds J.ids
        jobs := s.jobs.insert job (J.withPhase .recorded) }
  | cancelIn {market : Market} {orderId : OrderId} (hlock : market ∉ s.locks) :
      Change s (.cancelIn market orderId)
      { s with
        engine := s.engine.commitBook market ((s.engine.bookOf market).cancelOrder orderId) }
  | start (hr : s.reader = .none) : Change s .start
      { s with reader := some ⟨s.engine.orderBooks.keys, [], [], [], s.base, .none, .none⟩ }
  | readMarket {r : SnapshotReader} {market : Market} (hr : s.reader = some r)
      (happ : r.applied = .none) (hnew : market ∉ r.markets) :
      Change s (.readMarket market) { s with reader := some (s.readBook r market) }
  | readApplied {r : SnapshotReader} (hr : s.reader = some r) (happ : r.applied = .none)
      (hall : ∀ market ∈ r.initial, market ∈ r.markets) : Change s .readApplied
      { s with reader := some { r with applied := some s.engine.bookAppliedMatchIdsSnapshot } }
  | readNext {r : SnapshotReader} {snap : EnginePersistenceSnapshot} (hr : s.reader = some r)
      (happ : r.applied = some snap.bookAppliedMatchEventIds)
      (hnext : snap.nextEventId = s.engine.nextEventId) (horders : snap.orders.Perm r.orders) :
      Change s .readNext { s with reader := some { r with snapshot := some snap } }

theorem change_step (s : RaceState) (engineId : String) (a : RaceAction) :
    Change s a (s.step engineId a) := by
  cases a with
  | reserve job now o =>
    simp only [step]
    split_ifs with hbusy hnil
    · exact .none trivial
    · exact .rest
    · exact .reserve (get?_eq_none.mpr (not_or.mp hbusy).1) hnil
  | abort job =>
    simp only [step]
    split
    · exact .abort ‹_› rfl
    · exact .none trivial
  | commit job =>
    simp only [step]
    split
    · exact .commit ‹_› rfl
    · exact .none trivial
  | insertNext job =>
    simp only [step]
    split
    · exact .insertNext ‹_› rfl
    · exact .none trivial
  | record job =>
    simp only [step]
    split
    · exact .record ‹_› rfl
    · rename_i hne
      refine .none fun J hJ hph => ?_
      obtain ⟨market, book, pairs, phase⟩ := J
      subst hph
      exact hne market book pairs hJ
  | cancelIn market orderId =>
    simp only [step]
    split
    · rename_i book hbook
      split_ifs with hlock
      · exact .none trivial
      · rw [← Engine.bookOf_of_get? hbook]
        exact .cancelIn hlock
    · exact .none trivial
  | start =>
    simp only [step]
    split
    · exact .start ‹_›
    · exact .none trivial
  | readMarket market =>
    simp only [step]
    split
    · split_ifs with hcond
      · exact .readMarket ‹_› hcond.1 hcond.2.1
      · exact .none trivial
    · exact .none trivial
  | readApplied =>
    simp only [step]
    split
    · rename_i r hr
      split_ifs with hcond
      · exact .readApplied hr hcond.1 hcond.2
      · exact .none fun r' hr' => Option.some.inj (hr.symm.trans hr') ▸ hcond
    · exact .none fun r hr => by simp_all
  | readNext =>
    simp only [step]
    split
    · split
      · exact .readNext ‹_› ‹_› rfl (perm_insertionSort _ _)
      · exact .none trivial
    · exact .none trivial

end RaceState

section Rephase

variable {jobs : SortedMap ℕ PlacementJob} {job : ℕ} {J : PlacementJob} {ph : JobPhase}

theorem get?_rephase (h : jobs.get? job = some J) {j : ℕ} {K : PlacementJob}
    (hK : (jobs.insert job (J.withPhase ph)).get? j = some K) : ∃ L, jobs.get? j = some L ∧
    K.market = L.market ∧ K.ids = L.ids ∧ (j = job ∧ K.phase = ph ∨ j ≠ job ∧ K = L) := by
  rw [get?_insert] at hK
  split_ifs at hK with hj
  · cases hK
    exact ⟨J, hj ▸ h, rfl, rfl, .inl ⟨hj, rfl⟩⟩
  · exact ⟨K, hK, rfl, rfl, .inr ⟨hj, rfl⟩⟩

theorem get?_rephase_of_get? (ph : JobPhase) (h : jobs.get? job = some J) {j : ℕ} {L : PlacementJob}
    (hL : jobs.get? j = some L) : ∃ K, (jobs.insert job (J.withPhase ph)).get? j = some K ∧
    K.market = L.market ∧ K.ids = L.ids ∧ (j = job ∧ K.phase = ph ∨ j ≠ job ∧ K = L) := by
  rw [get?_insert]
  by_cases hj : j = job
  · subst hj
    rw [h] at hL
    cases hL
    exact ⟨J.withPhase ph, if_pos rfl, rfl, rfl, .inl ⟨rfl, rfl⟩⟩
  · exact ⟨L, by rw [if_neg hj]; exact hL, rfl, rfl, .inr ⟨hj, rfl⟩⟩

end Rephase

namespace RaceInvariant

variable {s : RaceState}

variable {e : Engine} {locks : List Market} {job : ℕ} {r : SnapshotReader}

theorem init (h : ∀ id ∈ e.bookAppliedMatchEventIds, id < e.nextEventId) :
    RaceInvariant (RaceState.init e) where
  base_lt := h
  ids_lt _ _ hJ := by cases hJ
  ids_ne _ _ hJ := by cases hJ
  owner _ _ _ _ hJ := by cases hJ
  applied _ := by
    refine ⟨.inl, fun hid => ?_⟩
    rcases hid with hid | ⟨j, J, hJ, -⟩
    · exact hid
    · cases hJ
  seen _ hr := by cases hr
  reflected _ hr := by cases hr
  applied_lt _ hr := by cases hr
  snapshot _ hr := by cases hr

theorem rephase (h : RaceInvariant s) {J : PlacementJob} (ph : JobPhase)
    (hJ : s.jobs.get? job = some J) (hbefore : J.phase ≠ .recorded)
    (hbook : J.InBook = true → (J.withPhase ph).InBook = true)
    (hnext : e.nextEventId = s.engine.nextEventId)
    (happ : ∀ id, id ∈ e.bookAppliedMatchEventIds ↔
      id ∈ s.engine.bookAppliedMatchEventIds ∨ ph = .recorded ∧ id ∈ J.ids) :
    RaceInvariant
      { s with engine := e, jobs := s.jobs.insert job (J.withPhase ph), locks := locks } := by
  refine ⟨?_, ?_, ?_, ?_, ?_, ?_, ?_, ?_, h.snapshot⟩
  · simpa only [hnext] using h.base_lt
  · intro j K hK
    obtain ⟨L, hL, -, hids, -⟩ := get?_rephase hJ hK
    rw [hids]
    simpa only [hnext] using h.ids_lt j L hL
  · intro j K hK
    obtain ⟨L, hL, -, hids, -⟩ := get?_rephase hJ hK
    rw [hids]
    exact h.ids_ne j L hL
  · intro j K j' K' hK hK' id hid hid'
    obtain ⟨L, hL, -, hids, -⟩ := get?_rephase hJ hK
    obtain ⟨L', hL', -, hids', -⟩ := get?_rephase hJ hK'
    rw [hids] at hid
    rw [hids'] at hid'
    exact h.owner j L j' L' hL hL' id hid hid'
  · intro id
    rw [happ, h.applied, exists_get?_insert, exists_get?_of_get? hJ]
    simp only [hbefore, false_and, false_or, or_right_comm]
    exact or_assoc
  · intro r hr j hj
    obtain ⟨L, hL, hLbook, hmarket⟩ := h.seen r hr j hj
    obtain ⟨K, hK, hKm, -, ⟨rfl, hph⟩ | ⟨-, rfl⟩⟩ := get?_rephase_of_get? ph hJ hL
    · rw [hJ] at hL
      cases hL
      refine ⟨K, hK, ?_, hKm ▸ hmarket⟩
      have := hbook hLbook
      rwa [PlacementJob.InBook, hph]
    · exact ⟨K, hK, hLbook, hmarket⟩
  · intro r hr id
    rw [h.reflected r hr id, exists_get?_insert, exists_get?_of_get? hJ]
    rfl
  · simpa only [hnext] using h.applied_lt

theorem reserve (h : RaceInvariant s) {now : ℕ → ℕ} {o : Order} (hjob : s.jobs.get? job = none)
    (hne : (s.engine.trialMatch now o).1 ≠ [])
    (hwrap : s.engine.nextEventId + (s.engine.trialMatch now o).1.length < usizeBound)
    {book : OrderBook} :
    RaceInvariant
      { s with
        engine := s.engine.fetchAdd (s.engine.trialMatch now o).1.length
        jobs := s.jobs.insert job ⟨o.market, book, s.engine.pendingPairs now o, .reserved⟩
        locks := locks } := by
  have hnext : (s.engine.fetchAdd (s.engine.trialMatch now o).1.length).nextEventId =
      s.engine.nextEventId + (s.engine.trialMatch now o).1.length := Nat.mod_eq_of_lt hwrap
  have hids : ∀ id ∈ (s.engine.pendingPairs now o).map Prod.fst,
      s.engine.nextEventId ≤ id ∧
        id < s.engine.nextEventId + (s.engine.trialMatch now o).1.length := by
    intro id hid
    obtain ⟨p, hp, rfl⟩ := mem_map.mp hid
    exact Engine.mem_numberEvents hp hwrap
  have hold : ∀ j K, (j ≠ job ∧ s.jobs.get? j = some K) ↔ s.jobs.get? j = some K := by
    refine fun j K => and_iff_right_of_imp ?_
    rintro hK rfl
    exact Option.some_ne_none K (hK.symm.trans hjob)
  -- an entry of the new map is the new placement or an old one
  have hget : ∀ j K, (s.jobs.insert job
      ⟨o.market, book, s.engine.pendingPairs now o, .reserved⟩).get? j = some K ↔
      (j = job ∧ K = ⟨o.market, book, s.engine.pendingPairs now o, .reserved⟩) ∨
        s.jobs.get? j = some K := by
    intro j K
    rw [get?_insert_eq_some, hold]
  refine ⟨?_, ?_, ?_, ?_, ?_, ?_, ?_, ?_, h.snapshot⟩
  · intro id hid
    rw [hnext]
    exact (h.base_lt id hid).trans_le (Nat.le_add_right _ _)
  · intro j K hK id hid
    rw [hnext]
    rcases (hget j K).mp hK with ⟨-, rfl⟩ | hK
    · obtain ⟨hlow, hlt⟩ := hids id hid
      exact ⟨hlt, fun hbase => absurd (h.base_lt id hbase) (not_lt.mpr hlow)⟩
    · obtain ⟨hlt, hbase⟩ := h.ids_lt j K hK id hid
      exact ⟨hlt.trans_le (Nat.le_add_right _ _), hbase⟩
  · intro j K hK
    rcases (hget j K).mp hK with ⟨-, rfl⟩ | hK
    · intro hnil
      have hlen := congrArg List.length hnil
      simp only [PlacementJob.ids, Engine.pendingPairs, numberEvents, length_map,
        length_zipIdx, length_nil] at hlen
      exact hne (length_eq_zero_iff.mp hlen)
    · exact h.ids_ne j K hK
  · intro j K j' K' hK hK' id hid hid'
    rcases (hget j K).mp hK with ⟨hj, rfl⟩ | hK
    · rcases (hget j' K').mp hK' with ⟨hj', -⟩ | hK'
      · rw [hj, hj']
      · exact absurd (h.ids_lt j' K' hK' id hid').1 (not_lt.mpr (hids id hid).1)
    · rcases (hget j' K').mp hK' with ⟨-, rfl⟩ | hK'
      · exact absurd (h.ids_lt j K hK id hid).1 (not_lt.mpr (hids id hid').1)
      · exact h.owner j K j' K' hK hK' id hid hid'
  · intro id
    refine (h.applied id).trans ?_
    rw [exists_get?_insert]
    simp [hold]
  · intro r hr j hj
    obtain ⟨K, hK, hrest⟩ := h.seen r hr j hj
    exact ⟨K, (hget j K).mpr (.inr hK), hrest⟩
  · intro r hr id
    have hunseen : job ∉ r.seen := by
      intro hj
      obtain ⟨L, hL, -⟩ := h.seen r hr job hj
      exact Option.some_ne_none L (hL.symm.trans hjob)
    rw [h.reflected r hr id, exists_get?_insert]
    simp [hold, hunseen]
  · intro r hr applied happ id hid
    rw [hnext]
    exact (h.applied_lt r hr applied happ id hid).trans_le (Nat.le_add_right _ _)

theorem books (h : RaceInvariant s) (hnext : e.nextEventId = s.engine.nextEventId)
    (happ : e.bookAppliedMatchEventIds = s.engine.bookAppliedMatchEventIds) :
    RaceInvariant { s with engine := e } := by
  refine ⟨?_, ?_, h.ids_ne, h.owner, ?_, h.seen, h.reflected, ?_, h.snapshot⟩
  · simpa only [hnext] using h.base_lt
  · simpa only [hnext] using h.ids_lt
  · simpa only [happ] using h.applied
  · simpa only [hnext] using h.applied_lt

theorem mem_inBook {market : Market} {q : ℕ × PlacementJob} :
    q ∈ s.inBook market ↔ s.jobs.get? q.1 = some q.2 ∧ q.2.InBook = true ∧ q.2.market = market := by
  rw [RaceState.inBook, mem_filter, Bool.and_eq_true, decide_eq_true_iff,
    get?_eq_some]

theorem readBook (h : RaceInvariant s) (hr : s.reader = some r) (hsnap : r.snapshot = none)
    (market : Market) : RaceInvariant { s with reader := some (s.readBook r market) } := by
  refine ⟨h.base_lt, h.ids_lt, h.ids_ne, h.owner, h.applied, ?_, ?_, ?_, ?_⟩
  · rintro _ ⟨⟩ j hj
    rcases mem_append.mp hj with hj | hj
    · obtain ⟨J, hJ, hbook, hmarket⟩ := h.seen r hr j hj
      exact ⟨J, hJ, hbook, mem_cons_of_mem _ hmarket⟩
    · obtain ⟨q, hq, rfl⟩ := mem_map.mp hj
      obtain ⟨hget, hbook, hmarket⟩ := mem_inBook.mp hq
      exact ⟨q.2, hget, hbook, hmarket ▸ mem_cons_self⟩
  · rintro _ ⟨⟩ id
    simp only [RaceState.readBook, mem_append, h.reflected r hr id, mem_flatMap,
      mem_map]
    constructor
    · rintro ((hbase | ⟨j, J, hJ, hj, hid⟩) | ⟨q, hq, hid⟩)
      · exact .inl hbase
      · exact .inr ⟨j, J, hJ, .inl hj, hid⟩
      · exact .inr ⟨q.1, q.2, (mem_inBook.mp hq).1, .inr ⟨q, hq, rfl⟩, hid⟩
    · rintro (hbase | ⟨j, J, hJ, hj | ⟨q, hq, rfl⟩, hid⟩)
      · exact .inl (.inl hbase)
      · exact .inl (.inr ⟨j, J, hJ, hj, hid⟩)
      · have hget := (mem_inBook.mp hq).1
        rw [hJ] at hget
        cases hget
        exact .inr ⟨q, hq, hid⟩
  · rintro _ ⟨⟩
    exact h.applied_lt r hr
  · rintro _ ⟨⟩ snap hsnap'
    rw [RaceState.readBook, hsnap] at hsnap'
    cases hsnap'

theorem snapshot_eq_none (h : RaceInvariant s) (hr : s.reader = some r) (happ : r.applied = none) :
    r.snapshot = none := by
  cases hsnap : r.snapshot with
  | none => rfl
  | some snap =>
    have hsome := (h.snapshot r hr snap hsnap).1
    rw [happ] at hsome
    cases hsome

theorem readApplied (h : RaceInvariant s) (hr : s.reader = some r) (happ : r.applied = none) :
    RaceInvariant
      { s with
        reader := some { r with applied := some s.engine.bookAppliedMatchIdsSnapshot } } := by
  refine ⟨h.base_lt, h.ids_lt, h.ids_ne, h.owner, h.applied, ?_, ?_, ?_, ?_⟩
  · rintro _ ⟨⟩
    exact h.seen r hr
  · rintro _ ⟨⟩
    exact h.reflected r hr
  · rintro _ ⟨⟩ _ ⟨⟩ id hid
    rcases (h.applied id).mp (Engine.mem_bookAppliedMatchIdsSnapshot.mp hid) with
      hbase | ⟨j, J, hJ, -, hid⟩
    · exact h.base_lt id hbase
    · exact (h.ids_lt j J hJ id hid).1
  · rintro _ ⟨⟩ snap hsnap
    rw [h.snapshot_eq_none hr happ] at hsnap
    cases hsnap

theorem change (h : RaceInvariant s) {a : RaceAction} {s' : RaceState} (hw : s.NoWrap a)
    (hchange : s.Change a s') : RaceInvariant s' := by
  cases hchange with
  | none => exact h
  | rest | cancelIn => exact h.books rfl rfl
  | reserve hjob hne => exact h.reserve hjob hne hw
  | abort hJ hph =>
    exact h.rephase .aborted hJ (by simp [hph]) (by simp [PlacementJob.InBook, hph]) rfl
      (by simp)
  | commit hJ hph =>
    exact h.rephase (.committed _) hJ (by simp [hph]) (by simp [PlacementJob.InBook, hph]) rfl
      (by simp [Engine.commitBook])
  | insertNext hJ hph =>
    exact h.rephase (.committed _) hJ (by simp [hph])
      (by simp [PlacementJob.InBook, PlacementJob.withPhase]) (by simp) (by simp)
  | record hJ hph =>
    refine h.rephase .recorded hJ (by simp [hph])
      (by simp [PlacementJob.InBook, PlacementJob.withPhase]) rfl fun id => ?_
    rw [Engine.recordBookAppliedForEventIds, Engine.mem_foldl_insert]
    simp
  | start =>
    refine ⟨h.base_lt, h.ids_lt, h.ids_ne, h.owner, h.applied, ?_, ?_, ?_, ?_⟩
    · rintro _ ⟨⟩ j hj
      cases hj
    · rintro _ ⟨⟩ id
      simp
    · rintro _ ⟨⟩ applied happ
      cases happ
    · rintro _ ⟨⟩ snap hsnap
      cases hsnap
  | readMarket hr happ => exact h.readBook hr (h.snapshot_eq_none hr happ) _
  | readApplied hr happ => exact h.readApplied hr happ
  | @readNext r snap hr happ hnext =>
    refine ⟨h.base_lt, h.ids_lt, h.ids_ne, h.owner, h.applied, ?_, ?_, ?_, ?_⟩
    · rintro _ ⟨⟩
      exact h.seen r hr
    · rintro _ ⟨⟩
      exact h.reflected r hr
    · rintro _ ⟨⟩
      exact h.applied_lt r hr
    · rintro _ ⟨⟩ _ ⟨⟩
      exact ⟨happ, hnext ▸ h.applied_lt r hr _ happ⟩

end RaceInvariant

end MetherCEX
