import MetherCEX.Concurrent.SnapshotRace
import MetherCEX.Engine.Provenance

/-!
# Where orders and applied ids can be

Orders are in the books and in what a snapshot in progress has read; so are the applied ids. A
step of the engine or of the snapshot moves them between these places.
-/

namespace MetherCEX

/-- The steps that a placement takes without waiting for its journal or the stream,
the cancellations and the steps of the snapshot. -/
def RaceAction.free : RaceAction → Bool
  | .reserve _ _ _ => false
  | .abort _ => false
  | .commit _ => false
  | _ => true

namespace RaceState

def HoldsOrder (s : RaceState) (o : Order) : Prop :=
  o ∈ s.engine.orders ∨
    ∃ r ∈ s.reader, o ∈ r.orders ∨ ∃ snap ∈ r.snapshot, o ∈ snap.orders

/-- The id is applied, or a snapshot in progress has read it as applied. -/
def HoldsApplied (s : RaceState) (id : ℕ) : Prop :=
  id ∈ s.engine.bookAppliedMatchEventIds ∨
    ∃ r ∈ s.reader, (∃ ids ∈ r.applied, id ∈ ids) ∨
      ∃ snap ∈ r.snapshot, id ∈ snap.bookAppliedMatchEventIds

/-- What the steps between commits can do: they bring no new orders, and apply the
ids of committed placements only. -/
structure Quiet (s s' : RaceState) : Prop where
  nextEventId_eq : s'.engine.nextEventId = s.engine.nextEventId
  orders : ∀ o, s'.HoldsOrder o → s.HoldsOrder o
  applied : ∀ id, s'.HoldsApplied id → s.HoldsApplied id ∨
    ∃ j J, s.jobs.get? j = some J ∧ J.InBook = true ∧ id ∈ J.ids
  jobs : ∀ j K, s'.jobs.get? j = some K → ∃ J, s.jobs.get? j = some J ∧
    K.pairs = J.pairs ∧ K.book = J.book ∧ (K.phase = .reserved → J.phase = .reserved) ∧
    (K.InBook = true → J.InBook = true)

variable {s : RaceState}

theorem Quiet.refl (s : RaceState) : Quiet s s where
  nextEventId_eq := rfl
  orders _ ho := ho
  applied _ hid := .inl hid
  jobs _ K hK := ⟨K, hK, rfl, rfl, id, id⟩

variable {job : ℕ} {o : Order} {engineId : String}

theorem Quiet.rephase {J : PlacementJob} (hJ : s.jobs.get? job = some J) (ph : JobPhase)
    (hres : ph ≠ .reserved) (hbook : (J.withPhase ph).InBook = true → J.InBook = true)
    {e : Engine} (hnext : e.nextEventId = s.engine.nextEventId)
    (horders : e.orderBooks = s.engine.orderBooks)
    (happlied : ∀ id ∈ e.bookAppliedMatchEventIds, id ∈ s.engine.bookAppliedMatchEventIds ∨
      J.InBook = true ∧ id ∈ J.ids) (locks : List Market) :
    Quiet s { s with engine := e, jobs := s.jobs.insert job (J.withPhase ph), locks := locks } where
  nextEventId_eq := hnext
  orders o ho := by
    refine ho.imp_left fun ho => ?_
    rw [Engine.orders, horders] at ho
    exact ho
  applied id hid := by
    rcases hid with hid | hid
    · rcases happlied id hid with hid | ⟨hin, hid⟩
      · exact .inl (.inl hid)
      · exact .inr ⟨job, J, hJ, hin, hid⟩
    · exact .inl (.inr hid)
  jobs j K hK := by
    rw [SortedMap.get?_insert] at hK
    split_ifs at hK with hj
    · cases hK
      exact ⟨J, hj ▸ hJ, rfl, rfl, fun h => absurd h hres, hbook⟩
    · exact ⟨K, hK, rfl, rfl, id, id⟩

theorem Quiet.reader {reader : Option SnapshotReader}
    (horders : ∀ r ∈ reader, ∀ o, (o ∈ r.orders ∨ ∃ snap ∈ r.snapshot, o ∈ snap.orders) →
      s.HoldsOrder o)
    (happlied : ∀ r ∈ reader, ∀ id, ((∃ ids ∈ r.applied, id ∈ ids) ∨
      ∃ snap ∈ r.snapshot, id ∈ snap.bookAppliedMatchEventIds) → s.HoldsApplied id) :
    Quiet s { s with reader := reader } where
  nextEventId_eq := rfl
  orders o ho := by
    rcases ho with ho | ⟨r, hr, ho⟩
    · exact .inl ho
    · exact horders r hr o ho
  applied id hid := by
    rcases hid with hid | ⟨r, hr, hid⟩
    · exact .inl (.inl hid)
    · exact .inl (happlied r hr id hid)
  jobs _ K hK := ⟨K, hK, rfl, rfl, id, id⟩

theorem mem_snapshot_bookOf {market : Market} (h : o ∈ (s.engine.bookOf market).snapshot.bids ∨
    o ∈ (s.engine.bookOf market).snapshot.asks) : o ∈ s.engine.orders :=
  Engine.mem_orders_of_mem_bookOf (List.mem_append.mpr h)

theorem Change.quiet {a : RaceAction} {s' : RaceState} (h : Change s a s')
    (ha : a.free = true ∨ ∃ job, a = .abort job) : Quiet s s' := by
  cases h with
  | none => exact Quiet.refl s
  | rest | reserve | commit => simp [RaceAction.free] at ha
  | abort hJ =>
    exact Quiet.rephase hJ .aborted (by simp)
      (by simp [PlacementJob.InBook, PlacementJob.withPhase]) rfl rfl (fun id hid => .inl hid) _
  | insertNext hJ hph =>
    exact Quiet.rephase hJ (.committed _) (by simp) (by simp [PlacementJob.InBook, hph]) (by simp)
      (by simp) (fun id hid => .inl (by simpa using hid)) s.locks
  | @record _ J hJ hph =>
    have hin : J.InBook = true := by rw [PlacementJob.InBook, hph]
    refine Quiet.rephase hJ .recorded (by simp) (fun _ => hin)
      (e := s.engine.recordBookAppliedForEventIds J.ids) rfl rfl (fun id hid => ?_) s.locks
    exact (Engine.mem_foldl_insert.mp hid).imp_right fun hid => ⟨hin, hid⟩
  | cancelIn =>
    refine ⟨rfl, fun o ho => ?_, fun id hid => .inl hid,
      fun _ K hK => ⟨K, hK, rfl, rfl, id, id⟩⟩
    refine ho.imp_left fun ho => ?_
    rcases Engine.mem_commitBook ho with ho | ho
    · rw [OrderBook.orders_cancelOrder] at ho
      exact Engine.mem_orders_of_mem_bookOf (List.mem_of_mem_filter ho)
    · exact ho
  | start =>
    refine Quiet.reader ?_ ?_
    · rintro _ ⟨⟩ o ho
      simp at ho
    · rintro _ ⟨⟩ id hid
      simp at hid
  | readMarket hr =>
    refine Quiet.reader ?_ ?_
    · rintro _ ⟨⟩ o (ho | ho)
      · rcases List.mem_append.mp ho with ho | ho
        · rcases List.mem_append.mp ho with ho | ho
          · exact .inr ⟨_, hr, .inl ho⟩
          · exact .inl (mem_snapshot_bookOf (.inl ho))
        · exact .inl (mem_snapshot_bookOf (.inr ho))
      · exact .inr ⟨_, hr, .inr ho⟩
    · rintro _ ⟨⟩ id hid
      exact .inr ⟨_, hr, hid⟩
  | readApplied hr =>
    refine Quiet.reader ?_ ?_
    · rintro _ ⟨⟩ o ho
      exact .inr ⟨_, hr, ho⟩
    · rintro _ ⟨⟩ id (⟨_, ⟨⟩, hid⟩ | hid)
      · exact .inl (Engine.mem_bookAppliedMatchIdsSnapshot.mp hid)
      · exact .inr ⟨_, hr, .inr hid⟩
  | readNext hr happ hnext horders =>
    refine Quiet.reader ?_ ?_
    · rintro _ ⟨⟩ o (ho | ⟨_, ⟨⟩, ho⟩)
      · exact .inr ⟨_, hr, .inl ho⟩
      · exact .inr ⟨_, hr, .inl (horders.mem_iff.mp ho)⟩
    · rintro _ ⟨⟩ id (hid | ⟨_, ⟨⟩, hid⟩)
      · exact .inr ⟨_, hr, .inl hid⟩
      · exact .inr ⟨_, hr, .inl ⟨_, happ, hid⟩⟩

theorem quiet_abort (engineId : String) (job : ℕ) : Quiet s (s.step engineId (.abort job)) :=
  (s.change_step engineId _).quiet (.inr ⟨job, rfl⟩)

theorem quiet_of_free (engineId : String) {a : RaceAction} (ha : a.free = true) :
    Quiet s (s.step engineId a) :=
  (s.change_step engineId a).quiet (.inl ha)

theorem abort_eq (engineId : String) (job : ℕ) : (s.step engineId (.abort job)).engine = s.engine ∧
    (s.step engineId (.abort job)).reader = s.reader := by
  simp only [step]
  split <;> exact ⟨rfl, rfl⟩

theorem quiet_noReader : Quiet s { s with reader := none } :=
  Quiet.reader (fun _ hr => by cases hr) fun _ hr => by cases hr

theorem commit_orders (ho : (s.step engineId (.commit job)).HoldsOrder o) :
    s.HoldsOrder o ∨ ∃ J, s.jobs.get? job = some J ∧ J.phase = .reserved ∧ o ∈ J.book.orders := by
  simp only [step] at ho
  split at ho
  · rename_i market book pairs hJ
    rcases ho with ho | ho
    · rcases Engine.mem_commitBook ho with ho | ho
      · exact .inr ⟨_, hJ, rfl, ho⟩
      · exact .inl (.inl ho)
    · exact .inl (.inr ho)
  · exact .inl ho

theorem commit_applied {id : ℕ} :
    (s.step engineId (.commit job)).HoldsApplied id ↔ s.HoldsApplied id := by
  simp only [step]
  split <;> rfl

theorem commit_nextEventId (engineId : String) (job : ℕ) :
    (s.step engineId (.commit job)).engine.nextEventId = s.engine.nextEventId := by
  simp only [step]
  split <;> rfl

theorem commit_jobs {j : ℕ} {K : PlacementJob} (hK : (s.step engineId (.commit job)).jobs.get? j =
    some K) : ∃ J, s.jobs.get? j = some J ∧ K.pairs = J.pairs ∧ K.book = J.book ∧ (K.phase =
    .reserved → J.phase = .reserved) ∧ (K.InBook = true → J.InBook = true ∨ j = job) := by
  simp only [step] at hK
  split at hK
  · rename_i market book pairs hJ
    dsimp only at hK
    rw [SortedMap.get?_insert] at hK
    split_ifs at hK with hj
    · cases hK
      exact ⟨⟨market, book, pairs, .reserved⟩, hj ▸ hJ, rfl, rfl, fun _ => rfl, fun _ => .inr hj⟩
    · exact ⟨K, hK, rfl, rfl, id, .inl⟩
  · exact ⟨K, hK, rfl, rfl, id, .inl⟩

theorem reserve_of_nil {now : ℕ → ℕ} (hjob : job ∉ s.jobs.keys) (hlock : o.market ∉ s.locks)
    (hnil : (s.engine.trialMatch now o).1 = []) :
    s.step engineId (.reserve job now o) =
      { s with engine := s.engine.commitBook o.market (s.engine.trialMatch now o).2 } := by
  simp only [step, hjob, hlock, or_self, if_false, hnil, if_true]

theorem reserve_of_ne_nil {now : ℕ → ℕ} (hjob : job ∉ s.jobs.keys) (hlock : o.market ∉ s.locks)
    (hne : (s.engine.trialMatch now o).1 ≠ []) :
    s.step engineId (.reserve job now o) =
      { s with
        engine := s.engine.fetchAdd (s.engine.trialMatch now o).1.length
        jobs := s.jobs.insert job
          ⟨o.market, (s.engine.trialMatch now o).2, s.engine.pendingPairs now o, .reserved⟩
        locks := o.market :: s.locks } := by
  simp only [step, hjob, hlock, or_self, if_false, hne]

end RaceState

end MetherCEX
