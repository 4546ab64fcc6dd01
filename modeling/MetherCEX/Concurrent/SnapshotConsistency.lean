import MetherCEX.Concurrent.SnapshotRace

/-!
# When a snapshot is consistent

A fill is reflected in a snapshot when it was committed before the snapshot read the book of its
market. The snapshot claims to list exactly the reflected fills.
-/

namespace MetherCEX

open Run List SortedMap

namespace RaceState

/-- The snapshot lists exactly the reflected fills, and its next id is beyond
them. -/
def Consistent (r : SnapshotReader) (snap : EnginePersistenceSnapshot) : Prop :=
  (∀ id, id ∈ snap.bookAppliedMatchEventIds ↔ id ∈ r.reflected) ∧
    ∀ id ∈ snap.bookAppliedMatchEventIds, id < snap.nextEventId

def NoSlip (s : RaceState) : RaceAction → Prop
  | .record job =>
    ∀ r ∈ s.reader, r.applied = none →
      ∀ J ∈ s.jobs.get? job, J.phase = .committed [] → J.market ∈ r.markets → job ∈ r.seen
  | .readApplied =>
    ∀ r ∈ s.reader, r.applied = none → (∀ market ∈ r.initial, market ∈ r.markets) →
      (∀ q ∈ s.jobs.entries, q.1 ∈ r.seen → q.2.phase = .recorded) ∧
      ∀ q ∈ s.jobs.entries, q.2.phase = .recorded → q.2.market ∈ r.markets
  | _ => True

instance (s : RaceState) : ∀ a, Decidable (s.NoSlip a)
  | .record _ => inferInstanceAs (Decidable (∀ r ∈ s.reader, r.applied = none → _))
  | .readApplied => inferInstanceAs (Decidable (∀ r ∈ s.reader, r.applied = none → _ → _ ∧ _))
  | .reserve .. | .abort _ | .commit _ | .insertNext _ | .cancelIn .. | .start | .readMarket _
  | .readNext => .isTrue trivial

/-- Nothing has slipped so far: before the applied ids are read, every recorded
placement whose market was read is seen; afterwards the ids read are the reflected
ones. -/
def Sound (s : RaceState) : Prop :=
  ∀ r ∈ s.reader,
    (r.applied = none → ∀ j J, s.jobs.get? j = some J → J.phase = .recorded →
      J.market ∈ r.markets → j ∈ r.seen) ∧
    ∀ applied ∈ r.applied, ∀ id, id ∈ applied ↔ id ∈ r.reflected

end RaceState

section Sound

variable {s : RaceState}

theorem sound_rephase {job : ℕ} {J : PlacementJob} (ph : JobPhase)
    (hJ : s.jobs.get? job = some J) (hbefore : J.phase ≠ .recorded) (e : Engine)
    (locks : List Market) :
    RaceState.Sound
        { s with engine := e, jobs := s.jobs.insert job (J.withPhase ph), locks := locks } ↔
      s.Sound ∧ (ph = .recorded → ∀ r ∈ s.reader, r.applied = none → J.market ∈ r.markets →
        job ∈ r.seen) := by
  constructor
  · intro h
    refine ⟨fun r hr => ⟨fun happ j L hL hrec hmarket => ?_, (h r hr).2⟩, ?_⟩
    · obtain ⟨K, hK, hKm, -, ⟨rfl, -⟩ | ⟨-, rfl⟩⟩ := get?_rephase_of_get? ph hJ hL
      · rw [hJ] at hL
        cases hL
        exact absurd hrec hbefore
      · exact (h r hr).1 happ j K hK hrec hmarket
    · intro hph r hr happ hmarket
      obtain ⟨K, hK, hKm, -, ⟨-, hKph⟩ | ⟨hne, -⟩⟩ := get?_rephase_of_get? ph hJ hJ
      · exact (h r hr).1 happ job K hK (hKph.trans hph) (hKm ▸ hmarket)
      · exact absurd rfl hne
  · rintro ⟨h, hrecord⟩ r hr
    refine ⟨fun happ j K hK hrec hmarket => ?_, (h r hr).2⟩
    obtain ⟨L, hL, hKm, -, ⟨rfl, hph⟩ | ⟨-, rfl⟩⟩ := get?_rephase hJ hK
    · rw [hJ] at hL
      cases hL
      exact hrecord (hph.symm.trans hrec) r hr happ (hKm ▸ hmarket)
    · exact (h r hr).1 happ j K hL hrec hmarket

/-- At the read of the applied ids, they are the reflected ones exactly when
nothing slipped before and nothing slips now. -/
theorem applied_iff_reflected (h : RaceInvariant s) {r : SnapshotReader} (hr : s.reader = some r) :
    (∀ id, id ∈ s.engine.bookAppliedMatchEventIds ↔ id ∈ r.reflected) ↔
    (∀ j J, s.jobs.get? j = some J → J.phase = .recorded → J.market ∈ r.markets → j ∈ r.seen) ∧
    (∀ q ∈ s.jobs.entries, q.1 ∈ r.seen → q.2.phase = .recorded) ∧
    ∀ q ∈ s.jobs.entries, q.2.phase = .recorded → q.2.market ∈ r.markets := by
  constructor
  · intro heq
    -- every placement has an id, and the id tells the placement
    have hseen : ∀ j J, s.jobs.get? j = some J → J.phase = .recorded → j ∈ r.seen := by
      intro j J hJ hrec
      obtain ⟨id, hid⟩ := exists_mem_of_ne_nil _ (h.ids_ne j J hJ)
      have happ := (h.applied id).mpr (.inr ⟨j, J, hJ, hrec, hid⟩)
      rcases (h.reflected r hr id).mp ((heq id).mp happ) with hbase | ⟨j', J', hJ', hj', hid'⟩
      · exact absurd hbase (h.ids_lt j J hJ id hid).2
      · rw [h.owner j J j' J' hJ hJ' id hid hid']
        exact hj'
    refine ⟨fun j J hJ hrec _ => hseen j J hJ hrec, fun q hq hqseen => ?_, fun q hq hrec => ?_⟩
    · have hq' := get?_eq_some.mpr hq
      obtain ⟨id, hid⟩ := exists_mem_of_ne_nil _ (h.ids_ne q.1 q.2 hq')
      have hrefl := (h.reflected r hr id).mpr (.inr ⟨q.1, q.2, hq', hqseen, hid⟩)
      rcases (h.applied id).mp ((heq id).mpr hrefl) with hbase | ⟨j', J', hJ', hrec, hid'⟩
      · exact absurd hbase (h.ids_lt q.1 q.2 hq' id hid).2
      · have hj := h.owner q.1 q.2 j' J' hq' hJ' id hid hid'
        rw [← hj, hq'] at hJ'
        cases hJ'
        exact hrec
    · have hq' := get?_eq_some.mpr hq
      obtain ⟨J, hJ, -, hmarket⟩ := h.seen r hr q.1 (hseen q.1 q.2 hq' hrec)
      rw [hq'] at hJ
      cases hJ
      exact hmarket
  · rintro ⟨hsound, hdone, hread⟩ id
    rw [h.applied id, h.reflected r hr id]
    constructor
    · rintro (hbase | ⟨j, J, hJ, hrec, hid⟩)
      · exact .inl hbase
      · have hmarket := hread (j, J) (get?_eq_some.mp hJ) hrec
        exact .inr ⟨j, J, hJ, hsound j J hJ hrec hmarket, hid⟩
    · rintro (hbase | ⟨j, J, hJ, hj, hid⟩)
      · exact .inl hbase
      · exact .inr ⟨j, J, hJ, hdone (j, J) (get?_eq_some.mp hJ) hj, hid⟩

theorem sound_readBook {r : SnapshotReader} (hr : s.reader = some r)
    (happ : r.applied = none) {market : Market} (hmarket : market ∉ r.markets) :
    RaceState.Sound { s with reader := some (s.readBook r market) } ↔ s.Sound := by
  constructor
  · intro hs r₀ hr₀
    rw [hr] at hr₀
    cases hr₀
    refine ⟨fun _ j J hJ hrec hm => ?_, fun applied happ' => ?_⟩
    · have hj := (hs _ rfl).1 happ j J hJ hrec (mem_cons_of_mem _ hm)
      rcases mem_append.mp hj with hj | hj
      · exact hj
      · obtain ⟨q, hq, rfl⟩ := mem_map.mp hj
        obtain ⟨hget, -, hqm⟩ := RaceInvariant.mem_inBook.mp hq
        rw [hJ] at hget
        cases hget
        rw [← hqm] at hmarket
        exact absurd hm hmarket
    · rw [happ] at happ'
      cases happ'
  · rintro hs r' hr'
    cases hr'
    refine ⟨fun _ j J hJ hrec hm => ?_, fun applied happ' => ?_⟩
    · rcases mem_cons.mp hm with hm | hm
      · have hbook : J.InBook = true := by rw [PlacementJob.InBook, hrec]
        have hq : (j, J) ∈ s.inBook market := RaceInvariant.mem_inBook.mpr ⟨hJ, hbook, hm⟩
        exact mem_append_right _ (mem_map_of_mem (f := Prod.fst) hq)
      · exact mem_append_left _ ((hs r hr).1 happ j J hJ hrec hm)
    · simp only [RaceState.readBook, happ] at happ'
      cases happ'

theorem sound_readApplied {r : SnapshotReader} (h : RaceInvariant s) (hr : s.reader = some r)
    (happ : r.applied = none) (hall : ∀ market ∈ r.initial, market ∈ r.markets) :
    RaceState.Sound
        { s with
          reader := some { r with applied := some s.engine.bookAppliedMatchIdsSnapshot } } ↔
      s.Sound ∧ s.NoSlip .readApplied := by
  have hiff := applied_iff_reflected h hr
  constructor
  · intro hs
    have heq := (hs _ rfl).2 _ rfl
    simp only [Engine.mem_bookAppliedMatchIdsSnapshot] at heq
    obtain ⟨hsound, hrest⟩ := hiff.mp heq
    refine ⟨fun r' hr' => ?_, fun r' hr' _ _ => ?_⟩
    · obtain rfl : r = r' := Option.some.inj (hr.symm.trans hr')
      exact ⟨fun _ => hsound, fun applied happ' => by simp [happ] at happ'⟩
    · obtain rfl : r = r' := Option.some.inj (hr.symm.trans hr')
      exact hrest
  · rintro ⟨hs, hslip⟩ _ ⟨⟩
    refine ⟨(fun happ => by cases happ), ?_⟩
    rintro _ ⟨⟩ id
    rw [Engine.mem_bookAppliedMatchIdsSnapshot]
    exact hiff.mpr ⟨(hs r hr).1 happ, hslip r hr happ hall⟩ id

theorem noSlip_of_waits {a : RaceAction} (h : s.Waits a) : s.NoSlip a := by
  cases a with
  | record job => exact fun r hr _ J hJ hph => absurd hph (h J hJ)
  | readApplied => exact fun r hr happ hall => absurd ⟨happ, hall⟩ (h r hr)
  | _ => trivial

theorem sound_change_iff (h : RaceInvariant s) {a : RaceAction} {s' : RaceState}
    (hchange : s.Change a s') : s'.Sound ↔ s.Sound ∧ s.NoSlip a := by
  have hsame : ∀ {P : Prop}, P → (s.Sound ↔ s.Sound ∧ P) := fun hP =>
    (and_iff_left hP).symm
  cases hchange with
  | none hwaits => exact hsame (noSlip_of_waits hwaits)
  | rest | cancelIn => exact hsame trivial
  | reserve hjob =>
    refine Iff.trans ?_ (hsame trivial)
    refine forall₂_congr fun r hr => and_congr_left fun _ => imp_congr_right fun happ => ?_
    refine forall₂_congr fun j J => ?_
    rw [get?_insert]
    split_ifs with hj
    · subst hj
      rw [hjob]
      simp only [Option.some.injEq, reduceCtorEq, false_implies, iff_true]
      rintro rfl hrec
      cases hrec
    · exact Iff.rfl
  | abort hJ hph | commit hJ hph | insertNext hJ hph =>
    refine (sound_rephase _ hJ (by simp [hph]) _ _).trans (and_congr_right fun _ => ?_)
    exact iff_of_true (fun hph => by cases hph) trivial
  | record hJ hph =>
    refine (sound_rephase .recorded hJ (by simp [hph]) _ _).trans (and_congr_right fun _ => ?_)
    simp only [RaceState.NoSlip, hJ, hph, Option.mem_some_iff, forall_eq', true_implies]
  | start hr =>
    refine iff_of_true ?_ ⟨fun r hr' => ?_, trivial⟩
    · rintro _ ⟨⟩
      exact ⟨nofun, fun applied happ => by cases happ⟩
    · rw [hr] at hr'
      cases hr'
  | readMarket hr happ hnew => exact (sound_readBook hr happ hnew).trans (hsame trivial)
  | readApplied hr happ hall => exact sound_readApplied h hr happ hall
  | @readNext r _ hr =>
    refine Iff.trans ⟨fun hs r' hr' => ?_, ?_⟩ (hsame trivial)
    · obtain rfl := Option.some.inj (hr.symm.trans hr')
      have hread := hs _ (Option.mem_some_self _)
      exact hread
    · rintro hs _ ⟨⟩
      exact hs r hr

end Sound

variable {acts : List RaceAction}

theorem raceInvariant_run {engineId : String} {e : Engine} (he : ∀ id ∈ e.bookAppliedMatchEventIds,
    id < e.nextEventId) (hw : Along (RaceState.step engineId) RaceState.NoWrap (.init e) acts) :
    RaceInvariant (acts.foldl (RaceState.step engineId) (.init e)) :=
  hw.invariant (RaceInvariant.init he) fun s a h hw => h.change hw (s.change_step engineId a)

theorem sound_run_iff {engineId : String} {e : Engine} (he : ∀ id ∈ e.bookAppliedMatchEventIds,
    id < e.nextEventId) (hw : Along (RaceState.step engineId) RaceState.NoWrap (.init e) acts) :
    (acts.foldl (RaceState.step engineId) (.init e)).Sound ↔
    Along (RaceState.step engineId) RaceState.NoSlip (.init e) acts := by
  induction acts using List.reverseRecOn with
  | nil => exact iff_of_true (fun r hr => by cases hr) trivial
  | append_singleton acts a ih =>
    obtain ⟨hinit, -⟩ := along_concat.mp hw
    rw [foldl_append, foldl_cons, foldl_nil, along_concat, ← ih hinit]
    exact sound_change_iff (raceInvariant_run he hinit) (RaceState.change_step _ engineId a)

/-- A finished snapshot is consistent exactly when no step of the run let a
placement slip between its reads. The engine at the beginning may be any whose
applied ids are below its counter. -/
theorem snapshot_consistent_iff (engineId : String) (e : Engine)
    (he : ∀ id ∈ e.bookAppliedMatchEventIds, id < e.nextEventId) (acts : List RaceAction)
    (hw : Along (RaceState.step engineId) RaceState.NoWrap (.init e) acts) (r : SnapshotReader)
    (snap : EnginePersistenceSnapshot) (hr : (acts.foldl (RaceState.step engineId) (.init e)).reader
    = some r) (hsnap : r.snapshot = some snap) : RaceState.Consistent r snap ↔
    Along (RaceState.step engineId) RaceState.NoSlip (.init e) acts := by
  have hinv := raceInvariant_run he hw
  obtain ⟨happ, hlt⟩ := hinv.snapshot r hr snap hsnap
  rw [← sound_run_iff he hw]
  constructor
  · rintro ⟨heq, -⟩ r' hr'
    rw [hr] at hr'
    cases hr'
    refine ⟨fun hnone => ?_, fun applied happ' => ?_⟩
    · rw [happ] at hnone
      cases hnone
    · rw [happ] at happ'
      cases happ'
      exact heq
  · intro hs
    exact ⟨(hs r hr).2 _ happ, hlt⟩

def restingSell : RaceAction :=
  .reserve 1 id ⟨1, 10, "BTC_USDT", .sell, .limit, some 100, 2, 2, 5⟩

def reserveBuy : RaceAction :=
  .reserve 2 id ⟨2, 11, "BTC_USDT", .buy, .limit, some 100, 1, 1, 6⟩

def quietSnapshot : List RaceAction :=
  [restingSell, reserveBuy, .commit 2, .insertNext 2, .start, .record 2,
    .readMarket "BTC_USDT", .readApplied, .readNext]

/-- The snapshot reads the market before the buy commits, and the applied ids after
it has recorded. -/
def recordedTooEarly : List RaceAction :=
  [restingSell, .start, .readMarket "BTC_USDT", reserveBuy, .commit 2, .insertNext 2,
    .record 2, .readApplied, .readNext]

/-- The snapshot reads the market after the buy commits, and the applied ids before
it records. -/
def recordedTooLate : List RaceAction :=
  [restingSell, reserveBuy, .commit 2, .start, .readMarket "BTC_USDT", .readApplied,
    .insertNext 2, .record 2, .readNext]

def snapshotIds (acts : List RaceAction) : Option (List ℕ × List ℕ) := do
  let r ← (acts.foldl (RaceState.step "default") (.init Engine.new)).reader
  let snap ← r.snapshot
  return (snap.bookAppliedMatchEventIds, r.reflected)

theorem exists_of_snapshotIds {applied reflected : List ℕ}
    (h : snapshotIds acts = some (applied, reflected)) :
    ∃ r snap, (acts.foldl (RaceState.step "default") (.init Engine.new)).reader = some r ∧
      r.snapshot = some snap ∧ snap.bookAppliedMatchEventIds = applied ∧
      r.reflected = reflected := by
  simp only [snapshotIds, Option.bind_eq_bind, Option.bind_eq_some_iff, Option.pure_def,
    Option.some.injEq, Prod.mk.injEq] at h
  obtain ⟨r, hr, snap, hsnap, happ, hrefl⟩ := h
  exact ⟨r, snap, hr, hsnap, happ, hrefl⟩

theorem not_consistent_of_snapshotIds (applied reflected : List ℕ)
    (h : snapshotIds acts = some (applied, reflected)) (id : ℕ)
    (hid : ¬ (id ∈ applied ↔ id ∈ reflected)) :
    ∃ r snap, (acts.foldl (RaceState.step "default") (.init Engine.new)).reader = some r ∧
      r.snapshot = some snap ∧ ¬ RaceState.Consistent r snap := by
  obtain ⟨r, snap, hr, hsnap, rfl, rfl⟩ := exists_of_snapshotIds h
  exact ⟨r, snap, hr, hsnap, fun hcons => hid (hcons.1 id)⟩

theorem quietSnapshot_consistent :
    Along (RaceState.step "default") RaceState.NoWrap (.init Engine.new) quietSnapshot ∧
    snapshotIds quietSnapshot = some ([1], [1]) ∧
    ∀ r snap,
      (quietSnapshot.foldl (RaceState.step "default") (.init Engine.new)).reader = some r →
      r.snapshot = some snap → RaceState.Consistent r snap :=
  have hw : Along (RaceState.step "default") RaceState.NoWrap (.init Engine.new)
      quietSnapshot := by decide +kernel
  ⟨hw, by decide +kernel, fun r snap hr hsnap =>
    (snapshot_consistent_iff "default" Engine.new (by decide) quietSnapshot hw r snap hr
      hsnap).mpr (by decide +kernel)⟩

/-- Both races give an inconsistent snapshot: the first lists the fill 1, which its
orders do not have; the second has the fill 1 in its orders and does not list it. -/
theorem racing_snapshots_inconsistent :
    (∃ r snap,
      (recordedTooEarly.foldl (RaceState.step "default") (.init Engine.new)).reader = some r ∧
      r.snapshot = some snap ∧ ¬ RaceState.Consistent r snap) ∧
    ∃ r snap,
      (recordedTooLate.foldl (RaceState.step "default") (.init Engine.new)).reader = some r ∧
      r.snapshot = some snap ∧ ¬ RaceState.Consistent r snap :=
  ⟨not_consistent_of_snapshotIds [1] [] (by decide +kernel) 1 (by decide),
    not_consistent_of_snapshotIds [] [1] (by decide +kernel) 1 (by decide)⟩

end MetherCEX
