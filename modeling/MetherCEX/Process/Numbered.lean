import MetherCEX.Process.Moves

/-!
# Every event has its id from the counter

Whatever is in the journal, in the stream, acknowledged or on its way to them was
numbered by a placement: `Numbered` holds in every run, with any failures, crashes
and restarts.
-/

namespace MetherCEX

open Run WalLine List Memory

def Memory.Carries (m : Memory) (q : ℕ × MatchEvent) : Prop :=
  q ∈ m.queue ∨ q ∈ m.toAck ∨ q ∈ m.boot ∨
    ∃ job P, m.publications.get? job = some P ∧ q ∈ P.pairs

theorem Memory.carries_insert {m : Memory} {s : RaceState} {job : ℕ} {P P' : Publication}
    {q : ℕ × MatchEvent} {c : Changes}
    (hq : Memory.Carries
      { m with race := s, publications := m.publications.insert job P', sinceRead := c } q)
    (hP : m.publications.get? job = some P) (hpairs : P'.pairs = P.pairs) : m.Carries q := by
  rcases hq with hq | hq | hq | ⟨j, R, hR, hq⟩
  · exact .inl hq
  · exact .inr (.inl hq)
  · exact .inr (.inr (.inl hq))
  · refine .inr (.inr (.inr ?_))
    rw [SortedMap.get?_insert] at hR
    split_ifs at hR with hj
    · cases hR
      exact ⟨job, P, hP, hpairs ▸ hq⟩
    · exact ⟨j, R, hR, hq⟩

theorem Memory.carries_of_pairs {m : Memory} {job : ℕ} {P : Publication}
    (hP : m.publications.get? job = some P) {q : ℕ × MatchEvent} (hq : q ∈ P.pairs) : m.Carries q :=
  .inr (.inr (.inr ⟨job, P, hP, hq⟩))

namespace Process

variable {cfg : Config} {p p' : Process} {a : ProcessAction}

def rows (cfg : Config) (p : Process) : List WalPendingEvent :=
  rowsOf cfg.engineId (p.journal ++ p.unsynced)

variable {row : WalPendingEvent}

theorem mem_rows_appendLines {lines : List WalLine} {outcome : AppendOutcome} (h : row ∈
    (p.appendLines lines outcome).rows cfg) : row ∈ p.rows cfg ∨ .evt cfg.engineId row ∈ lines := by
  rw [rows, mem_rowsOf] at h ⊢
  cases outcome with
  | ok =>
    simp only [appendLines, append_nil, mem_append] at h ⊢
    exact h
  | failed n err =>
    simp only [appendLines, mem_append] at h ⊢
    rcases h with h | h | h
    · exact .inl (.inl h)
    · exact .inl (.inr h)
    · exact .inr (mem_of_mem_take h)

theorem mem_rows_journalAtStart {survived : ℕ}
    (h : row ∈ rowsOf cfg.engineId (journalAtStart cfg p survived)) : row ∈ p.rows cfg := by
  have hsurvived : ∀ {row}, row ∈ rowsOf cfg.engineId (p.journal ++ p.unsynced.take survived) →
      row ∈ p.rows cfg := by
    intro row h
    rw [rows]
    rw [rowsOf_append, mem_append] at h ⊢
    refine h.imp_right fun h => ?_
    rw [mem_rowsOf] at h ⊢
    exact mem_of_mem_take h
  unfold journalAtStart at h
  split_ifs at h
  · rw [compactJournalKeepUnackedOnly, rowsOf_map_evt] at h
    exact hsurvived (mem_of_lastRow? (mem_scanUnackedForEngine.mp h).1).1
  · exact hsurvived h

theorem mem_rows_of_mem_rowsAtStart {survived : ℕ} (h : row ∈ rowsAtStart cfg p survived) :
    row ∈ p.rows cfg := by
  unfold rowsAtStart at h
  split_ifs at h
  · exact mem_rows_journalAtStart (mem_of_lastRow? (mem_scanUnackedForEngine.mp h).1).1
  · exact nomatch h

theorem rowsAtStart_sorted (cfg : Config) (p : Process) (survived : ℕ) :
    (rowsAtStart cfg p survived).Pairwise fun a b => a.eventId < b.eventId := by
  unfold rowsAtStart
  split_ifs
  · exact scanUnackedForEngine_sorted
  · exact List.Pairwise.nil

theorem mem_of_walRowsForPairs {pairs : List (ℕ × MatchEvent)} (h : .evt cfg.engineId row ∈
    (walRowsForPairs cfg.subjectOf pairs).map (WalLine.evt cfg.engineId)) :
    (row.eventId, row.event) ∈ pairs := by
  obtain ⟨r, hr, heq⟩ := mem_map.mp h
  cases heq
  obtain ⟨q, hq, rfl⟩ := mem_map.mp hr
  exact hq

theorem mem_store {q r : ℕ × MatchEvent} {outcome : PublishOutcome}
    (h : r ∈ (p.store q outcome).stream) : r ∈ p.stream ∨ r = q ∧ outcome.stored = true := by
  simp only [store] at h
  split_ifs at h with hstored
  · rcases mem_append.mp h with h | h
    · exact .inl h
    · exact .inr ⟨mem_singleton.mp h, hstored⟩
  · exact .inl h

theorem mem_booted {e : Engine} {rows : List WalPendingEvent} {q : ℕ × MatchEvent}
    (h : (booted cfg e rows).Carries q) : ∃ row ∈ rows, (row.eventId, row.event) = q := by
  rcases h with h | h | h | ⟨job, P, hP, -⟩
  · simp only [booted] at h
    split_ifs at h
    · exact mem_map.mp h
    · exact nomatch h
  · exact nomatch h
  · simp only [booted] at h
    split_ifs at h
    · exact mem_map.mp h
    · exact nomatch h
  · cases hP

/-- What is written, published, acknowledged or on its way is numbered. -/
structure Numbered (cfg : Config) (p : Process) : Prop where
  stream : ∀ q ∈ p.stream, q ∈ p.allocated
  acked : ∀ q ∈ p.acked, q ∈ p.allocated
  rows : ∀ row ∈ p.rows cfg, (row.eventId, row.event) ∈ p.allocated
  memory : ∀ m ∈ p.memory, ∀ q, m.Carries q → q ∈ p.allocated

namespace Numbered

theorem init (cfg : Config) : Numbered cfg .init where
  stream := nofun
  acked := nofun
  rows := nofun
  memory _ hm := by cases hm

variable {q : ℕ × MatchEvent} {m : Memory}

theorem store (h : Numbered cfg p) (hq : q ∈ p.allocated) (outcome : PublishOutcome) :
    Numbered cfg (p.store q outcome) where
  stream r hr := by
    rcases mem_store hr with hr | ⟨rfl, -⟩
    · exact h.stream r hr
    · exact hq
  acked := h.acked
  rows := h.rows
  memory := h.memory

theorem appendLines (h : Numbered cfg p) {lines : List WalLine}
    (hlines : ∀ row, .evt cfg.engineId row ∈ lines → (row.eventId, row.event) ∈ p.allocated)
    (outcome : AppendOutcome) : Numbered cfg (p.appendLines lines outcome) := by
  have hrows : ∀ row ∈ (p.appendLines lines outcome).rows cfg,
      (row.eventId, row.event) ∈ p.allocated := by
    intro row hrow
    rcases mem_rows_appendLines hrow with hrow | hrow
    · exact h.rows row hrow
    · exact hlines row hrow
  cases outcome with
  | ok | failed n err => exact ⟨h.stream, h.acked, hrows, h.memory⟩

theorem ofMemory (hstream : ∀ q ∈ p.stream, q ∈ p.allocated)
    (hacked : ∀ q ∈ p.acked, q ∈ p.allocated)
    (hrows : ∀ row ∈ p.rows cfg, (row.eventId, row.event) ∈ p.allocated) (hm : p.memory = some m)
    (hcarries : ∀ q, m.Carries q → q ∈ p.allocated) :
    Numbered cfg p where
  stream := hstream
  acked := hacked
  rows := hrows
  memory m' hm' := by
    rw [hm] at hm'
    cases hm'
    exact hcarries

variable (h : Numbered cfg p)

include h

theorem stop (m : Memory) : Numbered cfg (p.stop m) where
  stream := h.stream
  acked := h.acked
  rows := h.rows
  memory _ hm := by cases hm

theorem addAcked (hq : q ∈ p.allocated) : Numbered cfg { p with acked := p.acked ++ [q] } where
  stream := h.stream
  acked r hr := by
    rcases mem_append.mp hr with hr | hr
    · exact h.acked r hr
    · exact mem_singleton.mp hr ▸ hq
  rows := h.rows
  memory := h.memory

theorem fail (hm : ∀ q, m.Carries q → q ∈ p.allocated) {job : ℕ} {P P' : Publication}
    (hP : m.publications.get? job = some P) (hpairs : P'.pairs = P.pairs) :
    Numbered cfg (p.fail cfg m job P') :=
  ofMemory h.stream h.acked h.rows rfl fun q hq => hm q (carries_insert hq hP hpairs)

theorem mono {new : List (ℕ × MatchEvent)} :
    Numbered cfg { p with allocated := p.allocated ++ new } where
  stream q hq := mem_append_left new (h.stream q hq)
  acked q hq := mem_append_left new (h.acked q hq)
  rows row hrow := mem_append_left new (h.rows row hrow)
  memory m hm q hq := mem_append_left new (h.memory m hm q hq)

theorem place_reserve (hm : p.memory = some m) {job : ℕ} {P : Publication} {s : RaceState}
    (hq : Memory.Carries { m with race := s, publications := m.publications.insert job P } q) :
    q ∈ p.allocated ++ P.pairs := by
  have hold := fun hq => mem_append_left P.pairs (h.memory m hm q hq)
  rcases hq with hq | hq | hq | ⟨j, R, hR, hq⟩
  · exact hold (.inl hq)
  · exact hold (.inr (.inl hq))
  · exact hold (.inr (.inr (.inl hq)))
  · rw [SortedMap.get?_insert] at hR
    split_ifs at hR with hj
    · cases hR
      exact mem_append_right _ hq
    · exact hold (carries_of_pairs hR hq)

theorem place_direct (hm : p.memory = some m) {pairs : List (ℕ × MatchEvent)} {s : RaceState}
    {c : Changes}
    (hq : Memory.Carries { m with
      race := s
      queue := if cfg.mode = .async then m.queue ++ pairs else m.queue
      sinceRead := c } q) : q ∈ p.allocated ++ pairs := by
  have hold := fun hq => mem_append_left pairs (h.memory m hm q hq)
  rcases hq with hq | hq
  · dsimp only at hq
    split_ifs at hq
    · rcases mem_append.mp hq with hq | hq
      · exact hold (.inl hq)
      · exact mem_append_right _ hq
    · exact hold (.inl hq)
  · exact hold (.inr hq)

theorem start {survived : ℕ} {row : WalPendingEvent}
    (hrow : row ∈ Process.rows cfg
      { p with journal := journalAtStart cfg p survived, unsynced := [] }) :
    (row.eventId, row.event) ∈ p.allocated := by
  rw [Process.rows, append_nil] at hrow
  exact h.rows row (mem_rows_journalAtStart hrow)

theorem move (hmv : Move cfg p a p') : Numbered cfg p' := by
  have hack : ∀ (id : ℕ) (row : WalPendingEvent),
      .evt cfg.engineId row ∈ [WalLine.ack id] → (row.eventId, row.event) ∈ p.allocated := by
    intro id row hrow
    simp at hrow
  cases hmv with
  | placeAtOnce hm =>
    exact ofMemory h.stream h.acked h.rows rfl fun q hq => h.memory _ hm q hq
  | placeReserve hm =>
    exact ofMemory h.mono.stream h.mono.acked h.mono.rows rfl fun q hq => h.place_reserve hm hq
  | placeDirect hm =>
    exact ofMemory h.mono.stream h.mono.acked h.mono.rows rfl fun q hq => h.place_direct hm hq
  | append hm hP =>
    have happ := h.appendLines (fun row hrow =>
      h.memory _ hm _ (carries_of_pairs hP (mem_of_walRowsForPairs hrow))) .ok
    exact ofMemory happ.stream happ.acked happ.rows rfl fun q hq =>
      h.memory _ hm q (carries_insert hq hP rfl)
  | appendFails hm hP =>
    exact (h.appendLines (fun row hrow =>
      h.memory _ hm _ (carries_of_pairs hP (mem_of_walRowsForPairs hrow))) _).fail
        (h.memory _ hm) hP rfl
  | @publish m job n P q outcome hm hP hstage hq =>
    have hstore := h.store
      (h.memory m hm q (carries_of_pairs hP (mem_of_getElem? hq))) outcome
    exact ofMemory hstore.stream hstore.acked hstore.rows rfl fun q hq =>
      h.memory m hm q (carries_insert hq hP rfl)
  | @publishFails m job n P q outcome hm hP hstage hq =>
    exact (h.store (h.memory m hm q (carries_of_pairs hP (mem_of_getElem? hq)))
      outcome).fail (h.memory m hm) hP rfl
  | @ack m job n P q hm hP hstage hq =>
    have happ := (h.appendLines (hack q.1) .ok).addAcked
      (h.memory m hm q (carries_of_pairs hP (mem_of_getElem? hq)))
    exact ofMemory happ.stream happ.acked happ.rows rfl fun q hq =>
      h.memory m hm q (carries_insert hq hP rfl)
  | ackFails hm hP => exact (h.appendLines (hack _) _).fail (h.memory _ hm) hP rfl
  | commit hm hP =>
    exact ofMemory h.stream h.acked h.rows rfl fun q hq =>
      h.memory _ hm q (carries_insert hq hP rfl)
  | inner hm =>
    exact ofMemory h.stream h.acked h.rows rfl fun q hq => h.memory _ hm q hq
  | @enqueue m job n P J q hm hP hJ hrec hstage hq =>
    refine ofMemory h.stream h.acked h.rows rfl fun r hr => ?_
    have hmem := h.memory m hm q (carries_of_pairs hP (mem_of_getElem? hq))
    rcases hr with hr | hr
    · rcases mem_append.mp hr with hr | hr
      · exact h.memory m hm r (.inl hr)
      · exact mem_singleton.mp hr ▸ hmem
    · exact h.memory m hm r (carries_insert (s := m.race) (c := m.sinceRead)
        (.inr hr) hP rfl)
  | saveSnapshot hm | dropSnapshot hm =>
    exact ofMemory h.stream h.acked h.rows rfl fun q hq => h.memory _ hm q hq
  | @pipelinePublish m q outcome hm hq =>
    have hmem := h.memory m hm q (.inl hq)
    have hstore := h.store hmem outcome
    refine ofMemory hstore.stream hstore.acked hstore.rows rfl fun r hr => ?_
    rcases hr with hr | hr | hr
    · exact h.memory m hm r (.inl (mem_of_mem_erase hr))
    · dsimp only at hr
      split_ifs at hr
      · rcases mem_append.mp hr with hr | hr
        · exact h.memory m hm r (.inr (.inl hr))
        · exact mem_singleton.mp hr ▸ hmem
      · exact h.memory m hm r (.inr (.inl hr))
    · exact h.memory m hm r (.inr (.inr hr))
  | @bootPublish m q boot outcome hm hboot =>
    have hmem := h.memory m hm q (.inr (.inr (.inl (hboot ▸ mem_cons_self))))
    have hstore := h.store hmem outcome
    refine ofMemory hstore.stream hstore.acked hstore.rows rfl fun r hr => ?_
    rcases hr with hr | hr | hr | hr
    · exact h.memory m hm r (.inl hr)
    · exact mem_singleton.mp hr ▸ hmem
    · exact h.memory m hm r
        (.inr (.inr (.inl (hboot ▸ mem_cons_of_mem q hr))))
    · exact h.memory m hm r (.inr (.inr (.inr hr)))
  | @bootFails m q boot outcome hm hboot =>
    exact (h.store (h.memory m hm q (.inr (.inr (.inl (hboot ▸ mem_cons_self)))))
      outcome).stop m
  | @ackPublished m q hm hq =>
    have happ := (h.appendLines (hack q.1) .ok).addAcked (h.memory m hm q (.inr (.inl hq)))
    refine ofMemory happ.stream happ.acked happ.rows rfl fun r hr => ?_
    exact h.memory m hm r (hr.imp_right fun hr => hr.imp_left mem_of_mem_erase)
  | @ackLost m q k err hm hq =>
    have happ := h.appendLines (hack q.1) (.failed k err)
    refine ofMemory happ.stream happ.acked happ.rows rfl fun r hr => ?_
    exact h.memory m hm r (hr.imp_right fun hr => hr.imp_left mem_of_mem_erase)
  | ackStops hm => exact (h.appendLines (hack _) _).stop _
  | crash hm => exact h.stop _
  | restartFails hm => exact ⟨h.stream, h.acked, fun row => h.start, h.memory⟩
  | restart hm =>
    refine ofMemory h.stream h.acked (fun row => h.start) rfl fun q hq => ?_
    obtain ⟨row, hrow, rfl⟩ := mem_booted hq
    exact h.rows row (mem_rows_of_mem_rowsAtStart hrow)

end Numbered

theorem numbered_run (cfg : Config) (acts : List ProcessAction) :
    Numbered cfg (acts.foldl (step cfg) .init) :=
  run_invariant (C := fun _ _ => True) (fun _ _ _ h _ hmv => h.move hmv)
    (along_of_forall (fun _ _ => trivial) _ acts) (Numbered.init cfg)

end Process

end MetherCEX
