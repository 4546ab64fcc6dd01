import MetherCEX.Process.EventIds
import MetherCEX.Process.Holdings

/-!
# Placements that fail

In sync mode the events of a placement are in the journal and in the stream before its book is
committed.
-/

namespace MetherCEX

open Run List SortedMap

/-- A placement of the order has an event in the stream and is not committed yet. -/
def Memory.InFlight (m : Memory) (x : OrderId) : Prop :=
  ∃ job P, m.publications.get? job = some P ∧ P.orderId = x ∧ P.Pending = true ∧
    P.reached = true

def Memory.Waiting (m : Memory) (q : ℕ × MatchEvent) : Prop :=
  q ∈ m.queue ∨ q ∈ m.toAck ∨ q ∈ m.boot

instance (m : Memory) (x : OrderId) : Decidable (m.InFlight x) :=
  decidable_of_iff (∃ e ∈ m.publications.entries, e.2.orderId = x ∧ e.2.Pending = true ∧
      e.2.reached = true) <| by
    constructor
    · rintro ⟨⟨job, P⟩, hP, hx⟩
      exact ⟨job, P, get?_eq_some.mpr hP, hx⟩
    · rintro ⟨job, P, hP, hx⟩
      exact ⟨(job, P), get?_eq_some.mp hP, hx⟩

theorem pending_afterAppend (cfg : Config) (P : Publication) :
    (P.withStage cfg.afterAppend).Pending = true := by
  simp only [Publication.withStage, Config.afterAppend, Publication.Pending]
  split_ifs <;> rfl

theorem pending_afterPublish (cfg : Config) (P : Publication) (n : ℕ) :
    Publication.Pending { P with stage := cfg.afterPublish P n, reached := true } = true := by
  simp only [Config.afterPublish, Publication.Pending]
  split_ifs <;> rfl

theorem pending_afterAck (P : Publication) (n : ℕ) :
    (P.withStage (P.afterAck n)).Pending = true := by
  simp only [Publication.withStage, Publication.afterAck, Publication.Pending]
  split_ifs <;> rfl

/-- The events name accepted orders and the one that is placed, and are acknowledged
only when one of them has reached the stream. -/
def Publication.Fits (P : Publication) (accepted : List OrderId) : Prop :=
  (∀ q ∈ P.pairs, ∀ z, q.2.Names z → z ∈ accepted ∨ z = P.orderId) ∧
    ∀ n, P.stage = .acking n → P.reached = true

namespace Process

/-- What is published or acknowledged names accepted orders and orders that are
being placed; what waits names accepted orders. -/
structure Traced (p : Process) : Prop where
  stream : ∀ q ∈ p.stream, ∀ z, q.2.Names z → z ∈ p.accepted ∨ ∃ m ∈ p.memory, m.InFlight z
  acked : ∀ q ∈ p.acked, ∀ z, q.2.Names z → z ∈ p.accepted ∨ ∃ m ∈ p.memory, m.InFlight z
  waiting : ∀ m ∈ p.memory, ∀ q, m.Waiting q → ∀ z, q.2.Names z → z ∈ p.accepted
  publications : ∀ m ∈ p.memory, ∀ job P, m.publications.get? job = some P →
    (∀ q ∈ P.pairs, ∀ z, q.2.Names z → z ∈ p.accepted ∨ z = P.orderId) ∧
    ∀ n, P.stage = .acking n → P.reached = true
  accepted : ∀ z ∈ p.accepted, z ∈ p.succeeded

def NotReached (p : Process) (job : ℕ) : Prop :=
  ∀ m ∈ p.memory, ∀ P ∈ m.publications.get? job, P.Pending = true → P.reached = false
  deriving Decidable

def Settled (p : Process) : Prop :=
  ∀ m ∈ p.memory, ∀ e ∈ m.publications.entries, e.2.Pending = true → e.2.reached = false
  deriving Decidable

/-- Placements do not stop between their first event in the stream and their commit,
and the backend lists orders that were placed with success. -/
def AllOrNothing (p : Process) : ProcessAction → Prop
  | .append job (.failed _ _) => p.NotReached job
  | .publish job outcome =>
    outcome.ok = false → outcome.stored = false ∧ p.NotReached job
  | .ack job (.failed _ _) => p.NotReached job
  | .bootPublish outcome => outcome.ok = false → p.Settled
  | .ackPublished _ (.failed _ _) => p.Settled
  | .crash => p.Settled
  | .restart _ backend => ∀ o ∈ backendOrders p.snapshotFile backend, o.id ∈ p.succeeded
  | _ => True

instance (p : Process) : ∀ a, Decidable (AllOrNothing p a)
  | .append job (.failed _ _) | .ack job (.failed _ _) =>
    inferInstanceAs (Decidable (p.NotReached job))
  | .publish job outcome => inferInstanceAs (Decidable
      (outcome.ok = false → outcome.stored = false ∧ p.NotReached job))
  | .bootPublish outcome => inferInstanceAs (Decidable (outcome.ok = false → p.Settled))
  | .ackPublished _ (.failed _ _) | .crash => inferInstanceAs (Decidable p.Settled)
  | .restart _ backend => inferInstanceAs (Decidable
      (∀ o ∈ backendOrders p.snapshotFile backend, o.id ∈ p.succeeded))
  | .append _ .ok | .ack _ .ok | .ackPublished _ .ok | .place _ _ _ | .commit _ | .inner _
  | .enqueue _ | .saveSnapshot | .dropSnapshot | .pipelinePublish _ _ => .isTrue trivial

variable {cfg : Config} {p p' : Process} {a : ProcessAction}

def NamesAccepted (p : Process) (q : ℕ × MatchEvent) : Prop :=
  ∀ z, q.2.Names z → z ∈ p.accepted

def NamesKnown (p : Process) (q : ℕ × MatchEvent) : Prop :=
  ∀ z, q.2.Names z → z ∈ p.accepted ∨ ∃ m ∈ p.memory, m.InFlight z

namespace Traced

theorem init : Traced .init where
  stream := nofun
  acked := nofun
  waiting _ hm := by cases hm
  publications _ hm := by cases hm
  accepted := nofun

variable {m m' : Memory} {Q : Order → Prop}

/-- The orders `ids` are placed with success. -/
theorem change (h : Traced p) (ids : List OrderId) (hm : p.memory = some m) (hm' : p'.memory =
    some m') (hacc : p'.accepted = ids ++ p.accepted) (hsucc : p'.succeeded = ids ++ p.succeeded)
    (hflight : ∀ x, m.InFlight x → x ∈ ids ∨ m'.InFlight x) (hstream : ∀ q ∈ p'.stream, q ∈ p.stream
    ∨ p'.NamesKnown q) (hacked : ∀ q ∈ p'.acked, q ∈ p.acked ∨ p'.NamesKnown q) (hwaiting : ∀ q,
    m'.Waiting q → m.Waiting q ∨ p'.NamesAccepted q) (hpub : ∀ job R, m'.publications.get? job =
    some R → m.publications.get? job = some R ∨ R.Fits p'.accepted) : Traced p' := by
  have hgrow : ∀ z ∈ p.accepted, z ∈ p'.accepted :=
    fun z hz => hacc ▸ mem_append_right ids hz
  have hold : ∀ q, p.NamesKnown q → p'.NamesKnown q := by
    intro q hq z hz
    rcases hq z hz with hz | ⟨n, hn, hz⟩
    · exact .inl (hgrow z hz)
    · rw [hm] at hn
      cases hn
      exact (hflight z hz).imp (fun hz => hacc ▸ mem_append_left _ hz)
        fun hz => ⟨m', hm', hz⟩
  refine ⟨fun q hq => ?_, fun q hq => ?_, fun n hn q hq => ?_, fun n hn job R hR => ?_,
    fun z hz => ?_⟩
  · exact (hstream q hq).elim (fun hq => hold q (h.stream q hq)) id
  · exact (hacked q hq).elim (fun hq => hold q (h.acked q hq)) id
  · rw [hm'] at hn
    cases hn
    exact (hwaiting q hq).elim (fun hq z hz => hgrow z (h.waiting m hm q hq z hz)) id
  · rw [hm'] at hn
    cases hn
    rcases hpub job R hR with hR | hR
    · obtain ⟨hnames, hack⟩ := h.publications m hm job R hR
      exact ⟨fun q hq z hz => (hnames q hq z hz).imp_left (hgrow z), hack⟩
    · exact hR
  · rw [hacc] at hz
    rw [hsucc]
    exact mem_append.mpr ((mem_append.mp hz).imp_right (h.accepted z))

theorem down (h : Traced p) (hs : p.Settled) (hm' : p'.memory = none)
    (hacc : p'.accepted = p.accepted) (hsucc : p'.succeeded = p.succeeded) (hacked : p'.acked =
    p.acked) (hstream : ∀ q ∈ p'.stream, q ∈ p.stream ∨ p.NamesAccepted q) : Traced p' := by
  have hold : ∀ q, p.NamesKnown q → p'.NamesKnown q := by
    intro q hq z hz
    rcases hq z hz with hz | ⟨n, hn, job, P, hP, -, hpend, hreached⟩
    · exact .inl (hacc ▸ hz)
    · have hnot := hs n hn (job, P) (get?_eq_some.mp hP) hpend
      rw [hnot] at hreached
      cases hreached
  refine ⟨fun q hq => ?_, fun q hq => ?_, fun n hn => ?_, fun n hn => ?_, fun z hz => ?_⟩
  · rcases hstream q hq with hq | hq
    · exact hold q (h.stream q hq)
    · exact hold q fun z hz => .inl (hq z hz)
  · exact hold q (h.acked q (hacked ▸ hq))
  · rw [hm'] at hn
    cases hn
  · rw [hm'] at hn
    cases hn
  · rw [hsucc]
    exact h.accepted z (hacc ▸ hz)

variable {job survived : ℕ} {P : Publication} {backend : Option (List Order × ℕ)} {e : Engine}

/-- The placement of a job goes on: its order is placed with success, or its events
in the stream are those of a placement under way. -/
theorem advance (h : Traced p) (ids : List OrderId) (hm : p.memory = some m)
    (hm' : p'.memory = some m') {R : Publication} (hP : m.publications.get? job = some P)
    (hpub : m'.publications = m.publications.insert job R) (hid : R.orderId = P.orderId)
    (hpairs : R.pairs = P.pairs) (hack : ∀ n, R.stage = .acking n → R.reached = true)
    (hacc : p'.accepted = ids ++ p.accepted) (hsucc : p'.succeeded = ids ++ p.succeeded) (hflight :
    P.Pending = true → P.reached = true → P.orderId ∈ ids ∨ R.Pending = true ∧ R.reached = true)
    (hstream : ∀ q ∈ p'.stream, q ∈ p.stream ∨ q ∈ P.pairs ∧ R.Pending = true ∧ R.reached = true)
    (hacked : ∀ q ∈ p'.acked, q ∈ p.acked ∨ q ∈ P.pairs ∧ R.Pending = true ∧ R.reached = true)
    (hwaiting : ∀ q, m'.Waiting q → m.Waiting q ∨ p'.NamesAccepted q) : Traced p' := by
  have hgrow : ∀ z ∈ p.accepted, z ∈ p'.accepted :=
    fun z hz => hacc ▸ mem_append_right ids hz
  have hnames := (h.publications m hm job P hP).1
  have hself : R.Pending = true ∧ R.reached = true → m'.InFlight P.orderId :=
    fun hR => ⟨job, R, by rw [hpub, get?_insert_self], hid, hR⟩
  have hknown : ∀ q, q ∈ P.pairs ∧ R.Pending = true ∧ R.reached = true → p'.NamesKnown q := by
    rintro q ⟨hq, hR⟩ z hz
    rcases hnames q hq z hz with hz | rfl
    · exact .inl (hgrow z hz)
    · exact .inr ⟨m', hm', hself hR⟩
  refine h.change ids hm hm' hacc hsucc ?_ (fun q hq => (hstream q hq).imp_right (hknown q))
    (fun q hq => (hacked q hq).imp_right (hknown q)) hwaiting fun j S hS => ?_
  · rintro x ⟨j, T, hT, rfl, hpend, hreached⟩
    by_cases hj : j = job
    · subst hj
      rw [hP] at hT
      cases hT
      exact (hflight hpend hreached).imp_right hself
    · refine .inr ⟨j, T, ?_, rfl, hpend, hreached⟩
      rw [hpub, get?_insert_of_ne _ _ hj]
      exact hT
  · rw [hpub, get?_insert] at hS
    split_ifs at hS with hj
    · cases hS
      refine .inr ⟨fun q hq z hz => ?_, hack⟩
      rw [hid]
      exact (hnames q (hpairs ▸ hq) z hz).imp_left (hgrow z)
    · exact .inl hS

theorem fail (h : Traced p) (hm : p.memory = some m) (hP : m.publications.get? job = some P)
    (hnot : p.NotReached job) (s : Process) (R : Publication) (hid : R.orderId = P.orderId) (hpairs
    : R.pairs = P.pairs) (hacc : s.accepted = p.accepted) (hsucc : s.succeeded = p.succeeded)
    (hstream : s.stream = p.stream) (hacked : s.acked = p.acked) : Traced (s.fail cfg m job R) := by
  refine h.advance [] hm rfl hP rfl hid hpairs (fun n hn => by cases hn) hacc hsucc
    (fun hpend hreached => ?_) (fun q hq => .inl (hstream ▸ hq))
    (fun q hq => .inl (hacked ▸ hq)) fun _ => .inl
  rw [hnot m hm P hP hpend] at hreached
  cases hreached

theorem keep (h : Traced p) (hm : p.memory = some m) (hm' : p'.memory = some m')
    (hpub : m'.publications = m.publications) (hacc : p'.accepted = p.accepted)
    (hsucc : p'.succeeded = p.succeeded) (hstream : ∀ q ∈ p'.stream, q ∈ p.stream ∨
    p.NamesAccepted q) (hacked : ∀ q ∈ p'.acked, q ∈ p.acked ∨ p.NamesAccepted q)
    (hwaiting : ∀ q, m'.Waiting q → m.Waiting q) : Traced p' := by
  have hknown : ∀ q, p.NamesAccepted q → p'.NamesKnown q :=
    fun q hq z hz => .inl (hacc ▸ hq z hz)
  refine h.change [] hm hm' hacc hsucc ?_ (fun q hq => (hstream q hq).imp_right (hknown q))
    (fun q hq => (hacked q hq).imp_right (hknown q)) (fun q hq => .inl (hwaiting q hq))
    fun job R hR => .inl (hpub ▸ hR)
  rintro x ⟨job, P, hP, hx⟩
  exact .inr ⟨job, P, hpub ▸ hP, hx⟩

theorem store_names {q : ℕ × MatchEvent} (hq : p.NamesAccepted q) {outcome : PublishOutcome} :
    ∀ r ∈ (p.store q outcome).stream, r ∈ p.stream ∨ p.NamesAccepted r := by
  intro r hr
  refine (mem_store hr).imp_right ?_
  rintro ⟨rfl, -⟩
  exact hq

/-- The rows that a startup replays and publishes name accepted orders: a row that
is applied in the snapshot was committed, and the orders of the others rest. -/
theorem start_names (hhold : Holdings Q p) (hnum : Numbered cfg p)
    (hinc : Increasing p) (hback : ∀ o ∈ backendOrders p.snapshotFile backend, Q o)
    (hreplay : (startEngine p.snapshotFile backend).replayRows (rowsAtStart cfg p survived) = .ok e)
    {row : WalPendingEvent} (hrow : row ∈ rowsAtStart cfg p survived) {z : OrderId} (hz :
    row.event.Names z) : z ∈ (backendOrders p.snapshotFile backend).map Order.id ++ p.accepted := by
  have hrows := Engine.replayRows_spec (rowsAtStart_sorted cfg p survived) hreplay
  by_cases happ : row.eventId ∈ (startEngine p.snapshotFile backend).bookAppliedMatchEventIds
  · obtain ⟨ev, hev, hnames⟩ := hhold.applied _ (.inr (mem_applied_startEngine happ))
    -- the id belongs to one event only
    have heq := List.inj_on_of_nodup_map (hinc.sorted.imp fun h => h.ne)
      hev (hnum.rows row (mem_rows_of_mem_rowsAtStart hrow)) rfl
    cases heq
    exact mem_append_right _ (hnames z hz)
  · obtain ⟨y, hy, rfl⟩ := hrows.names row hrow happ z hz
    exact (hhold.start_orders hback hy).2

theorem restart (h : Traced p) (hhold : Holdings Q p) (hnum : Numbered cfg p) (hinc : Increasing p)
    (hm : p.memory = none) (hback : ∀ o ∈ backendOrders p.snapshotFile backend, Q o)
    (hlisted : ∀ o ∈ backendOrders p.snapshotFile backend, o.id ∈ p.succeeded)
    (hreplay : (startEngine p.snapshotFile backend).replayRows (rowsAtStart cfg p survived) = .ok e)
    (hm' : p'.memory = some (booted cfg e (rowsAtStart cfg p survived))) (hacc : p'.accepted =
    (backendOrders p.snapshotFile backend).map Order.id ++ p.accepted) (hsucc : p'.succeeded =
    p.succeeded) (hstream : p'.stream = p.stream) (hacked : p'.acked = p.acked) : Traced p' := by
  have hold : ∀ z, (z ∈ p.accepted ∨ ∃ n ∈ p.memory, n.InFlight z) → z ∈ p'.accepted := by
    rintro z (hz | ⟨n, hn, -⟩)
    · rw [hacc]
      exact mem_append_right _ hz
    · rw [hm] at hn
      cases hn
  refine ⟨fun q hq z hz => .inl ?_, fun q hq z hz => .inl ?_, fun n hn q hq z hz => ?_,
    fun n hn job P hP => ?_, fun z hz => ?_⟩
  · exact hold z (h.stream q (hstream ▸ hq) z hz)
  · exact hold z (h.acked q (hacked ▸ hq) z hz)
  · rw [hm'] at hn
    cases hn
    have hcarried : (booted cfg e (rowsAtStart cfg p survived)).Carries q := by
      rcases hq with hq | hq | hq
      · exact .inl hq
      · exact .inr (.inl hq)
      · exact .inr (.inr (.inl hq))
    obtain ⟨row, hrow, rfl⟩ := mem_booted hcarried
    rw [hacc]
    exact start_names hhold hnum hinc hback hreplay hrow hz
  · rw [hm'] at hn
    cases hn
    cases hP
  · rw [hacc] at hz
    rw [hsucc]
    rcases mem_append.mp hz with hz | hz
    · obtain ⟨o, ho, rfl⟩ := mem_map.mp hz
      exact hlisted o ho
    · exact h.accepted z hz

theorem move (h : Traced p) (hhold : Holdings Q p) (hnum : Numbered cfg p) (hinc : Increasing p)
    (hQ : PlacesOnly Q a) (hc : AllOrNothing p a) (hmv : Move cfg p a p') : Traced p' := by
  cases hmv with
  | @placeAtOnce m job now o hm =>
    exact h.change [o.id] hm rfl rfl rfl (fun _ => .inr) (fun _ => .inl)
      (fun _ => .inl) (fun _ => .inl) fun _ _ => .inl
  | @placeReserve m job now o hm hjob hfresh =>
    refine h.change [] hm rfl rfl rfl (fun x hx => .inr ?_) (fun _ => .inl)
      (fun _ => .inl) (fun _ => .inl) fun j R hR => ?_
    · obtain ⟨j, P, hP, hx⟩ := hx
      have hne : j ≠ job := by
        rintro rfl
        rw [get?_eq_none.mpr hfresh] at hP
        cases hP
      exact ⟨j, P, (get?_insert_of_ne _ _ hne).trans hP, hx⟩
    · dsimp only at hR
      rw [get?_insert] at hR
      split_ifs at hR with hj
      · cases hR
        refine .inr ⟨fun q hq z hz => hhold.trial_names hm hq hz, fun n hn => ?_⟩
        simp only [Config.firstStage] at hn
        split_ifs at hn
      · exact .inl hR
  | @placeDirect m job now o hm =>
    refine h.change [o.id] hm rfl rfl rfl (fun _ => .inr) (fun _ => .inl)
      (fun _ => .inl) (fun q hq => ?_) fun _ _ => .inl
    rcases hq with hq | hq
    · dsimp only at hq
      split_ifs at hq
      · rcases mem_append.mp hq with hq | hq
        · exact .inl (.inl hq)
        · refine .inr fun z hz => mem_cons.mpr ?_
          exact (hhold.trial_names hm hq hz).symm
      · exact .inl (.inl hq)
    · exact .inl (.inr hq)
  | @append m job P hm hP hstage =>
    refine h.advance [] hm rfl hP rfl rfl rfl (fun n hn => ?_) rfl rfl
      (fun _ hreached => .inr ⟨pending_afterAppend cfg P, hreached⟩) (fun _ => .inl)
      (fun _ => .inl) fun _ => .inl
    simp only [Publication.withStage, Config.afterAppend] at hn
    split_ifs at hn
  | appendFails hm hP hstage => exact h.fail hm hP hc _ _ rfl rfl rfl rfl rfl rfl
  | @publish m job n P q outcome hm hP hstage hq hok =>
    refine h.advance [] hm rfl hP rfl rfl rfl (fun _ _ => rfl) rfl rfl
      (fun _ _ => .inr ⟨pending_afterPublish cfg P n, rfl⟩)
      (fun r hr => (mem_store hr).imp_right ?_) (fun _ => .inl) fun _ => .inl
    rintro ⟨rfl, -⟩
    exact ⟨mem_of_getElem? hq, pending_afterPublish cfg P n, rfl⟩
  | @publishFails m job n P q outcome hm hP hstage hq hok =>
    obtain ⟨hstored, hnot⟩ := hc hok
    have hstream : (p.store q outcome).stream = p.stream := by simp [store, hstored]
    exact h.fail hm hP hnot (p.store q outcome) _ rfl rfl rfl rfl hstream rfl
  | @ack m job n P q hm hP hstage hq =>
    have hreached := (h.publications m hm job P hP).2 n hstage
    refine h.advance [] hm rfl hP rfl rfl rfl (fun _ _ => hreached) rfl rfl
      (fun _ _ => .inr ⟨pending_afterAck P n, hreached⟩) (fun _ => .inl)
      (fun r hr => (mem_append.mp hr).imp_right fun hr => ?_) fun _ => .inl
    rw [mem_singleton.mp hr]
    exact ⟨mem_of_getElem? hq, pending_afterAck P n, hreached⟩
  | ackFails hm hP hstage hq => exact h.fail hm hP hc _ _ rfl rfl rfl rfl rfl rfl
  | @commit m job P hm hP hstage =>
    exact h.advance [P.orderId] hm rfl hP rfl rfl rfl (fun n hn => by cases hn) rfl rfl
      (fun _ _ => .inl (mem_singleton_self _)) (fun _ => .inl) (fun _ => .inl)
      fun _ => .inl
  | @enqueue m job n P J q hm hP hJ hrec hstage hq =>
    refine h.advance [] hm rfl hP rfl rfl rfl (fun n hn => by cases hn) rfl rfl
      (fun hpend _ => ?_) (fun _ => .inl) (fun _ => .inl) fun r hr => ?_
    · rw [Publication.Pending, hstage] at hpend
      cases hpend
    · rcases hr with hr | hr
      · rcases mem_append.mp hr with hr | hr
        · exact .inl (.inl hr)
        · -- the placement is recorded, so its own order is accepted
          rw [mem_singleton.mp hr]
          obtain ⟨T, hT, hfit⟩ := hhold.jobs m hm job J hJ
          rw [hP] at hT
          cases hT
          refine .inr fun z hz => ?_
          rcases hfit.names q (hfit.pairs_eq ▸ mem_of_getElem? hq) z hz with hz | rfl
          · exact hz
          · exact hfit.inBook (by rw [PlacementJob.InBook, hrec])
      · exact .inl (.inr hr)
  | inner hm | saveSnapshot hm | dropSnapshot hm =>
    exact h.keep hm rfl rfl rfl rfl (fun _ => .inl) (fun _ => .inl) fun _ => id
  | @pipelinePublish m q outcome hm hq =>
    have hnames := h.waiting m hm q (.inl hq)
    refine h.keep hm rfl rfl rfl rfl (store_names hnames) (fun _ => .inl) fun r hr => ?_
    rcases hr with hr | hr | hr
    · exact .inl (mem_of_mem_erase hr)
    · dsimp only at hr
      split_ifs at hr
      · rcases mem_append.mp hr with hr | hr
        · exact .inr (.inl hr)
        · exact .inl (mem_singleton.mp hr ▸ hq)
      · exact .inr (.inl hr)
    · exact .inr (.inr hr)
  | @bootPublish m q boot outcome hm hboot =>
    have hq : q ∈ m.boot := hboot ▸ mem_cons_self
    refine h.keep hm rfl rfl rfl rfl (store_names (h.waiting m hm q (.inr (.inr hq))))
      (fun _ => .inl) fun r hr => ?_
    rcases hr with hr | hr | hr
    · exact .inl hr
    · exact .inr (.inr (mem_singleton.mp hr ▸ hq))
    · exact .inr (.inr (hboot ▸ mem_cons_of_mem q hr))
  | @bootFails m q boot outcome hm hboot hok =>
    have hq : q ∈ m.boot := hboot ▸ mem_cons_self
    exact h.down (hc hok) rfl rfl rfl rfl
      (store_names (h.waiting m hm q (.inr (.inr hq))))
  | @ackPublished m q hm hq =>
    refine h.keep hm rfl rfl rfl rfl (fun _ => .inl)
      (fun r hr => (mem_append.mp hr).imp_right fun hr => ?_)
      fun r hr => hr.imp_right fun hr => hr.imp_left mem_of_mem_erase
    rw [mem_singleton.mp hr]
    exact h.waiting m hm q (.inr (.inl hq))
  | ackLost hm hq =>
    exact h.keep hm rfl rfl rfl rfl (fun _ => .inl) (fun _ => .inl)
      fun r hr => hr.imp_right fun hr => hr.imp_left mem_of_mem_erase
  | ackStops hm | crash hm => exact h.down hc rfl rfl rfl rfl fun _ => .inl
  | restartFails hm =>
    refine h.down (fun m hm' => ?_) hm rfl rfl rfl fun _ => .inl
    rw [hm] at hm'
    cases hm'
  | restart hm hreplay =>
    exact h.restart hhold hnum hinc hm (fun o ho => hQ.backend ho) hc hreplay rfl rfl rfl rfl rfl

end Traced

/-- Nothing that was published or acknowledged names an order whose placement failed,
unless it was placed with success or is being placed again. -/
def LeavesNoTrace (p : Process) : Prop :=
  ∀ x ∈ p.failed, x ∉ p.succeeded → (∀ m ∈ p.memory, ¬ m.InFlight x) →
    ∀ q, q ∈ p.stream ∨ q ∈ p.acked → ¬ q.2.Names x

/-- When the ids are fresh and no placement stops between its first event in the
stream and its commit, failed placements leave no trace in the stream. -/
theorem failed_leaves_no_trace (cfg : Config) (acts : List ProcessAction)
    (h : Along (step cfg) (fun p a => FreshIds cfg p a ∧ AllOrNothing p a) .init acts) :
    LeavesNoTrace (acts.foldl (step cfg) .init) := by
  have hinv := run_invariant
    (P := fun p => Numbered cfg p ∧ Increasing p ∧ Holdings (fun _ => True) p ∧ Traced p)
    (fun p a p' hp hc hmv => ?_) h
    ⟨Numbered.init cfg, Increasing.init, Holdings.init _, Traced.init⟩
  · intro x hx hnot hflight q hq hz
    have hnamed := hq.elim (fun hq => hinv.2.2.2.stream q hq x hz)
      fun hq => hinv.2.2.2.acked q hq x hz
    rcases hnamed with hacc | ⟨m, hm, hx⟩
    · exact hnot (hinv.2.2.2.accepted x hacc)
    · exact hflight m hm hx
  · obtain ⟨hnum, hinc, hhold, htr⟩ := hp
    have hQ : PlacesOnly (fun _ => True) a := by
      cases a with
      | restart survived backend => cases backend <;> simp [PlacesOnly]
      | _ => trivial
    exact ⟨hnum.move hmv, hinc.move hc.1 hmv,
      hhold.move (fun _ _ _ _ => trivial) hnum hQ hmv, htr.move hhold hnum hinc hQ hc.2 hmv⟩

def failedAppendRun : List ProcessAction :=
  [firstStart, restingAsk,
    .place 2 id ⟨2, 11, "BTC_USDT", .buy, .limit, some 100, 1, 1, 6⟩,
    .append 2 (.failed 0 "No space left on device")] ++
    buyOne 3 3 ++ takeSnapshot ++ [.crash, .restart 0 none]

theorem failedAppendRun_leaves_no_trace : Along (step syncConfig) (fun p a => FreshIds syncConfig
    p a ∧ AllOrNothing p a) .init failedAppendRun ∧ (failedAppendRun.foldl (step syncConfig)
    .init).failed = [2] ∧ (failedAppendRun.foldl (step syncConfig) .init).stream.length = 1 ∧
    LeavesNoTrace (failedAppendRun.foldl (step syncConfig) .init) :=
  have h : Along (step syncConfig) (fun p a => FreshIds syncConfig p a ∧ AllOrNothing p a) .init
      failedAppendRun := by decide +kernel
  ⟨h, by decide +kernel, by decide +kernel, failed_leaves_no_trace syncConfig failedAppendRun h⟩

def partialBatchRun : List ProcessAction :=
  [firstStart,
    .place 1 id ⟨1, 10, "BTC_USDT", .sell, .limit, some 100, 1, 1, 5⟩,
    .place 2 id ⟨2, 10, "BTC_USDT", .sell, .limit, some 100, 1, 1, 6⟩,
    .place 3 id ⟨3, 11, "BTC_USDT", .buy, .limit, some 100, 2, 2, 7⟩,
    .append 3 .ok, .publish 3 ⟨true, true⟩, .publish 3 ⟨false, false⟩]

def lostAckRun : List ProcessAction :=
  [firstStart, restingAsk,
    .place 2 id ⟨2, 11, "BTC_USDT", .buy, .limit, some 100, 1, 1, 6⟩,
    .append 2 .ok, .publish 2 ⟨true, true⟩, .ack 2 (.failed 0 "No space left on device")]

/-- Both placements fail with an event that names their order in the stream. -/
theorem failed_placement_is_published :
    ¬ LeavesNoTrace (partialBatchRun.foldl (step syncConfig) .init) ∧
    ¬ LeavesNoTrace (lostAckRun.foldl (step syncConfig) .init) := by
  constructor
  · intro h
    have hnone := h 3 (by decide +kernel) (by decide +kernel) (by decide +kernel)
    have hex : ∃ q ∈ (partialBatchRun.foldl (step syncConfig) .init).stream, q.2.Names 3 := by
      decide +kernel
    obtain ⟨q, hq, hz⟩ := hex
    exact hnone q (.inl hq) hz
  · intro h
    have hnone := h 2 (by decide +kernel) (by decide +kernel) (by decide +kernel)
    have hex : ∃ q ∈ (lostAckRun.foldl (step syncConfig) .init).stream, q.2.Names 2 := by
      decide +kernel
    obtain ⟨q, hq, hz⟩ := hex
    exact hnone q (.inl hq) hz

end Process

end MetherCEX
