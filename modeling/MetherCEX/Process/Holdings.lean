import MetherCEX.Process.Numbered

/-!
# The orders and the applied ids of a process

Orders are in the books, in a snapshot in progress and in the snapshot file; so are the ids of
applied events.
-/

namespace MetherCEX

open Run List Engine RaceState

section Start

variable {snapshot : Option EnginePersistenceSnapshot} {backend : Option (List Order × ℕ)}

theorem mem_startEngine {o : Order} (ho : o ∈ (startEngine snapshot backend).orders) :
    (∃ snap ∈ snapshot, o ∈ snap.orders) ∨ o ∈ backendOrders snapshot backend := by
  cases snapshot with
  | some snap => exact .inl ⟨snap, rfl, mem_of_mem_restore ho⟩
  | none =>
    cases backend with
    | none => exact nomatch ho
    | some state =>
      refine .inr ?_
      rcases mem_of_mem_foldl_insertOrder (e := Engine.new) ho with ho | ho
      · exact nomatch ho
      · exact ho

theorem mem_applied_startEngine {id : ℕ} (hid : id ∈ (startEngine snapshot
    backend).bookAppliedMatchEventIds) : ∃ snap ∈ snapshot, id ∈ snap.bookAppliedMatchEventIds := by
  cases snapshot with
  | some snap =>
    exact ⟨snap, rfl, EnginePersistenceSnapshot.mem_applied_applySnapshotToEngine.mp hid⟩
  | none =>
    cases backend with
    | none => exact nomatch hid
    | some state =>
      have happ := applied_foldl_insertOrder state.1 Engine.new
      exact absurd (happ ▸ hid) not_mem_nil

end Start

namespace Process

/-- The order is in a book, in a snapshot in progress or in the snapshot file. -/
def HoldsOrder (p : Process) (o : Order) : Prop :=
  (∃ m ∈ p.memory, m.race.HoldsOrder o) ∨ ∃ snap ∈ p.snapshotFile, o ∈ snap.orders

/-- The id is applied, for the engine, a snapshot in progress or the snapshot file. -/
def HoldsApplied (p : Process) (id : ℕ) : Prop :=
  (∃ m ∈ p.memory, m.race.HoldsApplied id) ∨
    ∃ snap ∈ p.snapshotFile, id ∈ snap.bookAppliedMatchEventIds

/-- The events of a placement name its own order and accepted ones, and so do the
orders of its matched book; once it is committed its own order is accepted. -/
structure JobFits (Q : Order → Prop) (p : Process) (J : PlacementJob) (P : Publication) :
    Prop where
  pairs_eq : P.pairs = J.pairs
  allocated : ∀ q ∈ J.pairs, q ∈ p.allocated
  names : ∀ q ∈ J.pairs, ∀ z, q.2.Names z → z ∈ p.accepted ∨ z = P.orderId
  book : J.phase = .reserved → ∀ o ∈ J.book.orders,
    Q o ∧ (o.id ∈ p.accepted ∨ o.id = P.orderId)
  inBook : J.InBook = true → P.orderId ∈ p.accepted

/-- Where the orders and the applied ids of a process come from. -/
structure Holdings (Q : Order → Prop) (p : Process) : Prop where
  orders : ∀ o, p.HoldsOrder o → Q o ∧ o.id ∈ p.accepted
  applied : ∀ id, p.HoldsApplied id →
    ∃ ev, (id, ev) ∈ p.allocated ∧ ∀ z, ev.Names z → z ∈ p.accepted
  jobs : ∀ m ∈ p.memory, ∀ job J, m.race.jobs.get? job = some J →
    ∃ P, m.publications.get? job = some P ∧ JobFits Q p J P

def PlacesOnly (Q : Order → Prop) : ProcessAction → Prop
  | .place _ _ o => Q o
  | .restart _ (some (orders, _)) => ∀ o ∈ orders, Q o
  | _ => True

variable {cfg : Config} {Q : Order → Prop} {p p' : Process} {a : ProcessAction}

theorem PlacesOnly.backend {survived : ℕ} {backend : Option (List Order × ℕ)}
    (h : PlacesOnly Q (.restart survived backend)) {snapshot : Option EnginePersistenceSnapshot}
    {o : Order} (ho : o ∈ backendOrders snapshot backend) : Q o := by
  cases snapshot with
  | some snap => exact nomatch ho
  | none =>
    cases backend with
    | none => exact nomatch ho
    | some state => exact h o ho

theorem JobFits.mono {J K : PlacementJob} {P R : Publication} (h : JobFits Q p J P)
    (hacc : ∀ z ∈ p.accepted, z ∈ p'.accepted) (halloc : ∀ q ∈ p.allocated, q ∈ p'.allocated)
    (hpairs : K.pairs = J.pairs) (hbook : K.book = J.book)
    (hphase : K.phase = .reserved → J.phase = .reserved)
    (hin : K.InBook = true → J.InBook = true ∨ P.orderId ∈ p'.accepted)
    (hid : R.orderId = P.orderId) (hR : R.pairs = P.pairs) : JobFits Q p' K R where
  pairs_eq := by rw [hR, h.pairs_eq, hpairs]
  allocated q hq := halloc q (h.allocated q (hpairs ▸ hq))
  names q hq z hz := by
    rw [hid]
    exact (h.names q (hpairs ▸ hq) z hz).imp_left (hacc z)
  book hres o ho := by
    rw [hid]
    obtain ⟨hQ, ho⟩ := h.book (hphase hres) o (hbook ▸ ho)
    exact ⟨hQ, ho.imp_left (hacc o.id)⟩
  inBook hK := by
    rw [hid]
    rcases hin hK with hJ | hP
    · exact hacc _ (h.inBook hJ)
    · exact hP

def SamePublications (m m' : Memory) : Prop :=
  ∀ job P, m.publications.get? job = some P → ∃ R, m'.publications.get? job = some R ∧
    R.orderId = P.orderId ∧ R.pairs = P.pairs

theorem SamePublications.refl (m : Memory) : SamePublications m m :=
  fun _ P hP => ⟨P, hP, rfl, rfl⟩

theorem SamePublications.insert {m m' : Memory} {job : ℕ} {P R : Publication}
    (hm' : m'.publications = m.publications.insert job R) (hP : m.publications.get? job = some P)
    (hid : R.orderId = P.orderId) (hpairs : R.pairs = P.pairs) : SamePublications m m' := by
  intro j T hT
  rw [hm', SortedMap.get?_insert]
  split_ifs with hj
  · subst hj
    rw [hP] at hT
    cases hT
    exact ⟨R, rfl, hid, hpairs⟩
  · exact ⟨T, hT, rfl, rfl⟩

namespace Holdings

theorem init (Q : Order → Prop) : Holdings Q .init where
  orders o ho := by
    rcases ho with ⟨m, hm, -⟩ | ⟨snap, hsnap, -⟩
    · cases hm
    · cases hsnap
  applied id hid := by
    rcases hid with ⟨m, hm, -⟩ | ⟨snap, hsnap, -⟩
    · cases hm
    · cases hsnap
  jobs _ hm := by cases hm

variable {job : ℕ} {m m' : Memory} {o : Order} {now : ℕ → ℕ}

variable (h : Holdings Q p)

include h

theorem of_inBook (hm : p.memory = some m) {J : PlacementJob} (hJ : m.race.jobs.get? job = some J)
    (hin : J.InBook = true) {id : ℕ} (hid : id ∈ J.ids) :
    ∃ ev, (id, ev) ∈ p.allocated ∧ ∀ z, ev.Names z → z ∈ p.accepted := by
  obtain ⟨P, -, hfit⟩ := h.jobs m hm job J hJ
  obtain ⟨q, hq, rfl⟩ := mem_map.mp hid
  refine ⟨q.2, hfit.allocated q hq, fun z hz => ?_⟩
  rcases hfit.names q hq z hz with hz | rfl
  · exact hz
  · exact hfit.inBook hin

theorem change (hm : p.memory = some m) (hm' : p'.memory = some m')
    (hacc : ∀ z ∈ p.accepted, z ∈ p'.accepted) (halloc : ∀ q ∈ p.allocated, q ∈ p'.allocated)
    (hfile : ∀ snap ∈ p'.snapshotFile, snap ∈ p.snapshotFile ∨ ∃ r ∈ m.race.reader,
    r.snapshot = some snap) (horders : ∀ o, m'.race.HoldsOrder o → m.race.HoldsOrder o ∨ Q o ∧
    o.id ∈ p'.accepted) (happlied : ∀ id, m'.race.HoldsApplied id → m.race.HoldsApplied id ∨ ∃ ev,
    (id, ev) ∈ p'.allocated ∧ ∀ z, ev.Names z → z ∈ p'.accepted) (hjobs : ∀ job K, m'.race.jobs.get?
    job = some K → ∃ R, m'.publications.get? job = some R ∧ JobFits Q p' K R) : Holdings Q p' := by
  have hold : ∀ o, p.HoldsOrder o → Q o ∧ o.id ∈ p'.accepted := fun o ho =>
    (h.orders o ho).imp_right (hacc o.id)
  have hold' : ∀ id, p.HoldsApplied id →
      ∃ ev, (id, ev) ∈ p'.allocated ∧ ∀ z, ev.Names z → z ∈ p'.accepted := by
    intro id hid
    obtain ⟨ev, hev, hnames⟩ := h.applied id hid
    exact ⟨ev, halloc _ hev, fun z hz => hacc z (hnames z hz)⟩
  refine ⟨fun o ho => ?_, fun id hid => ?_, fun n hn job K hK => ?_⟩
  · rcases ho with ⟨n, hn, ho⟩ | ⟨snap, hsnap, ho⟩
    · rw [hm'] at hn
      cases hn
      rcases horders o ho with ho | ho
      · exact hold o (.inl ⟨m, hm, ho⟩)
      · exact ho
    · rcases hfile snap hsnap with hsnap | ⟨r, hr, hsnap⟩
      · exact hold o (.inr ⟨snap, hsnap, ho⟩)
      · exact hold o (.inl ⟨m, hm, .inr ⟨r, hr, .inr ⟨snap, hsnap, ho⟩⟩⟩)
  · rcases hid with ⟨n, hn, hid⟩ | ⟨snap, hsnap, hid⟩
    · rw [hm'] at hn
      cases hn
      rcases happlied id hid with hid | hid
      · exact hold' id (.inl ⟨m, hm, hid⟩)
      · exact hid
    · rcases hfile snap hsnap with hsnap | ⟨r, hr, hsnap⟩
      · exact hold' id (.inr ⟨snap, hsnap, hid⟩)
      · exact hold' id (.inl ⟨m, hm, .inr ⟨r, hr, .inr ⟨snap, hsnap, hid⟩⟩⟩)
  · rw [hm'] at hn
    cases hn
    exact hjobs job K hK

theorem quiet (hm : p.memory = some m) (hm' : p'.memory = some m') (hacc : p'.accepted = p.accepted)
    (halloc : p'.allocated = p.allocated) (hfile : ∀ snap ∈ p'.snapshotFile, snap ∈ p.snapshotFile ∨
    ∃ r ∈ m.race.reader, r.snapshot = some snap)
    (hrace : RaceState.Quiet m.race m'.race) (hpub : SamePublications m m') : Holdings Q p' := by
  refine h.change hm hm' (fun z hz => hacc ▸ hz) (fun q hq => halloc ▸ hq) hfile
    (fun o ho => .inl (hrace.orders o ho)) (fun id hid => ?_) fun job K hK => ?_
  · rcases hrace.applied id hid with hid | ⟨job, J, hJ, hin, hid⟩
    · exact .inl hid
    · rw [hacc, halloc]
      exact .inr (h.of_inBook hm hJ hin hid)
  · obtain ⟨J, hJ, hpairs, hbook, hphase, hin⟩ := hrace.jobs job K hK
    obtain ⟨P, hP, hfit⟩ := h.jobs m hm job J hJ
    obtain ⟨R, hR, hid, hRpairs⟩ := hpub job P hP
    exact ⟨R, hR, hfit.mono (fun z hz => hacc ▸ hz) (fun q hq => halloc ▸ hq) hpairs hbook hphase
      (fun hK => .inl (hin hK)) hid hRpairs⟩

theorem down (hm' : p'.memory = none) (hfile : p'.snapshotFile = p.snapshotFile)
    (hacc : p'.accepted = p.accepted) (halloc : p'.allocated = p.allocated) : Holdings Q p' := by
  refine ⟨fun o ho => ?_, fun id hid => ?_, fun n hn => ?_⟩
  · rw [hacc]
    rcases ho with ⟨m, hm, -⟩ | ho
    · rw [hm'] at hm
      cases hm
    · exact h.orders o (.inr (hfile ▸ ho))
  · rw [hacc, halloc]
    rcases hid with ⟨m, hm, -⟩ | hid
    · rw [hm'] at hm
      cases hm
    · exact h.applied id (.inr (hfile ▸ hid))
  · rw [hm'] at hn
    cases hn

theorem jobs_mono (hm : p.memory = some m) (hacc : ∀ z ∈ p.accepted, z ∈ p'.accepted)
    (halloc : ∀ q ∈ p.allocated, q ∈ p'.allocated) {J : PlacementJob} (hJ : m.race.jobs.get? job =
    some J) : ∃ P, m.publications.get? job = some P ∧ JobFits Q p' J P := by
  obtain ⟨P, hP, hfit⟩ := h.jobs m hm job J hJ
  exact ⟨P, hP, hfit.mono hacc halloc rfl rfl id .inl rfl rfl⟩

omit h

section Trial

variable (hQ : ∀ x y : Order, x.Descends y → Q y → Q x) {m : Memory} {now : ℕ → ℕ} {o : Order}
include hQ

theorem trial_orders (h : Holdings Q p) (hm : p.memory = some m) (ho : Q o) {x : Order} (hx : x ∈
    (m.race.engine.trialMatch now o).2.orders) : Q x ∧ (x.id ∈ p.accepted ∨ x.id = o.id) := by
  obtain ⟨y, hy, hxy⟩ := (m.race.engine.trialMatch_provenance now o).1 x hx
  rw [hxy.id_eq]
  rcases hy with rfl | hy
  · exact ⟨hQ x y hxy ho, .inr rfl⟩
  · obtain ⟨hQy, hid⟩ := h.orders y
      (.inl ⟨m, hm, .inl (mem_orders_of_mem_bookOf hy)⟩)
    exact ⟨hQ x y hxy hQy, .inl hid⟩

theorem commit_trial (h : Holdings Q p) (hm : p.memory = some m) (ho : Q o) {x : Order}
    (hx : x ∈ (m.race.engine.commitBook o.market (m.race.engine.trialMatch now o).2).orders) :
    x ∈ m.race.engine.orders ∨ Q x ∧ x.id ∈ o.id :: p.accepted := by
  rcases mem_commitBook hx with hx | hx
  · obtain ⟨hQx, hid⟩ := h.trial_orders hQ hm ho hx
    refine .inr ⟨hQx, ?_⟩
    rcases hid with hid | hid
    · exact mem_cons_of_mem _ hid
    · exact hid ▸ mem_cons_self
  · exact .inl hx

end Trial

theorem trial_names (h : Holdings Q p) (hm : p.memory = some m) {q : ℕ × MatchEvent}
    (hq : q ∈ m.race.engine.pendingPairs now o) {z : OrderId} (hz : q.2.Names z) :
    z ∈ p.accepted ∨ z = o.id := by
  have hev : q.2 ∈ (m.race.engine.trialMatch now o).1 := by
    have hmem := mem_map_of_mem (f := Prod.snd) hq
    rwa [pendingPairs, numberEvents_snd] at hmem
  rcases (m.race.engine.trialMatch_provenance now o).2 q.2 hev z hz with hz | ⟨y, hy, rfl⟩
  · exact .inr hz
  · exact .inl (h.orders y
      (.inl ⟨m, hm, .inl (mem_orders_of_mem_bookOf hy)⟩)).2

theorem placeReserve (hQ : ∀ x y : Order, x.Descends y → Q y → Q x)
    (h : Holdings Q p) (hm : p.memory = some m) (ho : Q o)
    {P : Publication} (hid : P.orderId = o.id) (hpairs : P.pairs = m.race.engine.pendingPairs now o)
    (hm' : p'.memory = some m') (hacc : p'.accepted = p.accepted) (halloc : p'.allocated =
    p.allocated ++ m.race.engine.pendingPairs now o) (hfile : p'.snapshotFile = p.snapshotFile)
    (horders : m'.race.engine.orderBooks = m.race.engine.orderBooks)
    (happlied : m'.race.engine.bookAppliedMatchEventIds = m.race.engine.bookAppliedMatchEventIds)
    (hreader : m'.race.reader = m.race.reader) (hjobs : m'.race.jobs = m.race.jobs.insert
    job ⟨o.market, (m.race.engine.trialMatch now o).2, m.race.engine.pendingPairs now o, .reserved⟩)
    (hpub : m'.publications = m.publications.insert job P) : Holdings Q p' := by
  have hgrow : ∀ q ∈ p.allocated, q ∈ p'.allocated := by
    intro q hq
    rw [halloc]
    exact mem_append_left _ hq
  refine h.change hm hm' (fun z hz => hacc ▸ hz) hgrow (fun snap hsnap => .inl (hfile ▸ hsnap))
    (fun x hx => .inl ?_) (fun i hi => .inl ?_) fun j K hK => ?_
  · rw [RaceState.HoldsOrder, Engine.orders, horders, hreader] at hx
    exact hx
  · rw [RaceState.HoldsApplied, happlied, hreader] at hi
    exact hi
  · rw [hjobs, SortedMap.get?_insert] at hK
    rw [hpub, SortedMap.get?_insert]
    split_ifs at hK ⊢ with hj
    · cases hK
      refine ⟨P, rfl, hpairs, fun q hq => ?_, fun q hq z hz => ?_, fun _ x hx => ?_, fun hin => ?_⟩
      · rw [halloc]
        exact mem_append_right _ hq
      · rw [hacc, hid]
        exact h.trial_names hm hq hz
      · rw [hacc, hid]
        exact h.trial_orders hQ hm ho hx
      · cases hin
    · exact h.jobs_mono hm (fun z hz => hacc ▸ hz) hgrow hK

theorem placeDirect (hQ : ∀ x y : Order, x.Descends y → Q y → Q x) (h : Holdings Q p)
    (hm : p.memory = some m) (ho : Q o) : Holdings Q (p.placeDirect cfg m now o) := by
  have hgrow : ∀ q ∈ p.allocated, q ∈ (p.placeDirect cfg m now o).allocated :=
    fun q hq => mem_append_left _ hq
  refine h.change hm rfl (fun z hz => mem_cons_of_mem _ hz) hgrow
    (fun snap hsnap => .inl hsnap) (fun x hx => ?_) (fun i hi => ?_) fun j K hK =>
      h.jobs_mono hm (fun z hz => mem_cons_of_mem _ hz) hgrow hK
  · rcases hx with hx | hx
    · rw [Engine.orders, Engine.orderBooks_placeOrder] at hx
      exact (h.commit_trial hQ hm ho hx).imp_left .inl
    · exact .inl (.inr hx)
  · rcases hi with hi | hi
    · rcases mem_applied_placeOrder.mp hi with hi | hi
      · exact .inl (.inl hi)
      · obtain ⟨q, hq, rfl⟩ := mem_map.mp hi
        refine .inr ⟨q.2, mem_append_right _ hq, fun z hz => ?_⟩
        rcases h.trial_names hm hq hz with hz | rfl
        · exact mem_cons_of_mem _ hz
        · exact mem_cons_self
    · exact .inl (.inr hi)

theorem commit (h : Holdings Q p) (engineId : String) (hm : p.memory = some m)
    {P R : Publication} (hP : m.publications.get? job = some P) (hm' : p'.memory = some m')
    (hrace : m'.race = m.race.step engineId (.commit job)) (hpub : m'.publications =
    m.publications.insert job R) (hid : R.orderId = P.orderId) (hpairs : R.pairs = P.pairs)
    (hacc : p'.accepted = P.orderId :: p.accepted) (halloc : p'.allocated = p.allocated)
    (hfile : p'.snapshotFile = p.snapshotFile) : Holdings Q p' := by
  have hgrow : ∀ z ∈ p.accepted, z ∈ p'.accepted := by
    intro z hz
    rw [hacc]
    exact mem_cons_of_mem _ hz
  refine h.change hm hm' hgrow (fun q hq => halloc ▸ hq) (fun snap hsnap => .inl (hfile ▸ hsnap))
    (fun x hx => ?_) (fun i hi => ?_) fun j K hK => ?_
  · rw [hrace] at hx
    rcases commit_orders hx with hx | ⟨J, hJ, hphase, hx⟩
    · exact .inl hx
    · obtain ⟨T, hT, hfit⟩ := h.jobs m hm job J hJ
      rw [hP] at hT
      cases hT
      obtain ⟨hQx, hx⟩ := hfit.book hphase x hx
      rw [hacc]
      exact .inr ⟨hQx, mem_cons.mpr hx.symm⟩
  · rw [hrace] at hi
    exact .inl (commit_applied.mp hi)
  · rw [hrace] at hK
    obtain ⟨J, hJ, hKpairs, hbook, hphase, hin⟩ := commit_jobs hK
    obtain ⟨T, hT, hfit⟩ := h.jobs m hm j J hJ
    obtain ⟨S, hS, hSid, hSpairs⟩ := SamePublications.insert hpub hP hid hpairs j T hT
    refine ⟨S, hS, hfit.mono hgrow (fun q hq => halloc ▸ hq) hKpairs hbook hphase (fun hK => ?_)
      hSid hSpairs⟩
    refine (hin hK).imp_right fun hj => ?_
    subst hj
    rw [hP] at hT
    cases hT
    rw [hacc]
    exact mem_cons_self

theorem start_orders (h : Holdings Q p) {backend : Option (List Order × ℕ)}
    (hback : ∀ o ∈ backendOrders p.snapshotFile backend, Q o)
    (ho : o ∈ (startEngine p.snapshotFile backend).orders) :
    Q o ∧ o.id ∈ (backendOrders p.snapshotFile backend).map Order.id ++ p.accepted := by
  rcases mem_startEngine ho with ho | ho
  · exact (h.orders o (.inr ho)).imp_right (mem_append_right _)
  · exact ⟨hback o ho, mem_append_left _ (mem_map_of_mem ho)⟩

theorem restart (hQ : ∀ x y : Order, x.Descends y → Q y → Q x)
    (h : Holdings Q p) (hnum : Numbered cfg p) {survived : ℕ} {backend : Option (List Order × ℕ)}
    (hback : ∀ o ∈ backendOrders p.snapshotFile backend, Q o) {e : Engine}
    (hreplay : (startEngine p.snapshotFile backend).replayRows (rowsAtStart cfg p survived) = .ok e)
    {rows : List WalPendingEvent} (hm' : p'.memory = some (booted cfg e rows)) (hacc : p'.accepted =
    (backendOrders p.snapshotFile backend).map Order.id ++ p.accepted) (halloc : p'.allocated =
    p.allocated) (hfile : p'.snapshotFile = p.snapshotFile) : Holdings Q p' := by
  have hrows := replayRows_spec (rowsAtStart_sorted cfg p survived) hreplay
  have hgrow : ∀ z ∈ p.accepted, z ∈ p'.accepted := by
    intro z hz
    rw [hacc]
    exact mem_append_right _ hz
  have hstart : ∀ o ∈ (startEngine p.snapshotFile backend).orders, Q o ∧ o.id ∈ p'.accepted := by
    intro o ho
    rw [hacc]
    exact h.start_orders hback ho
  have happlied : ∀ i, (∃ snap ∈ p.snapshotFile, i ∈ snap.bookAppliedMatchEventIds) →
      ∃ ev, (i, ev) ∈ p'.allocated ∧ ∀ z, ev.Names z → z ∈ p'.accepted := by
    intro i hi
    obtain ⟨ev, hev, hnames⟩ := h.applied i (.inr hi)
    rw [halloc]
    exact ⟨ev, hev, fun z hz => hgrow z (hnames z hz)⟩
  refine ⟨fun o ho => ?_, fun i hi => ?_, fun n hn job J hJ => ?_⟩
  · rcases ho with ⟨n, hn, ho⟩ | ho
    · rw [hm'] at hn
      cases hn
      rcases ho with ho | ⟨r, hr, -⟩
      · obtain ⟨y, hy, hxy⟩ := hrows.from_before o ho
        obtain ⟨hQy, hid⟩ := hstart y hy
        exact ⟨hQ o y hxy hQy, hxy.id_eq ▸ hid⟩
      · cases hr
    · rw [hfile] at ho
      exact (h.orders o (.inr ho)).imp_right (hgrow o.id)
  · rcases hi with ⟨n, hn, hi⟩ | hi
    · rw [hm'] at hn
      cases hn
      rcases hi with hi | ⟨r, hr, -⟩
      · by_cases hbefore : i ∈ (startEngine p.snapshotFile backend).bookAppliedMatchEventIds
        · exact happlied i (mem_applied_startEngine hbefore)
        · -- a row that the replay has applied
          obtain hi | ⟨row, hrow, rfl⟩ := (hrows.applied i).mp hi
          · exact absurd hi hbefore
          · refine ⟨row.event, halloc ▸ hnum.rows row (mem_rows_of_mem_rowsAtStart hrow),
              fun z hz => ?_⟩
            obtain ⟨y, hy, rfl⟩ := hrows.names row hrow hbefore z hz
            exact (hstart y hy).2
      · cases hr
    · rw [hfile] at hi
      exact happlied i hi
  · rw [hm'] at hn
    cases hn
    cases hJ

theorem move (hQ : ∀ x y : Order, x.Descends y → Q y → Q x) (h : Holdings Q p)
    (hnum : Numbered cfg p) (hc : PlacesOnly Q a) (hmv : Move cfg p a p') : Holdings Q p' := by
  have hfile : ∀ {m : Memory}, ∀ snap ∈ p.snapshotFile, snap ∈ p.snapshotFile ∨
      ∃ r ∈ m.race.reader, r.snapshot = some snap := fun snap hsnap => .inl hsnap
  cases hmv with
  | @placeAtOnce m job now o hm =>
    have hacc : ∀ z ∈ p.accepted, z ∈ o.id :: p.accepted := fun z hz =>
      mem_cons_of_mem _ hz
    refine h.change hm rfl hacc (fun q hq => hq) hfile (fun x hx => ?_)
      (fun i hi => .inl hi) fun j K hK => ?_
    · rcases hx with hx | hx
      · exact (h.commit_trial hQ hm hc hx).imp_left .inl
      · exact .inl (.inr hx)
    · refine h.jobs_mono hm ?_ ?_ hK
      · exact hacc
      · exact fun q hq => hq
  | placeReserve hm =>
    exact h.placeReserve hQ hm hc rfl rfl rfl rfl rfl rfl rfl rfl rfl rfl rfl
  | placeDirect hm => exact h.placeDirect hQ hm hc
  | append hm hP =>
    exact h.quiet hm rfl rfl rfl hfile (RaceState.Quiet.refl _) (.insert rfl hP rfl rfl)
  | appendFails hm hP =>
    exact h.quiet hm rfl rfl rfl hfile (quiet_abort cfg.engineId _)
      (.insert rfl hP rfl rfl)
  | publish hm hP =>
    exact h.quiet hm rfl rfl rfl hfile (RaceState.Quiet.refl _) (.insert rfl hP rfl rfl)
  | publishFails hm hP =>
    exact h.quiet hm rfl rfl rfl hfile (quiet_abort cfg.engineId _)
      (.insert rfl hP rfl rfl)
  | ack hm hP =>
    exact h.quiet hm rfl rfl rfl hfile (RaceState.Quiet.refl _) (.insert rfl hP rfl rfl)
  | ackFails hm hP =>
    exact h.quiet hm rfl rfl rfl hfile (quiet_abort cfg.engineId _)
      (.insert rfl hP rfl rfl)
  | commit hm hP =>
    exact h.commit cfg.engineId hm hP rfl rfl rfl rfl rfl rfl rfl rfl
  | inner hm ha =>
    exact h.quiet hm rfl rfl rfl hfile (quiet_of_free cfg.engineId ha) (.refl _)
  | enqueue hm hP =>
    exact h.quiet hm rfl rfl rfl hfile (RaceState.Quiet.refl _) (.insert rfl hP rfl rfl)
  | saveSnapshot hm hr hsnap =>
    refine h.quiet hm rfl rfl rfl (fun snap hs => ?_) quiet_noReader (.refl _)
    cases hs
    exact .inr ⟨_, hr, hsnap⟩
  | dropSnapshot hm =>
    exact h.quiet hm rfl rfl rfl hfile quiet_noReader (.refl _)
  | pipelinePublish hm | bootPublish hm =>
    exact h.quiet hm rfl rfl rfl hfile (RaceState.Quiet.refl _) (.refl _)
  | bootFails hm => exact h.down rfl rfl rfl rfl
  | ackPublished hm | ackLost hm =>
    exact h.quiet hm rfl rfl rfl hfile (RaceState.Quiet.refl _) (.refl _)
  | ackStops hm | crash hm => exact h.down rfl rfl rfl rfl
  | restartFails hm => exact h.down hm rfl rfl rfl
  | restart hm hreplay =>
    exact h.restart hQ hnum (fun o ho => hc.backend ho) hreplay rfl rfl rfl rfl

end Holdings

end Process

end MetherCEX
