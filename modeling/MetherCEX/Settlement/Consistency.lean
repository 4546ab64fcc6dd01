import MetherCEX.Settlement.Transactions

/-!
# Tables and transactions fit together

`SettlementState.Consistent` is what every reachable state satisfies: the ids of the rows are
unique, a row has its four ledger entries or none, and every open transaction holds the lock of
its row and, once it has settled, those of its balances.
-/

namespace MetherCEX

open Checks Run List SettlementRow SettlementTerms LockTable SettlementState

@[simp] theorem entriesOf_append (es es' : List LedgerEntry) (id : ℕ) :
    entriesOf (es ++ es') id = entriesOf es id ++ entriesOf es' id :=
  filter_append ..

variable {id : ℕ} {f : SettlementRow → SettlementRow} {rows : List SettlementRow}

theorem entriesOf_eq_nil_iff {es : List LedgerEntry} :
    entriesOf es id = [] ↔ ¬ ∃ e ∈ es, e.settlementEventId = id := by
  simp [entriesOf]

namespace SettlementTerms

variable {t : SettlementTerms} {id id' : ℕ}

theorem settlementEventId_of_mem_entries {e : LedgerEntry} (h : e ∈ t.entries id) :
    e.settlementEventId = id := by
  obtain ⟨d, -, rfl⟩ := mem_map.mp h
  rfl

theorem entriesOf_entries : entriesOf (t.entries id) id = t.entries id := by
  apply filter_eq_self.mpr
  intro e he
  simp [settlementEventId_of_mem_entries he]

theorem entriesOf_entries_of_ne (h : id' ≠ id) : entriesOf (t.entries id) id' = [] := by
  rw [entriesOf_eq_nil_iff]
  rintro ⟨e, he, rfl⟩
  exact h (settlementEventId_of_mem_entries he)

theorem entries_ne_nil : t.entries id ≠ [] := by
  cases hside : t.payload.takerSide with
  | buy | sell => simp [entries, computeSettlementLedgerDeltasFromPayload, hside]

theorem updates_ne_nil {bal : Balances} : t.updates bal ≠ [] := by
  cases hside : t.payload.takerSide with
  | buy | sell => simp [updates, hside]

def Touches (t : SettlementTerms) (u : UserId) (c : CurrencyId) : Prop :=
  (u = t.takerId ∨ u = t.makerId) ∧
    (c = t.market.baseCurrencyId ∨ c = t.market.quoteCurrencyId)

theorem assetToCurrency_cases (m : MarketAssets) (asset : String) :
    m.assetToCurrency asset = m.baseCurrencyId ∨ m.assetToCurrency asset = m.quoteCurrencyId := by
  by_cases h : asset = m.quote
  · exact .inr (if_pos h)
  · exact .inl (if_neg h)

theorem updates_congr {bal bal' : Balances} (h : ∀ u c, t.Touches u c → bal' u c = bal u c) :
    t.updates bal' = t.updates bal := by
  have htaker : ∀ asset, t.getBal bal' t.takerId asset = t.getBal bal t.takerId asset :=
    fun asset => h _ _ ⟨.inl rfl, assetToCurrency_cases _ asset⟩
  have hmaker : ∀ asset, t.getBal bal' t.makerId asset = t.getBal bal t.makerId asset :=
    fun asset => h _ _ ⟨.inr rfl, assetToCurrency_cases _ asset⟩
  simp only [updates, baseUpdate, quoteUpdate, htaker, hmaker]

theorem touches_of_mem_updates {bal : Balances} {x : BalanceUpdate} (h : x ∈ t.updates bal) :
    t.Touches x.userId x.currencyId := by
  have hkey : x.key ∈ (t.updates bal).map (·.key) := mem_map_of_mem h
  rw [updates_keys] at hkey
  simp only [mem_cons, not_mem_nil, or_false, BalanceUpdate.key, Prod.mk.injEq] at hkey
  unfold Touches
  tauto

end SettlementTerms

theorem applyUpdates_of_forall_ne {bal : Balances} {us : List BalanceUpdate} {u : UserId}
    {c : CurrencyId} (h : ∀ x ∈ us, x.key ≠ (u, c)) : applyUpdates bal us u c = bal u c := by
  induction us generalizing bal with
  | nil => rfl
  | cons x us ih =>
    rw [applyUpdates, foldl_cons, ← applyUpdates,
      ih fun y hy => h y (mem_cons_of_mem x hy)]
    exact Balances.set_of_ne (Ne.symm (h x mem_cons_self))

/-- The statements that change a row keep its id and its payload. -/
structure KeepsRow (f : SettlementRow → SettlementRow) : Prop where
  id : ∀ r, (f r).id = r.id
  payload : ∀ r, (f r).payload = r.payload

theorem SettlementRow.keepsRow_setStatus (status : SettlementStatus) :
    KeepsRow (setStatus status) := ⟨fun _ => rfl, fun _ => rfl⟩

theorem SettlementRow.keepsRow_countRetry : KeepsRow countRetry :=
  ⟨fun _ => rfl, fun _ => rfl⟩

theorem updateRow_ids (hf : KeepsRow f) : (updateRow rows id f).map (·.id) = rows.map (·.id) := by
  rw [updateRow, map_map]
  apply map_congr_left
  intro r _
  by_cases h : r.id = id
  · simp [h, hf.id]
  · simp [h]

theorem exists_of_mem_updateRow (hf : KeepsRow f) {r : SettlementRow} (h : r ∈ updateRow rows id f)
    : ∃ r₀ ∈ rows, r.id = r₀.id ∧ r.payload = r₀.payload ∧ r = if r₀.id = id then f r₀ else r₀ := by
  obtain ⟨r₀, hr₀, rfl⟩ := mem_map.mp h
  by_cases hid : r₀.id = id
  · exact ⟨r₀, hr₀, by simp [hid, hf.id], by simp [hid, hf.payload], rfl⟩
  · exact ⟨r₀, hr₀, by simp [hid], by simp [hid], rfl⟩

theorem mem_updateRow (hf : KeepsRow f) {r : SettlementRow} (h : r ∈ rows) :
    ∃ r' ∈ updateRow rows id f, r'.id = r.id ∧ r'.payload = r.payload := by
  by_cases hid : r.id = id
  · exact ⟨f r, mem_map.mpr ⟨r, h, if_pos hid⟩, hf.id r, hf.payload r⟩
  · exact ⟨r, mem_map.mpr ⟨r, h, if_neg hid⟩, rfl, rfl⟩

/-- The row has no ledger entries, or the four of one settlement of its payload. -/
def SettledOnce (ledger : List LedgerEntry) (r : SettlementRow) : Prop :=
  entriesOf ledger r.id = [] ∨
    ∃ t : SettlementTerms, r.payload = some t.payload ∧ entriesOf ledger r.id = t.entries r.id

structure TablesOk (rows : List SettlementRow) (ledger : List LedgerEntry) (nextId : ℕ)
    (applied : List ℕ) : Prop where
  ids_nodup : (rows.map (·.id)).Nodup
  id_lt : ∀ r ∈ rows, r.id < nextId
  entry_row : ∀ e ∈ ledger, ∃ r ∈ rows, r.id = e.settlementEventId
  settledOnce : ∀ r ∈ rows, SettledOnce ledger r
  applied_iff : ∀ id, id ∈ applied ↔ entriesOf ledger id ≠ []
  applied_nodup : applied.Nodup

namespace TablesOk

variable {rows : List SettlementRow} {ledger : List LedgerEntry} {nextId : ℕ}
  {applied : List ℕ}

variable (h : TablesOk rows ledger nextId applied)

include h

theorem entriesOf_eq_nil {id : ℕ} (hid : ∀ r ∈ rows, r.id ≠ id) : entriesOf ledger id = [] := by
  rw [entriesOf_eq_nil_iff]
  rintro ⟨e, he, rfl⟩
  obtain ⟨r, hr, hre⟩ := h.entry_row e he
  exact hid r hr hre

theorem append {r : SettlementRow} {next' : ℕ} (hnew : ∀ r' ∈ rows, r'.id ≠ r.id)
    (hlt : r.id < next') (hnext : nextId ≤ next') :
    TablesOk (rows ++ [r]) ledger next' applied where
  ids_nodup := by
    rw [map_append, map_singleton, ← concat_eq_append]
    apply h.ids_nodup.concat
    intro hmem
    obtain ⟨r', hr', hid⟩ := mem_map.mp hmem
    exact hnew r' hr' hid
  id_lt := by
    intro r' hr'
    rcases mem_append.mp hr' with hr' | hr'
    · exact (h.id_lt r' hr').trans_le hnext
    · rwa [mem_singleton.mp hr']
  entry_row := by
    intro e he
    obtain ⟨r', hr', hid⟩ := h.entry_row e he
    exact ⟨r', mem_append_left _ hr', hid⟩
  settledOnce := by
    intro r' hr'
    rcases mem_append.mp hr' with hr' | hr'
    · exact h.settledOnce r' hr'
    · rw [mem_singleton.mp hr']
      exact .inl (h.entriesOf_eq_nil hnew)
  applied_iff := h.applied_iff
  applied_nodup := h.applied_nodup

theorem updateRow (id : ℕ) {f : SettlementRow → SettlementRow} (hf : KeepsRow f) :
    TablesOk (updateRow rows id f) ledger nextId applied where
  ids_nodup := by
    rw [updateRow_ids hf]
    exact h.ids_nodup
  id_lt := by
    intro r hr
    obtain ⟨r₀, hr₀, hid, -, -⟩ := exists_of_mem_updateRow hf hr
    rw [hid]
    exact h.id_lt r₀ hr₀
  entry_row := by
    intro e he
    obtain ⟨r₀, hr₀, hid⟩ := h.entry_row e he
    obtain ⟨r, hr, hrid, -⟩ := mem_updateRow hf hr₀
    exact ⟨r, hr, hrid.trans hid⟩
  settledOnce := by
    intro r hr
    obtain ⟨r₀, hr₀, hid, hpayload, -⟩ := exists_of_mem_updateRow hf hr
    rw [SettledOnce, hid, hpayload]
    exact h.settledOnce r₀ hr₀
  applied_iff := h.applied_iff
  applied_nodup := h.applied_nodup

theorem settle {r : SettlementRow} (hr : r ∈ rows) {t : SettlementTerms}
    (hpayload : r.payload = some t.payload) (hnone : entriesOf ledger r.id = []) :
    TablesOk rows (ledger ++ t.entries r.id) nextId (applied ++ [r.id]) where
  ids_nodup := h.ids_nodup
  id_lt := h.id_lt
  entry_row := by
    intro e he
    rcases mem_append.mp he with he | he
    · exact h.entry_row e he
    · exact ⟨r, hr, (settlementEventId_of_mem_entries he).symm⟩
  settledOnce := by
    intro r' hr'
    by_cases hid : r'.id = r.id
    · have hrr : r' = r := List.inj_on_of_nodup_map h.ids_nodup hr' hr hid
      subst hrr
      refine .inr ⟨t, hpayload, ?_⟩
      rw [entriesOf_append, hnone, entriesOf_entries, nil_append]
    · rw [SettledOnce, entriesOf_append, entriesOf_entries_of_ne hid,
        append_nil]
      exact h.settledOnce r' hr'
  applied_iff := by
    intro id
    rw [mem_append, mem_singleton, h.applied_iff, entriesOf_append]
    by_cases hid : id = r.id
    · subst hid
      simp [entriesOf_entries, entries_ne_nil]
    · simp [hid, entriesOf_entries_of_ne hid]
  applied_nodup := by
    rw [← concat_eq_append]
    apply h.applied_nodup.concat
    intro hmem
    exact (h.applied_iff r.id).mp hmem hnone

end TablesOk

namespace SettlementState

variable {D : MarketAssets → Prop} {s s' s'' : SettlementState} {p q : ProcessId}

/-- What a transaction has computed agrees with the tables as they are now: the row was settled
before and is only replayed, or it has no entries, and the balances are locked and as they were
read. -/
inductive EffectOk (D : MarketAssets → Prop) (s : SettlementState) (p : ProcessId)
    (row : SettlementRow) (eff : SettlementEffect) : Prop
  | replay (entries : entriesOf s.ledger row.id ≠ []) (effect : eff = ⟨[], [], []⟩)
  | settled (t : SettlementTerms) (payload : row.payload = some t.payload)
      (entries : entriesOf s.ledger row.id = []) (users : t.takerId ≠ t.makerId)
      (market : D t.market)
      (locks : ∀ u c, t.Touches u c → s.locks (.balance u c) = some p)
      (effect : eff = ⟨t.entries row.id, t.updates s.balances, [t.trade]⟩)

structure TxOk (D : MarketAssets → Prop) (s : SettlementState) (p : ProcessId)
    (tx : Transaction) : Prop where
  lock : s.locks (.row tx.row.id) = some p
  id_lt : tx.row.id < s.nextId
  stored : tx.inserted = false →
    ∃ r ∈ s.rows, r.id = tx.row.id ∧ r.payload = tx.row.payload
  fresh : tx.inserted = true → ∀ r ∈ s.rows, r.id ≠ tx.row.id
  effect : ∀ eff, tx.effect = some eff → EffectOk D s p tx.row eff

/-- The change from `s` to `s'` leaves what the process `p` has locked as it is. -/
structure Keeps (p : ProcessId) (s s' : SettlementState) : Prop where
  locks : ∀ k, s.locks k = some p → s'.locks k = some p
  balances : ∀ u c, s.locks (.balance u c) = some p → s'.balances u c = s.balances u c
  entries : ∀ id, s.locks (.row id) = some p → entriesOf s'.ledger id = entriesOf s.ledger id
  nextId : s.nextId ≤ s'.nextId
  stored : ∀ r ∈ s.rows, ∃ r' ∈ s'.rows, r'.id = r.id ∧ r'.payload = r.payload
  fresh : ∀ r' ∈ s'.rows, s.locks (.row r'.id) = some p → r'.id < s.nextId →
    ∃ r ∈ s.rows, r.id = r'.id

variable {tx : Transaction} {r : SettlementRow} {eff : SettlementEffect} {ctx : SettlementContext}
  {pl : EnginePayload}

theorem TxOk.keep (h : TxOk D s p tx) (hk : Keeps p s s') :
    TxOk D s' p tx where
  lock := hk.locks _ h.lock
  id_lt := h.id_lt.trans_le hk.nextId
  stored := by
    intro hins
    obtain ⟨r, hr, hid, hpayload⟩ := h.stored hins
    obtain ⟨r', hr', hid', hpayload'⟩ := hk.stored r hr
    exact ⟨r', hr', hid'.trans hid, hpayload'.trans hpayload⟩
  fresh := by
    intro hins r' hr' hid
    obtain ⟨r, hr, hrid⟩ := hk.fresh r' hr' (by rw [hid, h.lock]) (by rw [hid]; exact h.id_lt)
    exact h.fresh hins r hr (hrid.trans hid)
  effect := by
    intro eff heff
    have hentries := hk.entries _ h.lock
    cases h.effect eff heff with
    | replay entries effect => exact .replay (by rwa [hentries]) effect
    | settled t payload entries users market locks effect =>
      refine .settled t payload (by rwa [hentries]) users market
        (fun u c htc => hk.locks _ (locks u c htc)) ?_
      rw [effect, updates_congr fun u c htc => hk.balances u c (locks u c htc)]

theorem Keeps.refl (p : ProcessId) (s : SettlementState) : Keeps p s s :=
  ⟨fun _ h => h, fun _ _ _ => rfl, fun _ _ => rfl, le_rfl, fun r hr => ⟨r, hr, rfl, rfl⟩,
    fun r hr _ _ => ⟨r, hr, rfl⟩⟩

theorem keeps_leave (hq : q ≠ p) (next : Option Progress) : Keeps q s (s.leave p next) :=
  { Keeps.refl q s with locks := fun _ h => release_eq_some h hq }

variable {ks : List Resource} {f : SettlementRow → SettlementRow} {id : ℕ}

theorem keeps_enter (hfree : s.locks.CanTake p ks) (tx : Transaction) :
    Keeps q s (s.enter p ks tx) :=
  { Keeps.refl q s with locks := fun _ h => take_eq_some hfree h }

theorem keeps_updateRows (hf : KeepsRow f) (id : ℕ) : Keeps q s (s.updateRows id f) :=
  { Keeps.refl q s with
    stored := fun _ hr => mem_updateRow hf hr
    fresh := by
      intro r' hr' _ _
      obtain ⟨r, hr, hid, -, -⟩ := exists_of_mem_updateRow hf hr'
      exact ⟨r, hr, hid.symm⟩ }

theorem keeps_append (hr : s.nextId ≤ r.id) {next' : ℕ} (hnext : s.nextId ≤ next') :
    Keeps q s { s with rows := s.rows ++ [r], nextId := next' } :=
  { Keeps.refl q s with
    nextId := hnext
    stored := fun r' hr' => ⟨r', mem_append_left _ hr', rfl, rfl⟩
    fresh := by
      intro r' hr' _ hlt
      rcases mem_append.mp hr' with hr' | hr'
      · exact ⟨r', hr', rfl⟩
      · rw [mem_singleton.mp hr'] at hlt
        exact absurd hlt (not_lt.mpr hr) }

theorem keeps_nextId : Keeps q s { s with nextId := s.nextId + 1 } :=
  { Keeps.refl q s with nextId := Nat.le_succ _ }

theorem keeps_otherChange (u : UserId) (c : CurrencyId) (a l : ℚ) :
    Keeps q s (s.otherChange u c a l) := by
  by_cases hlock : s.locks (.balance u c) ≠ none
  · rw [otherChange, if_pos hlock]
    exact Keeps.refl q s
  · rw [otherChange, if_neg hlock]
    refine { Keeps.refl q s with balances := ?_ }
    intro u' c' hq
    apply Balances.set_of_ne
    rintro ⟨rfl, rfl⟩
    exact hlock (by rw [hq]; simp)

theorem keeps_write (h : TxOk D s p tx) (heff : tx.effect = some eff) (hq : q ≠ p) :
    Keeps q s (s.write tx eff) := by
  have hrow : ∀ id, s.locks (.row id) = some q → id ≠ tx.row.id := by
    rintro id hid rfl
    rw [h.lock, Option.some_inj] at hid
    exact hq hid.symm
  have hset := keepsRow_setStatus .processed
  refine
    { locks := fun _ h => h
      balances := ?_
      entries := ?_
      nextId := le_rfl
      stored := ?_
      fresh := ?_ }
  · intro u c hlock
    cases h.effect eff heff with
    | replay entries effect => rw [write, effect]; rfl
    | settled t payload entries users market locks effect =>
      rw [write, effect]
      apply applyUpdates_of_forall_ne
      rintro x hx hkey
      cases hkey
      rw [locks _ _ (touches_of_mem_updates hx), Option.some_inj] at hlock
      exact hq hlock.symm
  · intro id hlock
    cases h.effect eff heff with
    | replay entries effect => rw [write, effect]; simp
    | settled t payload entries users market locks effect =>
      rw [write, effect]
      simp [entriesOf_entries_of_ne (hrow id hlock)]
  · intro r hr
    apply mem_updateRow hset
    cases tx.inserted with
    | false => exact hr
    | true => exact mem_append_left _ hr
  · intro r' hr' hlock _
    obtain ⟨r, hr, hid, -, -⟩ := exists_of_mem_updateRow hset hr'
    refine ⟨r, ?_, hid.symm⟩
    cases hins : tx.inserted with
    | false => simpa [hins] using hr
    | true =>
      simp only [hins, if_true, mem_append, mem_singleton] at hr
      rcases hr with hr | rfl
      · exact hr
      · exact absurd hid (hrow _ hlock)

/-- The tables are in order, and so is every transaction except, possibly, that of `p`. -/
structure ConsistentExcept (D : MarketAssets → Prop) (p : ProcessId) (s : SettlementState) :
    Prop where
  tables : TablesOk s.rows s.ledger s.nextId s.applied
  lock_lt : ∀ id q, s.locks (.row id) = some q → id < s.nextId
  txs : ∀ q tx, q ≠ p → s.processes q = some (.transaction tx) → TxOk D s q tx

structure Consistent (D : MarketAssets → Prop) (s : SettlementState) : Prop where
  tables : TablesOk s.rows s.ledger s.nextId s.applied
  lock_lt : ∀ id q, s.locks (.row id) = some q → id < s.nextId
  txs : ∀ q tx, s.processes q = some (.transaction tx) → TxOk D s q tx

theorem Consistent.except (h : Consistent D s) (p : ProcessId) : ConsistentExcept D p s :=
  ⟨h.tables, h.lock_lt, fun q tx _ hq => h.txs q tx hq⟩

theorem ConsistentExcept.leave (h : ConsistentExcept D p s) {next : Option Progress}
    (hnext : ∀ tx, next ≠ some (.transaction tx)) : Consistent D (s.leave p next) := by
  refine ⟨h.tables, fun id q hlock => ?_, fun q tx hq => ?_⟩
  · exact h.lock_lt id q (eq_some_of_release hlock)
  rcases update_eq_some hq with ⟨-, htx⟩ | ⟨hqp, hq⟩
  · exact absurd htx (hnext tx)
  · exact (h.txs q tx hqp hq).keep (keeps_leave hqp next)

theorem ConsistentExcept.enter (h : ConsistentExcept D p s) (hfree : s.locks.CanTake p ks)
    (hrows : ∀ id, .row id ∈ ks → id < s.nextId) (htx : TxOk D (s.enter p ks tx) p tx) :
    Consistent D (s.enter p ks tx) := by
  refine ⟨h.tables, fun id q hlock => ?_, fun q tx' hq => ?_⟩
  · rcases take_cases hlock with ⟨hk, -⟩ | hlock
    · exact hrows id hk
    · exact h.lock_lt id q hlock
  rcases update_eq_some hq with ⟨rfl, heq⟩ | ⟨hqp, hq⟩
  · cases heq
    exact htx
  · exact (h.txs q tx' hqp hq).keep (keeps_enter hfree tx)

theorem Consistent.keep (h : Consistent D s)
    (htables : TablesOk s'.rows s'.ledger s'.nextId s'.applied) (hlocks : s'.locks = s.locks)
    (hprocesses : s'.processes = s.processes) (hkeeps : ∀ q, Keeps q s s') : Consistent D s' := by
  refine ⟨htables, fun id q hlock => ?_, fun q tx hq => ?_⟩
  · rw [hlocks] at hlock
    exact (h.lock_lt id q hlock).trans_le (hkeeps q).nextId
  · rw [hprocesses] at hq
    exact (h.txs q tx hq).keep (hkeeps q)

theorem consistent_init (D : MarketAssets → Prop) (bal : Balances) : Consistent D (init bal) where
  tables := by
    constructor <;> simp [init, entriesOf]
  lock_lt := fun id q hlock => by cases hlock
  txs := fun q tx hq => by cases hq

theorem Consistent.persist (h : Consistent D s) (e : String) (i : ℕ)
    (payload : Option EnginePayload) : Consistent D (s.persist e i payload) := by
  by_cases hkey : (∃ r ∈ s.rows, r.HasKey e i) ∨ s.locks (.key e i) ≠ none
  · rwa [SettlementState.persist, if_pos hkey]
  · rw [SettlementState.persist, if_neg hkey]
    apply h.keep
    · exact h.tables.append (fun r hr => (h.tables.id_lt r hr).ne) (Nat.lt_succ_self _)
        (Nat.le_succ _)
    · rfl
    · rfl
    · intro q
      exact keeps_append le_rfl (Nat.le_succ _)

theorem Consistent.updateRows (h : Consistent D s) (id : ℕ) (hf : KeepsRow f) :
    Consistent D (s.updateRows id f) := by
  apply h.keep
  · exact h.tables.updateRow id hf
  · rfl
  · rfl
  · intro q
    exact keeps_updateRows hf id

theorem Consistent.otherChange (h : Consistent D s) (u : UserId) (c : CurrencyId) (a l : ℚ) :
    Consistent D (s.otherChange u c a l) := by
  by_cases hlock : s.locks (.balance u c) ≠ none
  · rwa [SettlementState.otherChange, if_pos hlock]
  · apply h.keep
    · rw [SettlementState.otherChange, if_neg hlock]
      exact h.tables
    · rw [SettlementState.otherChange, if_neg hlock]
    · rw [SettlementState.otherChange, if_neg hlock]
    · intro q
      exact keeps_otherChange u c a l

theorem Consistent.enter_row (h : Consistent D s) (hr : r ∈ s.rows) (hlock : s.locks (.row r.id) =
    none) (d : Driver) : Consistent D (s.enter p [.row r.id] ⟨d, r, false, none⟩) := by
  apply (h.except p).enter
  · intro k hk
    rw [mem_singleton.mp hk]
    exact .inl hlock
  · intro id hid
    cases mem_singleton.mp hid
    exact h.tables.id_lt r hr
  · exact
      { lock := take_of_mem mem_cons_self
        id_lt := h.tables.id_lt r hr
        stored := fun _ => ⟨r, hr, rfl, rfl⟩
        fresh := fun hins => by cases hins
        effect := fun eff heff => by cases heff }

theorem mem_of_claimable (h : s.claimable = some r) :
    r ∈ s.rows ∧ r.status = .pending ∧ r.retryCount < maxRetries ∧ s.locks (.row r.id) = none := by
  have hmem := List.argmin_mem (Option.mem_def.mpr h)
  simpa using hmem

theorem Consistent.claim (h : Consistent D s) (p : ProcessId) : Consistent D (s.claim p) := by
  cases hp : s.processes p with
  | some x => simpa [SettlementState.claim, hp] using h
  | none =>
    cases hr : s.claimable with
    | none => simpa [SettlementState.claim, hp, hr] using h
    | some r =>
      simp only [SettlementState.claim, hp, hr]
      obtain ⟨hmem, -, -, hlock⟩ := mem_of_claimable hr
      exact h.enter_row hmem hlock .worker

theorem Consistent.enter_new (h : Consistent D s) {e : String} {i : ℕ}
    (hkey : s.locks (.key e i) = none) (payload : EnginePayload) :
    Consistent D ({ s with nextId := s.nextId + 1 }.enter p [.row s.nextId, .key e i]
      ⟨.jetStream, s.newRow e i (some payload), true, none⟩) := by
  have hnext : Consistent D { s with nextId := s.nextId + 1 } := by
    apply h.keep
    · exact { h.tables with id_lt := fun r hr => (h.tables.id_lt r hr).trans (Nat.lt_succ_self _) }
    · rfl
    · rfl
    · intro q
      exact keeps_nextId
  -- nobody can have locked a row that does not exist yet
  have hrow : s.locks (.row s.nextId) = none := by
    rw [Option.eq_none_iff_forall_not_mem]
    intro q hq
    exact lt_irrefl _ (h.lock_lt _ q hq)
  apply (hnext.except p).enter
  · intro k hk
    simp only [mem_cons, not_mem_nil, or_false] at hk
    rcases hk with rfl | rfl
    · exact .inl hrow
    · exact .inl hkey
  · intro id hid
    simp only [mem_cons, Resource.row.injEq, reduceCtorEq, not_mem_nil, or_false] at hid
    rw [hid]
    exact Nat.lt_succ_self _
  · exact
      { lock := take_of_mem mem_cons_self
        id_lt := Nat.lt_succ_self _
        stored := fun hins => by cases hins
        fresh := fun _ r hr => (h.tables.id_lt r hr).ne
        effect := fun eff heff => by cases heff }

theorem Consistent.deliver (h : Consistent D s) (p : ProcessId) (e : String) (i : ℕ)
    (payload : EnginePayload) : Consistent D (s.deliver p e i payload) := by
  by_cases hp : s.processes p ≠ none ∨ i < 1
  · rwa [SettlementState.deliver, if_pos hp]
  · rw [SettlementState.deliver, if_neg hp]
    cases hr : s.rows.find? (fun r => r.HasKey e i) with
    | some r =>
      by_cases hbusy : s.locks (.row r.id) ≠ none ∨ r.status ≠ .pending
      · simpa only [if_pos hbusy] using h
      · simp only [if_neg hbusy]
        rw [not_or, not_not] at hbusy
        exact h.enter_row (mem_of_find?_eq_some hr) hbusy.1 .jetStream
    | none =>
      by_cases hkey : s.locks (.key e i) ≠ none
      · simpa only [if_pos hkey] using h
      · simp only [if_neg hkey]
        exact h.enter_new (not_not.mp hkey) payload

theorem Consistent.rollback (h : Consistent D s) (p : ProcessId) (tx : Transaction)
    (fatal : Bool) : Consistent D (s.rollback p tx fatal) := by
  cases hd : tx.driver with
  | worker | jetStream =>
    simp only [SettlementState.rollback, hd]
    exact (h.except p).leave fun tx' h' => by cases h'

theorem touches_mem_balancesToLock {t : SettlementTerms} (hnone : entriesOf s.ledger id = [])
    (hmarket : resolveMarketAssets ctx t.payload.symbol = .ok t.market) {u : UserId} {c :
    CurrencyId} (h : t.Touches u c) : Resource.balance u c ∈ s.balancesToLock ctx id t.payload := by
  rw [balancesToLock, if_neg (entriesOf_eq_nil_iff.mp hnone), hmarket]
  obtain ⟨rfl | rfl, rfl | rfl⟩ := h <;>
    simp [takerId, makerId]

theorem row_notMem_balancesToLock {id' : ℕ} : Resource.row id' ∉ s.balancesToLock ctx id pl := by
  unfold balancesToLock
  split
  · simp
  · split <;> simp

theorem effectOk_of_process (hpayload : tx.row.payload = some pl)
    (hD : ∀ m, resolveMarketAssets ctx pl.symbol = .ok m → D m) (h :
    processSettlementEventRow ctx s.ledger tx.row.id pl s.balances = .ok eff) (tx' : Transaction) :
    EffectOk D (s.enter p (s.balancesToLock ctx tx.row.id pl) tx') p tx.row eff := by
  by_cases hreplay : ∃ e ∈ s.ledger, e.settlementEventId = tx.row.id
  · simp only [processSettlementEventRow, if_pos hreplay, bind_eq_ok, pure_eq_ok] at h
    obtain ⟨-, -, rfl⟩ := h
    refine .replay ?_ rfl
    intro hnil
    exact entriesOf_eq_nil_iff.mp hnil hreplay
  · rw [processSettlementEventRow, if_neg hreplay] at h
    obtain ⟨t, rfl, ht⟩ := settles_of_settle h
    have hnone := entriesOf_eq_nil_iff.mpr hreplay
    refine .settled t hpayload hnone ht.users (hD _ ht.market) ?_ ht.effect
    intro u c htc
    exact take_of_mem (touches_mem_balancesToLock hnone ht.market htc)

theorem Consistent.settleLocked (h : Consistent D s) (htx : TxOk D s p tx)
    (hpl : tx.row.payload = some pl) (hfree : s.locks.CanTake p (s.balancesToLock ctx tx.row.id pl))
    (hD : ∀ m, resolveMarketAssets ctx pl.symbol = .ok m → D m) :
    Consistent D (s.settleLocked p tx ctx pl) := by
  unfold SettlementState.settleLocked
  split
  case h_1 e _ => exact h.rollback p tx (isFatalError e)
  case h_2 eff hres =>
    apply (h.except p).enter hfree fun id hid => absurd hid row_notMem_balancesToLock
    -- taking more locks keeps what the transaction had, and its effect is new
    have hkeep := htx.keep (keeps_enter (q := p) hfree { tx with effect := some eff })
    refine ⟨hkeep.lock, hkeep.id_lt, hkeep.stored, hkeep.fresh, ?_⟩
    intro eff' heff'
    cases heff'
    exact effectOk_of_process hpl hD hres _

theorem Consistent.process (h : Consistent D s) {p : ProcessId}
    (hD : ∀ m ∈ s.settledMarket (.process p ctx), D m) : Consistent D (s.process p ctx) := by
  unfold SettlementState.process
  split
  case h_1 tx hp =>
    split
    case h_1 => exact h
    case h_2 => exact h.rollback p tx true
    case h_3 pl heff hpl =>
      split
      case isTrue hfree =>
        apply h.settleLocked (h.txs p tx hp) hpl hfree
        intro m hm
        apply hD m
        simp [settledMarket, hp, hpl, hm, Except.toOption]
      case isFalse => exact h
  case h_2 => exact h

theorem Consistent.abort (h : Consistent D s) (p : ProcessId) (fatal : Bool) :
    Consistent D (s.abort p fatal) := by
  unfold SettlementState.abort
  split
  · exact h.rollback p _ fatal
  · exact h

theorem TxOk.row_of_commit (h : TxOk D s p tx) : ∃ r ∈ if tx.inserted
    then s.rows ++ [tx.row] else s.rows, r.id = tx.row.id ∧ r.payload = tx.row.payload := by
  cases hins : tx.inserted with
  | false => simpa [hins] using h.stored hins
  | true => exact ⟨tx.row, by simp, rfl, rfl⟩

theorem TxOk.tables_of_commit (h : TxOk D s p tx)
    (ht : TablesOk s.rows s.ledger s.nextId s.applied) :
    TablesOk (if tx.inserted then s.rows ++ [tx.row] else s.rows) s.ledger s.nextId s.applied := by
  cases hins : tx.inserted with
  | false => simpa using ht
  | true => simpa using ht.append (h.fresh hins) h.id_lt le_rfl

theorem TxOk.tables_write (h : TxOk D s p tx) (heff : tx.effect = some eff)
    (ht : TablesOk s.rows s.ledger s.nextId s.applied) : TablesOk (s.write tx eff).rows
    (s.write tx eff).ledger (s.write tx eff).nextId (s.write tx eff).applied := by
  have htables := h.tables_of_commit ht
  have hset := keepsRow_setStatus .processed
  cases h.effect eff heff with
  | replay entries effect =>
    simp only [write, effect, append_nil, if_true]
    exact htables.updateRow tx.row.id hset
  | settled t payload entries users market locks effect =>
    simp only [write, effect, if_neg updates_ne_nil]
    obtain ⟨r, hr, hid, hpayload⟩ := h.row_of_commit
    have hsettle := htables.settle hr (hpayload.trans payload) (by rwa [hid])
    rw [hid] at hsettle
    exact hsettle.updateRow tx.row.id hset

theorem Consistent.commit (h : Consistent D s) (p : ProcessId) : Consistent D (s.commit p) := by
  unfold SettlementState.commit
  split
  case h_1 tx hp =>
    split
    case h_1 eff heff =>
      have htx := h.txs p tx hp
      have hwrite : ConsistentExcept D p (s.write tx eff) :=
        ⟨htx.tables_write heff h.tables, h.lock_lt,
          fun q tx' hqp hq => (h.txs q tx' hq).keep (keeps_write htx heff hqp)⟩
      exact hwrite.leave fun tx' h' => by cases h'
    case h_2 => exact h
  case h_2 => exact h

theorem Consistent.recordFailure (h : Consistent D s) (p : ProcessId) :
    Consistent D (s.recordFailure p) := by
  have hfailed : ∀ id, Consistent D
      ((s.updateRows id (setStatus .failed)).leave p none) := by
    intro id
    apply ((h.updateRows id (keepsRow_setStatus .failed)).except p).leave
    intro tx h'
    cases h'
  unfold SettlementState.recordFailure
  split
  case h_1 id hp =>
    split
    · exact h
    · exact hfailed id
  case h_2 id hp =>
    split
    · exact h
    · apply ((h.updateRows id keepsRow_countRetry).except p).leave
      intro tx
      by_cases hmax : maxRetries ≤ s.retryCount id + 1
      · simp [hmax]
      · simp [hmax]
  case h_3 id hp =>
    split
    · exact h
    · exact hfailed id
  case h_4 => exact h

/-- The two states differ in locks, processes and the next id only. -/
structure SameTables (s s' : SettlementState) : Prop where
  rows : s'.rows = s.rows
  ledger : s'.ledger = s.ledger
  balances : s'.balances = s.balances
  applied : s'.applied = s.applied
  external : s'.external = s.external

/-- What a step can do to the tables: nothing, or one of five writes. -/
inductive TableStep (s : SettlementState) (a : SettlementAction) (s' : SettlementState) : Prop
  | quiet (tables : SameTables s s')
  | persisted (r : SettlementRow) (id : r.id = s.nextId) (status : r.status = .pending)
      (tables : SameTables { s with rows := s.rows ++ [r] } s')
  | committed (p : ProcessId) (tx : Transaction) (eff : SettlementEffect)
      (progress : s.processes p = some (.transaction tx)) (effect : tx.effect = some eff)
      (tables : SameTables (s.write tx eff) s')
  | retried (id : ℕ) (tables : SameTables (s.updateRows id countRetry) s')
  | failed (p : ProcessId) (id : ℕ) (action : a = .recordFailure p)
      (progress : s.processes p = some (.failing id true) ∨ s.processes p = some (.exhausted id))
      (tables : SameTables (s.updateRows id (setStatus .failed)) s')
  | changed (u : UserId) (c : CurrencyId) (dAvailable dLocked : ℚ)
      (tables : SameTables (s.otherChange u c dAvailable dLocked) s')

theorem SameTables.refl (s : SettlementState) : SameTables s s := ⟨rfl, rfl, rfl, rfl, rfl⟩

theorem sameTables_leave (s : SettlementState) (p : ProcessId) (next : Option Progress) :
    SameTables s (s.leave p next) := ⟨rfl, rfl, rfl, rfl, rfl⟩

theorem sameTables_rollback (s : SettlementState) (p : ProcessId) (tx : Transaction)
    (fatal : Bool) : SameTables s (s.rollback p tx fatal) := by
  cases hd : tx.driver with
  | worker | jetStream => simpa only [rollback, hd] using sameTables_leave s p _

theorem sameTables_claim (s : SettlementState) (p : ProcessId) : SameTables s (s.claim p) := by
  unfold claim
  split <;> exact ⟨rfl, rfl, rfl, rfl, rfl⟩

theorem sameTables_deliver (s : SettlementState) (p : ProcessId) (e : String) (i : ℕ)
    (payload : EnginePayload) : SameTables s (s.deliver p e i payload) := by
  unfold deliver
  split
  · exact SameTables.refl s
  · split <;> split <;> exact ⟨rfl, rfl, rfl, rfl, rfl⟩

theorem sameTables_process (s : SettlementState) (p : ProcessId) (ctx : SettlementContext) :
    SameTables s (s.process p ctx) := by
  unfold process
  split
  · split
    · exact SameTables.refl s
    · exact sameTables_rollback s p _ true
    · split
      · unfold settleLocked
        split
        · exact sameTables_rollback s p _ _
        · exact ⟨rfl, rfl, rfl, rfl, rfl⟩
      · exact SameTables.refl s
  · exact SameTables.refl s

theorem tableStep_persist (s : SettlementState) (e : String) (i : ℕ) (payload :
    Option EnginePayload) : TableStep s (.persist e i payload) (s.persist e i payload) := by
  unfold persist
  split
  · exact .quiet (SameTables.refl s)
  · exact .persisted (s.newRow e i payload) rfl rfl ⟨rfl, rfl, rfl, rfl, rfl⟩

theorem tableStep_commit (s : SettlementState) (p : ProcessId) :
    TableStep s (.commit p) (s.commit p) := by
  unfold commit
  split
  case h_1 tx hp =>
    split
    case h_1 eff heff => exact .committed p tx eff hp heff (sameTables_leave _ p none)
    case h_2 => exact .quiet (SameTables.refl s)
  case h_2 => exact .quiet (SameTables.refl s)

theorem tableStep_recordFailure (s : SettlementState) (p : ProcessId) :
    TableStep s (.recordFailure p) (s.recordFailure p) := by
  unfold recordFailure
  split
  case h_1 id hp =>
    split
    · exact .quiet (SameTables.refl s)
    · exact .failed p id rfl (.inl hp) (sameTables_leave _ p none)
  case h_2 id hp =>
    split
    · exact .quiet (SameTables.refl s)
    · exact .retried id (sameTables_leave _ p _)
  case h_3 id hp =>
    split
    · exact .quiet (SameTables.refl s)
    · exact .failed p id rfl (.inr hp) (sameTables_leave _ p none)
  case h_4 => exact .quiet (SameTables.refl s)

theorem tableStep (s : SettlementState) (a : SettlementAction) : TableStep s a (s.step a) := by
  cases a with
  | persist e i payload => exact tableStep_persist s e i payload
  | claim p => exact .quiet (sameTables_claim s p)
  | deliver p e i payload => exact .quiet (sameTables_deliver s p e i payload)
  | process p ctx => exact .quiet (sameTables_process s p ctx)
  | abort p fatal =>
    apply TableStep.quiet
    simp only [SettlementState.step, abort]
    split
    · exact sameTables_rollback s p _ fatal
    · exact SameTables.refl s
  | commit p => exact tableStep_commit s p
  | crash p => exact .quiet (sameTables_leave s p none)
  | recordFailure p => exact tableStep_recordFailure s p
  | otherChange u c a l => exact .changed u c a l (SameTables.refl _)

theorem Consistent.step (h : Consistent D s) {a : SettlementAction}
    (hD : ∀ m ∈ s.settledMarket a, D m) : Consistent D (s.step a) := by
  cases a with
  | persist e i payload => exact h.persist e i payload
  | claim p => exact h.claim p
  | deliver p e i payload => exact h.deliver p e i payload
  | process p ctx => exact h.process hD
  | abort p fatal => exact h.abort p fatal
  | commit p => exact h.commit p
  | crash p => exact (h.except p).leave fun tx h' => by cases h'
  | recordFailure p => exact h.recordFailure p
  | otherChange u c a l => exact h.otherChange u c a l

end SettlementState

end MetherCEX
