import MetherCEX.Settlement.Compaction

/-!
# The audit of the settlement ledger

`runGlobalBalanceAudit` computes the ledger entries of every processed event again and compares
what they add up to with the ledger.
-/

namespace MetherCEX

open Checks HashChain Run Tally List

structure AuditResult where
  ok : Bool
  mismatches : ℕ
  deriving DecidableEq

namespace LedgerStore

variable {H : Type} (trim : String → String) (ctx : SettlementContext)

def replayEvent (e : ℕ × EnginePayload) : Except SettlementError (List LedgerDelta) := do
  let market ← resolveMarketAssets ctx e.2.symbol
  pure (SettlementTerms.computeSettlementLedgerDeltasFromPayload
    ⟨e.2, market, ctx.rates, ctx.makerRebatesEnabled⟩)

def replayFailed (e : ℕ × EnginePayload) : Bool := !(replayEvent ctx e).isOk

def expectedDeltas (s : LedgerStore H) : List LedgerDelta :=
  s.processed.flatMap fun e => (replayEvent ctx e).toOption.getD []

def aggKey (key : UserId × String) : UserId × String := (key.1, trim key.2)

def expectedSum (s : LedgerStore H) (key : UserId × String) : ℚ :=
  tally (fun d : LedgerDelta => aggKey trim (d.userId, d.asset)) LedgerDelta.delta
    (s.expectedDeltas ctx) key

def liveGroups (s : LedgerStore H) : List (UserId × String) := (s.live.map StoredEntry.key).dedup

/-- Of the groups with one key the last one is kept. -/
def actualSum (s : LedgerStore H) (key : UserId × String) : ℚ :=
  ((s.liveGroups.filter fun group => aggKey trim group = key).getLast?.map
    (entrySum s.live)).getD 0

def allKeys (s : LedgerStore H) : List (UserId × String) :=
  ((s.expectedDeltas ctx).map (fun d => aggKey trim (d.userId, d.asset)) ++
    s.liveGroups.map (aggKey trim)).dedup

/-- The threshold is `AUDIT_CIRCUIT_ABS_THRESHOLD`. -/
def runGlobalBalanceAudit (threshold : ℚ) (s : LedgerStore H) : AuditResult :=
  let failures := (s.processed.filter (replayFailed ctx)).length
  if 0 < failures then ⟨false, failures⟩
  else
    let wrong := (s.allKeys trim ctx).filter fun key =>
      s.expectedSum trim ctx key ≠ s.actualSum trim key
    ⟨!wrong.any fun key => threshold ≤ |s.expectedSum trim ctx key - s.actualSum trim key|,
      wrong.length⟩

/-- An event is settled under the setting of the audit, in a market whose assets have plain
names; and what is archived adds up to nothing. -/
def Steady (s : LedgerStore H) : LedgerAction → Prop
  | .settle makerRebatesEnabled _ payload =>
    makerRebatesEnabled = ctx.makerRebatesEnabled ∧
      ∀ m ∈ (resolveMarketAssets ctx payload.symbol).toOption,
        trim m.base = m.base ∧ trim m.quote = m.quote
  | .compact cutoff => ∀ r ∈ s.upTo cutoff, entrySum (s.upTo cutoff) r.key = 0
  | .fund _ _ _ _ => True

instance (s : LedgerStore H) : ∀ act, Decidable (s.Steady trim ctx act)
  | .settle .. => inferInstanceAs (Decidable (_ ∧ ∀ m ∈ _, _ ∧ _))
  | .compact _ => inferInstanceAs (Decidable (∀ r ∈ _, _ = _))
  | .fund .. => .isTrue trivial

structure Audited (s : LedgerStore H) : Prop where
  replayed : ∀ e ∈ s.processed, (replayEvent ctx e).isOk = true
  trimmed : ∀ d ∈ s.expectedDeltas ctx, trim d.asset = d.asset
  event : ∀ r ∈ s.live, r.entry.body.settlementEventId ∈ s.processed.map Prod.fst
  asset : ∀ r ∈ s.live, trim r.entry.body.asset = r.entry.body.asset
  sums : ∀ key, tally (fun d : LedgerDelta => (d.userId, d.asset)) LedgerDelta.delta
    (s.expectedDeltas ctx) key = entrySum s.live key

variable {trim ctx} {s : LedgerStore H} {digest : Option H → LedgerEntry → H}
  {currencyOf : String → Option CurrencyId}

theorem map_body_stored (digest : Option H → LedgerEntry → H) (s : LedgerStore H) (entries :
    List LedgerEntry) : (s.stored digest entries).map (fun r => r.entry.body) = entries := by
  have hbody := congrArg (List.map Entry.body) (entry_numbered s.nextId
    (link digest (s.live.getLast?.map fun r => r.entry.hash) entries))
  rw [map_body_link, map_map] at hbody
  exact hbody

theorem entrySum_stored (s : LedgerStore H) (entries : List LedgerEntry) (key : UserId × String) :
    entrySum (s.stored digest entries) key =
    tally (fun e : LedgerEntry => (e.userId, e.asset)) LedgerEntry.delta entries key := by
  conv_rhs => rw [← map_body_stored digest s entries, tally_map]
  rfl

theorem entrySum_upTo_eq_zero {cutoff : ℕ} (h : s.Steady trim ctx (.compact cutoff))
    (key : UserId × String) : entrySum (s.upTo cutoff) key = 0 := by
  by_cases hkey : ∃ r ∈ s.upTo cutoff, r.key = key
  · obtain ⟨r, hr, rfl⟩ := hkey
    exact h r hr
  · exact tally_eq_zero _ _ fun r hr heq => hkey ⟨r, hr, heq⟩

namespace Audited

theorem init : Audited trim ctx (LedgerStore.init : LedgerStore H) where
  replayed := nofun
  trimmed := nofun
  event := nofun
  asset := nofun
  sums _ := rfl

variable (h : s.Audited trim ctx)

include h

theorem settled {id : ℕ} {payload : EnginePayload} {bal : Balances} {eff : SettlementEffect}
    (htrim : ∀ m ∈ (resolveMarketAssets ctx payload.symbol).toOption, trim m.base = m.base ∧
    trim m.quote = m.quote) (heff : MetherCEX.settle ctx id payload bal = .ok eff) :
    (s.settled digest id payload eff).Audited trim ctx := by
  obtain ⟨t, rfl, hmarket, hrates, hrebates, -, rfl⟩ := settles_of_settle heff
  have hreplay : replayEvent ctx (id, t.payload) =
      .ok t.computeSettlementLedgerDeltasFromPayload := by
    rw [replayEvent, hmarket, ← hrates, ← hrebates]
    rfl
  have hdeltas : (s.settled digest id t.payload ⟨t.entries id, t.updates bal, [t.trade]⟩
      ).expectedDeltas ctx =
        s.expectedDeltas ctx ++ t.computeSettlementLedgerDeltasFromPayload := by
    rw [expectedDeltas, LedgerStore.settled, flatMap_append, flatMap_singleton, hreplay]
    rfl
  have hplain : ∀ d ∈ t.computeSettlementLedgerDeltasFromPayload, trim d.asset = d.asset := by
    obtain ⟨hbase, hquote⟩ := htrim t.market (by rw [hmarket]; rfl)
    intro d hd
    unfold SettlementTerms.computeSettlementLedgerDeltasFromPayload at hd
    split at hd <;> simp only [mem_cons, not_mem_nil, or_false] at hd <;>
      rcases hd with rfl | rfl | rfl | rfl <;> assumption
  have hnew : ∀ r ∈ s.stored digest (t.entries id), r.entry.body ∈ t.entries id := fun r hr => by
    have hmem := mem_map_of_mem (f := fun r : StoredEntry H => r.entry.body) hr
    rwa [map_body_stored] at hmem
  constructor
  case replayed =>
    intro e he
    rcases mem_append.mp he with he | he
    · exact h.replayed e he
    · rw [mem_singleton.mp he, hreplay]
      rfl
  case trimmed =>
    rw [hdeltas]
    intro d hd
    rcases mem_append.mp hd with hd | hd
    · exact h.trimmed d hd
    · exact hplain d hd
  case event =>
    intro r hr
    change _ ∈ (s.processed ++ [(id, t.payload)]).map Prod.fst
    rw [map_append, mem_append]
    rcases mem_append.mp hr with hr | hr
    · exact .inl (h.event r hr)
    · obtain ⟨d, -, hd⟩ := mem_map.mp (hnew r hr)
      exact .inr (mem_singleton.mpr (hd ▸ rfl))
  case asset =>
    intro r hr
    rcases mem_append.mp hr with hr | hr
    · exact h.asset r hr
    · obtain ⟨d, hd, heq⟩ := mem_map.mp (hnew r hr)
      rw [← heq]
      exact hplain d hd
  case sums =>
    intro key
    refine Eq.trans ?_ (entrySum_append s.live (s.stored digest (t.entries id)) key).symm
    rw [hdeltas, tally_append, h.sums, entrySum_stored, SettlementTerms.entries, tally_map]
    rfl

theorem compacted {cutoff : ℕ} (hsteady : s.Steady trim ctx (.compact cutoff)) {r : LedgerStore
    H × ℕ × ℕ} (hr : s.runLedgerCompaction currencyOf cutoff = .ok r) : r.1.Audited trim ctx := by
  obtain ⟨hlive, -, -, hprocessed⟩ := runLedgerCompaction_eq_ok hr
  have hmem : ∀ x ∈ r.1.live, x ∈ s.live := fun x hx =>
    (mem_filter.mp (hlive ▸ hx)).1
  have hdeltas : r.1.expectedDeltas ctx = s.expectedDeltas ctx := by
    rw [expectedDeltas, hprocessed, expectedDeltas]
  constructor
  case replayed => exact hprocessed ▸ h.replayed
  case trimmed => exact hdeltas ▸ h.trimmed
  case event => exact fun x hx => hprocessed ▸ h.event x (hmem x hx)
  case asset => exact fun x hx => h.asset x (hmem x hx)
  case sums =>
    intro key
    rw [hdeltas, h.sums, hlive, ← s.entrySum_upTo_add cutoff, entrySum_upTo_eq_zero hsteady,
      zero_add]

theorem step {act : LedgerAction} (hsteady : s.Steady trim ctx act) :
    (s.step digest ctx currencyOf act).Audited trim ctx := by
  cases act with
  | settle makerRebatesEnabled id payload =>
    obtain ⟨rfl, htrim⟩ := hsteady
    rw [LedgerStore.step, LedgerStore.settle]
    split
    next => exact h
    next hid =>
      have hnone : ¬ ∃ e ∈ s.live.map (fun r => r.entry.body), e.settlementEventId = id := by
        rintro ⟨e, he, rfl⟩
        obtain ⟨r, hr, rfl⟩ := mem_map.mp he
        exact hid (h.event r hr)
      rw [processSettlementEventRow, if_neg hnone]
      split
      next eff heff => exact h.settled htrim heff
      next => exact h
  | fund userId currencyId dAvailable dLocked =>
    rw [LedgerStore.step, fund]
    dsimp only
    split
    · exact h
    · exact { h with }
  | compact cutoff =>
    rw [LedgerStore.step]
    split
    next r hr => exact h.compacted hsteady hr
    next => exact h

theorem actualSum_eq (key : UserId × String) : s.actualSum trim key = entrySum s.live key := by
  have hkey : ∀ group ∈ s.liveGroups, aggKey trim group = group := by
    intro group hgroup
    obtain ⟨r, hr, rfl⟩ := mem_map.mp (mem_dedup.mp hgroup)
    exact Prod.ext rfl (h.asset r hr)
  rw [actualSum]
  cases hlast : (s.liveGroups.filter fun group => aggKey trim group = key).getLast? with
  | none =>
    refine (tally_eq_zero _ _ fun r hr heq => ?_).symm
    have hgroup : r.key ∈ s.liveGroups := mem_dedup.mpr (mem_map_of_mem hr)
    have hmatch : r.key ∈ s.liveGroups.filter fun group => aggKey trim group = key :=
      mem_filter.mpr ⟨hgroup, decide_eq_true ((hkey _ hgroup).trans heq)⟩
    rw [getLast?_eq_none_iff.mp hlast] at hmatch
    exact not_mem_nil hmatch
  | some group =>
    obtain ⟨hgroup, hmatch⟩ := mem_filter.mp (mem_of_getLast? hlast)
    rw [decide_eq_true_eq, hkey group hgroup] at hmatch
    rw [hmatch]
    rfl

theorem expectedSum_eq (key : UserId × String) :
    s.expectedSum trim ctx key = entrySum s.live key := by
  rw [← h.sums, expectedSum, tally, tally]
  congr 2
  exact filter_congr fun d hd => by rw [aggKey, h.trimmed d hd]

theorem silent (threshold : ℚ) : s.runGlobalBalanceAudit trim ctx threshold = ⟨true, 0⟩ := by
  have hfailures : s.processed.filter (replayFailed ctx) = [] :=
    filter_eq_nil_iff.mpr fun e he => by simp [replayFailed, h.replayed e he]
  have hwrong : ((s.allKeys trim ctx).filter fun key =>
      s.expectedSum trim ctx key ≠ s.actualSum trim key) = [] :=
    filter_eq_nil_iff.mpr fun key _ => by simp [h.expectedSum_eq, h.actualSum_eq]
  rw [runGlobalBalanceAudit, hfailures, hwrong]
  rfl

end Audited

def sampleAudit (acts : List LedgerAction) : AuditResult :=
  (sampleRun acts).runGlobalBalanceAudit id (sampleContext false) 1000

def rebatedRun : List LedgerAction :=
  [.fund 1 2 1 100, .fund 2 1 0 1, .settle true 1 (samplePayload .buy)]

end LedgerStore

end MetherCEX
