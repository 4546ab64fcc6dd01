import MetherCEX.Lib.HashChain
import MetherCEX.Lib.Run
import MetherCEX.Settlement.Value

/-!
# The compaction of the settlement ledger

`runLedgerCompaction` moves the ledger entries up to a cutoff into an archive.
-/

namespace MetherCEX

open Checks HashChain Run Tally List

/-- A row of `settlement_ledger_entries` or of its archive. -/
structure StoredEntry (H : Type) where
  id : ℕ
  entry : Entry LedgerEntry H
  deriving DecidableEq

def StoredEntry.key {H : Type} (r : StoredEntry H) : UserId × String :=
  (r.entry.body.userId, r.entry.body.asset)

/-- A row of `ledger_checkpoints`. -/
structure LedgerCheckpoint (H : Type) where
  key : UserId × String
  checkpointLedgerId : ℕ
  available : ℚ
  locked : ℚ
  chainHead : H
  deriving DecidableEq

/-- The ledger, its archive and checkpoints, the events that are processed, and the trading
balances that exist. -/
structure LedgerStore (H : Type) where
  live : List (StoredEntry H)
  archive : List (StoredEntry H)
  checkpoints : List (LedgerCheckpoint H)
  nextId : ℕ
  processed : List (ℕ × EnginePayload)
  balances : UserId → CurrencyId → Option Bucket

/-- `LEDGER_COMPACTION_INVARIANT_VIOLATION`. -/
inductive CompactionError
  | invariantViolation
  deriving DecidableEq

def entrySum {H : Type} (rows : List (StoredEntry H)) (key : UserId × String) : ℚ :=
  tally StoredEntry.key (fun r => r.entry.body.delta) rows key

theorem entrySum_append {H : Type} (rows rows' : List (StoredEntry H)) (key : UserId × String) :
    entrySum (rows ++ rows') key = entrySum rows key + entrySum rows' key :=
  tally_append _ _ rows rows' key

inductive LedgerAction
  | settle (makerRebatesEnabled : Bool) (id : ℕ) (payload : EnginePayload)
  | fund (userId : UserId) (currencyId : CurrencyId) (dAvailable dLocked : ℚ)
  | compact (cutoff : ℕ)

namespace LedgerStore

variable {H : Type}

def init : LedgerStore H := ⟨[], [], [], 1, [], fun _ _ => none⟩

section Compact

variable (currencyOf : String → Option CurrencyId) (s : LedgerStore H)

def balanceOf (key : UserId × String) : Option Bucket :=
  (currencyOf key.2).bind (s.balances key.1)

def upTo (cutoff : ℕ) : List (StoredEntry H) := s.live.filter fun r => r.id ≤ cutoff

def after (cutoff : ℕ) : List (StoredEntry H) := s.live.filter fun r => cutoff < r.id

/-- The rows of `GROUP BY user_id, asset`. -/
def groups (cutoff : ℕ) : List (UserId × String) := ((s.upTo cutoff).map StoredEntry.key).dedup

def newCheckpoint (cutoff : ℕ) (head : StoredEntry H) (key : UserId × String) :
    LedgerCheckpoint H :=
  let b := (s.balanceOf currencyOf key).getD ⟨0, 0⟩
  ⟨key, cutoff, b.available, b.locked, head.entry.hash⟩

/-- `ORDER BY id DESC LIMIT 1`. -/
def lastCheckpoint (checkpoints : List (LedgerCheckpoint H)) (cutoff : ℕ)
    (key : UserId × String) : Option (LedgerCheckpoint H) :=
  (checkpoints.filter fun cp => cp.key = key ∧ cp.checkpointLedgerId = cutoff).getLast?

def replayDiffers (checkpoints : List (LedgerCheckpoint H)) (cutoff : ℕ)
    (key : UserId × String) : Prop :=
  ∃ cp ∈ lastCheckpoint checkpoints cutoff key, ∃ b ∈ s.balanceOf currencyOf key,
    cp.available + cp.locked + entrySum (s.after cutoff) key ≠ b.total
  deriving Decidable

/-- The tables afterwards, the number of checkpoints inserted and of rows archived. -/
def runLedgerCompaction (cutoff : ℕ) : Except CompactionError (LedgerStore H × ℕ × ℕ) := do
  let head ← orRefuse (s.live.find? fun r => r.id = cutoff) .invariantViolation
  refuseIf (∃ key ∈ s.groups cutoff, (s.balanceOf currencyOf key).map Bucket.total ≠
    some (entrySum (s.upTo cutoff) key)) .invariantViolation
  let checkpoints :=
    s.checkpoints ++ (s.groups cutoff).map (s.newCheckpoint currencyOf cutoff head)
  let archive := s.archive ++ s.upTo cutoff
  refuseIf ((archive.filter fun r => r.id ≤ cutoff).length ≠ (s.upTo cutoff).length)
    .invariantViolation
  refuseIf (∃ key ∈ s.groups cutoff, s.replayDiffers currencyOf checkpoints cutoff key)
    .invariantViolation
  pure ({ s with live := s.after cutoff, archive := archive, checkpoints := checkpoints },
    (s.groups cutoff).length, (s.upTo cutoff).length)

end Compact

def numbered : ℕ → List (Entry LedgerEntry H) → List (StoredEntry H)
  | _, [] => []
  | id, e :: es => ⟨id, e⟩ :: numbered (id + 1) es

section Steps

variable (digest : Option H → LedgerEntry → H) (ctx : SettlementContext)
  (currencyOf : String → Option CurrencyId) (s : LedgerStore H)

def readBalances : Balances := fun u c => (s.balances u c).getD ⟨0, 0⟩

/-- The entries continue the chain of the last row, with ids of the sequence. -/
def stored (entries : List LedgerEntry) : List (StoredEntry H) :=
  numbered s.nextId (link digest (s.live.getLast?.map fun r => r.entry.hash) entries)

def settled (id : ℕ) (payload : EnginePayload) (eff : SettlementEffect) : LedgerStore H :=
  { s with
    live := s.live ++ s.stored digest eff.entries
    nextId := s.nextId + eff.entries.length
    processed := s.processed ++ [(id, payload)]
    balances := fun u c =>
      if (u, c) ∈ eff.updates.map BalanceUpdate.key
      then some (applyUpdates s.readBalances eff.updates u c) else s.balances u c }

/-- Only a pending event is settled, and one settlement after another. -/
def settle (makerRebatesEnabled : Bool) (id : ℕ) (payload : EnginePayload) : LedgerStore H :=
  if id ∈ s.processed.map Prod.fst then s
  else
    match processSettlementEventRow { ctx with makerRebatesEnabled := makerRebatesEnabled }
      (s.live.map fun r => r.entry.body) id payload s.readBalances with
    | .ok eff => s.settled digest id payload eff
    | .error _ => s

def fund (userId : UserId) (currencyId : CurrencyId) (dAvailable dLocked : ℚ) : LedgerStore H :=
  let b : Bucket := ⟨(s.readBalances userId currencyId).available + dAvailable,
    (s.readBalances userId currencyId).locked + dLocked⟩
  if b.available < 0 ∨ b.locked < 0 then s
  else
    { s with balances := fun u c =>
        if u = userId ∧ c = currencyId then some b else s.balances u c }

/-- A compaction that fails is rolled back. -/
def step : LedgerAction → LedgerStore H
  | .settle makerRebatesEnabled id payload => s.settle digest ctx makerRebatesEnabled id payload
  | .fund userId currencyId dAvailable dLocked => s.fund userId currencyId dAvailable dLocked
  | .compact cutoff =>
    match s.runLedgerCompaction currencyOf cutoff with
    | .ok r => r.1
    | .error _ => s

def run (acts : List LedgerAction) : LedgerStore H :=
  acts.foldl (step digest ctx currencyOf) init

end Steps

variable {digest : Option H → LedgerEntry → H} {ctx : SettlementContext}
  {currencyOf : String → Option CurrencyId}

def Compactable (currencyOf : String → Option CurrencyId) (s : LedgerStore H) :
    LedgerAction → Prop
  | .compact cutoff =>
    (∃ r ∈ s.live, r.id = cutoff) ∧ (∀ r ∈ s.archive, cutoff < r.id) ∧
      ∀ r ∈ s.upTo cutoff,
        (s.balanceOf currencyOf r.key).map Bucket.total = some (entrySum s.live r.key) ∧
          entrySum (s.after cutoff) r.key = 0
  | _ => True

instance (s : LedgerStore H) (act) : Decidable (s.Compactable currencyOf act) := by
  cases act <;> dsimp only [Compactable] <;> infer_instance

/-- Every entry was and is in one of the two tables, the entries after the cutoff are where they
were, and the sums are the same. -/
structure KeepsEntries (cutoff : ℕ) (s s' : LedgerStore H) : Prop where
  perm : (s'.live ++ s'.archive).Perm (s.live ++ s.archive)
  nodup : ((s'.live ++ s'.archive).map StoredEntry.id).Nodup
  after : s'.after cutoff = s.after cutoff
  sums : ∀ key, entrySum (s'.live ++ s'.archive) key = entrySum (s.live ++ s.archive) key

variable {s : LedgerStore H} {cutoff : ℕ}

theorem upTo_append_after_perm (s : LedgerStore H) (cutoff : ℕ) :
    (s.upTo cutoff ++ s.after cutoff).Perm s.live := by
  have hafter : s.after cutoff = s.live.filter fun r => !decide (r.id ≤ cutoff) :=
    filter_congr fun r _ => by rw [← decide_not, decide_eq_decide, not_le]
  rw [hafter]
  exact filter_append_perm _ _

theorem entrySum_upTo_add (s : LedgerStore H) (cutoff : ℕ) (key : UserId × String) :
    entrySum (s.upTo cutoff) key + entrySum (s.after cutoff) key = entrySum s.live key := by
  rw [← entrySum_append]
  exact tally_perm _ _ (s.upTo_append_after_perm cutoff) key

theorem lastCheckpoint_append (s : LedgerStore H) (checkpoints : List (LedgerCheckpoint H))
    (head : StoredEntry H) {keys : List (UserId × String)} {key : UserId × String}
    (hmem : key ∈ keys) : lastCheckpoint (checkpoints ++ keys.map (s.newCheckpoint
    currencyOf cutoff head)) cutoff key = some (s.newCheckpoint currencyOf cutoff head key) := by
  have hnew : s.newCheckpoint currencyOf cutoff head key ∈
      (keys.map (s.newCheckpoint currencyOf cutoff head)).filter fun cp =>
        cp.key = key ∧ cp.checkpointLedgerId = cutoff :=
    mem_filter.mpr ⟨mem_map_of_mem hmem, by simp [newCheckpoint]⟩
  rw [lastCheckpoint, filter_append, getLast?_append,
    getLast?_eq_some_getLast (ne_nil_of_mem hnew), Option.some_or]
  obtain ⟨hlast, hmatch⟩ := mem_filter.mp (getLast_mem (ne_nil_of_mem hnew))
  obtain ⟨key', -, heq⟩ := mem_map.mp hlast
  rw [← heq, decide_eq_true_eq] at hmatch
  rw [← heq, show key' = key from hmatch.1]

theorem runLedgerCompaction_of_compactable (h : s.Compactable currencyOf (.compact cutoff)) :
    ∃ s' n, s.runLedgerCompaction currencyOf cutoff = .ok (s', n, (s.upTo cutoff).length) ∧
      s'.live = s.after cutoff ∧ s'.archive = s.archive ++ s.upTo cutoff := by
  obtain ⟨⟨r, hr, hid⟩, harchive, hgroups⟩ := h
  have hfound : (s.live.find? fun r => r.id = cutoff).isSome :=
    find?_isSome.mpr ⟨r, hr, decide_eq_true hid⟩
  obtain ⟨head, hhead⟩ := Option.isSome_iff_exists.mp hfound
  have hkeys : ∀ key ∈ s.groups cutoff,
      (s.balanceOf currencyOf key).map Bucket.total = some (entrySum s.live key) ∧
        entrySum (s.after cutoff) key = 0 := by
    intro key hkey
    obtain ⟨x, hx, rfl⟩ := mem_map.mp (mem_dedup.mp hkey)
    exact hgroups x hx
  have hbalances : ¬ ∃ key ∈ s.groups cutoff, (s.balanceOf currencyOf key).map Bucket.total ≠
      some (entrySum (s.upTo cutoff) key) := by
    rintro ⟨key, hkey, hne⟩
    obtain ⟨htotal, hafter⟩ := hkeys key hkey
    rw [← s.entrySum_upTo_add cutoff, hafter, add_zero] at htotal
    exact hne htotal
  have hcount : ¬ ((s.archive ++ s.upTo cutoff).filter fun r => r.id ≤ cutoff).length ≠
      (s.upTo cutoff).length := by
    have hnone : (s.archive.filter fun r => r.id ≤ cutoff) = [] :=
      filter_eq_nil_iff.mpr fun x hx => by simpa using harchive x hx
    rw [not_not, filter_append, hnone, nil_append, upTo, filter_filter]
    simp only [Bool.and_self]
  have hreplay : ¬ ∃ key ∈ s.groups cutoff, s.replayDiffers currencyOf (s.checkpoints ++
      (s.groups cutoff).map (s.newCheckpoint currencyOf cutoff head)) cutoff key := by
    rintro ⟨key, hkey, cp, hcp, b, hb, hne⟩
    rw [lastCheckpoint_append s _ head hkey] at hcp
    obtain rfl := Option.some.inj hcp
    apply hne
    rw [newCheckpoint, Option.mem_def.mp hb, (hkeys key hkey).2, add_zero]
    rfl
  rw [runLedgerCompaction, orRefuse_bind hhead, refuseIf_bind hbalances, refuseIf_bind hcount,
    refuseIf_bind hreplay]
  exact ⟨_, _, rfl, rfl, rfl⟩

/-- The ids of the entries are different, and all below the next one. -/
structure Numbered (s : LedgerStore H) : Prop where
  nodup : ((s.live ++ s.archive).map StoredEntry.id).Nodup
  below : ∀ r ∈ s.live ++ s.archive, r.id < s.nextId

theorem Numbered.congr {s' : LedgerStore H} (h : s.Numbered)
    (hperm : (s'.live ++ s'.archive).Perm (s.live ++ s.archive)) (hnext : s'.nextId = s.nextId) :
    s'.Numbered where
  nodup := (hperm.map StoredEntry.id).nodup_iff.mpr h.nodup
  below r hr := hnext ▸ h.below r (hperm.mem_iff.mp hr)

theorem ids_numbered (id : ℕ) (es : List (Entry LedgerEntry H)) :
    (numbered id es).map StoredEntry.id = List.range' id es.length := by
  induction es generalizing id with
  | nil => rfl
  | cons e es ih => rw [numbered, map_cons, length_cons, List.range'_succ, ih]

theorem entry_numbered (id : ℕ) (es : List (Entry LedgerEntry H)) :
    (numbered id es).map StoredEntry.entry = es := by
  induction es generalizing id with
  | nil => rfl
  | cons e es ih => rw [numbered, map_cons, ih]

theorem ids_stored (s : LedgerStore H) (entries : List LedgerEntry) :
    (s.stored digest entries).map StoredEntry.id = List.range' s.nextId entries.length := by
  rw [stored, ids_numbered, length_link]

theorem Numbered.settled (h : s.Numbered) (id : ℕ) (payload : EnginePayload)
    (eff : SettlementEffect) : (s.settled digest id payload eff).Numbered := by
  have hperm : ((s.live ++ s.stored digest eff.entries) ++ s.archive).Perm
      ((s.live ++ s.archive) ++ s.stored digest eff.entries) := by
    rw [append_assoc, append_assoc]
    exact perm_append_comm.append_left s.live
  have hnew : ∀ r ∈ s.stored digest eff.entries,
      s.nextId ≤ r.id ∧ r.id < s.nextId + eff.entries.length := by
    intro r hr
    have hid := mem_map_of_mem (f := StoredEntry.id) hr
    rw [ids_stored, mem_range'_1] at hid
    exact hid
  constructor
  · refine (hperm.map StoredEntry.id).nodup_iff.mpr ?_
    rw [map_append, ids_stored]
    refine h.nodup.append nodup_range' fun i hi hi' => ?_
    obtain ⟨r, hr, rfl⟩ := mem_map.mp hi
    exact absurd (h.below r hr) (mem_range'_1.mp hi').1.not_gt
  · intro r hr
    rcases mem_append.mp (hperm.mem_iff.mp hr) with hr | hr
    · exact (h.below r hr).trans_le (Nat.le_add_right _ _)
    · exact (hnew r hr).2

theorem runLedgerCompaction_eq_ok {r : LedgerStore H × ℕ × ℕ}
    (h : s.runLedgerCompaction currencyOf cutoff = .ok r) : r.1.live = s.after cutoff ∧ r.1.archive
    = s.archive ++ s.upTo cutoff ∧ r.1.nextId = s.nextId ∧ r.1.processed = s.processed := by
  simp only [runLedgerCompaction, bind_eq_ok, pure_eq_ok] at h
  obtain ⟨_, _, _, _, _, _, _, _, rfl⟩ := h
  exact ⟨rfl, rfl, rfl, rfl⟩

theorem compacted_perm {r : LedgerStore H × ℕ × ℕ} (h : s.runLedgerCompaction currencyOf cutoff =
    .ok r) : (r.1.live ++ r.1.archive).Perm (s.live ++ s.archive) := by
  obtain ⟨hlive, harchive, -⟩ := runLedgerCompaction_eq_ok h
  rw [hlive, harchive]
  have hswap : (s.after cutoff ++ s.archive ++ s.upTo cutoff).Perm
      (s.upTo cutoff ++ (s.after cutoff ++ s.archive)) := perm_append_comm
  rw [append_assoc, ← append_assoc (s.upTo cutoff)] at hswap
  exact hswap.trans ((s.upTo_append_after_perm cutoff).append_right _)

theorem Numbered.step (h : s.Numbered) (act : LedgerAction) :
    (s.step digest ctx currencyOf act).Numbered := by
  cases act with
  | settle makerRebatesEnabled id payload =>
    rw [LedgerStore.step, settle]
    split
    · exact h
    · split
      · exact h.settled id payload _
      · exact h
  | fund userId currencyId dAvailable dLocked =>
    rw [LedgerStore.step, fund]
    dsimp only
    split
    · exact h
    · exact h.congr (.refl _) rfl
  | compact cutoff =>
    rw [LedgerStore.step]
    split
    next r hr => exact h.congr (compacted_perm hr) (runLedgerCompaction_eq_ok hr).2.2.1
    next => exact h

/-- The hash is not looked at. -/
def sampleDigest (_ : Option ℕ) (e : LedgerEntry) : ℕ := e.settlementEventId

def sampleRun (acts : List LedgerAction) : LedgerStore ℕ :=
  run sampleDigest (sampleContext false) (sampleContext false).currencyBySymbol acts

def sampleCompaction (acts : List LedgerAction) (cutoff : ℕ) :
    Except CompactionError (LedgerStore ℕ × ℕ × ℕ) :=
  (sampleRun acts).runLedgerCompaction (sampleContext false).currencyBySymbol cutoff

def fundedRun : List LedgerAction :=
  [.fund 1 2 1 100, .fund 2 1 0 1, .settle false 1 (samplePayload .buy)]

/-- One unit of the base asset for the smallest unit of the quote asset, without a fee. -/
def cheapPayload (taker maker : UserId) : EnginePayload :=
  { samplePayload .buy with price := 1 / 10 ^ 6, takerUserId := taker, makerUserId := maker }

/-- Both fund, one buys from the other and sells it back, and both withdraw. -/
def roundTrip (id : ℕ) : List LedgerAction :=
  [.fund 1 2 0 (1 / 10 ^ 6), .fund 2 1 0 1, .settle false id (cheapPayload 1 2),
   .fund 2 2 (-(1 / 10 ^ 6)) (1 / 10 ^ 6), .fund 1 1 (-1) 1,
   .settle false (id + 1) (cheapPayload 2 1), .fund 2 1 (-1) 0, .fund 1 2 (-(1 / 10 ^ 6)) 0]

end LedgerStore

end MetherCEX
