import MetherCEX.Lib.HashChain
import MetherCEX.Lib.Run
import MetherCEX.Settlement.Value

/-!
# The hash chain of the settlement ledger

The entries of `settlement_ledger_entries` are meant to be one chain in the order of their ids.
-/

namespace MetherCEX

open HashChain List Function

structure LedgerBody where
  settlementEventId : ℕ
  userId : UserId
  asset : String
  delta : ℚ
  deriving DecidableEq

/-- A row of `settlement_ledger_entries`. -/
structure ChainRow (H : Type) where
  id : ℕ
  entry : Entry LedgerBody H
  deriving DecidableEq

/-- A settlement that has read the last hash: the entries it still has to insert, and the
rows it has inserted. -/
structure ChainTx (H : Type) where
  toInsert : List (Entry LedgerBody H)
  inserted : List (ChainRow H)
  deriving DecidableEq

/-- The committed rows, the sequence of the ids, and the open settlements. -/
structure ChainState (W H : Type) where
  rows : List (ChainRow H)
  nextId : ℕ
  tx : W → Option (ChainTx H)

inductive ChainAction (W : Type)
  | readHead (w : W) (settlementEventId : ℕ) (t : SettlementTerms)
  | insert (w : W)
  | commit (w : W)
  | abort (w : W)

namespace ChainState

variable {W H : Type} (digest : Option H → LedgerBody → H)

def init : ChainState W H := ⟨[], 1, fun _ => none⟩

def ordered (s : ChainState W H) : List (ChainRow H) :=
  s.rows.insertionSort fun r r' => r.id ≤ r'.id

/-- `SELECT entry_hash ... ORDER BY id DESC LIMIT 1`. -/
def headHash (s : ChainState W H) : Option H := s.ordered.getLast?.map fun r => r.entry.hash

section Steps

variable [DecidableEq W]

def setTx (s : ChainState W H) (w : W) (x : Option (ChainTx H)) : ChainState W H :=
  { s with tx := update s.tx w x }

def bodies (settlementEventId : ℕ) (t : SettlementTerms) : List LedgerBody :=
  t.computeSettlementLedgerDeltasFromPayload.map fun d =>
    ⟨settlementEventId, d.userId, d.asset, d.delta⟩

/-- The settlement of an event reads the last hash and computes its entries. -/
def readHead (s : ChainState W H) (w : W) (settlementEventId : ℕ) (t : SettlementTerms) :
    ChainState W H :=
  match s.tx w with
  | none => s.setTx w (some ⟨link digest s.headHash (bodies settlementEventId t), []⟩)
  | some _ => s

/-- The next entry gets the next id of the sequence, which no rollback gives back. -/
def insert (s : ChainState W H) (w : W) : ChainState W H :=
  match s.tx w with
  | some ⟨e :: es, inserted⟩ =>
    { s.setTx w (some ⟨es, inserted ++ [⟨s.nextId, e⟩]⟩) with nextId := s.nextId + 1 }
  | _ => s

def commit (s : ChainState W H) (w : W) : ChainState W H :=
  match s.tx w with
  | some ⟨[], inserted⟩ => { s.setTx w none with rows := s.rows ++ inserted }
  | _ => s

def step (s : ChainState W H) : ChainAction W → ChainState W H
  | .readHead w settlementEventId t => s.readHead digest w settlementEventId t
  | .insert w => s.insert w
  | .commit w => s.commit w
  | .abort w => s.setTx w none

end Steps

/-- A settlement reads the last hash only while no other one is open. -/
def Alone (s : ChainState W H) : ChainAction W → Prop
  | .readHead _ _ _ => ∀ w, s.tx w = none
  | _ => True

instance [Fintype W] [DecidableEq H] (s : ChainState W H) (a) : Decidable (s.Alone a) := by
  cases a <;> dsimp only [Alone] <;> infer_instance

/-- The rows are in the order of their ids and one chain, which `rest` continues. -/
structure GoodRows (nextId : ℕ) (rows : List (ChainRow H)) (rest : List (Entry LedgerBody H)) :
    Prop where
  chained : ChainedFrom none (rows.map ChainRow.entry ++ rest)
  hashed : ∀ e ∈ rows.map ChainRow.entry ++ rest, Hashed digest e
  sorted : rows.Pairwise fun r r' => r.id < r'.id
  below : ∀ r ∈ rows, r.id < nextId

/-- At most one settlement is open, and it continues the chain of the committed rows. -/
structure Linear (s : ChainState W H) : Prop where
  rows : GoodRows digest s.nextId s.rows []
  single : ∀ w w' x x', s.tx w = some x → s.tx w' = some x' → w = w'
  continues : ∀ w x, s.tx w = some x →
    GoodRows digest s.nextId (s.rows ++ x.inserted) x.toInsert

variable {digest} {s : ChainState W H} {nextId : ℕ} {rows : List (ChainRow H)}
  {rest : List (Entry LedgerBody H)}

theorem GoodRows.succ (h : GoodRows digest nextId rows rest) :
    GoodRows digest (nextId + 1) rows rest :=
  { h with below := fun r hr => Nat.lt_succ_of_lt (h.below r hr) }

theorem GoodRows.insert {e : Entry LedgerBody H} (h : GoodRows digest nextId rows (e :: rest)) :
    GoodRows digest (nextId + 1) (rows ++ [⟨nextId, e⟩]) rest := by
  have hentries : (rows ++ [(⟨nextId, e⟩ : ChainRow H)]).map ChainRow.entry ++ rest =
      rows.map ChainRow.entry ++ e :: rest := by simp
  refine ⟨hentries ▸ h.chained, hentries ▸ h.hashed, ?_, ?_⟩
  · refine pairwise_append.mpr ⟨h.sorted, pairwise_singleton _ _, ?_⟩
    intro r hr r' hr'
    rw [mem_singleton.mp hr']
    exact h.below r hr
  · intro r hr
    rcases mem_append.mp hr with hr | hr
    · exact Nat.lt_succ_of_lt (h.below r hr)
    · rw [mem_singleton.mp hr]
      exact Nat.lt_succ_self nextId

theorem GoodRows.ordered_eq (h : GoodRows digest s.nextId s.rows []) : s.ordered = s.rows :=
  List.Pairwise.insertionSort_eq (h.sorted.imp fun hlt => hlt.le)

theorem GoodRows.headHash_eq (h : GoodRows digest s.nextId s.rows []) :
    s.headHash = lastHash none (s.rows.map ChainRow.entry) := by
  rw [headHash, h.ordered_eq, lastHash_none, getLast?_map, Option.map_map]
  rfl

theorem GoodRows.link (h : GoodRows digest s.nextId s.rows []) (bs : List LedgerBody) :
    GoodRows digest s.nextId s.rows (link digest s.headHash bs) := by
  have hchained : ChainedFrom none (s.rows.map ChainRow.entry) := by
    have hrows := h.chained
    rwa [append_nil] at hrows
  refine ⟨?_, ?_, h.sorted, h.below⟩
  · rw [chainedFrom_append, h.headHash_eq]
    exact ⟨hchained, chainedFrom_link _ bs⟩
  · intro e he
    rcases mem_append.mp he with he | he
    · exact h.hashed e (mem_append_left _ he)
    · exact hashed_of_mem_link he

namespace Linear

theorem init : (init : ChainState W H).Linear digest :=
  ⟨⟨trivial, nofun, List.Pairwise.nil,
    nofun⟩, fun _ _ _ _ h => absurd h (Option.some_ne_none _).symm,
    fun _ _ h => absurd h (Option.some_ne_none _).symm⟩

variable [DecidableEq W]

theorem single_setTx (h : s.Linear digest) {w : W} {x : ChainTx H} (hw : s.tx w = some x)
    {y : Option (ChainTx H)} {w' : W} {x' : ChainTx H}
    (hw' : update s.tx w y w' = some x') : w' = w ∧ y = some x' := by
  rcases Run.update_eq_some hw' with hown | ⟨hne, hother⟩
  · exact hown
  · exact absurd (h.single w' w x' x hother hw) hne

theorem readHead (h : s.Linear digest) (w : W) (settlementEventId : ℕ) (t : SettlementTerms)
    (halone : ∀ w, s.tx w = none) : (s.readHead digest w settlementEventId t).Linear digest := by
  rw [ChainState.readHead, halone w]
  have hown : ∀ {w' x'}, (s.setTx w (some ⟨HashChain.link digest s.headHash
      (bodies settlementEventId t), []⟩)).tx w' = some x' →
      w' = w ∧ x' = ⟨HashChain.link digest s.headHash (bodies settlementEventId t), []⟩ := by
    intro w' x' hx'
    rcases Run.update_eq_some hx' with ⟨rfl, hx⟩ | ⟨-, hx⟩
    · exact ⟨rfl, (Option.some.inj hx).symm⟩
    · rw [halone w'] at hx
      cases hx
  refine ⟨h.rows, fun w₁ w₂ x₁ x₂ h₁ h₂ => (hown h₁).1.trans (hown h₂).1.symm, ?_⟩
  intro w' x' hx'
  rw [(hown hx').2]
  simpa [ChainState.setTx] using h.rows.link (bodies settlementEventId t)

theorem insert (h : s.Linear digest) (w : W) : (s.insert w).Linear digest := by
  rw [ChainState.insert]
  split
  case h_1 e es inserted hw =>
    have hcontinues := (h.continues w _ hw).insert
    refine ⟨h.rows.succ, ?_, ?_⟩
    · intro w₁ w₂ x₁ x₂ h₁ h₂
      exact (h.single_setTx hw h₁).1.trans (h.single_setTx hw h₂).1.symm
    · intro w' x' hx'
      obtain ⟨-, hx⟩ := h.single_setTx hw hx'
      obtain rfl := Option.some.inj hx
      rwa [append_assoc] at hcontinues
  case h_2 => exact h

theorem close {rows : List (ChainRow H)} (h : s.Linear digest)
    (hrows : GoodRows digest s.nextId rows []) {w : W} {x : ChainTx H} (hw : s.tx w = some x) :
    ({ s.setTx w none with rows := rows } : ChainState W H).Linear digest := by
  have hclosed : ∀ w' x', update s.tx w none w' ≠ some x' := by
    intro w' x' hx'
    cases (h.single_setTx hw hx').2
  exact ⟨hrows, fun w' _ x' _ h' => absurd h' (hclosed w' x'),
    fun w' x' h' => absurd h' (hclosed w' x')⟩

theorem commit (h : s.Linear digest) (w : W) : (s.commit w).Linear digest := by
  rw [ChainState.commit]
  split
  case h_1 inserted hw => exact h.close (h.continues w _ hw) hw
  case h_2 => exact h

theorem abort (h : s.Linear digest) (w : W) : (s.setTx w none).Linear digest := by
  cases hw : s.tx w with
  | none =>
    have hsame : update s.tx w none = s.tx := by
      rw [← hw, update_eq_self]
    rw [setTx, hsame]
    exact h
  | some x => exact h.close h.rows hw

theorem step (h : s.Linear digest) (a : ChainAction W) (halone : s.Alone a) :
    (s.step digest a).Linear digest := by
  cases a with
  | readHead w settlementEventId t => exact h.readHead w settlementEventId t halone
  | insert w => exact h.insert w
  | commit w => exact h.commit w
  | abort w => exact h.abort w

end Linear

end ChainState

open ChainState in
/-- The settlement ledger is one linear hash chain. After every run of settlements in which
each reads the last hash only while no other one is open, each entry holds the hash of the
entry before it in the order of the ids, only the first one holds none, and no two hold the
same. -/
theorem ledger_one_chain {W H : Type} [DecidableEq W] (digest : Option H → LedgerBody → H)
    (hdigest : Function.Injective2 digest) (actions : List (ChainAction W))
    (halone : Run.Along (ChainState.step digest) Alone init actions) : ChainedFrom none
    ((actions.foldl (ChainState.step digest) init).ordered.map ChainRow.entry) ∧ (((actions.foldl
    (ChainState.step digest) init).ordered.map ChainRow.entry).map Entry.prev).Nodup := by
  have hlinear := halone.invariant Linear.init fun _ a h ha => h.step a ha
  have hchained := hlinear.rows.chained
  have hhashed := hlinear.rows.hashed
  rw [append_nil] at hchained hhashed
  rw [hlinear.rows.ordered_eq]
  exact ⟨hchained, prev_nodup hdigest hchained hhashed⟩

def listDigest : Option (LedgerBody × List LedgerBody) → LedgerBody →
    LedgerBody × List LedgerBody
  | none, b => (b, [])
  | some (c, cs), b => (b, c :: cs)

theorem listDigest_injective : Function.Injective2 listDigest := by
  rintro (_ | ⟨c, cs⟩) (_ | ⟨c', cs'⟩) b b' h
  · simpa [listDigest] using h
  · simp [listDigest] at h
  · simp [listDigest] at h
  · simp only [listDigest, Prod.mk.injEq, List.cons.injEq] at h
    obtain ⟨rfl, rfl, rfl⟩ := h
    exact ⟨rfl, rfl⟩

def chainTerms (worker : Bool) : SettlementTerms :=
  { payload := { samplePayload .buy with
      takerUserId := if worker then 1 else 3
      makerUserId := if worker then 2 else 4 }
    market := sampleAssets
    rates := feeRates
    makerRebatesEnabled := false }

def writeEntries (worker : Bool) : List (ChainAction Bool) :=
  [.insert worker, .insert worker, .insert worker, .insert worker, .commit worker]

def oneAfterAnother : List (ChainAction Bool) :=
  .readHead true 1 (chainTerms true) :: writeEntries true ++
    .readHead false 2 (chainTerms false) :: writeEntries false

def bothAtOnce : List (ChainAction Bool) :=
  [.readHead true 1 (chainTerms true), .readHead false 2 (chainTerms false)] ++
    writeEntries true ++ writeEntries false

open ChainState in
theorem oneAfterAnother_chained :
    (oneAfterAnother.foldl (ChainState.step listDigest) init).rows.length = 8 ∧ ChainedFrom
    none ((oneAfterAnother.foldl (ChainState.step listDigest) init).ordered.map ChainRow.entry) :=
  ⟨by decide +kernel,
    (ledger_one_chain listDigest listDigest_injective oneAfterAnother (by decide +kernel)).1⟩

open ChainState in
/-- Both workers find the ledger empty, and both first entries hold no hash. -/
theorem concurrentSettlements_fork : ¬ ChainedFrom none ((bothAtOnce.foldl (ChainState.step
    listDigest) init).ordered.map ChainRow.entry) ∧ (((bothAtOnce.foldl (ChainState.step listDigest)
    init).ordered.map ChainRow.entry).map Entry.prev).count none = 2 := by
  decide +kernel

end MetherCEX
