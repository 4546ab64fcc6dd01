import MetherCEX.Lib.Run
import MetherCEX.Lib.Table

/-!
# The depth of credited deposits

`ConfirmationTracker` counts the confirmations of a deposit from the block in which it was recorded.
A reorganisation may have moved the transaction to a later block by the time of the credit.
-/

namespace MetherCEX

open Run Table List

/-- The hashes of the transactions of a block, with whether they succeeded. -/
abbrev EvmBlock := List (String × Bool)

inductive TrackedStatus
  | pending
  | failed
  | completed
  deriving DecidableEq

structure TrackedDeposit where
  txHash : String
  blockNumber : ℕ
  requiredConfirmations : ℕ
  status : TrackedStatus
  deriving DecidableEq

/-- A credit, with the chain that the receipt was read from. -/
structure TrackerCredit where
  deposit : TrackedDeposit
  chain : List EvmBlock
  deriving DecidableEq

/-- The chain (the number of a block is its position), the deposits, those that a round of the
tracker has listed, the head it has read, and the credits so far. -/
structure TrackerState where
  chain : List EvmBlock
  deposits : List TrackedDeposit
  listed : List ℕ
  head : Option ℕ
  credits : List TrackerCredit
  deriving DecidableEq

inductive TrackerAction
  /-- The chain grows or is reorganised. -/
  | reorganise (chain : List EvmBlock)
  | record (txHash : String) (blockNumber requiredConfirmations : ℕ)
  | list
  | getBlockNumber
  /-- The next of the listed deposits is processed. -/
  | next
  deriving DecidableEq

namespace TrackerState

def init : TrackerState := ⟨[], [], [], none, []⟩

def hasTx (txHash : String) (block : EvmBlock) : Bool := block.any (·.1 = txHash)

/-- The status in the receipt of a transaction, if the chain has it. -/
def receiptStatus (s : TrackerState) (txHash : String) : Option Bool :=
  (s.chain.flatten.find? (·.1 = txHash)).map (·.2)

/-- `recordDeposit`, while its block is scanned. -/
def record (s : TrackerState) (txHash : String) (blockNumber required : ℕ) : TrackerState :=
  if s.chain[blockNumber]?.any (hasTx txHash) ∧ txHash ∉ s.deposits.map TrackedDeposit.txHash then
    { s with deposits := s.deposits ++ [⟨txHash, blockNumber, required, .pending⟩] }
  else s

/-- `checkPendingDeposits`. -/
def list (s : TrackerState) : TrackerState :=
  { s with
    listed := ((s.deposits.zipIdx.filter (·.1.status = .pending)).take 100).map (·.2)
    head := none }

def confirmDeposit (s : TrackerState) (id : ℕ) (d : TrackedDeposit) : TrackerState :=
  match s.receiptStatus d.txHash with
  | none => s
  | some false => { s with deposits := s.deposits.set id { d with status := .failed } }
  | some true =>
    if d.status = .completed then s
    else { s with
      deposits := s.deposits.set id { d with status := .completed }
      credits := s.credits ++ [⟨d, s.chain⟩] }

/-- A round of the loop of `processChainDeposits`. -/
def process (s : TrackerState) (currentBlock id : ℕ) : TrackerState :=
  match s.deposits[id]? with
  | none => s
  | some d =>
    if (d.requiredConfirmations : ℤ) ≤ (currentBlock : ℤ) - d.blockNumber then s.confirmDeposit id d
    else s

def step (s : TrackerState) : TrackerAction → TrackerState
  | .reorganise chain => { s with chain := chain }
  | .record txHash blockNumber required => s.record txHash blockNumber required
  | .list => s.list
  | .getBlockNumber => { s with head := some (s.chain.length - 1) }
  | .next =>
    match s.head, s.listed with
    | some currentBlock, id :: rest => { s with listed := rest }.process currentBlock id
    | _, _ => s

def run (acts : List TrackerAction) : TrackerState := acts.foldl step init

end TrackerState

/-- The chain has the transaction, under as many blocks as the deposit requires. -/
def TrackerCredit.Deep (c : TrackerCredit) : Prop :=
  ∃ (n : ℕ) (block : EvmBlock), c.chain[n]? = some block ∧
    TrackerState.hasTx c.deposit.txHash block = true ∧
    n + c.deposit.requiredConfirmations < c.chain.length

namespace TrackerState

variable {s : TrackerState}

/-- Since the head was read the chain has not become shorter, and the transaction is in no later
block than the recorded one. -/
def KeepsPlace (s : TrackerState) (currentBlock id : ℕ) : Prop :=
  currentBlock < s.chain.length ∧
    ∀ d ∈ s.deposits[id]?, ∀ x ∈ s.chain.zipIdx, hasTx d.txHash x.1 → x.2 ≤ d.blockNumber
  deriving Decidable

/-- The condition on a step that processes a deposit. -/
def Steady (s : TrackerState) : TrackerAction → Prop
  | .next => ∀ currentBlock ∈ s.head, ∀ id ∈ s.listed.head?, s.KeepsPlace currentBlock id
  | _ => True

instance (act) : Decidable (s.Steady act) := by
  cases act <;> dsimp only [Steady] <;> infer_instance

theorem exists_block_of_receiptStatus {txHash : String} {status : Bool}
    (h : s.receiptStatus txHash = some status) :
    ∃ (n : ℕ) (block : EvmBlock), s.chain[n]? = some block ∧ hasTx txHash block = true := by
  obtain ⟨x, hfind, -⟩ := Option.map_eq_some_iff.mp h
  obtain ⟨block, hblock, hx⟩ := mem_flatten.mp (mem_of_find?_eq_some hfind)
  obtain ⟨n, hn⟩ := mem_iff_getElem?.mp hblock
  have htx := find?_some hfind
  exact ⟨n, block, hn, any_eq_true.mpr ⟨x, hx, htx⟩⟩

/-- A credit that a step adds was given for a receipt, to a deposit with enough confirmations. -/
theorem process_credits {currentBlock id : ℕ}
    {c : TrackerCredit} (hc : c ∈ (s.process currentBlock id).credits) : c ∈ s.credits ∨
    s.deposits[id]? = some c.deposit ∧ c.chain = s.chain ∧ s.receiptStatus c.deposit.txHash =
    some true ∧ c.deposit.blockNumber + c.deposit.requiredConfirmations ≤ currentBlock := by
  unfold process at hc
  split at hc
  · exact .inl hc
  next d hd =>
    split_ifs at hc with hdeep
    · unfold confirmDeposit at hc
      split at hc
      · exact .inl hc
      · exact .inl hc
      next hreceipt =>
        split_ifs at hc
        · exact .inl hc
        · rcases mem_concat hc with hc | rfl
          · exact .inl hc
          · exact .inr ⟨hd, rfl, hreceipt, by dsimp only; omega⟩
    · exact .inl hc

theorem deep_step (h : ∀ c ∈ s.credits, c.Deep) {act : TrackerAction} (hact : s.Steady act) :
    ∀ c ∈ (s.step act).credits, c.Deep := by
  cases act with
  | reorganise | list | getBlockNumber => exact h
  | record txHash blockNumber required =>
    simp only [step, record]
    split_ifs
    · exact h
    · exact h
  | next =>
    cases hhead : s.head with
    | none => simpa only [step, hhead] using h
    | some currentBlock =>
      cases hlisted : s.listed with
      | nil => simpa only [step, hhead, hlisted] using h
      | cons id rest =>
        simp only [step, hhead, hlisted]
        intro c hc
        obtain hc | ⟨hd, hchain, hreceipt, hconfirmed⟩ := process_credits hc
        · exact h c hc
        obtain ⟨hlength, hplace⟩ := hact currentBlock hhead id (by rw [hlisted]; rfl)
        obtain ⟨n, block, hn, htx⟩ := exists_block_of_receiptStatus hreceipt
        have hle : n ≤ c.deposit.blockNumber :=
          hplace c.deposit hd (block, n) (mk_mem_zipIdx_iff_getElem?.mpr hn) htx
        exact ⟨n, block, hchain ▸ hn, htx, by rw [hchain]; dsimp only; omega⟩

/-- The transaction is recorded in block 1, and the chain becomes `chain` before it is processed. -/
def recordedThen (chain : List EvmBlock) : List TrackerAction :=
  [.reorganise [[], [("0x1", true)]], .record "0x1" 1 2, .reorganise chain, .list, .getBlockNumber,
    .next]

end TrackerState

end MetherCEX
