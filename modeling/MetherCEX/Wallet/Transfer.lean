import MetherCEX.Lib.Run
import MetherCEX.Wallet.Ledger

/-!
# Transfers between accounts

`POST /wallet/transfer` keeps a transfer from being applied twice by a result that is cached under
the idempotency key, and by a lock of 30 seconds that is not released.
-/

namespace MetherCEX

open Run Decimal List Function

/-- The body that all requests with the key have. -/
structure TransferBody where
  fromAccount : AccountType
  toAccount : AccountType
  amount : ℚ

/-- A request that has the lock, before and after its transaction. -/
inductive TransferStage
  | locked
  | committed
  deriving DecidableEq

/-- The available balances of the user in the currency, the two Redis keys, the number of requests
that have found no cached result, those that have taken the lock, and how often the balances were
moved. -/
structure TransferState where
  balances : AccountType → ℚ
  cached : Bool
  locked : Bool
  missed : ℕ
  working : List TransferStage
  applied : ℕ

/-- A request reads the cache, tries to take the lock, runs its transaction, which may fail, and
stores its result, which may fail; a process crashes; the lock expires. -/
inductive TransferAction
  | read
  | acquire
  | transact (i : ℕ) (ok : Bool)
  | store (i : ℕ) (ok : Bool)
  | crash (i : ℕ)
  | expire
  deriving DecidableEq

namespace TransferState

def init (balances : AccountType → ℚ) : TransferState := ⟨balances, false, false, 0, [], 0⟩

/-- The amount leaves one account and comes to another. -/
def move (balances : AccountType → ℚ) (b : TransferBody) : AccountType → ℚ :=
  let debited := update balances b.fromAccount
    (balances b.fromAccount - toAmount b.amount)
  update debited b.toAccount (debited b.toAccount + toAmount b.amount)

/-- The checks before the transaction and in it. -/
def Accepts (balances : AccountType → ℚ) (b : TransferBody) : Prop :=
  b.fromAccount ≠ b.toAccount ∧ 0 < toAmount b.amount ∧
    toAmount b.amount ≤ toAmount (balances b.fromAccount) ∧
    toAmount b.amount ≤ balances b.fromAccount
  deriving Decidable

def transact (b : TransferBody) (s : TransferState) (i : ℕ) (ok : Bool) : TransferState :=
  if s.working[i]? = some .locked then
    if ok = true ∧ Accepts s.balances b then
      { s with
        balances := move s.balances b
        working := s.working.set i .committed
        applied := s.applied + 1 }
    else { s with working := s.working.eraseIdx i }
  else s

def step (b : TransferBody) (s : TransferState) : TransferAction → TransferState
  | .read => if s.cached then s else { s with missed := s.missed + 1 }
  | .acquire =>
    if s.missed = 0 then s
    else if s.locked then { s with missed := s.missed - 1 }
    else { s with missed := s.missed - 1, locked := true, working := s.working ++ [.locked] }
  | .transact i ok => s.transact b i ok
  | .store i ok =>
    if s.working[i]? = some .committed then
      { s with working := s.working.eraseIdx i, cached := s.cached || ok }
    else s
  | .crash i => { s with working := s.working.eraseIdx i }
  | .expire => { s with locked := false }

def run (b : TransferBody) (balances : AccountType → ℚ) (acts : List TransferAction) :
    TransferState :=
  acts.foldl (step b) (init balances)

def total (balances : AccountType → ℚ) : ℚ :=
  balances .funding + balances .spot + balances .trading

/-- The balances were moved once at most, with the total kept and none of them negative. -/
structure AppliedOnce (start : AccountType → ℚ) (s : TransferState) : Prop where
  applied : s.applied ≤ 1
  total : total s.balances = total start
  nonneg : ∀ a, 0 ≤ s.balances a

/-- The lock expires only while no request is between its read of the cache and its end, no process
crashes between the commit and the cache write, and that write succeeds. -/
def InTime (s : TransferState) : TransferAction → Prop
  | .expire => s.missed = 0 ∧ s.working = []
  | .crash i => s.working[i]? ≠ some .committed
  | .store _ ok => ok = true
  | _ => True

instance (s : TransferState) (act) : Decidable (s.InTime act) := by
  cases act <;> dsimp only [InTime] <;> infer_instance

theorem total_move {balances : AccountType → ℚ} {b : TransferBody}
    (h : b.fromAccount ≠ b.toAccount) : total (move balances b) = total balances := by
  obtain ⟨source, target, amount⟩ := b
  cases source <;> cases target <;> simp [total, move, update] at h ⊢ <;> ring

theorem move_nonneg {balances : AccountType → ℚ} {b : TransferBody} (h : Accepts balances b)
    (hnonneg : ∀ a, 0 ≤ balances a) (a : AccountType) : 0 ≤ move balances b a := by
  obtain ⟨hne, hpos, -, hle⟩ := h
  have hdebited : ∀ a, 0 ≤ update balances b.fromAccount
      (balances b.fromAccount - toAmount b.amount) a := by
    intro a
    rw [update_apply]
    split_ifs
    · exact sub_nonneg.mpr hle
    · exact hnonneg a
  rw [move, update_apply]
  split_ifs
  · exact add_nonneg (hdebited _) hpos.le
  · exact hdebited a

/-- What holds while the lock does not expire too early. -/
structure Guarded (start : AccountType → ℚ) (s : TransferState) : Prop
    extends AppliedOnce start s where
  one : s.working.length ≤ 1
  held : s.working ≠ [] → s.locked = true
  fresh : .locked ∈ s.working → s.applied = 0
  known : 0 < s.applied → s.cached = true ∨ .committed ∈ s.working
  late : s.missed ≠ 0 → s.locked = false → s.applied = 0

namespace Guarded

variable {start : AccountType → ℚ} {b : TransferBody} {s : TransferState} (h : s.Guarded start)
include h

theorem working_eq {i : ℕ} {stage : TransferStage} (hget : s.working[i]? = some stage) :
    s.working = [stage] := by
  have hone := h.one
  cases hworking : s.working with
  | nil => simp [hworking] at hget
  | cons first rest =>
    obtain rfl : rest = [] := by
      rw [hworking, length_cons] at hone
      exact length_eq_zero_iff.mp (by omega)
    rw [hworking] at hget
    exact (mem_singleton.mp (mem_of_getElem? hget)) ▸ rfl

theorem erase {i : ℕ} (hne : s.working[i]? ≠ some .committed) :
    Guarded start { s with working := s.working.eraseIdx i } := by
  refine ⟨⟨h.applied, h.total, h.nonneg⟩, (length_eraseIdx_le _ _).trans h.one,
    fun hsome => h.held ?_, fun hmem => h.fresh (mem_of_mem_eraseIdx hmem), fun hpos => ?_, h.late⟩
  · rintro hnone
    exact hsome (by dsimp only; rw [hnone]; rfl)
  · refine (h.known hpos).imp_right fun hmem => ?_
    obtain ⟨j, hj⟩ := mem_iff_getElem?.mp hmem
    exact mem_eraseIdx_iff_getElem?.mpr ⟨j, fun heq => hne (heq ▸ hj), hj⟩

theorem transact (i : ℕ) (ok : Bool) : (s.transact b i ok).Guarded start := by
  unfold TransferState.transact
  split_ifs with hget haccepts
  · have hworking := h.working_eq hget
    have hzero := h.fresh (mem_of_getElem? hget)
    have hheld := h.held (ne_nil_of_mem (mem_of_getElem? hget))
    have hset : s.working.set i .committed = [.committed] := by
      cases i with
      | zero => rw [hworking]; rfl
      | succ i => simp [hworking] at hget
    refine ⟨⟨by dsimp only; omega, (total_move haccepts.2.1).trans h.total,
      move_nonneg haccepts.2 h.nonneg⟩, ?_, fun _ => hheld, ?_, ?_,
      fun _ hfree => absurd (hheld.symm.trans hfree) nofun⟩
    all_goals simp [hset]
  · exact h.erase (by rw [hget]; nofun)
  · exact h

theorem step {act : TransferAction} (hact : s.InTime act) : (s.step b act).Guarded start := by
  cases act with
  | transact i ok => exact h.transact i ok
  | crash i => exact h.erase hact
  | expire =>
    exact { h with
      held := fun hsome => absurd hact.2 hsome
      late := fun hmissed => absurd hact.1 hmissed }
  | read =>
    simp only [TransferState.step]
    split_ifs with hcached
    · exact h
    · -- what was applied and is not cached is in the hands of a request that has the lock
      refine { h with late := fun _ hfree => ?_ }
      by_contra hne
      rcases h.known (Nat.pos_of_ne_zero hne) with hc | hc
      · exact hcached hc
      · exact absurd ((h.held (ne_nil_of_mem hc)).symm.trans hfree) nofun
  | acquire =>
    simp only [TransferState.step]
    split_ifs with hmissed hlocked
    · exact h
    · exact { h with late := fun _ hfree => absurd (hlocked.symm.trans hfree) nofun }
    · have hnone : s.working = [] := by_contra fun hsome => hlocked (h.held hsome)
      have hzero := h.late hmissed (eq_false_of_ne_true hlocked)
      exact ⟨⟨h.applied, h.total, h.nonneg⟩, by simp [hnone], fun _ => rfl, fun _ => hzero,
        fun hpos => absurd hzero hpos.ne', fun _ => nofun⟩
  | store i ok =>
    simp only [TransferState.step]
    split_ifs with hget
    · have hok : ok = true := hact
      have hrest : ∀ x ∈ s.working.eraseIdx i, x ∈ s.working := fun _ => mem_of_mem_eraseIdx
      exact ⟨⟨h.applied, h.total, h.nonneg⟩, (length_eraseIdx_le _ _).trans h.one,
        fun _ => h.held (ne_nil_of_mem (mem_of_getElem? hget)), fun hmem => h.fresh (hrest _ hmem),
        fun _ => .inl (by simp [hok]), h.late⟩
    · exact h

end Guarded

/-- A transfer is applied at most once for a key, and keeps the total, in every run in which the
lock expires only between requests and every committed transfer gets into the cache. -/
theorem transfer_applied_once (b : TransferBody) (start : AccountType → ℚ)
    (hstart : ∀ a, 0 ≤ start a) (acts : List TransferAction)
    (h : Along (step b) InTime (init start) acts) : (run b start acts).AppliedOnce start :=
  (h.invariant (P := Guarded start)
    ⟨⟨zero_le_one, rfl, hstart⟩, zero_le_one, nofun, nofun, nofun, fun _ _ => rfl⟩
    fun _ _ hs hact => hs.step hact).toAppliedOnce

/-- Three coins from the funding to the trading account. -/
def threeToTrading : TransferBody := ⟨.funding, .trading, 3⟩

def tenFunding : AccountType → ℚ := fun a => if a = .funding then 10 else 0

/-- A request is answered, and a second one finds its result. -/
def retriedTransfer : List TransferAction :=
  [.read, .acquire, .transact 0 true, .store 0 true, .expire, .read, .acquire]

theorem retriedTransfer_once :
    (run threeToTrading tenFunding retriedTransfer).applied = 1 ∧
      (run threeToTrading tenFunding retriedTransfer).AppliedOnce tenFunding :=
  ⟨by decide +kernel, transfer_applied_once threeToTrading tenFunding
    (fun a => by unfold tenFunding; split_ifs <;> norm_num) retriedTransfer (by decide +kernel)⟩

/-- The process crashes before it caches the result, the lock expires, the client tries again. -/
theorem crashed_transfer_applied_twice :
    let s := run threeToTrading tenFunding [.read, .acquire, .transact 0 true, .crash 0, .expire,
      .read, .acquire, .transact 0 true]
    s.applied = 2 ∧ s.balances .funding = 4 ∧ s.balances .trading = 6 := by
  decide +kernel

/-- Whatever expires and crashes, also where a transfer is applied twice, the total is kept and no
balance becomes negative. -/
theorem transfers_keep_total (b : TransferBody) (start : AccountType → ℚ≥0)
    (acts : List TransferAction) : let s := run b (start ·) acts
    total s.balances = total (start ·) ∧ ∀ a, 0 ≤ s.balances a := by
  refine foldlRecOn
    (motive := fun s : TransferState => total s.balances = _ ∧ ∀ a, 0 ≤ s.balances a) acts _ ⟨rfl, fun a => (start a).2⟩ fun s hs act _ => ?_
  cases act with
  | crash | expire => exact hs
  | read | acquire | store =>
    simp only [step]
    split_ifs <;> exact hs
  | transact i ok =>
    simp only [step, transact]
    split_ifs with hget haccepts
    · exact ⟨(total_move haccepts.2.1).trans hs.1, move_nonneg haccepts.2 hs.2⟩
    all_goals exact hs

end TransferState

end MetherCEX
