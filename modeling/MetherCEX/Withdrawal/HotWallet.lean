import MetherCEX.Lib.Run
import MetherCEX.Lib.Table
import MetherCEX.Wallet.Ledger

/-!
# The daily cap of a hot wallet

The workers check the cap before they sign (`checkHotWalletCaps`), against the completed withdrawals
of the chain of the wallet. What is on its way, and what was sent on the other chains of the wallet,
is not counted.
-/

namespace MetherCEX

open Run Table List

/-- A row of `hot_wallets`. -/
structure HotWallet where
  chainId : ChainId
  maxSingleTx : Option ℚ≥0
  maxDailyOutflow : Option ℚ≥0

/-- A withdrawal that has passed the check. -/
structure CheckedWithdrawal where
  chainId : ChainId
  netAmount : ℚ≥0
  checkedAt : ℕ
  deriving DecidableEq

/-- A withdrawal that was broadcast. -/
structure SentWithdrawal where
  chainId : ChainId
  netAmount : ℚ≥0
  sentAt : ℕ
  completedAt : Option ℕ
  deriving DecidableEq

/-- The withdrawals that resolve to one hot wallet. -/
structure HotWalletState where
  now : ℕ
  checked : List CheckedWithdrawal
  sent : List SentWithdrawal
  deriving DecidableEq

inductive HotWalletAction
  | tick (ms : ℕ)
  | check (chainId : ChainId) (netAmount : ℚ≥0)
  | broadcast (i : ℕ)
  | complete (i : ℕ)
  /-- A worker gives up before the broadcast. -/
  | fail (i : ℕ)
  deriving DecidableEq

def dayMs : ℕ := 24 * 60 * 60 * 1000

namespace SentWithdrawal

variable (x : SentWithdrawal)

/-- What the withdrawal counts in `getDailyOutflowForChain`. -/
def outflow (wallet : HotWallet) (now : ℕ) : ℚ≥0 :=
  if x.chainId = wallet.chainId ∧ (∃ at? ∈ x.completedAt, now ≤ at? + dayMs) then x.netAmount else 0

/-- What it counts in the 24 hours from `t` on. -/
def amountIn (t : ℕ) : ℚ≥0 := if t ≤ x.sentAt ∧ x.sentAt ≤ t + dayMs then x.netAmount else 0

/-- What it counts if it was sent in the 24 hours before `t` or later. -/
def amountSince (t : ℕ) : ℚ≥0 := if t ≤ x.sentAt + dayMs then x.netAmount else 0

end SentWithdrawal

namespace HotWalletState

def init : HotWalletState := ⟨0, [], []⟩

def getDailyOutflowForChain (wallet : HotWallet) (s : HotWalletState) : ℚ≥0 :=
  (s.sent.map (·.outflow wallet s.now)).sum

/-- `checkHotWalletCaps`. -/
def Allowed (wallet : HotWallet) (s : HotWalletState) (netAmount : ℚ≥0) : Prop :=
  (∀ maxSingle ∈ wallet.maxSingleTx, netAmount ≤ maxSingle) ∧
    ∀ limit ∈ wallet.maxDailyOutflow, s.getDailyOutflowForChain wallet + netAmount ≤ limit
  deriving Decidable

def step (wallet : HotWallet) (s : HotWalletState) : HotWalletAction → HotWalletState
  | .tick ms => { s with now := s.now + ms }
  | .check chainId netAmount =>
    if s.Allowed wallet netAmount then
      { s with checked := s.checked ++ [⟨chainId, netAmount, s.now⟩] }
    else s
  | .broadcast i =>
    match s.checked[i]? with
    | none => s
    | some c => { s with
        checked := s.checked.eraseIdx i
        sent := s.sent ++ [⟨c.chainId, c.netAmount, s.now, none⟩] }
  | .complete i =>
    match s.sent[i]? with
    | none => s
    | some x => { s with sent := s.sent.set i { x with completedAt := some s.now } }
  | .fail i => { s with checked := s.checked.eraseIdx i }

def run (wallet : HotWallet) (acts : List HotWalletAction) : HotWalletState :=
  acts.foldl (step wallet) init

/-- What was broadcast in any 24 hours is within the cap, if one is set. -/
def WithinCap (wallet : HotWallet) (s : HotWalletState) : Prop :=
  ∀ limit ∈ wallet.maxDailyOutflow, ∀ t, (s.sent.map (·.amountIn t)).sum ≤ limit

/-- A check is made only while no other withdrawal is between its check and its broadcast, and all
that was sent in the last 24 hours is completed, on the chain of the wallet. -/
def OneByOne (wallet : HotWallet) (s : HotWalletState) : HotWalletAction → Prop
  | .check _ _ => s.checked = [] ∧ ∀ x ∈ s.sent, s.now ≤ x.sentAt + dayMs →
      x.completedAt ≠ none ∧ x.chainId = wallet.chainId
  | _ => True

instance (wallet : HotWallet) (s : HotWalletState) (act) : Decidable (s.OneByOne wallet act) := by
  cases act <;> dsimp only [OneByOne] <;> infer_instance

/-- What the check of a withdrawal leaves room for. -/
structure Capped (limit : ℚ≥0) (s : HotWalletState) : Prop where
  within : ∀ t, (s.sent.map (·.amountIn t)).sum ≤ limit
  one : s.checked.length ≤ 1
  room : ∀ c ∈ s.checked, c.checkedAt ≤ s.now ∧
    (s.sent.map (·.amountSince c.checkedAt)).sum + c.netAmount ≤ limit
  times : ∀ x ∈ s.sent, ∀ at? ∈ x.completedAt, x.sentAt ≤ at?
  past : ∀ x ∈ s.sent, x.sentAt ≤ s.now

namespace Capped

variable {wallet : HotWallet} {limit : ℚ≥0} {s : HotWalletState} (h : s.Capped limit)
include h

theorem check (hlimit : limit ∈ wallet.maxDailyOutflow) {chainId : ChainId} {netAmount : ℚ≥0}
    (hact : s.OneByOne wallet (.check chainId netAmount)) (hallowed : s.Allowed wallet netAmount) :
    Capped limit { s with checked := s.checked ++ [⟨chainId, netAmount, s.now⟩] } := by
  obtain ⟨hnone, hsent⟩ := hact
  -- everything that was sent lately is completed on the chain of the wallet, and so is counted
  have hcounted : (s.sent.map (·.amountSince s.now)).sum ≤ s.getDailyOutflowForChain wallet := by
    refine sum_le_sum fun x hx => ?_
    unfold SentWithdrawal.amountSince
    split_ifs with hrecent
    · obtain ⟨hdone, hchain⟩ := hsent x hx hrecent
      obtain ⟨at?, hat⟩ := Option.ne_none_iff_exists'.mp hdone
      have hle := h.times x hx at? hat
      exact (if_pos ⟨hchain, at?, hat, by omega⟩ : x.outflow wallet s.now = _).ge
    · exact zero_le
  refine ⟨h.within, by simp [hnone], ?_, h.times, h.past⟩
  simp only [hnone, nil_append, mem_singleton, forall_eq]
  exact ⟨le_rfl, (add_le_add_left hcounted _).trans (hallowed.2 limit hlimit)⟩

theorem broadcast {i : ℕ} {c : CheckedWithdrawal} (hget : s.checked[i]? = some c) :
    Capped limit { s with
      checked := s.checked.eraseIdx i
      sent := s.sent ++ [⟨c.chainId, c.netAmount, s.now, none⟩] } := by
  have hrest : s.checked.eraseIdx i = [] := by
    have hlt := lt_length_of_getElem? hget
    have hone := h.one
    rw [← length_eq_zero_iff, length_eraseIdx_of_lt hlt]
    omega
  obtain ⟨hchecked, hroom⟩ := h.room c (mem_of_getElem? hget)
  refine ⟨fun t => ?_, by simp [hrest], by simp [hrest], ?_, ?_⟩
  · rw [map_append, sum_append, map_singleton, sum_singleton]
    by_cases hin : t ≤ s.now ∧ s.now ≤ t + dayMs
    · rw [SentWithdrawal.amountIn, if_pos hin]
      refine (add_le_add_left (sum_le_sum fun x _ => ?_) _).trans hroom
      unfold SentWithdrawal.amountIn SentWithdrawal.amountSince
      split_ifs
      · exact le_rfl
      · omega
      · exact zero_le
      · exact le_rfl
    · rw [SentWithdrawal.amountIn, if_neg hin, add_zero]
      exact h.within t
  · exact forall_mem_concat h.times nofun
  · exact forall_mem_concat h.past le_rfl

theorem complete {i : ℕ} {x : SentWithdrawal} (hget : s.sent[i]? = some x) :
    Capped limit { s with sent := s.sent.set i { x with completedAt := some s.now } } := by
  have hmap : ∀ f : SentWithdrawal → ℚ≥0, f { x with completedAt := some s.now } = f x →
      (s.sent.set i { x with completedAt := some s.now }).map f = s.sent.map f := by
    intro f hf
    have hfx : (s.sent.map f)[i]? = some (f x) := by rw [getElem?_map, hget]; rfl
    obtain ⟨hi, hfi⟩ := List.getElem?_eq_some_iff.mp hfx
    rw [map_set, hf, ← hfi, set_getElem_self]
  refine ⟨fun t => ?_, h.one, fun c hc => ?_, ?_, ?_⟩
  · rw [hmap _ rfl]
    exact h.within t
  · rw [hmap _ rfl]
    exact h.room c hc
  · refine forall_mem_set h.times fun at? hat => ?_
    exact Option.some.inj hat ▸ h.past x (mem_of_getElem? hget)
  · exact forall_mem_set h.past (h.past x (mem_of_getElem? hget))

theorem step (hlimit : limit ∈ wallet.maxDailyOutflow) {act : HotWalletAction}
    (hact : s.OneByOne wallet act) : (s.step wallet act).Capped limit := by
  cases act with
  | tick ms =>
    exact { h with
      room := fun c hc => ⟨(h.room c hc).1.trans (Nat.le_add_right _ _), (h.room c hc).2⟩
      past := fun x hx => (h.past x hx).trans (Nat.le_add_right _ _) }
  | check chainId netAmount =>
    simp only [HotWalletState.step]
    split_ifs with hallowed
    · exact h.check hlimit hact hallowed
    · exact h
  | broadcast i =>
    simp only [HotWalletState.step]
    split
    · exact h
    next c hget => exact h.broadcast hget
  | complete i =>
    simp only [HotWalletState.step]
    split
    · exact h
    next x hget => exact h.complete hget
  | fail i =>
    exact { h with
      one := (length_eraseIdx_le _ _).trans h.one
      room := fun c hc => h.room c (mem_of_mem_eraseIdx hc) }

end Capped

/-- The daily cap is never exceeded in a run that checks the withdrawals of the wallet one by one
and uses only its chain. -/
theorem daily_cap_kept (wallet : HotWallet) (acts : List HotWalletAction)
    (h : Along (step wallet) (OneByOne wallet) init acts) : (run wallet acts).WithinCap wallet :=
  fun limit hlimit =>
    (h.invariant (P := Capped limit)
      ⟨fun _ => zero_le, zero_le_one, forall_mem_nil _, forall_mem_nil _, forall_mem_nil _⟩
      fun _ _ hs hact => hs.step hlimit hact).within

def cappedWallet : HotWallet := ⟨"ethereum", none, some 10⟩

theorem second_withdrawal_waits :
    let acts : List HotWalletAction :=
      [.check "ethereum" 6, .broadcast 0, .complete 0, .check "ethereum" 6, .broadcast 0]
    (run cappedWallet acts).sent.length = 1 ∧ (run cappedWallet acts).WithinCap cappedWallet :=
  ⟨by decide +kernel, daily_cap_kept cappedWallet _ (by decide +kernel)⟩

/-- Two workers check before either has completed, and a withdrawal on another chain is not
counted at all. -/
theorem daily_cap_exceeded :
    ¬ (run cappedWallet [.check "ethereum" 6, .check "ethereum" 6, .broadcast 0,
        .broadcast 0]).WithinCap cappedWallet ∧
      ¬ (run cappedWallet [.check "arbitrum" 6, .broadcast 0, .complete 0, .check "arbitrum" 6,
        .broadcast 0]).WithinCap cappedWallet := by
  constructor
  · exact fun h => absurd (h 10 rfl 0) (by decide +kernel)
  · exact fun h => absurd (h 10 rfl 0) (by decide +kernel)

end HotWalletState

end MetherCEX
