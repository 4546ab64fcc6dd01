import Mathlib.Data.List.Perm.Basic
import MetherCEX.Lib.Run
import MetherCEX.Lib.Table
import MetherCEX.P2P.Model

/-!
# The escrow cap under concurrency

`assertP2PEscrowCapInTransaction` of concurrent orders for one seller, once the Redis lock of the
seller has expired. `SELECT … FOR UPDATE` locks, one by one, the rows its snapshot has found; a
transaction for which there is no row to lock excludes no other.
-/

namespace MetherCEX

open Run Table List
open P2PState (p2pMaxOpenEscrowsPerUser p2pMaxEscrowTotalPerUser)

/-- A committed row of `escrows`. -/
structure SellerEscrow where
  amount : ℚ≥0
  locked : Bool
  deriving DecidableEq

/-- A transaction of `createOrder`, with the rows it has found and not locked yet, and those it has
locked; it has passed the check or not. -/
structure CapTx where
  amount : ℚ≥0
  todo : List ℕ
  held : List ℕ
  passed : Bool
  deriving DecidableEq

structure CapState where
  rows : List SellerEscrow
  txs : List CapTx
  deriving DecidableEq

inductive CapAction
  | select (amount : ℚ≥0)
  | lockNext (i : ℕ)
  | check (i : ℕ)
  | commit (i : ℕ)
  | abort (i : ℕ)
  /-- The escrow of the row is released or refunded. -/
  | close (row : ℕ)
  deriving DecidableEq

/-- The rows that the transaction has found. -/
def CapTx.found (t : CapTx) : List ℕ := t.todo ++ t.held

namespace CapState

variable (s : CapState)

def IsLocked (row : ℕ) : Prop := ∃ r ∈ s.rows[row]?, r.locked = true
  deriving Decidable

def openEscrows : List SellerEscrow := s.rows.filter (·.locked)

def total : ℚ≥0 := (s.openEscrows.map (·.amount)).sum

def Fits (amount : ℚ≥0) : Prop :=
  s.openEscrows.length < p2pMaxOpenEscrowsPerUser ∧ s.total + amount ≤ p2pMaxEscrowTotalPerUser
  deriving Decidable

def Held (row : ℕ) : Prop := ∃ t ∈ s.txs, row ∈ t.held
  deriving Decidable

def step (s : CapState) : CapAction → CapState
  | .select amount =>
    { s with txs := s.txs ++ [⟨amount, (range s.rows.length).filter (s.IsLocked ·), [], false⟩] }
  | .lockNext i =>
    match s.txs[i]? with
    | some ⟨amount, row :: todo, held, passed⟩ =>
      -- the statement waits for a locked row, and leaves out one that was closed in the meantime
      if s.Held row then s
      else
        let held := if s.IsLocked row then row :: held else held
        { s with txs := s.txs.set i ⟨amount, todo, held, passed⟩ }
    | _ => s
  | .check i =>
    match s.txs[i]? with
    | none => s
    | some t =>
      if t.todo ≠ [] then s
      else if s.Fits t.amount then { s with txs := s.txs.set i { t with passed := true } }
      else { s with txs := s.txs.eraseIdx i }
  | .commit i =>
    match s.txs[i]? with
    | none => s
    | some t =>
      if t.passed then { rows := s.rows ++ [⟨t.amount, true⟩], txs := s.txs.eraseIdx i } else s
  | .abort i => { s with txs := s.txs.eraseIdx i }
  | .close row =>
    match s.rows[row]? with
    | none => s
    | some r =>
      if s.Held row then s else { s with rows := s.rows.set row { r with locked := false } }

def run (acts : List CapAction) : CapState := acts.foldl step ⟨[], []⟩

def WithinCaps : Prop :=
  s.openEscrows.length ≤ p2pMaxOpenEscrowsPerUser ∧ s.total ≤ p2pMaxEscrowTotalPerUser
  deriving Decidable

/-- No transaction selects while one that has found no row is running, and no row is closed that a
transaction has found and not locked yet. -/
def FindsRows : CapAction → Prop
  | .select _ => ∀ t ∈ s.txs, t.found ≠ []
  | .close row => ∀ t ∈ s.txs, row ∉ t.todo
  | _ => True

instance (act) : Decidable (s.FindsRows act) := by
  cases act <;> dsimp only [FindsRows] <;> infer_instance

/-- Transactions that run together have found a common row, so only one of them has passed. -/
structure Serialized : Prop where
  within : s.WithinCaps
  nodup : (s.txs.flatMap (·.held)).Nodup
  locked : ∀ t ∈ s.txs, ∀ row ∈ t.found, s.IsLocked row
  common : s.txs.length ≤ 1 ∨ ∃ row, ∀ t ∈ s.txs, row ∈ t.found
  passed : ∀ t ∈ s.txs, t.passed = true → t.todo = [] ∧ s.Fits t.amount

namespace Serialized

variable {s} {rows : List SellerEscrow} {t t' : CapTx} {txs txs' : List CapTx} {i : ℕ}

theorem perm (h : Serialized ⟨rows, txs⟩) (hperm : txs'.Perm txs) : Serialized ⟨rows, txs'⟩ where
  within := h.within
  nodup := (hperm.flatMap_right _).nodup_iff.mpr h.nodup
  locked t ht := h.locked t (hperm.subset ht)
  common := h.common.imp hperm.length_eq.trans_le fun ⟨row, hrow⟩ =>
    ⟨row, fun t ht => hrow t (hperm.subset ht)⟩
  passed t ht := h.passed t (hperm.subset ht)

theorem head (h : s.Serialized) (hget : s.txs[i]? = some t) :
    Serialized ⟨s.rows, t :: s.txs.eraseIdx i⟩ :=
  h.perm (cons_eraseIdx_perm hget)

theorem tail (h : Serialized ⟨rows, t :: txs⟩) : Serialized ⟨rows, txs⟩ where
  within := h.within
  nodup := (nodup_append.mp h.nodup).2.1
  locked := (forall_mem_cons.mp h.locked).2
  common := h.common.imp (le_trans (Nat.le_succ _)) fun ⟨row, hrow⟩ =>
    ⟨row, (forall_mem_cons.mp hrow).2⟩
  passed := (forall_mem_cons.mp h.passed).2

/-- A transaction goes on with the rows it has found. -/
theorem set (h : s.Serialized) (hget : s.txs[i]? = some t) (hfound : t'.found.Perm t.found)
    (hheld : (t'.held ++ (s.txs.eraseIdx i).flatMap (·.held)).Nodup)
    (hpassed : t'.passed = true → t'.todo = [] ∧ s.Fits t'.amount) :
    Serialized { s with txs := s.txs.set i t' } := by
  have hcons := h.head hget
  refine .perm ?_ (set_perm_cons_eraseIdx (lt_length_of_getElem? hget) t')
  refine ⟨h.within, hheld, forall_mem_cons.mpr ⟨fun row hrow => ?_, ?_⟩, ?_,
    forall_mem_cons.mpr ⟨hpassed, (forall_mem_cons.mp hcons.passed).2⟩⟩
  · exact hcons.locked t mem_cons_self row (hfound.subset hrow)
  · exact (forall_mem_cons.mp hcons.locked).2
  · refine hcons.common.imp id fun ⟨row, hrow⟩ => ⟨row, ?_⟩
    obtain ⟨hhead, hrest⟩ := forall_mem_cons.mp hrow
    exact forall_mem_cons.mpr ⟨hfound.mem_iff.mpr hhead, hrest⟩

theorem not_passed (h : Serialized ⟨rows, t :: txs⟩) (ht : t.passed = true) (ht' : t' ∈ txs) :
    t'.passed = false := by
  by_contra hpassed
  obtain hone | ⟨row, hrow⟩ := h.common
  · exact absurd (length_pos_of_mem ht') (by simpa using hone)
  -- both have locked the row that they have in common
  · have hheld : ∀ x ∈ t :: txs, x.passed = true → row ∈ x.held := by
      intro x hx hp
      have hfound := hrow x hx
      rwa [CapTx.found, (h.passed x hx hp).1, nil_append] at hfound
    have hdisjoint := disjoint_of_nodup_append h.nodup
    exact hdisjoint (hheld t mem_cons_self ht) (mem_flatMap.mpr
      ⟨t', ht', hheld t' (mem_cons_of_mem _ ht') (Bool.not_eq_false _ ▸ hpassed)⟩)

theorem commit (h : Serialized ⟨rows, t :: txs⟩) (ht : t.passed = true) :
    Serialized ⟨rows ++ [⟨t.amount, true⟩], txs⟩ := by
  obtain ⟨-, hcount, htotal⟩ := h.passed t mem_cons_self ht
  refine ⟨⟨?_, ?_⟩, h.tail.nodup, fun x hx row hrow => ?_, h.tail.common, fun x hx hp => ?_⟩
  · simpa [openEscrows] using hcount
  · simpa [total, openEscrows] using htotal
  · obtain ⟨r, hr, hlocked⟩ := h.tail.locked x hx row hrow
    exact ⟨r, getElem?_append_left (lt_length_of_getElem? hr) ▸ hr, hlocked⟩
  · exact absurd hp (by simp [h.not_passed ht hx])

theorem close (h : s.Serialized) {row : ℕ} {r : SellerEscrow} (hget : s.rows[row]? = some r)
    (htodo : s.FindsRows (.close row)) (hheld : ¬ s.Held row) :
    Serialized { s with rows := s.rows.set row { r with locked := false } } := by
  let s' : CapState := { s with rows := s.rows.set row { r with locked := false } }
  have hperm : s'.openEscrows.Perm ((s.rows.eraseIdx row).filter (·.locked)) :=
    (set_perm_cons_eraseIdx (lt_length_of_getElem? hget) { r with locked := false }).filter _
  have hsub : ((s.rows.eraseIdx row).filter (·.locked)).Sublist s.openEscrows :=
    (eraseIdx_sublist ..).filter _
  have hcount : s'.openEscrows.length ≤ s.openEscrows.length := hperm.length_eq ▸ hsub.length_le
  have htotal : (s'.total : ℚ) ≤ s.total := by
    rw [NNRat.cast_le, total, (hperm.map _).sum_eq]
    exact (hsub.map _).sum_le_sum fun _ _ => zero_le
  refine ⟨⟨hcount.trans h.within.1, htotal.trans h.within.2⟩, h.nodup, fun t ht x hx => ?_,
    h.common, fun t ht hp => ?_⟩
  · have hne : x ≠ row := by
      rintro rfl
      exact (mem_append.mp hx).elim (htodo t ht) fun hx => hheld ⟨t, ht, hx⟩
    obtain ⟨r', hr', hlocked⟩ := h.locked t ht x hx
    exact ⟨r', (getElem?_set_ne hne.symm).trans hr', hlocked⟩
  · obtain ⟨htodo, hfits⟩ := h.passed t ht hp
    exact ⟨htodo, hcount.trans_lt hfits.1, (add_le_add_left htotal _).trans hfits.2⟩

theorem select (h : s.Serialized) {amount : ℚ≥0} (hact : s.FindsRows (.select amount)) :
    (s.step (.select amount)).Serialized := by
  refine ⟨h.within, ?_, forall_mem_concat h.locked ?_, ?_, forall_mem_concat h.passed nofun⟩
  · simpa [step] using h.nodup
  · intro row hrow
    have hfilter := (mem_append.mp hrow).resolve_right not_mem_nil
    exact of_decide_eq_true (mem_filter.mp hfilter).2
  · rcases htxs : s.txs with _ | ⟨t, rest⟩
    · exact .inl (by simp [CapState.step, htxs])
    have ht : t ∈ s.txs := htxs ▸ mem_cons_self
    obtain ⟨row, hrow⟩ : ∃ row, ∀ x ∈ s.txs, row ∈ x.found := by
      refine h.common.elim (fun hone => ?_) id
      obtain ⟨row, hrow⟩ := exists_mem_of_ne_nil _ (hact t ht)
      have hrest : rest = [] := by simpa [htxs] using hone
      exact ⟨row, by simpa [htxs, hrest] using hrow⟩
    -- a row that the others have found is locked still, and is found by this one
    obtain ⟨r, hr, hlocked⟩ := h.locked t ht row (hrow t ht)
    refine .inr ⟨row, forall_mem_concat hrow (mem_append_left _ (mem_filter.mpr ⟨?_, ?_⟩))⟩
    · exact mem_range.mpr (lt_length_of_getElem? hr)
    · exact decide_eq_true ⟨r, hr, hlocked⟩

theorem step {act : CapAction} (h : s.Serialized) (hact : s.FindsRows act) :
    (s.step act).Serialized := by
  cases act with
  | select amount => exact h.select hact
  | lockNext i =>
    simp only [CapState.step]
    split
    next amount row todo held passed hget =>
      have hmem := mem_of_getElem? hget
      split_ifs with hheld hlocked
      · exact h
      · refine h.set hget perm_middle (nodup_cons.mpr ⟨fun hrow => hheld ?_, ?_⟩) fun hp => ?_
        · obtain ⟨t, ht, hrow⟩ := mem_flatMap.mp (show row ∈ flatMap (·.held)
            (⟨amount, row :: todo, held, passed⟩ :: s.txs.eraseIdx i) from hrow)
          exact ⟨t, (cons_eraseIdx_perm hget).subset ht, hrow⟩
        · exact (h.head hget).nodup
        · exact absurd (h.passed _ hmem hp).1 (cons_ne_nil _ _)
      · exact absurd (h.locked _ hmem row mem_cons_self) hlocked
    · exact h
  | check i =>
    simp only [CapState.step]
    split
    · exact h
    next t hget =>
      split_ifs with htodo hfits
      · exact h
      · exact h.set hget (.refl _) (h.head hget).nodup fun _ => ⟨not_not.mp htodo, hfits⟩
      · exact (h.head hget).tail
  | commit i =>
    simp only [CapState.step]
    split
    · exact h
    next t hget =>
      split_ifs with ht
      · exact (h.head hget).commit ht
      · exact h
  | abort i =>
    rcases hget : s.txs[i]? with _ | t
    · rwa [CapState.step, eraseIdx_of_length_le (getElem?_eq_none_iff.mp hget)]
    · exact (h.head hget).tail
  | close row =>
    simp only [CapState.step]
    split
    · exact h
    next r hget =>
      split_ifs with hheld
      · exact h
      · exact h.close hget hact hheld

end Serialized

/-- The cap of the seller holds at all times, in every run in which the concurrent transactions find
a row to lock and lock what they have found. -/
theorem escrow_cap_kept (acts : List CapAction) (h : Along step FindsRows ⟨[], []⟩ acts) :
    (run acts).WithinCaps :=
  (h.invariant (P := Serialized)
    ⟨by decide +kernel, nodup_nil, forall_mem_nil _, .inl zero_le_one, forall_mem_nil _⟩
    fun _ _ hs hact => hs.step hact).within

theorem second_order_waits :
    let acts : List CapAction := [.select 200000, .check 0, .commit 0, .select 200000, .lockNext 0,
      .select 200000, .lockNext 1, .check 0, .commit 0, .lockNext 0, .check 0]
    (run acts).txs = [] ∧ (run acts).WithinCaps :=
  ⟨by decide +kernel, escrow_cap_kept _ (by decide +kernel)⟩

/-- With no row to lock both transactions pass the check before either has committed. -/
theorem escrow_cap_exceeded : ¬ (run [.select 300000, .select 300000, .check 0, .check 1,
    .commit 0, .commit 0]).WithinCaps := by
  decide +kernel

end CapState

end MetherCEX
