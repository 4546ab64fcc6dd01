import MetherCEX.Lib.Table
import Mathlib.Order.Nat

/-!
# Session locks

`try_acquire` of the session service (`main.rs`) reads the clock and then, in one atomic step,
looks at the entry of its key. A cleanup reads the clock and then removes the expired entries,
one after the other. Between any two of these steps the clock goes on and other calls run.
-/

namespace MetherCEX

open Function List

/-- A call that has read the clock. -/
structure LockCall where
  key : String
  now : ℕ
  expiry : ℕ

structure LockGrant where
  key : String
  expiry : ℕ
  time : ℕ

structure LockState where
  clock : ℕ
  store : String → Option ℕ
  calls : List LockCall
  cleanups : List ℕ
  grants : List LockGrant

inductive LockAction
  | tick (d : ℕ)
  | readClock (key : String) (ttl : ℕ)
  | access (i : ℕ)
  | cleanupRead
  | remove (i : ℕ) (key : String)

namespace LockState

def init : LockState := ⟨0, fun _ => none, [], [], []⟩

def insert (s : LockState) (c : LockCall) : LockState :=
  { s with
    store := update s.store c.key (some c.expiry)
    grants := s.grants ++ [⟨c.key, c.expiry, s.clock⟩] }

/-- The map access of a call. -/
def tryAcquire (s : LockState) (c : LockCall) : LockState :=
  if c.key = "" then s
  else
    match s.store c.key with
    | some expiry => if expiry > c.now then s else s.insert c
    | none => s.insert c

/-- A cleanup that has read the clock as `now` comes to the entry of a key. -/
def cleanupExpired (s : LockState) (now : ℕ) (key : String) : LockState :=
  match s.store key with
  | some expiry => if expiry > now then s else { s with store := update s.store key none }
  | none => s

def step (s : LockState) : LockAction → LockState
  | .tick d => { s with clock := s.clock + d }
  | .readClock key ttl => { s with calls := s.calls ++ [⟨key, s.clock, s.clock + ttl⟩] }
  | .access i =>
    match s.calls[i]? with
    | some c => { s with calls := s.calls.eraseIdx i }.tryAcquire c
    | none => s
  | .cleanupRead => { s with cleanups := s.cleanups ++ [s.clock] }
  | .remove i key =>
    match s.cleanups[i]? with
    | some now => s.cleanupExpired now key
    | none => s

/-- No clock that was read is ahead, and the entry of a lock that was granted stays until the lock
has expired. -/
structure Exclusive (s : LockState) : Prop where
  calls : ∀ c ∈ s.calls, c.now ≤ s.clock
  cleanups : ∀ now ∈ s.cleanups, now ≤ s.clock
  times : ∀ g ∈ s.grants, g.time ≤ s.clock
  held : ∀ g ∈ s.grants, s.clock < g.expiry → ∃ e, s.store g.key = some e ∧ g.expiry ≤ e
  apart : s.grants.Pairwise fun g h => g.time ≤ h.time ∧ (g.key = h.key → g.expiry ≤ h.time)

variable {s : LockState}

namespace Exclusive

theorem expired (h : s.Exclusive) {key : String} (hfree : ∀ e ∈ s.store key, e ≤ s.clock)
    {g : LockGrant} (hg : g ∈ s.grants) (hkey : g.key = key) : g.expiry ≤ s.clock := by
  by_contra hlive
  obtain ⟨e, he, hle⟩ := h.held g hg (not_le.mp hlive)
  exact hlive (hle.trans (hfree e (hkey ▸ he)))

/-- Changing an entry that is not there or has expired keeps the others. -/
theorem held_update (h : s.Exclusive) {key : String} (hfree : ∀ e ∈ s.store key, e ≤ s.clock)
    (v : Option ℕ) : ∀ g ∈ s.grants, s.clock < g.expiry →
      ∃ e, update s.store key v g.key = some e ∧ g.expiry ≤ e := by
  intro g hg hlive
  obtain ⟨e, he, hle⟩ := h.held g hg hlive
  have hkey : g.key ≠ key := fun heq => not_le.mpr hlive (h.expired hfree hg heq)
  exact ⟨e, (update_of_ne hkey ..).trans he, hle⟩

theorem insert (h : s.Exclusive) {c : LockCall} (hfree : ∀ e ∈ s.store c.key, e ≤ s.clock) :
    (s.insert c).Exclusive where
  calls := h.calls
  cleanups := h.cleanups
  times := Table.forall_mem_concat h.times le_rfl
  held := Table.forall_mem_concat (h.held_update hfree _) fun _ => ⟨_, update_self .., le_rfl⟩
  apart := by
    refine pairwise_append.mpr ⟨h.apart, pairwise_singleton .., fun g hg x hx => ?_⟩
    obtain rfl := mem_singleton.mp hx
    exact ⟨h.times g hg, h.expired hfree hg⟩

theorem tryAcquire (h : s.Exclusive) {c : LockCall} (hc : c.now ≤ s.clock) :
    (s.tryAcquire c).Exclusive := by
  unfold LockState.tryAcquire
  split_ifs
  · exact h
  split
  · rename_i expiry hget
    split_ifs with hlater
    · exact h
    · exact h.insert (by simpa [hget] using (not_lt.mp hlater).trans hc)
  · rename_i hget
    exact h.insert (by simp [hget])

theorem cleanupExpired (h : s.Exclusive) {now : ℕ} (hnow : now ≤ s.clock) (key : String) :
    (s.cleanupExpired now key).Exclusive := by
  unfold LockState.cleanupExpired
  split
  · rename_i expiry hget
    split_ifs with hlater
    · exact h
    · have hfree : ∀ e ∈ s.store key, e ≤ s.clock := by
        simpa [hget] using (not_lt.mp hlater).trans hnow
      exact ⟨h.calls, h.cleanups, h.times, h.held_update hfree none, h.apart⟩
  · exact h

theorem step (h : s.Exclusive) (act : LockAction) : (s.step act).Exclusive := by
  cases act with
  | tick d =>
    have hle : s.clock ≤ s.clock + d := Nat.le_add_right ..
    exact ⟨fun c hc => (h.calls c hc).trans hle, fun n hn => (h.cleanups n hn).trans hle,
      fun g hg => (h.times g hg).trans hle, fun g hg hlive => h.held g hg (hle.trans_lt hlive),
      h.apart⟩
  | readClock key ttl =>
    exact ⟨Table.forall_mem_concat h.calls le_rfl, h.cleanups, h.times, h.held, h.apart⟩
  | access i =>
    rw [LockState.step]
    split
    · rename_i c hget
      have herase : { s with calls := s.calls.eraseIdx i }.Exclusive :=
        ⟨fun x hx => h.calls x (mem_of_mem_eraseIdx hx), h.cleanups, h.times, h.held, h.apart⟩
      exact herase.tryAcquire (h.calls c (mem_of_getElem? hget))
    · exact h
  | cleanupRead =>
    exact ⟨h.calls, Table.forall_mem_concat h.cleanups le_rfl, h.times, h.held, h.apart⟩
  | remove i key =>
    rw [LockState.step]
    split
    · rename_i now hget
      exact h.cleanupExpired (h.cleanups now (mem_of_getElem? hget)) key
    · exact h

end Exclusive

/-- Once a lock is granted, no other lock of its key is granted before it expires. -/
theorem locks_exclusive (acts : List LockAction) : (acts.foldl step init).grants.Pairwise
    fun g h => g.time ≤ h.time ∧ (g.key = h.key → g.expiry ≤ h.time) := by
  have hinit : init.Exclusive := ⟨nofun, nofun, nofun, nofun, .nil⟩
  exact (List.foldlRecOn (motive := Exclusive) acts step hinit fun s hs a _ => hs.step a).apart

end LockState

end MetherCEX
