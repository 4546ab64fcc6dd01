import MetherCEX.Lib.ExpiringStore
import MetherCEX.Lib.Run

/-!
# The lease of the order book writer

Of the instances that serve a shard, the one whose id is under the key `orderbook_writer_leader`
runs the consumer of the match events.
-/

namespace MetherCEX

open Run Function

/-- How far the tick of an instance has come: it has read its own id, something else, or it
knows whether it holds the lease. -/
inductive TickPhase
  | idle
  | readOwn
  | readOther
  | told (hold : Bool)
  deriving DecidableEq

structure WriterInstance where
  mounted : Bool
  phase : TickPhase
  shutdown : Bool
  deriving DecidableEq

/-- The instance has its consumer mounted, or its tick is on the way to mount it. -/
def WriterInstance.Relies (w : WriterInstance) : Prop :=
  w.mounted = true ∨ w.phase = .readOwn ∨ w.phase = .told true
  deriving Decidable

structure LeaseState (ι : Type*) where
  now : ℕ
  lease : Option (ExpiringStore.Entry ι)
  instances : ι → WriterInstance

inductive LeaseAction (ι : Type*)
  | wait (ms : ℕ)
  | vanish
  | get (i : ι)
  | pexpire (i : ι)
  | setNx (i : ι)
  | redisError (i : ι)
  | syncConsumer (i : ι) (succeeds : Bool)
  | shutdown (i : ι)
  | release (i : ι)

namespace LeaseState

variable {ι : Type*} [DecidableEq ι]

def init : LeaseState ι := ⟨0, none, fun _ => ⟨false, .idle, false⟩⟩

def holder (s : LeaseState ι) : Option ι := s.lease.map (·.value)

def setInstance (s : LeaseState ι) (i : ι) (w : WriterInstance) : LeaseState ι :=
  { s with instances := update s.instances i w }

def setPhase (s : LeaseState ι) (i : ι) (p : TickPhase) : LeaseState ι :=
  s.setInstance i { s.instances i with phase := p }

section Steps

variable (ttl : ℕ) (s : LeaseState ι) (i : ι)

def vanish : LeaseState ι :=
  match s.lease with
  | some e => if e.expiresAt ≤ s.now then { s with lease := none } else s
  | none => s

def get : LeaseState ι :=
  if (s.instances i).phase = .idle ∧ (s.instances i).shutdown = false then
    if s.holder = some i then s.setPhase i .readOwn else s.setPhase i .readOther
  else s

/-- The command `PEXPIRE`: the key is prolonged, whoever holds it. -/
def prolong : LeaseState ι :=
  { s with lease := s.lease.map fun e => ⟨e.value, s.now + ttl⟩ }

def pexpire : LeaseState ι :=
  if (s.instances i).phase = .readOwn then
    (s.prolong ttl).setPhase i (.told true)
  else s

def setNx : LeaseState ι :=
  if (s.instances i).phase = .readOther then
    match s.lease with
    | none => setPhase { s with lease := some ⟨i, s.now + ttl⟩ } i (.told true)
    | some _ => s.setPhase i (.told false)
  else s

def redisError : LeaseState ι :=
  match (s.instances i).phase with
  | .told _ => s
  | _ => if (s.instances i).shutdown then s else s.setPhase i (.told false)

/-- The end of the tick: `mountPullConsumer`, which may fail, or `stopPullConsumer`. -/
def syncConsumer (succeeds : Bool) : LeaseState ι :=
  match (s.instances i).phase with
  | .told true =>
    s.setInstance i
      { s.instances i with mounted := (s.instances i).mounted || succeeds, phase := .idle }
  | .told false => s.setInstance i { s.instances i with mounted := false, phase := .idle }
  | _ => s

/-- `stopSpotOrderbookWriter` up to the release of the lease. A running tick goes on. -/
def shutdown : LeaseState ι :=
  s.setInstance i { s.instances i with mounted := false, shutdown := true }

/-- `releaseOrderbookWriterLeadership`. -/
def release : LeaseState ι :=
  if (s.instances i).shutdown = true ∧ s.holder = some i then { s with lease := none } else s

end Steps

def step (ttl : ℕ) (s : LeaseState ι) : LeaseAction ι → LeaseState ι
  | .wait ms => { s with now := s.now + ms }
  | .vanish => s.vanish
  | .get i => s.get i
  | .pexpire i => s.pexpire ttl i
  | .setNx i => s.setNx ttl i
  | .redisError i => s.redisError i
  | .syncConsumer i succeeds => s.syncConsumer i succeeds
  | .shutdown i => s.shutdown i
  | .release i => s.release i

def Unused (s : LeaseState ι) : Prop :=
  match s.holder with
  | some i => ¬ (s.instances i).Relies
  | none => True

def KeepsLease (s : LeaseState ι) : LeaseAction ι → Prop
  | .vanish => s.Unused
  | .release _ => s.Unused
  | _ => True

instance (s : LeaseState ι) : Decidable s.Unused := by
  dsimp only [Unused]
  split <;> infer_instance

instance (s : LeaseState ι) (act) : Decidable (s.KeepsLease act) := by
  cases act <;> dsimp only [KeepsLease] <;> infer_instance

def Leads (s : LeaseState ι) : Prop := ∀ i, (s.instances i).Relies → s.holder = some i

variable {s : LeaseState ι} {i : ι}

variable (h : s.Leads)

include h

omit [DecidableEq ι] in
theorem Leads.drop (hunused : s.Unused) : Leads { s with lease := none } := by
  intro i hi
  rw [Unused, h i hi] at hunused
  exact absurd hi hunused

theorem Leads.setInstance {w : WriterInstance} (hw : w.Relies → s.holder = some i) :
    (s.setInstance i w).Leads := by
  intro j hj
  change (update s.instances i w j).Relies at hj
  by_cases hji : j = i
  · subst hji
    rw [update_self] at hj
    exact hw hj
  · rw [update_of_ne hji] at hj
    exact h j hj

theorem Leads.setPhase {p : TickPhase} (hown : p ≠ .readOwn) (htold : p ≠ .told true) :
    (s.setPhase i p).Leads := by
  refine h.setInstance fun hrelies => h i ?_
  rcases hrelies with hmounted | hphase | hphase
  · exact .inl hmounted
  · exact absurd hphase hown
  · exact absurd hphase htold

omit [DecidableEq ι] in
theorem Leads.vanish (hunused : s.Unused) : s.vanish.Leads := by
  unfold LeaseState.vanish
  split
  · split_ifs
    · exact h.drop hunused
    · exact h
  · exact h

theorem Leads.get : (s.get i).Leads := by
  unfold LeaseState.get
  split_ifs with hidle hholder
  · exact h.setInstance fun _ => hholder
  · exact h.setPhase (by simp) (by simp)
  · exact h

theorem Leads.pexpire {ttl : ℕ} : (s.pexpire ttl i).Leads := by
  unfold LeaseState.pexpire
  split_ifs with hphase
  · have hsame : (s.prolong ttl).holder = s.holder := Option.map_map ..
    have hlater : (s.prolong ttl).Leads := fun j hj => hsame.trans (h j hj)
    exact hlater.setInstance fun _ => hsame.trans (h i (.inr (.inl hphase)))
  · exact h

theorem Leads.setNx {ttl : ℕ} : (s.setNx ttl i).Leads := by
  unfold LeaseState.setNx
  split_ifs
  · split
    case h_1 hnone =>
      -- the key is absent, so nobody relies on the lease
      have htaken : Leads { s with lease := some ⟨i, s.now + ttl⟩ } := by
        intro j hj
        have hholder := h j hj
        rw [holder, hnone] at hholder
        cases hholder
      exact htaken.setInstance fun _ => rfl
    case h_2 => exact h.setPhase (by simp) (by simp)
  · exact h

theorem Leads.redisError : (s.redisError i).Leads := by
  unfold LeaseState.redisError
  split
  · exact h
  · split_ifs
    · exact h
    · exact h.setPhase (by simp) (by simp)

theorem Leads.syncConsumer {succeeds : Bool} : (s.syncConsumer i succeeds).Leads := by
  unfold LeaseState.syncConsumer
  split
  case h_1 hphase => exact h.setInstance fun _ => h i (.inr (.inr hphase))
  case h_2 => exact h.setInstance fun hrelies => by simp [WriterInstance.Relies] at hrelies
  case h_3 => exact h

theorem Leads.step {ttl : ℕ} {act : LeaseAction ι} (hact : s.KeepsLease act) :
    (s.step ttl act).Leads := by
  cases act with
  | wait ms => exact h
  | vanish => exact h.vanish hact
  | get i => exact h.get
  | pexpire i => exact h.pexpire
  | setNx i => exact h.setNx
  | redisError i => exact h.redisError
  | syncConsumer i succeeds => exact h.syncConsumer
  | shutdown i =>
    exact h.setInstance fun hrelies => h i (.inr (hrelies.resolve_left (by simp)))
  | release i =>
    change (s.release i).Leads
    unfold LeaseState.release
    split_ifs
    · exact h.drop hact
    · exact h

end LeaseState

def takesLease : List (LeaseAction ℕ) := [.get 0, .setNx 0, .syncConsumer 0 true]

end MetherCEX
