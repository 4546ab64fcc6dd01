import Mathlib.Data.List.Basic
import Mathlib.Order.Lattice
import Mathlib.Tactic
import MetherCEX.Lib.Run

/-!
# The poll cursor

`last_after_id` of an engine says how far its events have been read: the pull after a placement
and the poller ask the engine for the events after it. They store what they get and move the
cursor to the last id.
-/

namespace MetherCEX

open Run List Function

abbrev RequestId := ℕ

/-- Where a request is. `todo` are the events not stored yet. -/
inductive CursorPhase
  | inline (events todo : List ℕ)
  | reading (after : ℕ)
  | behind (after last : ℕ)
  | fetched (after last : ℕ) (events todo : List ℕ)
  deriving DecidableEq

structure CursorState where
  lastId : ℕ
  stored : List ℕ
  cursor : ℕ
  requests : RequestId → Option CursorPhase

inductive CursorAction
  | place (r : RequestId) (fills : ℕ)
  | readCursor (r : RequestId)
  | fetch (r : RequestId)
  | reconcile (r : RequestId)
  | store (r : RequestId)
  | bump (r : RequestId)
  | crash (r : RequestId)
  | ingest (id : ℕ)
  deriving DecidableEq

namespace CursorState

def init : CursorState := ⟨0, [], 0, fun _ => none⟩

variable (s : CursorState) (r : RequestId)

def setPhase (phase : Option CursorPhase) : CursorState :=
  { s with requests := update s.requests r phase }

/-- `bumpPollCursorForEngine`. -/
def bumpPollCursor (nextAfter : ℕ) : CursorState := { s with cursor := max s.cursor nextAfter }

/-- The engine matches an order and answers the request with the new events. -/
def place (fills : ℕ) : CursorState :=
  match s.requests r with
  | some _ => s
  | none =>
    { s with lastId := s.lastId + fills }.setPhase r
      (some (.inline (List.range' (s.lastId + 1) fills) (List.range' (s.lastId + 1) fills)))

def readCursor : CursorState :=
  match s.requests r with
  | some _ => s
  | none => s.setPhase r (some (.reading s.cursor))

def eventsAfter (after : ℕ) : List ℕ := List.range' (after + 1) (s.lastId - after)

def fetch : CursorState :=
  match s.requests r with
  | some (.reading after) =>
    if s.eventsAfter after = [] ∧ 0 < s.lastId ∧ s.lastId < after then
      s.setPhase r (some (.behind after s.lastId))
    else
      s.setPhase r (some (.fetched after s.lastId (s.eventsAfter after) (s.eventsAfter after)))
  | _ => s

/-- `reconcilePollCursorIfEngineBehind`, after which the events are fetched from 0. -/
def reconcile : CursorState :=
  match s.requests r with
  | some (.behind _ _) => { s with cursor := 0 }.setPhase r (some (.reading 0))
  | _ => s

/-- One insert of `persistEngineMatchEvents`. -/
def store : CursorState :=
  match s.requests r with
  | some (.inline events (id :: todo)) =>
    { s with stored := id :: s.stored }.setPhase r (some (.inline events todo))
  | some (.fetched after last events (id :: todo)) =>
    { s with stored := id :: s.stored }.setPhase r (some (.fetched after last events todo))
  | _ => s

/-- The cursor is moved when all events of the request are stored, at the end of
`applyInlineEngineEvents`, or by `advanceCursorAfterFetch` and the same code of the
poller. -/
def bump : CursorState :=
  match s.requests r with
  | some (.inline events []) =>
    (if 0 < events.foldl max 0 then s.bumpPollCursor (events.foldl max 0) else s).setPhase r none
  | some (.fetched after last events []) =>
    (if events ≠ [] then s.bumpPollCursor (events.foldl max after)
      else if after < last then s.bumpPollCursor last else s).setPhase r none
  | _ => s

def ingest (id : ℕ) : CursorState :=
  if 1 ≤ id ∧ id ≤ s.lastId then { s with stored := id :: s.stored } else s

def step (s : CursorState) : CursorAction → CursorState
  | .place r fills => s.place r fills
  | .readCursor r => s.readCursor r
  | .fetch r => s.fetch r
  | .reconcile r => s.reconcile r
  | .store r => s.store r
  | .bump r => s.bump r
  | .crash r => s.setPhase r none
  | .ingest id => s.ingest id

def Covered (stored : List ℕ) (m : ℕ) : Prop := ∀ n, 1 ≤ n → n ≤ m → n ∈ stored

def PhaseOk (stored : List ℕ) : CursorPhase → Prop
  | .inline events todo =>
    (∃ low fills, events = List.range' low fills) ∧ ∀ n ∈ events, n ∈ stored ∨ n ∈ todo
  | .reading after => Covered stored after
  | .behind _ _ => True
  | .fetched after last events todo =>
    Covered stored after ∧ events = List.range' (after + 1) (last - after) ∧
      ∀ n ∈ events, n ∈ stored ∨ n ∈ todo

variable {stored' stored events : List ℕ}

variable {m b fills low : ℕ} {phase : Option CursorPhase}

theorem Covered.mono (h : Covered stored m) (hsub : stored ⊆ stored') : Covered stored' m :=
  fun n hn hm => hsub (h n hn hm)

theorem PhaseOk.mono {phase : CursorPhase} (h : PhaseOk stored phase) (hsub : stored ⊆ stored') :
    PhaseOk stored' phase := by
  cases phase with
  | inline events todo => exact ⟨h.1, fun n hn => (h.2 n hn).imp_left fun h' => hsub h'⟩
  | reading after => exact Covered.mono h hsub
  | behind after last => trivial
  | fetched after last events todo =>
    exact ⟨h.1.mono hsub, h.2.1, fun n hn => (h.2.2 n hn).imp_left fun h' => hsub h'⟩

theorem stored_or_todo {todo : List ℕ} {id : ℕ} (h : ∀ n ∈ events, n ∈ stored ∨ n ∈ id :: todo) :
    ∀ n ∈ events, n ∈ id :: stored ∨ n ∈ todo := by
  intro n hn
  rcases h n hn with h' | h'
  · exact .inl (mem_cons_of_mem id h')
  · rcases mem_cons.mp h' with rfl | h'
    · exact .inl mem_cons_self
    · exact .inr h'

structure Consistent (s : CursorState) : Prop where
  covered : Covered s.stored s.cursor
  phases : ∀ r phase, s.requests r = some phase → PhaseOk s.stored phase

variable {s r}

theorem Consistent.update (h : Consistent s) (hsub : s.stored ⊆ stored') {cursor' lastId' : ℕ}
    (hcursor : Covered stored' cursor') (hphase : ∀ x, phase = some x → PhaseOk stored' x) :
    Consistent (setPhase ⟨lastId', stored', cursor', s.requests⟩ r phase) := by
  refine ⟨hcursor, fun r' x hx => ?_⟩
  rcases update_eq_some hx with ⟨-, hx⟩ | ⟨-, hx⟩
  · exact hphase x hx
  · exact (h.phases r' x hx).mono hsub

theorem Consistent.setPhase (h : Consistent s) (hphase : ∀ x, phase = some x → PhaseOk s.stored x) :
    Consistent (s.setPhase r phase) :=
  h.update (List.Subset.refl _) h.covered hphase

theorem le_foldl_max {l : List ℕ} {n : ℕ} (h : n ≤ l.foldl max b) : n ≤ b ∨ ∃ x ∈ l, n ≤ x := by
  induction l generalizing b with
  | nil => exact .inl h
  | cons y l ih =>
    rcases ih h with h' | ⟨x, hx, hn⟩
    · rcases le_max_iff.mp h' with h' | h'
      · exact .inl h'
      · exact .inr ⟨y, mem_cons_self, h'⟩
    · exact .inr ⟨x, mem_cons_of_mem y hx, hn⟩

/-- The events of a request that are all stored cover the ids up to the last of them, if
everything below the first one is stored. -/
theorem covered_foldl_max (hevents : events = List.range' low fills)
    (hstored : ∀ n ∈ events, n ∈ stored) (hbelow : ∀ n, 1 ≤ n → n < low → n ∈ stored)
    (hb : Covered stored b) : Covered stored (events.foldl max b) := by
  intro n hn hle
  rcases le_foldl_max hle with h | ⟨x, hx, hnx⟩
  · exact hb n hn h
  · by_cases hlow : n < low
    · exact hbelow n hn hlow
    · apply hstored
      rw [hevents, mem_range'_1] at hx ⊢
      exact ⟨not_lt.mp hlow, hnx.trans_lt hx.2⟩

theorem Covered.max {m' : ℕ} (h : Covered stored m) (h' : Covered stored m') :
    Covered stored (max m m') := by
  intro n hn hle
  rcases le_max_iff.mp hle with hle | hle
  · exact h n hn hle
  · exact h' n hn hle

/-- An answer that moves the cursor starts at most one above it. -/
def InlineAdjoins (s : CursorState) : CursorAction → Prop
  | .bump r =>
    match s.requests r with
    | some (.inline events []) => ∀ low ∈ events.head?, low ≤ s.cursor + 1
    | _ => True
  | _ => True

instance (s : CursorState) (a : CursorAction) : Decidable (InlineAdjoins s a) := by
  unfold InlineAdjoins
  split
  · split <;> infer_instance
  · infer_instance

theorem InlineAdjoins.head_le (h : InlineAdjoins s (.bump r))
    (hr : s.requests r = some (.inline events [])) (hevents : events = List.range' low fills)
    (hpos : 0 < events.foldl max 0) : low ≤ s.cursor + 1 := by
  have hadj : ∀ low ∈ events.head?, low ≤ s.cursor + 1 := by
    simpa only [InlineAdjoins, hr] using h
  cases fills with
  | zero =>
    rw [hevents] at hpos
    exact absurd hpos (lt_irrefl 0)
  | succ fills =>
    apply hadj
    rw [hevents]
    rfl

variable (h : Consistent s)

include h

theorem Consistent.place (r : RequestId) (fills : ℕ) : Consistent (s.place r fills) := by
  unfold CursorState.place
  split
  · exact h
  · apply h.update (List.Subset.refl _) h.covered
    rintro x ⟨⟩
    exact ⟨⟨_, _, rfl⟩, fun n hn => .inr hn⟩

theorem Consistent.fetch (r : RequestId) : Consistent (s.fetch r) := by
  unfold CursorState.fetch
  split
  case h_1 after hr =>
    split
    · apply h.setPhase
      rintro x ⟨⟩
      trivial
    · apply h.setPhase
      rintro x ⟨⟩
      exact ⟨h.phases r _ hr, rfl, fun n hn => .inr hn⟩
  case h_2 => exact h

theorem Consistent.reconcile (r : RequestId) : Consistent (s.reconcile r) := by
  have hzero : Covered s.stored 0 := by
    intro n hn hle
    omega
  unfold CursorState.reconcile
  split
  · apply h.update (List.Subset.refl _) hzero
    rintro x ⟨⟩
    exact hzero
  · exact h

theorem Consistent.store (r : RequestId) : Consistent (s.store r) := by
  unfold CursorState.store
  split
  case h_1 events id todo hr =>
    have hok := h.phases r _ hr
    apply h.update (subset_cons_self id _) (h.covered.mono (subset_cons_self id _))
    rintro x ⟨⟩
    exact ⟨hok.1, stored_or_todo hok.2⟩
  case h_2 after last events id todo hr =>
    have hok := h.phases r _ hr
    have hsub := subset_cons_self id s.stored
    apply h.update hsub (h.covered.mono hsub)
    rintro x ⟨⟩
    exact ⟨hok.1.mono hsub, hok.2.1, stored_or_todo hok.2.2⟩
  case h_3 => exact h

theorem Consistent.bumpPollCursor {nextAfter : ℕ} (hcovered : Covered s.stored nextAfter) :
    Consistent (s.bumpPollCursor nextAfter) :=
  ⟨h.covered.max hcovered, h.phases⟩

theorem Consistent.bump {r : RequestId} (hadj : InlineAdjoins s (.bump r)) :
    Consistent (s.bump r) := by
  have hdone : ∀ {s : CursorState}, Consistent s → Consistent (s.setPhase r none) := by
    intro s hs
    apply hs.setPhase
    rintro x ⟨⟩
  unfold CursorState.bump
  split
  case h_1 events hr =>
    apply hdone
    split
    case isTrue hpos =>
      obtain ⟨⟨low, fills, hevents⟩, hstored⟩ := h.phases r _ hr
      have hlow : low ≤ s.cursor + 1 := hadj.head_le hr hevents hpos
      apply h.bumpPollCursor
      apply covered_foldl_max hevents
      · intro n hn
        simpa using hstored n hn
      · -- below the first event of the answer is the cursor
        intro n hn hnlow
        exact h.covered n hn (Nat.le_of_lt_succ (hnlow.trans_le hlow))
      · intro n hn hle
        omega
    case isFalse => exact h
  case h_2 after last events hr =>
    obtain ⟨hafter, hevents, hstored⟩ := h.phases r _ hr
    apply hdone
    split
    · apply h.bumpPollCursor
      apply covered_foldl_max hevents
      · intro n hn
        simpa using hstored n hn
      · intro n hn hlow
        exact hafter n hn (Nat.le_of_lt_succ hlow)
      · exact hafter
    · split
      case isTrue hnil hlast =>
        -- a fetch that got nothing has found the engine at the cursor
        rw [hevents, ne_eq, not_not, List.range'_eq_nil_iff] at hnil
        omega
      case isFalse => exact h
  case h_3 => exact h

theorem Consistent.step {a : CursorAction} (ha : InlineAdjoins s a) : Consistent (s.step a) := by
  cases a with
  | place r fills => exact h.place r fills
  | readCursor r =>
    simp only [CursorState.step, readCursor]
    split
    · exact h
    · apply h.setPhase
      rintro x ⟨⟩
      exact h.covered
  | fetch r => exact h.fetch r
  | reconcile r => exact h.reconcile r
  | store r => exact h.store r
  | bump r => exact h.bump ha
  | crash r =>
    apply h.setPhase
    rintro x ⟨⟩
  | ingest id =>
    simp only [CursorState.step, ingest]
    split
    · have hsub := subset_cons_self id s.stored
      exact ⟨h.covered.mono hsub, fun r x hx => (h.phases r x hx).mono hsub⟩
    · exact h

end CursorState

def engineStep (s : String → CursorState) (a : String × CursorAction) : String → CursorState :=
  update s a.1 ((s a.1).step a.2)

def engineRun (acts : List (String × CursorAction)) : String → CursorState :=
  acts.foldl engineStep fun _ => CursorState.init

/-- Every event up to the cursor of its engine is stored. -/
theorem stored_of_le_cursor {acts : List (String × CursorAction)}
    (h : Along engineStep (fun s a => CursorState.InlineAdjoins (s a.1) a.2)
      (fun _ => CursorState.init) acts)
    (engine : String) {n : ℕ} (hn : 1 ≤ n) (hcursor : n ≤ (engineRun acts engine).cursor) :
    n ∈ (engineRun acts engine).stored := by
  have hinv : ∀ engine, (engineRun acts engine).Consistent := by
    apply h.invariant (P := fun s => ∀ engine, (s engine).Consistent)
    · intro engine
      constructor
      · intro m hm hle
        have hzero : m ≤ 0 := hle
        omega
      · rintro r phase ⟨⟩
    · intro s a hs ha engine
      by_cases he : engine = a.1
      · subst he
        rw [engineStep, update_self]
        exact (hs a.1).step ha
      · rw [engineStep, update_of_ne he]
        exact hs engine
  exact (hinv engine).covered n hn hcursor

def orderedActs : List (String × CursorAction) :=
  [.place 1 1, .place 2 2, .store 1, .bump 1, .store 2, .store 2, .bump 2, .place 3 1,
    .crash 3, .readCursor 3, .fetch 3, .store 3, .bump 3].map fun a => ("engine", a)

theorem orderedActs_stored_of_le_cursor :
    4 ≤ (engineRun orderedActs "engine").cursor ∧ 4 ∈ (engineRun orderedActs "engine").stored :=
  have hcursor : 4 ≤ (engineRun orderedActs "engine").cursor := by decide +kernel
  ⟨hcursor, stored_of_le_cursor (by decide +kernel) "engine" (by decide) hcursor⟩

def overtakingActs : List (String × CursorAction) :=
  [.place 1 1, .place 2 1, .store 2, .bump 2, .crash 1].map fun a => ("engine", a)

theorem cursor_passes_unstored_event :
    1 ≤ (engineRun overtakingActs "engine").lastId ∧
      1 ≤ (engineRun overtakingActs "engine").cursor ∧
      1 ∉ (engineRun overtakingActs "engine").stored := by
  decide +kernel

end MetherCEX
