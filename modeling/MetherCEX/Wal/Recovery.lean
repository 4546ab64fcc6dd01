import MetherCEX.Wal.Journal
import MetherCEX.Engine.MatchFill

/-!
# The rows of the journal, written and replayed

A placement appends the rows of its events; at startup the rows without an
acknowledgement are applied to the restored books, in the order of their ids, and
the first that cannot be applied ends the startup (`main.rs`).
-/

namespace MetherCEX

open List

/-- How an append to the journal ended; a failed one may have written a part of
its rows. -/
inductive AppendOutcome
  | ok
  | failed (rows : ℕ) (err : String)
  deriving DecidableEq

namespace AppendOutcome

def result : AppendOutcome → Except String Unit
  | .ok => .ok ()
  | .failed _ err => .error err

def written {α : Type} : AppendOutcome → List α → List α
  | .ok, rows => rows
  | .failed n _, rows => rows.take n

theorem written_subset {α : Type} (a : AppendOutcome) (rows : List α) : a.written rows ⊆ rows := by
  cases a with
  | ok => exact List.Subset.refl _
  | failed n err => exact take_subset n rows

end AppendOutcome

def walRowsForPairs (subjectOf : Market → String) (pairs : List (ℕ × MatchEvent)) :
    List WalPendingEvent :=
  pairs.map fun p => ⟨p.1, subjectOf p.2.market, p.2⟩

namespace Engine

/-- Applies journal rows one after the other; the first that fails ends it. -/
def replayRows : Engine → List WalPendingEvent → Except FillError Engine
  | e, [] => .ok e
  | e, row :: rows =>
    match e.applyReplayEvent row.eventId row.event with
    | .error err => .error err
    | .ok e' => e'.replayRows rows

def ReplaySucceeds (e : Engine) (rows : List WalPendingEvent) : Prop :=
  ∃ e', e.replayRows rows = .ok e'

variable {rows : List WalPendingEvent}

theorem toBool_replayRows_iff {e : Engine} :
    (e.replayRows rows).toBool = true ↔ e.ReplaySucceeds rows := by
  unfold ReplaySucceeds
  cases e.replayRows rows <;> simp [Except.toBool]

instance (e : Engine) (rows : List WalPendingEvent) : Decidable (e.ReplaySucceeds rows) :=
  decidable_of_iff _ toBool_replayRows_iff

variable {e : Engine}

theorem replayRows_of_applied (h : ∀ row ∈ rows, row.eventId ∈ e.bookAppliedMatchEventIds) :
    e.replayRows rows = .ok e := by
  induction rows with
  | nil => rfl
  | cons row rows ih =>
    rw [replayRows, applyReplayEvent_of_applied _ (h row mem_cons_self)]
    exact ih fun r hr => h r (mem_cons_of_mem row hr)

/-- A row that is not applied and names an order that does not rest ends the
replay, whatever comes before it is applied already. -/
theorem not_replaySucceeds_of_missing (hrows : ∀ row ∈ rows,
    row.eventId ∉ e.bookAppliedMatchEventIds → ∃ x, row.event.Names x ∧ ∀ o ∈ e.orders, o.id ≠ x)
    (hex : ∃ row ∈ rows, row.eventId ∉ e.bookAppliedMatchEventIds) : ¬ e.ReplaySucceeds rows := by
  induction rows with
  | nil => exact absurd hex (by simp)
  | cons row rows ih =>
    rintro ⟨e', he'⟩
    rw [replayRows] at he'
    by_cases happ : row.eventId ∈ e.bookAppliedMatchEventIds
    · rw [applyReplayEvent_of_applied _ happ] at he'
      obtain ⟨r, hr, hnot⟩ := hex
      have hr' : r ∈ rows := by
        rcases mem_cons.mp hr with rfl | hr
        · exact absurd happ hnot
        · exact hr
      exact ih (fun r hr => hrows r (mem_cons_of_mem row hr)) ⟨r, hr', hnot⟩ ⟨e', he'⟩
    · obtain ⟨x, hx, hmiss⟩ := hrows row mem_cons_self happ
      obtain ⟨err, herr⟩ := applyReplayEvent_of_missing happ hx hmiss
      rw [herr] at he'
      cases he'

def rowsToApply (e : Engine) (rows : List WalPendingEvent) : List WalPendingEvent :=
  rows.filter fun row => decide (row.eventId ∉ e.bookAppliedMatchEventIds)

/-- The rows are in the books of `e'`, and everything else is as in `e`. -/
structure RowsApplied (e : Engine) (rows : List WalPendingEvent) (e' : Engine) : Prop where
  nextEventId_eq : e'.nextEventId = e.nextEventId
  applied : ∀ i, i ∈ e'.bookAppliedMatchEventIds ↔
    i ∈ e.bookAppliedMatchEventIds ∨ ∃ row ∈ rows, row.eventId = i
  positive : ∀ row ∈ e.rowsToApply rows, 0 < row.event.quantity
  names : ∀ row ∈ rows, row.eventId ∉ e.bookAppliedMatchEventIds → ∀ z, row.event.Names z →
    ∃ y ∈ e.orders, y.id = z
  from_before : ∀ x ∈ e'.orders, ∃ y ∈ e.orders, x.Descends y
  restingQty_le : ∀ z, restingQty z e'.orders +
    filledQty z ((e.rowsToApply rows).map WalPendingEvent.event) ≤ restingQty z e.orders
  wellFormed : e.WellFormed → e'.WellFormed
  restingQty_ge : e.WellFormed → ∀ z, restingQty z e.orders ≤ restingQty z e'.orders +
    filledQty z ((e.rowsToApply rows).map WalPendingEvent.event)

theorem RowsApplied.nil (e : Engine) : RowsApplied e [] e where
  nextEventId_eq := rfl
  applied i := by simp
  positive := nofun
  names := nofun
  from_before x hx := ⟨x, hx, Order.Descends.refl x⟩
  restingQty_le z := by simp [rowsToApply]
  wellFormed h := h
  restingQty_ge _ z := by simp [rowsToApply]

theorem RowsApplied.cons {e₁ e₂ : Engine} {row : WalPendingEvent} (hnot : row.eventId
    ∉ e.bookAppliedMatchEventIds) (hnew : ∀ r ∈ rows, r.eventId ≠ row.eventId) (h : RowApplied
    e row.eventId row.event e₁) (h' : RowsApplied e₁ rows e₂) : RowsApplied e (row :: rows) e₂ := by
  have hsame : ∀ r ∈ rows,
      (r.eventId ∈ e₁.bookAppliedMatchEventIds ↔ r.eventId ∈ e.bookAppliedMatchEventIds) := by
    intro r hr
    rw [h.applied, or_iff_right (hnew r hr)]
  have htoApply : e.rowsToApply (row :: rows) = row :: e₁.rowsToApply rows := by
    rw [rowsToApply, filter_cons_of_pos (by simpa using hnot)]
    refine congrArg (row :: ·) (filter_congr fun r hr => ?_)
    simp only [hsame r hr]
  have hsplit : ∀ z, filledQty z ((e.rowsToApply (row :: rows)).map WalPendingEvent.event) =
      filledQty z [row.event] +
        filledQty z ((e₁.rowsToApply rows).map WalPendingEvent.event) := by
    intro z
    rw [htoApply, ← filledQty_append]
    rfl
  refine ⟨h'.nextEventId_eq.trans h.nextEventId_eq, fun i => ?_, fun r hr => ?_,
    fun r hr hr' z hz => ?_, fun x hx => ?_, fun z => ?_,
    fun hwf => h'.wellFormed (h.wellFormed hwf), fun hwf z => ?_⟩
  · rw [h'.applied, h.applied]
    simp only [mem_cons, exists_eq_or_imp]
    tauto
  · rw [htoApply] at hr
    rcases mem_cons.mp hr with rfl | hr
    · exact h.positive
    · exact h'.positive r hr
  · rcases mem_cons.mp hr with rfl | hr
    · exact h.names z hz
    · obtain ⟨y, hy, rfl⟩ := h'.names r hr (mt (hsame r hr).mp hr') z hz
      obtain ⟨w, hw, hyw⟩ := h.from_before y hy
      exact ⟨w, hw, hyw.id_eq.symm⟩
  · obtain ⟨y, hy, hxy⟩ := h'.from_before x hx
    obtain ⟨w, hw, hyw⟩ := h.from_before y hy
    exact ⟨w, hw, hxy.trans hyw⟩
  · have h₁ := h.restingQty_le z
    have h₂ := h'.restingQty_le z
    rw [hsplit]
    linarith
  · have h₁ := h.restingQty_ge hwf z
    have h₂ := h'.restingQty_ge (h.wellFormed hwf) z
    rw [hsplit]
    linarith

theorem replayRows_spec {e' : Engine} (hids : rows.Pairwise fun a b => a.eventId < b.eventId)
    (h : e.replayRows rows = .ok e') : RowsApplied e rows e' := by
  induction rows generalizing e with
  | nil =>
    cases h
    exact RowsApplied.nil _
  | cons row rows ih =>
    obtain ⟨hlt, hids⟩ := pairwise_cons.mp hids
    rw [replayRows] at h
    by_cases happ : row.eventId ∈ e.bookAppliedMatchEventIds
    · rw [applyReplayEvent_of_applied _ happ] at h
      have hrows := ih hids h
      have htoApply : e.rowsToApply (row :: rows) = e.rowsToApply rows :=
        filter_cons_of_neg (by simpa using happ)
      refine ⟨hrows.nextEventId_eq, fun i => ?_, htoApply ▸ hrows.positive, fun r hr hr' => ?_,
        hrows.from_before, htoApply ▸ hrows.restingQty_le, hrows.wellFormed,
        htoApply ▸ hrows.restingQty_ge⟩
      · rw [hrows.applied]
        simp only [mem_cons, exists_eq_or_imp]
        refine ⟨by tauto, ?_⟩
        rintro (hi | rfl | hi)
        · exact .inl hi
        · exact .inl happ
        · exact .inr hi
      · rcases mem_cons.mp hr with rfl | hr
        · exact absurd happ hr'
        · exact hrows.names r hr hr'
    · cases hrow : e.applyReplayEvent row.eventId row.event with
      | error err =>
        rw [hrow] at h
        cases h
      | ok e₁ =>
        rw [hrow] at h
        exact RowsApplied.cons happ (fun r hr => (hlt r hr).ne')
          (applyReplayEvent_spec happ hrow) (ih hids h)

end Engine

end MetherCEX
