import MetherCEX.Engine.Engine
import MetherCEX.Lib.NewestKeys

/-!
# The buffer of match events

The engine keeps the events of the largest ids in memory, and answers from there.
-/

namespace MetherCEX.Engine

open SortedMap

theorem insertEvents_eq_foldl (e : Engine) (calls : List (ℕ × MatchEvent)) : e.insertEvents calls =
    { e with matchEvents := calls.foldl (insertNewest maxEvents) e.matchEvents } := by
  induction calls generalizing e with
  | nil => rfl
  | cons c calls ih =>
    have hstep : e.insertMatchEventSorted c.1 c.2 =
        { e with matchEvents := insertNewest maxEvents e.matchEvents c } := by
      rw [insertMatchEventSorted, insertNewest]
      cases e.matchEvents.get? c.1 <;> rfl
    exact (congrArg (insertEvents · calls) hstep).trans (ih _)

/-- With any bound, the buffer has the largest ids that were entered, in ascending order, each with
its first event, and the events after an id are read from it in this order; the engine's bound is
`maxEvents`. -/
theorem events_newest (bound : ℕ) (calls : List (ℕ × MatchEvent)) :
    let entered := calls.foldl insertFirst .empty
    let buffer := calls.foldl (insertNewest bound) .empty
    (∀ id, entered.get? id = (calls.find? fun c => c.1 = id).map Prod.snd) ∧
      entered.keys.Pairwise (· < ·) ∧
      buffer.entries = entered.entries.drop (entered.entries.length - bound) ∧
      (∀ (e : Engine) (afterId : ℕ), e.matchEvents = buffer →
        ((e.getMatchEventsAfter afterId).1.map Prod.fst).Pairwise (· < ·) ∧
          ∀ p, p ∈ (e.getMatchEventsAfter afterId).1 ↔ p ∈ buffer.entries ∧ afterId < p.1) ∧
      (new.insertEvents calls).matchEvents = calls.foldl (insertNewest maxEvents) .empty := by
  intro entered buffer
  refine ⟨get?_foldl_insertFirst calls, entered.keys_sorted, ?_, ?_, ?_⟩
  · exact congrArg entries (foldl_insertNewest bound calls)
  · intro e afterId hbuffer
    refine ⟨List.pairwise_map.mpr (e.matchEvents.sorted.filter _), fun p => ?_⟩
    simp [getMatchEventsAfter, hbuffer]
  · rw [insertEvents_eq_foldl]
    rfl

end MetherCEX.Engine
