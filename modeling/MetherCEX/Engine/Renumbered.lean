import MetherCEX.Lib.Renumbering
import MetherCEX.Engine.PlacementPaths

/-!
# Engines that differ in their event ids

What a placement matches depends on the book of its market alone, and the ids of its events on the
counter.
-/

namespace MetherCEX

open List SortedMap

namespace Engine

variable {e e' : Engine}

def SameBooks (e e' : Engine) : Prop := ∀ market, e.bookOf market = e'.bookOf market

namespace SameBooks

theorem trialMatch_eq (h : e.SameBooks e') (now : ℕ → ℕ) (o : Order) :
    e.trialMatch now o = e'.trialMatch now o := by
  rw [trialMatch, trialMatch, h o.market]

theorem bookOf_placeOrder (e : Engine) (now : ℕ → ℕ) (o : Order) (market : Market) :
    (e.placeOrder now o).1.bookOf market =
      if market = o.market then (e.trialMatch now o).2 else e.bookOf market := by
  rw [bookOf, orderBooks_placeOrder, ← bookOf]
  split_ifs with hm
  · rw [hm, bookOf_commitBook_self]
  · exact bookOf_commitBook_of_ne e _ hm

theorem placeOrder (h : e.SameBooks e') (now : ℕ → ℕ) (o : Order) :
    (e.placeOrder now o).1.SameBooks (e'.placeOrder now o).1 := by
  intro market
  rw [bookOf_placeOrder, bookOf_placeOrder, h.trialMatch_eq, h market]

theorem cancelOrder (h : e.SameBooks e') (orderId : OrderId) :
    (e.cancelOrder orderId).SameBooks (e'.cancelOrder orderId) := by
  intro market
  rw [bookOf_cancelOrder, bookOf_cancelOrder, h market]

theorem failed (e : Engine) (n : ℕ) (market : Market) :
    ((e.fetchAdd n).enterMarket market).SameBooks e := by
  intro m
  by_cases hm : m = market
  · subst hm
    exact bookOf_commitBook_self _ _ _
  · exact bookOf_commitBook_of_ne _ _ hm

end SameBooks

variable {ρ : ℕ → ℕ}

def renamePairs (ρ : ℕ → ℕ) (pairs : List (ℕ × MatchEvent)) : List (ℕ × MatchEvent) :=
  pairs.map fun p => (ρ p.1, p.2)

theorem numberEvents_rename {a b : ℕ} (h : Shift ρ a b) {events : List MatchEvent}
    (hbound : b + events.length < usizeBound) :
    numberEvents b events = renamePairs ρ (numberEvents a events) := by
  rw [numberEvents, numberEvents, renamePairs, map_map]
  refine map_congr_left fun e he => ?_
  have hlt := List.snd_lt_of_mem_zipIdx he
  have hle := h.le_next
  simp only [Function.comp_apply, Nat.mod_eq_of_lt (show b + e.2 < usizeBound by omega),
    Nat.mod_eq_of_lt (show a + e.2 < usizeBound by omega), h.from_next]

theorem matchEvents_insertMatchEventSorted (hρ : StrictMono ρ) (h : e.matchEvents =
    e'.matchEvents.mapKeys ρ hρ) (id : ℕ) (ev : MatchEvent) : (e.insertMatchEventSorted
    (ρ id) ev).matchEvents = (e'.insertMatchEventSorted id ev).matchEvents.mapKeys ρ hρ := by
  unfold insertMatchEventSorted
  rw [h, get?_mapKeys]
  cases e'.matchEvents.get? id with
  | some ev' => exact h
  | none =>
    dsimp only
    rw [← mapKeys_insert, length_mapKeys, ← mapKeys_drop]

theorem matchEvents_insertEvents (hρ : StrictMono ρ) (pairs : List (ℕ × MatchEvent))
    (h : e.matchEvents = e'.matchEvents.mapKeys ρ hρ) : (e.insertEvents
    (renamePairs ρ pairs)).matchEvents = (e'.insertEvents pairs).matchEvents.mapKeys ρ hρ := by
  induction pairs generalizing e e' with
  | nil => exact h
  | cons p pairs ih => exact ih (matchEvents_insertMatchEventSorted hρ h p.1 p.2)

theorem foldl_insert_map (hρ : StrictMono ρ) (ids applied : List ℕ) :
    (ids.map ρ).foldl (fun applied id => applied.insert id) (applied.map ρ) =
      (ids.foldl (fun applied id => applied.insert id) applied).map ρ := by
  induction ids generalizing applied with
  | nil => rfl
  | cons id ids ih =>
    have hinsert : (applied.map ρ).insert (ρ id) = (applied.insert id).map ρ := by
      by_cases hid : id ∈ applied
      · rw [List.insert_of_mem hid, List.insert_of_mem (mem_map_of_mem hid)]
      · have hnot : ρ id ∉ applied.map ρ := fun hmem =>
          hid ((mem_map_of_injective hρ.injective).mp hmem)
        rw [List.insert_of_not_mem hid, List.insert_of_not_mem hnot, map_cons]
    rw [map_cons, foldl_cons, foldl_cons, hinsert, ih]

theorem mem_keys_insertMatchEventSorted {id k : ℕ} {ev : MatchEvent} (hk : k ∈
    (e.insertMatchEventSorted id ev).matchEvents.keys) : k ∈ e.matchEvents.keys ∨ k = id := by
  unfold insertMatchEventSorted at hk
  split at hk
  · exact Or.inl hk
  · obtain ⟨p, hp, rfl⟩ := mem_map.mp hk
    rcases SortedMap.mem_insert.mp (SortedMap.mem_of_mem_drop hp) with rfl | ⟨hp, -⟩
    · exact Or.inr rfl
    · exact Or.inl (mem_map_of_mem hp)

theorem mem_keys_insertEvents {pairs : List (ℕ × MatchEvent)} {k : ℕ} (hk : k ∈
    (e.insertEvents pairs).matchEvents.keys) : k ∈ e.matchEvents.keys ∨ k ∈ pairs.map Prod.fst := by
  induction pairs generalizing e with
  | nil => exact Or.inl hk
  | cons p pairs ih =>
    rcases ih hk with hk | hk
    · exact (mem_keys_insertMatchEventSorted hk).imp_right fun h =>
        mem_cons.mpr (Or.inl h)
    · exact Or.inr (mem_cons_of_mem _ hk)

theorem recorded_placeOrder (e : Engine) (now : ℕ → ℕ) (o : Order) : ∃ c : Engine,
    c.matchEvents = e.matchEvents ∧ c.bookAppliedMatchEventIds = e.bookAppliedMatchEventIds ∧
    (e.placeOrder now o).1 = c.recordEvents (e.placeOrder now o).2 := by
  simp only [placeOrder]
  split_ifs
  · exact ⟨(e.commitBook o.market (e.trialMatch now o).2).fetchAdd
      (e.trialMatch now o).1.length, rfl, rfl, rfl⟩
  · exact ⟨e.commitBook o.market (e.trialMatch now o).2, rfl, rfl, rfl⟩

/-- `ρ` takes the ids of `e'` to those of `e`, in the buffer and among the applied ids. -/
structure Renumbered (ρ : ℕ → ℕ) (e e' : Engine) : Prop where
  shift : Shift ρ e'.nextEventId e.nextEventId
  matchEvents : ∀ hρ : StrictMono ρ, e.matchEvents = e'.matchEvents.mapKeys ρ hρ
  applied : e.bookAppliedMatchEventIds = e'.bookAppliedMatchEventIds.map ρ
  keys_lt : ∀ k ∈ e'.matchEvents.keys, k < e'.nextEventId
  applied_lt : ∀ k ∈ e'.bookAppliedMatchEventIds, k < e'.nextEventId

namespace Renumbered

theorem new : Renumbered id Engine.new Engine.new :=
  ⟨Shift.refl 1, fun _ => rfl, rfl, nofun,
    nofun⟩

theorem cancelOrder (h : Renumbered ρ e e') (orderId : OrderId) :
    Renumbered ρ (e.cancelOrder orderId) (e'.cancelOrder orderId) :=
  ⟨h.shift, h.matchEvents, h.applied, h.keys_lt, h.applied_lt⟩

theorem placeOrder (h : Renumbered ρ e e') {now : ℕ → ℕ} {o : Order} (hmatch : e.trialMatch now o =
    e'.trialMatch now o) (hbound : e.nextEventId + (e.trialMatch now o).1.length < usizeBound) :
    Renumbered ρ (e.placeOrder now o).1 (e'.placeOrder now o).1 ∧
    (e.placeOrder now o).2 = renamePairs ρ (e'.placeOrder now o).2 := by
  have hle := h.shift.le_next
  have hbound' : e'.nextEventId + (e'.trialMatch now o).1.length < usizeBound := by
    rw [← hmatch]
    omega
  have hpairs : (e.placeOrder now o).2 = renamePairs ρ (e'.placeOrder now o).2 := by
    change numberEvents e.nextEventId (e.trialMatch now o).1 = _
    rw [numberEvents_rename h.shift hbound, hmatch]
    rfl
  have hids : ∀ k ∈ (e'.placeOrder now o).2.map Prod.fst,
      k < e'.nextEventId + (e'.trialMatch now o).1.length := by
    intro k hk
    obtain ⟨p, hp, rfl⟩ := mem_map.mp hk
    exact (mem_numberEvents hp hbound').2
  obtain ⟨c, hcEvents, hcApplied, hc⟩ := e.recorded_placeOrder now o
  obtain ⟨c', hcEvents', hcApplied', hc'⟩ := e'.recorded_placeOrder now o
  have hevents : c.matchEvents = c'.matchEvents.mapKeys ρ h.shift.strictMono := by
    rw [hcEvents, hcEvents']
    exact h.matchEvents _
  have hnext := nextEventId_placeOrder e now o hbound
  have hnext' := nextEventId_placeOrder e' now o hbound'
  refine ⟨⟨?_, fun hρ => ?_, ?_, fun k hk => ?_, fun k hk => ?_⟩, hpairs⟩
  · rw [hnext, hnext', hmatch]
    exact h.shift.draw _
  · rw [hc, hc', hpairs]
    exact matchEvents_insertEvents hρ _ hevents
  · rw [hc, hc', recordEvents, recordEvents, recordBookAppliedForEventIds,
      recordBookAppliedForEventIds, applied_insertEvents, applied_insertEvents, hcApplied,
      hcApplied', h.applied, hpairs, ← foldl_insert_map h.shift.strictMono]
    simp [renamePairs, Function.comp_def]
  · rw [hnext']
    rw [hc'] at hk
    rcases mem_keys_insertEvents (e := c') hk with hk | hk
    · rw [hcEvents'] at hk
      exact (h.keys_lt k hk).trans_le (Nat.le_add_right _ _)
    · exact hids k hk
  · rw [hnext']
    rcases mem_applied_placeOrder.mp hk with hk | hk
    · exact (h.applied_lt k hk).trans_le (Nat.le_add_right _ _)
    · exact hids k hk

theorem failed (h : Renumbered ρ e e') {n : ℕ} (hbound : e.nextEventId + n < usizeBound)
    (market : Market) : ∃ ρ', (∀ k < e'.nextEventId, ρ' k = ρ k) ∧
    Renumbered ρ' ((e.fetchAdd n).enterMarket market) e' := by
  obtain ⟨ρ', hshift, hsame⟩ := h.shift.skip n
  have hnext : ((e.fetchAdd n).enterMarket market).nextEventId = e.nextEventId + n :=
    Nat.mod_eq_of_lt hbound
  refine ⟨ρ', hsame, ⟨hnext.symm ▸ hshift, fun hρ => ?_, ?_, h.keys_lt, h.applied_lt⟩⟩
  · change e.matchEvents = _
    rw [h.matchEvents h.shift.strictMono]
    exact (mapKeys_congr h.shift.strictMono hρ fun k hk =>
      hsame k (h.keys_lt k hk)).symm
  · change e.bookAppliedMatchEventIds = _
    rw [h.applied]
    exact map_congr_left fun k hk => (hsame k (h.applied_lt k hk)).symm

end Renumbered

end Engine

end MetherCEX
