import MetherCEX.Lib.SortedMap
import MetherCEX.Engine.Types

/-!
# The match-event journal

The journal is a file of lines: an `evt` line for every match, written before the book is
committed, and an `ack` line once the stream has stored the event (`wal.rs`).
-/

namespace MetherCEX

open List SortedMap

/-- A journal row: the event, its id and the subject it is published on. -/
structure WalPendingEvent where
  eventId : ℕ
  subject : String
  event : MatchEvent
  deriving DecidableEq

/-- A line of the journal; a line that does not parse is skipped by the scan. -/
inductive WalLine
  | evt (engineId : String) (row : WalPendingEvent)
  | ack (eventId : ℕ)
  | unreadable
  deriving DecidableEq

namespace WalLine

/-- What the scan does with one line: the rows by id, and the acknowledged ids. -/
def scanStep (engineId : String) (s : SortedMap ℕ WalPendingEvent × List ℕ) :
    WalLine → SortedMap ℕ WalPendingEvent × List ℕ
  | .ack eventId => (s.1, s.2.insert eventId)
  | .evt id row => if id = engineId then (s.1.insert row.eventId row, s.2) else s
  | .unreadable => s

def scanFold (engineId : String) (lines : List WalLine) :
    SortedMap ℕ WalPendingEvent × List ℕ :=
  lines.foldl (scanStep engineId) (.empty, [])

def scanUnackedForEngine (engineId : String) (lines : List WalLine) :
    List WalPendingEvent :=
  (((scanFold engineId lines).1.entries.filter fun p =>
    decide (p.1 ∉ (scanFold engineId lines).2)).map Prod.snd).insertionSort
      fun a b => a.eventId ≤ b.eventId

def compactJournalKeepUnackedOnly (engineId : String) (lines : List WalLine) :
    List WalLine :=
  (scanUnackedForEngine engineId lines).map (.evt engineId)

def row? (engineId : String) : WalLine → Option WalPendingEvent
  | .evt id row => if id = engineId then some row else none
  | _ => none

def rowsOf (engineId : String) (lines : List WalLine) : List WalPendingEvent :=
  lines.filterMap (row? engineId)

def lastRow? (engineId : String) (lines : List WalLine) (id : ℕ) : Option WalPendingEvent :=
  (rowsOf engineId lines).reverse.find? fun r => decide (r.eventId = id)

variable {engineId : String} {lines : List WalLine}

variable {row : WalPendingEvent}

theorem mem_rowsOf : row ∈ rowsOf engineId lines ↔ .evt engineId row ∈ lines := by
  rw [rowsOf, mem_filterMap]
  constructor
  · rintro ⟨line, hline, hrow⟩
    cases line with
    | evt id r =>
      simp only [row?, Option.ite_none_right_eq_some, Option.some.injEq] at hrow
      obtain ⟨rfl, rfl⟩ := hrow
      exact hline
    | ack id => cases hrow
    | unreadable => cases hrow
  · intro h
    exact ⟨_, h, by simp [row?]⟩

theorem rowsOf_append (l l' : List WalLine) :
    rowsOf engineId (l ++ l') = rowsOf engineId l ++ rowsOf engineId l' :=
  filterMap_append

theorem rowsOf_map_evt (rows : List WalPendingEvent) :
    rowsOf engineId (rows.map (.evt engineId)) = rows := by
  induction rows with
  | nil => rfl
  | cons r rows ih => simpa [rowsOf, row?] using ih

theorem mem_of_lastRow? {id : ℕ} (h : lastRow? engineId lines id = some row) :
    row ∈ rowsOf engineId lines ∧ row.eventId = id := by
  have hid := find?_some h
  exact ⟨mem_reverse.mp (mem_of_find?_eq_some h), of_decide_eq_true hid⟩

theorem lastRow?_concat_row (line : WalLine) (id : ℕ) (h : row? engineId line = some row) :
    lastRow? engineId (lines ++ [line]) id =
      if row.eventId = id then some row else lastRow? engineId lines id := by
  have hrows : rowsOf engineId [line] = [row] := by simp [rowsOf, h]
  rw [lastRow?, rowsOf_append, hrows, reverse_concat, find?_cons]
  by_cases hid : row.eventId = id
  · simp [hid]
  · simp [hid, lastRow?]

theorem lastRow?_concat_of_none (line : WalLine) (id : ℕ) (h : row? engineId line = none) :
    lastRow? engineId (lines ++ [line]) id = lastRow? engineId lines id := by
  have hrows : rowsOf engineId [line] = [] := by simp [rowsOf, h]
  rw [lastRow?, rowsOf_append, hrows, append_nil]
  rfl

theorem lastRow?_of_unique (h : row ∈ rowsOf engineId lines) (huniq : ∀ r ∈ rowsOf engineId lines,
    r.eventId = row.eventId → r = row) : lastRow? engineId lines row.eventId = some row := by
  cases hlast : lastRow? engineId lines row.eventId with
  | none =>
    have hnone := find?_eq_none.mp hlast row (mem_reverse.mpr h)
    exact absurd (decide_eq_true rfl) hnone
  | some r =>
    obtain ⟨hr, hid⟩ := mem_of_lastRow? hlast
    rw [huniq r hr hid]

theorem scanFold_concat (line : WalLine) :
    scanFold engineId (lines ++ [line]) = scanStep engineId (scanFold engineId lines) line := by
  simp [scanFold]

theorem scanFold_acked (id : ℕ) : id ∈ (scanFold engineId lines).2 ↔ .ack id ∈ lines := by
  induction lines using List.reverseRecOn with
  | nil => simp [scanFold]
  | append_singleton lines line ih =>
    rw [scanFold_concat, mem_append, mem_singleton, ← ih]
    cases line with
    | evt eid row =>
      simp only [scanStep]
      split_ifs <;> simp
    | ack id' => simp [scanStep, or_comm]
    | unreadable => simp [scanStep]

theorem scanFold_get? (id : ℕ) :
    (scanFold engineId lines).1.get? id = lastRow? engineId lines id := by
  induction lines using List.reverseRecOn with
  | nil => rfl
  | append_singleton lines line ih =>
    rw [scanFold_concat]
    cases line with
    | evt eid row =>
      by_cases heid : eid = engineId
      · have hrow : row? engineId (.evt eid row) = some row := by simp [row?, heid]
        rw [lastRow?_concat_row _ id hrow, scanStep, if_pos heid]
        split_ifs with hid
        · rw [← hid]
          exact get?_insert_self _ _ _
        · rw [← ih]
          exact get?_insert_of_ne _ _ (Ne.symm hid)
      · rw [lastRow?_concat_of_none (.evt eid row) id (by simp [row?, heid]), scanStep,
          if_neg heid]
        exact ih
    | ack id' =>
      rw [lastRow?_concat_of_none (.ack id') id rfl]
      exact ih
    | unreadable =>
      rw [lastRow?_concat_of_none .unreadable id rfl]
      exact ih

theorem scanFold_key {p : ℕ × WalPendingEvent} (hp : p ∈ (scanFold engineId lines).1.entries) :
    p.2.eventId = p.1 := by
  have hget := get?_eq_some.mpr hp
  rw [scanFold_get?] at hget
  exact (mem_of_lastRow? hget).2

theorem mem_scanUnackedForEngine : row ∈ scanUnackedForEngine engineId lines ↔
    lastRow? engineId lines row.eventId = some row ∧ .ack row.eventId ∉ lines := by
  simp only [scanUnackedForEngine, mem_insertionSort, mem_map, mem_filter,
    decide_eq_true_iff]
  constructor
  · rintro ⟨p, ⟨hp, hack⟩, rfl⟩
    have hkey := scanFold_key hp
    rw [scanFold_acked] at hack
    have hget := get?_eq_some.mpr hp
    rw [scanFold_get?] at hget
    rw [hkey]
    exact ⟨hget, hack⟩
  · rintro ⟨hlast, hack⟩
    rw [← scanFold_get?] at hlast
    refine ⟨(row.eventId, row), ⟨get?_eq_some.mp hlast, ?_⟩, rfl⟩
    rw [scanFold_acked]
    exact hack

theorem scanUnackedForEngine_sorted :
    (scanUnackedForEngine engineId lines).Pairwise fun a b => a.eventId < b.eventId := by
  have hsorted : (((scanFold engineId lines).1.entries.filter fun p =>
      decide (p.1 ∉ (scanFold engineId lines).2)).map Prod.snd).Pairwise
        fun a b => a.eventId < b.eventId := by
    refine pairwise_map.mpr ?_
    refine ((sorted _).filter _).imp_of_mem fun hp hq h => ?_
    rw [scanFold_key (mem_of_mem_filter hp), scanFold_key (mem_of_mem_filter hq)]
    exact h
  have hle : (((scanFold engineId lines).1.entries.filter fun p =>
      decide (p.1 ∉ (scanFold engineId lines).2)).map Prod.snd).Pairwise
        fun a b => a.eventId ≤ b.eventId := hsorted.imp fun h => h.le
  rw [scanUnackedForEngine, hle.insertionSort_eq]
  exact hsorted

theorem eq_of_sorted_of_mem_iff
    {l l' : List WalPendingEvent} (hl : l.Pairwise fun a b => a.eventId < b.eventId)
    (hl' : l'.Pairwise fun a b => a.eventId < b.eventId) (h : ∀ r, r ∈ l ↔ r ∈ l') : l = l' := by
  have hnodup : ∀ {m : List WalPendingEvent},
      (m.Pairwise fun a b => a.eventId < b.eventId) → m.Nodup := fun hm =>
    hm.imp fun hab heq => (heq ▸ hab).ne rfl
  refine List.Perm.eq_of_pairwise ?_ hl hl'
    ((perm_ext_iff_of_nodup (hnodup hl) (hnodup hl')).mpr h)
  intro a b _ _ hab hba
  exact absurd hab (not_lt.mpr hba.le)

theorem scan_compact (engineId : String) (lines : List WalLine) : scanUnackedForEngine engineId
    (compactJournalKeepUnackedOnly engineId lines) = scanUnackedForEngine engineId lines := by
  refine eq_of_sorted_of_mem_iff scanUnackedForEngine_sorted scanUnackedForEngine_sorted
    fun row => ?_
  have hrows : rowsOf engineId (compactJournalKeepUnackedOnly engineId lines) =
      scanUnackedForEngine engineId lines := rowsOf_map_evt _
  have hack : ∀ id, .ack id ∉ compactJournalKeepUnackedOnly engineId lines := by
    intro id hmem
    obtain ⟨r, -, hr⟩ := mem_map.mp hmem
    cases hr
  rw [mem_scanUnackedForEngine]
  constructor
  · rintro ⟨hlast, -⟩
    have hmem := (mem_of_lastRow? hlast).1
    rwa [hrows] at hmem
  · intro hrow
    refine ⟨lastRow?_of_unique (by rwa [hrows]) fun r hr hid => ?_, hack _⟩
    rw [hrows] at hr
    have hr' := (mem_scanUnackedForEngine.mp hr).1
    rw [hid, (mem_scanUnackedForEngine.mp hrow).1] at hr'
    exact (Option.some.inj hr').symm

end WalLine

end MetherCEX
