import MetherCEX.Wal.LineText

/-!
# Compaction of the journal

Compaction rewrites the journal of an engine to its unacknowledged rows.
-/

namespace MetherCEX

open List WalLine WalRecord

namespace WalLine

variable {engineId : String} {lines : List WalLine}

theorem lastRow?_append (l l' : List WalLine) (id : ℕ) :
    lastRow? engineId (l ++ l') id = (lastRow? engineId l' id).or (lastRow? engineId l id) := by
  rw [lastRow?, rowsOf_append, reverse_append, find?_append]
  rfl

theorem exists_lastRow? {row : WalPendingEvent} (h : .evt engineId row ∈ lines) :
    ∃ last, lastRow? engineId lines row.eventId = some last := by
  cases hlast : lastRow? engineId lines row.eventId with
  | some last => exact ⟨last, rfl⟩
  | none =>
    have hnone := find?_eq_none.mp hlast row
      (mem_reverse.mpr (mem_rowsOf.mpr h))
    exact absurd (decide_eq_true rfl) hnone

theorem ack_not_mem_compact (id : ℕ) : .ack id ∉ compactJournalKeepUnackedOnly engineId lines := by
  intro hmem
  obtain ⟨r, -, hr⟩ := mem_map.mp hmem
  cases hr

theorem lastRow?_compact {row : WalPendingEvent} :
    lastRow? engineId (compactJournalKeepUnackedOnly engineId lines) row.eventId = some row ↔
      lastRow? engineId lines row.eventId = some row ∧ .ack row.eventId ∉ lines := by
  rw [← mem_scanUnackedForEngine, ← scan_compact, mem_scanUnackedForEngine]
  exact (and_iff_left (ack_not_mem_compact _)).symm

theorem scan_compact_append {later : List WalLine} (hlater : ∀ row, .evt engineId row ∈ later →
    .ack row.eventId ∉ lines) : scanUnackedForEngine engineId (compactJournalKeepUnackedOnly
    engineId lines ++ later) = scanUnackedForEngine engineId (lines ++ later) := by
  refine eq_of_sorted_of_mem_iff scanUnackedForEngine_sorted scanUnackedForEngine_sorted
    fun row => ?_
  rw [mem_scanUnackedForEngine, mem_scanUnackedForEngine, lastRow?_append, lastRow?_append,
    mem_append, mem_append]
  cases hlast : lastRow? engineId later row.eventId with
  | some last =>
    -- the last row is a later one, so its id was not acknowledged before
    obtain ⟨hmem, hid⟩ := mem_of_lastRow? hlast
    have hack := hlater last (mem_rowsOf.mp hmem)
    rw [hid] at hack
    simp only [Option.some_or, ack_not_mem_compact, hack, false_or]
  | none =>
    simp only [Option.none_or, lastRow?_compact, ack_not_mem_compact, false_or, not_or,
      and_assoc]

end WalLine

/-- How a line is read and a row is printed; a row that was read is printed so that it is
read back. -/
structure LineCodec (L : Type) where
  parse : L → WalLine
  print : String → WalPendingEvent → L
  round : ∀ line engineId row, parse line = .evt engineId row →
    parse (print engineId row) = .evt engineId row

namespace LineCodec

variable {L : Type} (codec : LineCodec L) (engineId : String)

/-- `scan_unacked_for_engine` on the lines of a file. -/
def scan (lines : List L) : List WalPendingEvent :=
  scanUnackedForEngine engineId (lines.map codec.parse)

/-- `compact_journal_keep_unacked_only` on the lines of a file. -/
def compact (lines : List L) : List L := (codec.scan engineId lines).map (codec.print engineId)

theorem map_parse_compact (lines : List L) : (codec.compact engineId lines).map codec.parse =
    compactJournalKeepUnackedOnly engineId (lines.map codec.parse) := by
  rw [compact, map_map]
  refine map_congr_left fun row hrow => ?_
  obtain ⟨hlast, -⟩ := mem_scanUnackedForEngine.mp hrow
  have hmem := mem_rowsOf.mp (mem_of_lastRow? hlast).1
  obtain ⟨line, -, hline⟩ := mem_map.mp hmem
  exact codec.round line engineId row hline

end LineCodec

/-- Compaction preserves the pending set: scanning the compacted journal gives what
scanning the journal gives, in strictly ascending order of ids; compacting twice is
compacting once; and so it stays after any later lines, as long as no later row of the
engine has an id that the journal acknowledged. -/
theorem compact_preserves_pending {L : Type} (codec : LineCodec L) (engineId : String)
    (journal : List L) : codec.scan engineId (codec.compact engineId journal) = codec.scan engineId
    journal ∧ ((codec.scan engineId journal).map WalPendingEvent.eventId).Pairwise (· < ·) ∧
    codec.compact engineId (codec.compact engineId journal) = codec.compact engineId journal ∧
    ∀ later : List L, (∀ line ∈ later, ∀ row, codec.parse line = .evt engineId row →
    ∀ line' ∈ journal, codec.parse line' ≠ .ack row.eventId) → codec.scan engineId
    (codec.compact engineId journal ++ later) = codec.scan engineId (journal ++ later) := by
  have hscan : codec.scan engineId (codec.compact engineId journal) =
      codec.scan engineId journal := by
    rw [LineCodec.scan, codec.map_parse_compact]
    exact scan_compact _ _
  refine ⟨hscan, ?_, ?_, fun later hlater => ?_⟩
  · exact pairwise_map.mpr scanUnackedForEngine_sorted
  · rw [LineCodec.compact, hscan]
    rfl
  · rw [LineCodec.scan, LineCodec.scan, map_append, map_append,
      codec.map_parse_compact]
    refine scan_compact_append fun row hrow hack => ?_
    obtain ⟨line, hline, hevt⟩ := mem_map.mp hrow
    obtain ⟨line', hline', hparse⟩ := mem_map.mp hack
    exact hlater line hline row hevt line' hline' hparse

theorem WalLine.ofText_text (r : WalRecord) : ofText r.text = r.line := by
  have hbytes := ofBytes?_bytes r
  rw [ofBytes?, bytes, Utf8.decode?_encode, Option.map_some] at hbytes
  exact Option.some.inj hbytes

def textCodec : LineCodec (List Char) where
  parse := ofText
  print engineId row := (WalRecord.evt engineId row).text
  round _ engineId row _ := WalLine.ofText_text (.evt engineId row)

theorem textCodec_parse_text (r : WalRecord) : textCodec.parse r.text = r.line :=
  ofText_text r

def marketRow (eventId : ℕ) (market : String) : WalPendingEvent :=
  ⟨eventId, "match.events", ⟨market, 2, 1, 8, 7, 2, 1, 8, 7, .buy, 100, 1, 0⟩⟩

def untidyJournal : List (List Char) :=
  [(WalRecord.evt "engine-1" (marketRow 2 "BTC")).text, "evt".toList,
    (WalRecord.ack 1).text, (WalRecord.evt "engine-1" (marketRow 1 "BTC")).text,
    (WalRecord.evt "engine-1" (marketRow 2 "ETH")).text]

theorem untidyJournal_compacted :
    textCodec.scan "engine-1" untidyJournal = [marketRow 2 "ETH"] ∧
      textCodec.scan "engine-1"
          (textCodec.compact "engine-1" untidyJournal ++ [(WalRecord.ack 2).text]) =
        textCodec.scan "engine-1" (untidyJournal ++ [(WalRecord.ack 2).text]) := by
  have hgarbage : textCodec.parse "evt".toList = .unreadable := by decide +kernel
  refine ⟨?_, (compact_preserves_pending textCodec "engine-1" untidyJournal).2.2.2 _ ?_⟩
  · simp only [LineCodec.scan, untidyJournal, map_cons, map_nil,
      textCodec_parse_text, hgarbage]
    decide +kernel
  · intro line hline row hrow
    obtain rfl := mem_singleton.mp hline
    rw [textCodec_parse_text] at hrow
    cases hrow

inductive SharedLine
  | evt (engineId : String) (row : WalPendingEvent)
  | ack (engineId : String) (eventId : ℕ)
  deriving DecidableEq

namespace SharedLine

def writer : SharedLine → String
  | .evt engineId _ => engineId
  | .ack engineId _ => engineId

def line : SharedLine → WalLine
  | .evt engineId row => .evt engineId row
  | .ack _ eventId => .ack eventId

def own (engineId : String) (journal : List SharedLine) : List SharedLine :=
  journal.filter fun l => decide (l.writer = engineId)

/-- The scan for an engine depends on its own lines only, and compacting the journal for it
leaves the scans of the other engines. -/
structure Isolated (engineId : String) (journal : List SharedLine) : Prop where
  scan_own : scanUnackedForEngine engineId (journal.map line) =
    scanUnackedForEngine engineId ((own engineId journal).map line)
  others_kept : ∀ other ≠ engineId,
    scanUnackedForEngine other
        (compactJournalKeepUnackedOnly engineId (journal.map line)) =
      scanUnackedForEngine other (journal.map line)

variable {engineId : String} {journal : List SharedLine}

theorem evt_mem_map_line {row : WalPendingEvent} :
    WalLine.evt engineId row ∈ journal.map line ↔ .evt engineId row ∈ journal := by
  rw [mem_map]
  constructor
  · rintro ⟨l, hl, heq⟩
    cases l <;> cases heq
    exact hl
  · exact fun h => ⟨_, h, rfl⟩

theorem ack_mem_map_line {id : ℕ} :
    WalLine.ack id ∈ journal.map line ↔ ∃ writer, .ack writer id ∈ journal := by
  rw [mem_map]
  constructor
  · rintro ⟨l, hl, heq⟩
    cases l <;> cases heq
    exact ⟨_, hl⟩
  · rintro ⟨writer, h⟩
    exact ⟨_, h, rfl⟩

theorem ack_mem_map_own {id : ℕ} :
    WalLine.ack id ∈ (own engineId journal).map line ↔ .ack engineId id ∈ journal := by
  rw [ack_mem_map_line]
  constructor
  · rintro ⟨writer, h⟩
    obtain ⟨hmem, hwriter⟩ := mem_filter.mp h
    exact (of_decide_eq_true hwriter : writer = engineId) ▸ hmem
  · exact fun h => ⟨engineId, mem_filter.mpr ⟨h, decide_eq_true rfl⟩⟩

theorem rowsOf_own : rowsOf engineId ((own engineId journal).map line) =
    rowsOf engineId (journal.map line) := by
  rw [rowsOf, rowsOf, filterMap_map, filterMap_map, own,
    filterMap_filter]
  refine filterMap_congr fun l _ => ?_
  cases l with
  | evt id row => by_cases h : id = engineId <;> simp [writer, line, row?, h]
  | ack id eventId => simp [line, row?]

theorem scan_own_iff : scanUnackedForEngine engineId (journal.map line) =
    scanUnackedForEngine engineId ((own engineId journal).map line) ↔
    ∀ row other, .evt engineId row ∈ journal →
    .ack other row.eventId ∈ journal → .ack engineId row.eventId ∈ journal := by
  have hown : ∀ row, row ∈ scanUnackedForEngine engineId ((own engineId journal).map line) ↔
      lastRow? engineId (journal.map line) row.eventId = some row ∧
        .ack engineId row.eventId ∉ journal := by
    intro row
    rw [mem_scanUnackedForEngine, ack_mem_map_own, lastRow?, rowsOf_own]
    rfl
  have hall : ∀ row, row ∈ scanUnackedForEngine engineId (journal.map line) ↔
      lastRow? engineId (journal.map line) row.eventId = some row ∧
        ¬∃ writer, .ack writer row.eventId ∈ journal := by
    intro row
    rw [mem_scanUnackedForEngine, ack_mem_map_line]
  constructor
  · intro hscan row other hrow hack
    by_contra hmine
    obtain ⟨last, hlast⟩ := exists_lastRow? (evt_mem_map_line.mpr hrow)
    have hid := (mem_of_lastRow? hlast).2
    -- the last row of the id is pending for the engine, and hidden by the other
    have hmem : last ∈ scanUnackedForEngine engineId (journal.map line) := by
      rw [hscan, hown, hid]
      exact ⟨hlast, hmine⟩
    exact ((hall last).mp hmem).2 ⟨other, hid.symm ▸ hack⟩
  · intro hacks
    refine eq_of_sorted_of_mem_iff scanUnackedForEngine_sorted
      scanUnackedForEngine_sorted fun row => ?_
    rw [hown, hall]
    refine and_congr_right fun hlast => not_congr ⟨?_, fun h => ⟨engineId, h⟩⟩
    rintro ⟨other, hother⟩
    have hrow := mem_rowsOf.mp (mem_of_lastRow? hlast).1
    exact hacks row other (evt_mem_map_line.mp hrow) hother

theorem scan_eq_nil_iff : scanUnackedForEngine engineId (journal.map line) = [] ↔
    ∀ row, .evt engineId row ∈ journal → ∃ writer, .ack writer row.eventId ∈ journal := by
  rw [eq_nil_iff_forall_not_mem]
  constructor
  · intro hnone row hrow
    by_contra hack
    obtain ⟨last, hlast⟩ := exists_lastRow? (evt_mem_map_line.mpr hrow)
    have hid := (mem_of_lastRow? hlast).2
    refine hnone last (mem_scanUnackedForEngine.mpr ?_)
    rw [hid, ack_mem_map_line]
    exact ⟨hlast, hack⟩
  · intro hacked row hrow
    obtain ⟨hlast, hack⟩ := mem_scanUnackedForEngine.mp hrow
    have hmem := mem_rowsOf.mp (mem_of_lastRow? hlast).1
    exact hack (ack_mem_map_line.mpr (hacked row (evt_mem_map_line.mp hmem)))

theorem scan_compact_of_ne {other : String} (h : other ≠ engineId) (lines : List WalLine) :
    scanUnackedForEngine other
      (compactJournalKeepUnackedOnly engineId lines) = [] := by
  refine eq_nil_iff_forall_not_mem.mpr fun row hrow => ?_
  obtain ⟨hlast, -⟩ := mem_scanUnackedForEngine.mp hrow
  have hmem := mem_rowsOf.mp (mem_of_lastRow? hlast).1
  obtain ⟨r, -, hr⟩ := mem_map.mp hmem
  cases hr
  exact h rfl

/-- Engines that share a journal do not affect an engine's scan, and its compaction does
not affect theirs, exactly if it has acknowledged itself every row of its own whose id
another engine has acknowledged, and every row of another engine is acknowledged. -/
theorem isolated_iff (engineId : String) (journal : List SharedLine) :
    Isolated engineId journal ↔ (∀ row other, .evt engineId row ∈ journal →
    .ack other row.eventId ∈ journal → .ack engineId row.eventId ∈ journal) ∧ ∀ other ≠ engineId,
    ∀ row, .evt other row ∈ journal → ∃ writer, .ack writer row.eventId ∈ journal := by
  constructor
  · rintro ⟨hscan, hkept⟩
    refine ⟨scan_own_iff.mp hscan, fun other hne => scan_eq_nil_iff.mp ?_⟩
    rw [← hkept other hne, scan_compact_of_ne hne]
  · rintro ⟨hacks, hdone⟩
    refine ⟨scan_own_iff.mpr hacks, fun other hne => ?_⟩
    rw [scan_compact_of_ne hne, scan_eq_nil_iff.mpr (hdone other hne)]

/-- Two engines count their events from 1; one of them has acknowledged its event, and
has another one that is pending. -/
def twoEngines : List SharedLine :=
  [.evt "engine-a" (marketRow 1 "BTC"), .evt "engine-b" (marketRow 1 "ETH"),
    .ack "engine-b" 1, .evt "engine-b" (marketRow 2 "ETH")]

/-- The pending event of the first engine is not found, and compacting the journal for the
first engine loses the pending event of the second. -/
theorem twoEngines_interfere :
    scanUnackedForEngine "engine-a" ((own "engine-a" twoEngines).map line) =
        [marketRow 1 "BTC"] ∧
      scanUnackedForEngine "engine-a" (twoEngines.map line) = [] ∧
      scanUnackedForEngine "engine-b" (twoEngines.map line) = [marketRow 2 "ETH"] ∧
      scanUnackedForEngine "engine-b" (compactJournalKeepUnackedOnly "engine-a"
        (twoEngines.map line)) = [] := by
  decide +kernel

def settledEngines : List SharedLine :=
  [.evt "engine-a" (marketRow 1 "BTC"), .evt "engine-b" (marketRow 2 "ETH"),
    .ack "engine-b" 2]

theorem settledEngines_isolated : Isolated "engine-a" settledEngines := by
  refine (isolated_iff "engine-a" settledEngines).mpr ⟨?_, ?_⟩
  · intro row other hrow hack
    simp [settledEngines] at hrow hack
    simp [hrow, marketRow] at hack
  · intro other hne row hrow
    simp only [settledEngines, mem_cons, SharedLine.evt.injEq, reduceCtorEq,
      not_mem_nil, or_false] at hrow
    rcases hrow with ⟨rfl, -⟩ | ⟨-, rfl⟩
    · exact absurd rfl hne
    · exact ⟨"engine-b", by simp [settledEngines, marketRow]⟩

end SharedLine

end MetherCEX
