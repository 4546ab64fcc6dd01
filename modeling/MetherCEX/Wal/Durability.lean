import MetherCEX.Lib.LineLog
import MetherCEX.Lib.Run
import MetherCEX.Wal.LineText

/-!
# The journal as a byte string

The writer appends the bytes of records to the journal and syncs it before an append returns. A
crash keeps what was synced and any beginning of what was written after that.
-/

namespace MetherCEX

open Run LineLog List Option

/-- The unacknowledged rows of a journal file; `none` if a line cannot be read. -/
def scanBytes (engineId : String) (file : List UInt8) : Option (List WalPendingEvent) :=
  ((splitLines 10 file).mapM WalLine.ofBytes?).map (WalLine.scanUnackedForEngine engineId)

/-- How an append ends: it returns `Ok` after the sync, or it fails (or is cut
short by a crash) after the writer accepted `accepted` bytes of it and `reached`
bytes in all have got into the file. -/
inductive WriteOutcome
  | ok
  | err (accepted reached : ℕ)
  deriving DecidableEq

inductive WalAction
  | appendEventsBatch (items : List WalPendingEvent) (out : WriteOutcome)
  | appendAck (eventId : ℕ) (out : WriteOutcome)
  | crash (keep : ℕ)
  | reopen (compact : Bool)
  deriving DecidableEq

/-- The journal: the bytes given to the writer, how many of them are in the file and how many are
synced, and whether the journal is open. -/
structure ByteWal where
  stream : List UInt8
  written : ℕ
  synced : ℕ
  isOpen : Bool
  started : List WalRecord
  returnedOk : List WalRecord

namespace ByteWal

def init : ByteWal := ⟨[], 0, 0, false, [], []⟩

def file (s : ByteWal) : List UInt8 := s.stream.take s.written

def lines (rs : List WalRecord) : List UInt8 := joined WalRecord.bytes 10 rs

def append (s : ByteWal) (rs : List WalRecord) : WriteOutcome → ByteWal
  | .ok =>
    { s with
      stream := s.stream ++ lines rs
      written := (s.stream ++ lines rs).length
      synced := (s.stream ++ lines rs).length
      started := s.started ++ rs
      returnedOk := s.returnedOk ++ rs }
  | .err accepted reached =>
    { s with
      stream := s.stream ++ (lines rs).take accepted
      written := max s.written (min reached (s.stream ++ (lines rs).take accepted).length)
      started := s.started ++ rs }

def crash (s : ByteWal) (keep : ℕ) : ByteWal :=
  let kept := s.stream.take (max s.synced (min keep s.written))
  { s with stream := kept, written := kept.length, synced := kept.length, isOpen := false }

def reopen (engineId : String) (s : ByteWal) (compact : Bool) : ByteWal :=
  if s.isOpen then s
  else if compact then
    match scanBytes engineId s.file with
    | none => s
    | some rows =>
      let stream := lines (rows.map (.evt engineId))
      { s with stream := stream, written := stream.length, synced := stream.length,
               isOpen := true }
  else { s with isOpen := true }

def step (engineId : String) (s : ByteWal) : WalAction → ByteWal
  | .appendEventsBatch items out =>
    if s.isOpen then s.append (items.map (.evt engineId)) out else s
  | .appendAck eventId out => if s.isOpen then s.append [.ack eventId] out else s
  | .crash keep => s.crash keep
  | .reopen compact => s.reopen engineId compact

def run (engineId : String) (acts : List WalAction) : ByteWal := acts.foldl (step engineId) init

def AtLineStart (s : ByteWal) : Prop := s.stream = [] ∨ s.stream.getLast? = some 10
  deriving Decidable

def IsText (s : ByteWal) : Prop :=
  ∀ line ∈ splitLines 10 s.file, (Utf8.decode? line).isSome = true
  deriving Decidable

def eventIds (s : ByteWal) : List ℕ :=
  s.started.filterMap fun
    | .evt _ row => some row.eventId
    | .ack _ => none

def UnusedIds (s : ByteWal) : WalAction → Prop
  | .appendEventsBatch items _ =>
    (items.map WalPendingEvent.eventId).Nodup ∧ ∀ row ∈ items, row.eventId ∉ s.eventIds
  | _ => True

/-- Every append starts a line, the file stays valid UTF-8, and no event is
acknowledged before it is appended. -/
def WholeLines (engineId : String) (s : ByteWal) : WalAction → Prop
  | .appendEventsBatch items out =>
    s.isOpen = true → s.AtLineStart ∧ (∀ row ∈ items, .ack row.eventId ∉ s.started) ∧
      (s.append (items.map (.evt engineId)) out).IsText
  | .appendAck eventId out =>
    s.isOpen = true → s.AtLineStart ∧ (s.append [.ack eventId] out).IsText
  | .crash keep => (s.crash keep).IsText
  | .reopen _ => True

instance (s : ByteWal) (act) : Decidable (s.UnusedIds act) := by
  cases act <;> dsimp only [UnusedIds] <;> infer_instance

instance (engineId : String) (s : ByteWal) (act) : Decidable (s.WholeLines engineId act) := by
  cases act <;> dsimp only [WholeLines] <;> infer_instance

/-- The scan of the file returns, by id, every event whose append returned `Ok`
and for which no ack was started, and none whose ack returned `Ok`. -/
def ScanReturnsUnacked (engineId : String) (s : ByteWal) : Prop :=
  ∃ rows, scanBytes engineId s.file = some rows ∧
    (rows.Pairwise fun a b => a.eventId < b.eventId) ∧
    (∀ row, .evt engineId row ∈ s.returnedOk → .ack row.eventId ∉ s.started → row ∈ rows) ∧
    ∀ row ∈ rows, .ack row.eventId ∉ s.returnedOk

end ByteWal

theorem WalRecord.line_injective : Function.Injective WalRecord.line := by
  intro r r' h
  cases r <;> cases r' <;> cases h <;> rfl

theorem read_records (rs : List WalRecord) :
    (rs.map WalRecord.bytes).mapM WalLine.ofBytes? = some (rs.map WalRecord.line) := by
  induction rs with
  | nil => rfl
  | cons r rs ih => simp [mapM_cons, WalLine.ofBytes?_bytes, ih]

theorem read_torn {tail : List UInt8} {torn : Option WalRecord}
    (htorn : Torn WalRecord.bytes tail torn) (hne : tail ≠ []) (htext : (Utf8.decode? tail).isSome =
    true) : ∃ l, WalLine.ofBytes? tail = some l ∧ (l = .unreadable ∨ ∃ r ∈ torn, r.line = l) := by
  cases torn with
  | none => exact absurd htorn hne
  | some r =>
    by_cases hwhole : tail = r.bytes
    · exact ⟨r.line, by rw [hwhole, WalLine.ofBytes?_bytes], .inr ⟨r, rfl, rfl⟩⟩
    · rcases WalLine.ofBytes?_cut htorn hwhole with hnone | hskip
      · rw [WalLine.ofBytes?, map_eq_none_iff] at hnone
        rw [hnone] at htext
        cases htext
      · exact ⟨.unreadable, hskip, .inl rfl⟩

theorem splitLines_lines (rs : List WalRecord) :
    splitLines 10 (ByteWal.lines rs) = rs.map WalRecord.bytes := by
  have htorn : Torn WalRecord.bytes [] none := rfl
  rw [← append_nil (ByteWal.lines rs), ByteWal.lines,
    splitLines_joined_append WalLine.newline_not_mem_bytes htorn, if_pos rfl, append_nil]

theorem scanBytes_lines (engineId : String) (rs : List WalRecord) : scanBytes engineId
    (ByteWal.lines rs) = some (WalLine.scanUnackedForEngine engineId (rs.map WalRecord.line)) := by
  rw [scanBytes, splitLines_lines, read_records, map_some]

theorem isText_of_lines {s : ByteWal} {rs : List WalRecord} (h : s.file = ByteWal.lines rs) :
    s.IsText := by
  intro line hline
  rw [h, splitLines_lines] at hline
  obtain ⟨r, -, rfl⟩ := mem_map.mp hline
  rw [WalRecord.bytes, Utf8.decode?_encode]
  rfl

/-- The records of the stream, those of them that are synced, and the record of a
torn end, with what is known of them. -/
structure Journaled (engineId : String) (s : ByteWal) (rs durable : List WalRecord)
    (tail : List UInt8) (torn : Option WalRecord) : Prop where
  stream_eq : s.stream = ByteWal.lines rs ++ tail
  torn_end : Torn WalRecord.bytes tail torn
  durable_isPrefix : durable <+: rs
  durable_synced : (ByteWal.lines durable).length ≤ s.synced
  synced_le : s.synced ≤ s.written
  is_text : s.IsText
  rs_started : ∀ r ∈ rs, r ∈ s.started
  torn_started : ∀ r ∈ torn, r ∈ s.started
  ok_started : ∀ r ∈ s.returnedOk, r ∈ s.started
  unique : ∀ row row', .evt engineId row ∈ s.started → .evt engineId row' ∈ s.started →
    row.eventId = row'.eventId → row = row'
  kept : ∀ row, .evt engineId row ∈ s.returnedOk → .ack row.eventId ∉ s.started →
    .evt engineId row ∈ durable
  acked : ∀ id, .ack id ∈ s.returnedOk → .ack id ∈ durable ∨
    ∀ row, .evt engineId row ∈ rs ∨ .evt engineId row ∈ torn → row.eventId ≠ id

namespace Journaled

variable {engineId : String} {s : ByteWal} {rs durable : List WalRecord} {tail : List UInt8}
  {torn : Option WalRecord}

theorem init : Journaled engineId ByteWal.init [] [] [] none := by
  constructor <;>
    simp [ByteWal.init, ByteWal.lines, Torn, ByteWal.IsText, ByteWal.file, splitLines]

variable (h : Journaled engineId s rs durable tail torn)

include h

/-- The lines of the file: every synced record is one of them, and each is a
record of the stream or skipped by the scan. -/
theorem read_file : ∃ ls, (splitLines 10 s.file).mapM WalLine.ofBytes? = some ls ∧ (∀ r ∈ durable,
    r.line ∈ ls) ∧ ∀ l ∈ ls, l = .unreadable ∨ ∃ r, (r ∈ rs ∨ r ∈ torn) ∧ r.line = l := by
  obtain ⟨rs₁, tail₁, torn₁, htake, htorn₁, hrs₁, hmem, hkept⟩ :=
    take_joined 10 rs h.torn_end s.written
  have hfile : s.file = ByteWal.lines rs₁ ++ tail₁ := by
    rw [ByteWal.file, h.stream_eq]
    exact htake
  have hsplit : splitLines 10 s.file =
      rs₁.map WalRecord.bytes ++ if tail₁ = [] then [] else [tail₁] := by
    rw [hfile]
    exact splitLines_joined_append WalLine.newline_not_mem_bytes htorn₁
  have hdurable : ∀ r ∈ durable, r ∈ rs₁ := fun r hr =>
    (hkept durable h.durable_isPrefix (h.durable_synced.trans h.synced_le)).subset hr
  have hwhole := read_records rs₁
  by_cases hnil : tail₁ = []
  · refine ⟨rs₁.map WalRecord.line, by rw [hsplit, if_pos hnil, append_nil, hwhole],
      fun r hr => mem_map_of_mem (hdurable r hr), fun l hl => ?_⟩
    obtain ⟨r, hr, rfl⟩ := mem_map.mp hl
    exact .inr ⟨r, .inl (hrs₁.subset hr), rfl⟩
  · -- the torn end is skipped, unless only its newline is missing
    obtain ⟨l, hl, hline⟩ : ∃ l, WalLine.ofBytes? tail₁ = some l ∧
        (l = .unreadable ∨ ∃ r, (r ∈ rs ∨ r ∈ torn) ∧ r.line = l) := by
      have htext : (Utf8.decode? tail₁).isSome = true := by
        apply h.is_text
        rw [hsplit, if_neg hnil]
        exact mem_append_right _ (mem_singleton_self tail₁)
      obtain ⟨l, hl, hline⟩ := read_torn htorn₁ hnil htext
      refine ⟨l, hl, hline.imp_right ?_⟩
      rintro ⟨r, hr, rfl⟩
      exact ⟨r, hmem r hr, rfl⟩
    refine ⟨rs₁.map WalRecord.line ++ [l], ?_, ?_, ?_⟩
    · rw [hsplit, if_neg hnil, mapM_append, hwhole]
      simp [hl]
    · exact fun r hr => mem_append_left _ (mem_map_of_mem (hdurable r hr))
    · intro l' hl'
      rcases mem_append.mp hl' with hl' | hl'
      · obtain ⟨r, hr, rfl⟩ := mem_map.mp hl'
        exact .inr ⟨r, .inl (hrs₁.subset hr), rfl⟩
      · rw [mem_singleton.mp hl']
        exact hline

theorem scanReturnsUnacked : s.ScanReturnsUnacked engineId := by
  obtain ⟨ls, hread, hdurable, hfrom⟩ := h.read_file
  have hstarted : ∀ r : WalRecord, r.line ∈ ls → r ∈ s.started := by
    intro r hr
    rcases hfrom _ hr with hskip | ⟨r', hr', hline⟩
    · cases r <;> cases hskip
    · obtain rfl := WalRecord.line_injective hline
      exact hr'.elim (h.rs_started r') (h.torn_started r')
  refine ⟨_, by rw [scanBytes, hread, map_some], WalLine.scanUnackedForEngine_sorted, ?_, ?_⟩
  · intro row hok hnoack
    have hline : WalLine.evt engineId row ∈ ls := hdurable _ (h.kept row hok hnoack)
    rw [WalLine.mem_scanUnackedForEngine]
    refine ⟨WalLine.lastRow?_of_unique (WalLine.mem_rowsOf.mpr hline) ?_, ?_⟩
    · intro row' hrow' hid
      have hstart' := hstarted (.evt engineId row') (WalLine.mem_rowsOf.mp hrow')
      exact h.unique row' row hstart' (h.ok_started _ hok) hid
    · exact fun hack => hnoack (hstarted (.ack row.eventId) hack)
  · intro row hrow hack
    obtain ⟨hlast, hnoack⟩ := WalLine.mem_scanUnackedForEngine.mp hrow
    have hline := WalLine.mem_rowsOf.mp (WalLine.mem_of_lastRow? hlast).1
    rcases h.acked row.eventId hack with hdur | hgone
    · exact hnoack (hdurable _ hdur)
    · rcases hfrom _ hline with hskip | ⟨r, hr, hrline⟩
      · cases hskip
      · have hr' : r = .evt engineId row := WalRecord.line_injective hrline
        exact hgone row (hr' ▸ hr) rfl

variable {rows : List WalPendingEvent} {row : WalPendingEvent} {new : List WalRecord}

theorem started_of_scan (hscan : scanBytes engineId s.file = some rows) :
    ∀ row ∈ rows, .evt engineId row ∈ s.started := by
  obtain ⟨ls, hread, -, hfrom⟩ := h.read_file
  rw [scanBytes, hread, map_some, some.injEq] at hscan
  subst hscan
  intro row hrow
  obtain ⟨hlast, -⟩ := WalLine.mem_scanUnackedForEngine.mp hrow
  have hmem := WalLine.mem_rowsOf.mp (WalLine.mem_of_lastRow? hlast).1
  rcases hfrom _ hmem with hskip | ⟨r, hr, hline⟩
  · cases hskip
  · have hr' : r = .evt engineId row := WalRecord.line_injective hline
    exact hr' ▸ hr.elim (h.rs_started r) (h.torn_started r)

theorem tail_eq_nil (hstart : s.AtLineStart) : tail = [] := by
  by_contra hne
  have hlast : s.stream.getLast? = tail.getLast? := by
    rw [h.stream_eq, getLast?_append_of_ne_nil _ hne]
  have hmem : (10 : UInt8) ∈ tail := by
    rcases hstart with hnil | hnl
    · rw [h.stream_eq, append_eq_nil_iff] at hnil
      exact absurd hnil.2 hne
    · exact mem_of_getLast? (hlast ▸ hnl)
  cases torn with
  | none => exact hne h.torn_end
  | some r => exact WalLine.newline_not_mem_bytes r (List.IsPrefix.subset h.torn_end hmem)

/-- The records an append may bring: none of their events was used or
acknowledged before. -/
structure Appendable (engineId : String) (s : ByteWal) (new : List WalRecord) : Prop where
  unused : ∀ row row', .evt engineId row ∈ new → .evt engineId row' ∈ s.started →
    row.eventId ≠ row'.eventId
  unique : ∀ row row', .evt engineId row ∈ new → .evt engineId row' ∈ new →
    row.eventId = row'.eventId → row = row'
  unacked : ∀ row, .evt engineId row ∈ new → .ack row.eventId ∉ s.started

omit h

theorem appendable_events {items : List WalPendingEvent} {out : WriteOutcome}
    (hids : s.UnusedIds (.appendEventsBatch items out)) (hnoack : ∀ row ∈ items,
    .ack row.eventId ∉ s.started) : Appendable engineId s (items.map (.evt engineId)) := by
  have hitem : ∀ {row}, WalRecord.evt engineId row ∈ items.map (.evt engineId) → row ∈ items := by
    intro row hrow
    obtain ⟨row', hrow', hevt⟩ := mem_map.mp hrow
    cases hevt
    exact hrow'
  obtain ⟨hnodup, hunused⟩ := hids
  refine ⟨?_, ?_, fun row hrow => hnoack row (hitem hrow)⟩
  · intro row row' hrow hrow' heq
    exact hunused row (hitem hrow) (heq ▸ mem_filterMap.mpr ⟨_, hrow', rfl⟩)
  · intro row row' hrow hrow' heq
    exact List.inj_on_of_nodup_map hnodup (hitem hrow) (hitem hrow') heq

theorem appendable_ack (eventId : ℕ) : Appendable engineId s [.ack eventId] :=
  ⟨by simp, by simp, by simp⟩

theorem Appendable.unique_started (hnew : Appendable engineId s new) (h : Journaled engineId s rs
    durable tail torn) {row' : WalPendingEvent} (hrow : .evt engineId row ∈ s.started ++ new) (hrow'
    : .evt engineId row' ∈ s.started ++ new) (hid : row.eventId = row'.eventId) : row = row' := by
  rcases mem_append.mp hrow with hold | hadd
  · rcases mem_append.mp hrow' with hold' | hadd'
    · exact h.unique row row' hold hold' hid
    · exact absurd hid.symm (hnew.unused row' row hadd' hold)
  · rcases mem_append.mp hrow' with hold' | hadd'
    · exact absurd hid (hnew.unused row row' hadd hold')
    · exact hnew.unique row row' hadd hadd' hid

theorem Appendable.acked (hnew : Appendable engineId s new)
    (h : Journaled engineId s rs durable tail torn) {id : ℕ} (hid : .ack id ∈ s.returnedOk) : .ack
    id ∈ durable ∨ ∀ row, .evt engineId row ∈ rs ∨ .evt engineId row ∈ new → row.eventId ≠ id := by
  refine (h.acked id hid).imp_right fun hgone row hrow heq => ?_
  rcases hrow with hold | hadd
  · exact hgone row (.inl hold) heq
  · exact hnew.unacked row hadd (heq ▸ h.ok_started _ hid)

variable (h : Journaled engineId s rs durable tail torn)

include h

theorem append_ok (hstart : s.AtLineStart) (hnew : Appendable engineId s new) :
    Journaled engineId (s.append new .ok) (rs ++ new) (rs ++ new) [] none := by
  have hstream : s.stream ++ ByteWal.lines new = ByteWal.lines (rs ++ new) := by
    rw [h.stream_eq, h.tail_eq_nil hstart, append_nil]
    exact joined_append.symm
  have hfile : (s.append new .ok).file = ByteWal.lines (rs ++ new) := by
    simp [ByteWal.file, ByteWal.append, hstream]
  refine
    { stream_eq := by simp [ByteWal.append, hstream]
      torn_end := rfl
      durable_isPrefix := List.prefix_refl _
      durable_synced := by simp [ByteWal.append, hstream]
      synced_le := le_rfl
      is_text := isText_of_lines hfile
      rs_started := ?_
      torn_started := by simp
      ok_started := ?_
      unique := fun row row' hrow hrow' hid => hnew.unique_started h hrow hrow' hid
      kept := ?_
      acked := ?_ }
  · intro r hr
    exact (mem_append.mp hr).elim
      (fun hr => mem_append_left _ (h.rs_started r hr)) (mem_append_right _)
  · intro r hr
    exact (mem_append.mp hr).elim
      (fun hr => mem_append_left _ (h.ok_started r hr)) (mem_append_right _)
  · intro row hrow hnoack
    rcases mem_append.mp hrow with hold | hadd
    · have hnoack' : .ack row.eventId ∉ s.started := fun hmem =>
        hnoack (mem_append_left _ hmem)
      exact mem_append_left _ (h.durable_isPrefix.subset (h.kept row hold hnoack'))
    · exact mem_append_right _ hadd
  · intro id hid
    rcases mem_append.mp hid with hold | hadd
    · refine (hnew.acked h hold).imp (fun hdur => ?_) fun hgone row hrow => ?_
      · exact mem_append_left _ (h.durable_isPrefix.subset hdur)
      · exact hgone row (hrow.elim mem_append.mp (fun hnone => by simp at hnone))
    · exact .inl (mem_append_right _ hadd)

theorem append_err {accepted reached : ℕ} (hstart : s.AtLineStart) (hnew : Appendable
    engineId s new) (htext : (s.append new (.err accepted reached)).IsText) : ∃ rs' tail' torn',
    Journaled engineId (s.append new (.err accepted reached)) rs' durable tail' torn' := by
  have htorn : Torn WalRecord.bytes [] none := rfl
  obtain ⟨new₁, tail₁, torn₁, htake, htorn₁, hnew₁, hmem, -⟩ :=
    take_joined 10 new htorn accepted
  rw [append_nil] at htake
  have hsub : ∀ r, r ∈ new₁ ∨ r ∈ torn₁ → r ∈ new := by
    rintro r (hr | hr)
    · exact hnew₁.subset hr
    · exact (hmem r hr).elim id (fun hnone => by simp at hnone)
  refine ⟨rs ++ new₁, tail₁, torn₁,
    { stream_eq := ?_
      torn_end := htorn₁
      durable_isPrefix := h.durable_isPrefix.trans (List.prefix_append rs new₁)
      durable_synced := h.durable_synced
      synced_le := h.synced_le.trans (le_max_left _ _)
      is_text := htext
      rs_started := ?_
      torn_started := fun r hr => mem_append_right _ (hsub r (.inr hr))
      ok_started := fun r hr => mem_append_left _ (h.ok_started r hr)
      unique := fun row row' hrow hrow' hid => hnew.unique_started h hrow hrow' hid
      kept := ?_
      acked := ?_ }⟩
  · change s.stream ++ (ByteWal.lines new).take accepted = _
    rw [h.stream_eq, h.tail_eq_nil hstart, append_nil, ByteWal.lines, ByteWal.lines,
      ByteWal.lines, htake, joined_append, append_assoc]
  · intro r hr
    exact (mem_append.mp hr).elim
      (fun hr => mem_append_left _ (h.rs_started r hr))
      (fun hr => mem_append_right _ (hsub r (.inl hr)))
  · intro row hrow hnoack
    exact h.kept row hrow fun hmem => hnoack (mem_append_left _ hmem)
  · intro id hid
    refine (hnew.acked h hid).imp_right fun hgone row hrow => ?_
    apply hgone row
    rcases hrow with hrow | hrow
    · exact (mem_append.mp hrow).imp_right fun hadd => hsub _ (.inl hadd)
    · exact .inr (hsub _ (.inr hrow))

theorem crash {keep : ℕ} (htext : (s.crash keep).IsText) :
    ∃ rs' tail' torn', Journaled engineId (s.crash keep) rs' durable tail' torn' := by
  obtain ⟨rs₁, tail₁, torn₁, htake, htorn₁, hrs₁, hmem, hkept⟩ :=
    take_joined 10 rs h.torn_end (max s.synced (min keep s.written))
  have hsub : ∀ r, r ∈ rs₁ ∨ r ∈ torn₁ → r ∈ rs ∨ r ∈ torn := by
    rintro r (hr | hr)
    · exact .inl (hrs₁.subset hr)
    · exact hmem r hr
  have hstream : (s.crash keep).stream = ByteWal.lines rs₁ ++ tail₁ := by
    change s.stream.take _ = _
    rw [h.stream_eq]
    exact htake
  have hdurable : durable <+: rs₁ :=
    hkept durable h.durable_isPrefix (h.durable_synced.trans (le_max_left _ _))
  have hstarted : ∀ r, r ∈ rs₁ ∨ r ∈ torn₁ → r ∈ s.started := fun r hr =>
    (hsub r hr).elim (h.rs_started r) (h.torn_started r)
  refine ⟨rs₁, tail₁, torn₁,
    { stream_eq := hstream
      torn_end := htorn₁
      durable_isPrefix := hdurable
      durable_synced := ?_
      synced_le := le_rfl
      is_text := htext
      rs_started := fun r hr => hstarted r (.inl hr)
      torn_started := fun r hr => hstarted r (.inr hr)
      ok_started := h.ok_started
      unique := h.unique
      kept := h.kept
      acked := fun id hid =>
        (h.acked id hid).imp_right fun hgone row hrow => hgone row (hsub _ hrow) }⟩
  change (ByteWal.lines durable).length ≤ (s.crash keep).stream.length
  obtain ⟨more, rfl⟩ := hdurable
  rw [hstream, ByteWal.lines, ByteWal.lines, joined_append]
  simp only [length_append]
  omega

theorem compacted (hscan : scanBytes engineId s.file = some rows) (hclosed : s.isOpen = false) :
    Journaled engineId (s.reopen engineId true) (rows.map (.evt engineId))
      (rows.map (.evt engineId)) [] none := by
  obtain ⟨rows', hscan', -, hkept, hacked⟩ := h.scanReturnsUnacked
  obtain rfl : rows' = rows := by simpa [hscan] using hscan'.symm
  have hstep : s.reopen engineId true =
      { s with
        stream := ByteWal.lines (rows'.map (.evt engineId))
        written := (ByteWal.lines (rows'.map (.evt engineId))).length
        synced := (ByteWal.lines (rows'.map (.evt engineId))).length
        isOpen := true } := by
    simp [ByteWal.reopen, hclosed, hscan]
  have hstarted : ∀ row ∈ rows', .evt engineId row ∈ s.started := h.started_of_scan hscan
  rw [hstep]
  refine
    { stream_eq := by simp
      torn_end := rfl
      durable_isPrefix := List.prefix_refl _
      durable_synced := le_rfl
      synced_le := le_rfl
      is_text := isText_of_lines take_length
      rs_started := ?_
      torn_started := by simp
      ok_started := h.ok_started
      unique := h.unique
      kept := fun row hrow hnoack => mem_map_of_mem (hkept row hrow hnoack)
      acked := ?_ }
  · intro r hr
    obtain ⟨row, hrow, rfl⟩ := mem_map.mp hr
    exact hstarted row hrow
  · intro id hid
    refine .inr fun row hrow heq => ?_
    rcases hrow with hrow | hnone
    · obtain ⟨row', hrow', hevt⟩ := mem_map.mp hrow
      cases hevt
      exact hacked row hrow' (heq ▸ hid)
    · simp at hnone

theorem reopen (compact : Bool) : ∃ rs' durable' tail' torn',
    Journaled engineId (s.reopen engineId compact) rs' durable' tail' torn' := by
  by_cases hopen : s.isOpen = true
  · refine ⟨rs, durable, tail, torn, ?_⟩
    simpa [ByteWal.reopen, hopen] using h
  have hclosed : s.isOpen = false := by simpa using hopen
  cases compact with
  | false =>
    refine ⟨rs, durable, tail, torn, ?_⟩
    have hstep : s.reopen engineId false = { s with isOpen := true } := by
      simp [ByteWal.reopen, hclosed]
    rw [hstep]
    exact { h with }
  | true =>
    obtain ⟨rows, hscan, -⟩ := h.scanReturnsUnacked
    exact ⟨_, _, _, _, h.compacted hscan hclosed⟩

theorem step (act : WalAction) (hids : s.UnusedIds act) (hlines : s.WholeLines engineId act) : ∃ rs'
    durable' tail' torn', Journaled engineId (s.step engineId act) rs' durable' tail' torn' := by
  have happend : ∀ new out, s.AtLineStart → Appendable engineId s new →
      (s.append new out).IsText → ∃ rs' durable' tail' torn',
        Journaled engineId (s.append new out) rs' durable' tail' torn' := by
    intro new out hstart hnew htext
    cases out with
    | ok => exact ⟨_, _, _, _, h.append_ok hstart hnew⟩
    | err accepted reached =>
      obtain ⟨rs', tail', torn', h'⟩ := h.append_err hstart hnew htext
      exact ⟨rs', durable, tail', torn', h'⟩
  cases act with
  | appendEventsBatch items out =>
    by_cases hopen : s.isOpen = true
    · obtain ⟨hstart, hnoack, htext⟩ := hlines hopen
      simp only [ByteWal.step, hopen, if_true]
      exact happend _ out hstart (appendable_events hids hnoack) htext
    · simp only [ByteWal.step, hopen]
      exact ⟨_, _, _, _, h⟩
  | appendAck eventId out =>
    by_cases hopen : s.isOpen = true
    · obtain ⟨hstart, htext⟩ := hlines hopen
      simp only [ByteWal.step, hopen, if_true]
      exact happend _ out hstart (appendable_ack eventId) htext
    · simp only [ByteWal.step, hopen]
      exact ⟨_, _, _, _, h⟩
  | crash keep =>
    obtain ⟨rs', tail', torn', h'⟩ := h.crash hlines
    exact ⟨rs', durable, tail', torn', h'⟩
  | reopen compact => exact h.reopen compact

end Journaled

/-- In every run in which event ids are not used again, every append starts a
line, the file stays valid UTF-8 and nothing is acknowledged before it is
appended, the scan returns the events that were appended and not acknowledged. -/
theorem scan_returns_unacked (engineId : String) (acts : List WalAction)
    (h : Along (ByteWal.step engineId) (fun s a => s.UnusedIds a ∧ s.WholeLines engineId a)
      ByteWal.init acts) :
    (ByteWal.run engineId acts).ScanReturnsUnacked engineId := by
  have hinv : ∃ rs durable tail torn,
      Journaled engineId (ByteWal.run engineId acts) rs durable tail torn := by
    apply h.invariant (P := fun s => ∃ rs durable tail torn,
      Journaled engineId s rs durable tail torn)
    · exact ⟨_, _, _, _, Journaled.init⟩
    · rintro s act ⟨rs, durable, tail, torn, hs⟩ ⟨hids, hlines⟩
      exact hs.step act hids hlines
  obtain ⟨rs, durable, tail, torn, hrun⟩ := hinv
  exact hrun.scanReturnsUnacked

def sampleRow (eventId : ℕ) (market : String) : WalPendingEvent :=
  ⟨eventId, "match.events", ⟨market, 2, 1, 8, 7, 2, 1, 8, 7, .buy, 100, 1, 0⟩⟩

def compactedRun : List WalAction :=
  [.reopen false, .appendEventsBatch [sampleRow 1 "BTC", sampleRow 2 "BTC"] .ok,
    .appendAck 1 .ok, .appendEventsBatch [sampleRow 3 "BTC"] (.err 40 900), .crash 900,
    .reopen true]

theorem compactedRun_scan_returns_unacked :
    (ByteWal.run "engine-1" compactedRun).ScanReturnsUnacked "engine-1" :=
  scan_returns_unacked "engine-1" compactedRun (by decide +kernel)

/-- A crash tears the first event and the journal is opened without compaction, so
that the second event continues the torn line. -/
def tornRun : List WalAction :=
  [.reopen false, .appendEventsBatch [sampleRow 1 "BTC"] (.err 20 20), .crash 20, .reopen false,
    .appendEventsBatch [sampleRow 2 "BTC"] .ok]

/-- A crash keeps the first event, and of the second only half of the character `é`. -/
def cutCharacterRun : List WalAction :=
  [.reopen false, .appendEventsBatch [sampleRow 1 "BTC"] .ok,
    .appendEventsBatch [sampleRow 2 "é"] (.err 174 900), .crash 900]

/-- Event 1 is acknowledged first, a compaction drops the ack, and then the event is
appended. -/
def earlyAckRun : List WalAction :=
  [.reopen false, .appendAck 1 .ok, .crash 900, .reopen true,
    .appendEventsBatch [sampleRow 1 "BTC"] .ok]

/-- The second event of `tornRun` and the first of `cutCharacterRun` are lost, and the
acknowledged event of `earlyAckRun` is returned. -/
theorem scan_loses_event :
    (∀ acts ∈ [tornRun, cutCharacterRun, earlyAckRun],
      Along (ByteWal.step "engine-1") (fun s a => s.UnusedIds a) ByteWal.init acts) ∧
    ¬ (ByteWal.run "engine-1" tornRun).ScanReturnsUnacked "engine-1" ∧
    ¬ (ByteWal.run "engine-1" cutCharacterRun).ScanReturnsUnacked "engine-1" ∧
    ¬ (ByteWal.run "engine-1" earlyAckRun).ScanReturnsUnacked "engine-1" := by
  have htorn : scanBytes "engine-1" (ByteWal.run "engine-1" tornRun).file = some [] := by
    decide +kernel
  have hcut : scanBytes "engine-1" (ByteWal.run "engine-1" cutCharacterRun).file = none := by
    decide +kernel
  have hack : scanBytes "engine-1" (ByteWal.run "engine-1" earlyAckRun).file =
      some [sampleRow 1 "BTC"] := by
    have hfile : (ByteWal.run "engine-1" earlyAckRun).file =
        ByteWal.lines [.evt "engine-1" (sampleRow 1 "BTC")] := by
      decide +kernel
    rw [hfile, scanBytes_lines]
    decide +kernel
  refine ⟨by decide +kernel, ?_, ?_, ?_⟩
  · rintro ⟨rows, hrows, -, hkept, -⟩
    obtain rfl : [] = rows := some.inj (htorn.symm.trans hrows)
    have hlost := hkept (sampleRow 2 "BTC") (by decide +kernel) (by decide +kernel)
    exact not_mem_nil hlost
  · rintro ⟨rows, hrows, -⟩
    cases hcut.symm.trans hrows
  · rintro ⟨rows, hrows, -, -, hacked⟩
    obtain rfl : [sampleRow 1 "BTC"] = rows := some.inj (hack.symm.trans hrows)
    exact hacked (sampleRow 1 "BTC") (mem_singleton_self _) (by decide +kernel)

end MetherCEX
