import MetherCEX.Lib.Run
import MetherCEX.Spot.EngineCall

/-!
# Cancelled orders and the book

The cancel route cancels an order on the engine only if the row it has read is of a limit or
market order that was stored with an engine.
-/

namespace MetherCEX

open Run List SpotState Table

namespace SpotState

variable {s s' : SpotState}

theorem RowsStep.rows_from (h : RowsStep s s') :
    s.orders.map OrderRow.id ⊆ s'.orders.map OrderRow.id ∧ ∀ r' ∈ s'.orders, (∃ r ∈ s.orders,
    r.id = r'.id ∧ r.matchEngineId = r'.matchEngineId) ∨ r'.id ∉ s.orders.map OrderRow.id := by
  cases h with
  | kept follow _ =>
    refine ⟨follow.ids ▸ List.Subset.refl _, fun r' hr' => ?_⟩
    obtain ⟨r, hr, hfollows⟩ := follow.rows r' hr'
    exact .inl ⟨r, hr, hfollows.id_eq.symm, hfollows.engine_eq.symm⟩
  | stored c id nowMs hnew orders _ =>
    rw [orders, map_append]
    refine ⟨subset_append_left _ _, fun r' hr' => ?_⟩
    rcases mem_concat hr' with hr' | rfl
    · exact .inl ⟨r', hr', rfl, rfl⟩
    · exact .inr hnew
  | opened r nowMs hr pending orders _ =>
    rw [orders]
    rw [map_id_open]
    refine ⟨List.Subset.refl _, fun r' hr' => ?_⟩
    obtain ⟨q, hq, ⟨-, rfl⟩ | ⟨-, rfl⟩⟩ := mem_updateOrder hr'
    · exact .inl ⟨q, hq, rfl, rfl⟩
    · exact .inl ⟨r', hq, rfl, rfl⟩

end SpotState

namespace CallState

/-- The engine may still get the order: it is about to be sent, or the engine has not
decided a call for it. -/
def Underway (s : CallState) (id : OrderId) : Prop :=
  (∃ f ∈ s.spot.forwarded, f.order.id = id) ∨ ∃ c ∈ s.calls, c.progress = .waiting ∧ c.id = id
  deriving Decidable

def Ended (s : CallState) (id : OrderId) : Prop :=
  (∀ f ∈ s.spot.forwarded, f.order.id ≠ id) ∧ ∀ c ∈ s.calls, c.id = id → c.result ≠ none
  deriving Decidable

/-- An order whose cancel was answered with success, and of which nothing is running, is
not in the book, and no event since the answer names it. -/
def CancelledOff (s : CallState) : Prop :=
  ∀ a ∈ s.cancelled, s.Ended a.1 →
    ¬ s.spot.Holds a.1 ∧ ∀ ev ∈ s.spot.produced.drop a.2, ¬ ev.Names a.1

/-- The engine is told of a cancel when it has decided the calls of the order, and the
cancel it is not told of is of an order that it neither has nor may get. -/
def CancelsDecided (s : CallState) : CallAction → Prop
  | .other (.cancelOnEngine i) => ∀ x ∈ s.spot.cancelling[i]?, x.engineDone = false →
      x.row.cancelsOnEngine = true → ¬ s.Underway x.row.id
  | .other (.commitCancel i) => ∀ x ∈ s.spot.cancelling[i]?, x.engineDone = true →
      x.row.cancelsOnEngine = false → ¬ s.Underway x.row.id ∧ ¬ s.spot.Holds x.row.id
  | _ => True

instance (s : CallState) (act) : Decidable (s.CancelsDecided act) := by
  dsimp only [CancelsDecided]
  split <;> infer_instance

def sent (s : CallState) : List Forwarded := s.spot.forwarded ++ s.calls.map Call.forwarded

/-- What is known of the rows, and of what was read or sent of them: only the rows that
are stored without an engine wait for a trigger or are put back to wait for it. -/
structure KnownRows (s : CallState) : Prop where
  nodup : (s.spot.orders.map OrderRow.id).Nodup
  engine_rows : ∀ r ∈ s.spot.orders, r.matchEngineId = .engine → r.status ≠ .pendingTrigger
  sent_stored : ∀ f ∈ s.sent, f.order.id ∈ s.spot.orders.map OrderRow.id
  sent_node : ∀ f ∈ s.sent, f.restore ≠ none → ∀ r ∈ s.spot.orders, r.id = f.order.id →
    r.matchEngineId = .node
  read_stored : ∀ x ∈ s.spot.cancelling, x.row.id ∈ s.spot.orders.map OrderRow.id
  read_engine : ∀ x ∈ s.spot.cancelling, ∀ r ∈ s.spot.orders, r.id = x.row.id →
    r.matchEngineId = x.row.matchEngineId

variable {s s' : CallState}

namespace KnownRows

theorem init : CallState.init.KnownRows := by
  constructor <;> simp [CallState.init, SpotState.init, sent]

variable (h : s.KnownRows)

include h

theorem row_unique {r q : OrderRow} (hr : r ∈ s.spot.orders) (hq : q ∈ s.spot.orders)
    (hid : r.id = q.id) : r = q :=
  List.inj_on_of_nodup_map h.nodup hr hq hid

theorem follow (hnodup : (s'.spot.orders.map OrderRow.id).Nodup)
    (hids : s.spot.orders.map OrderRow.id ⊆ s'.spot.orders.map OrderRow.id)
    (hrows : ∀ r' ∈ s'.spot.orders, (∃ r ∈ s.spot.orders, r.id = r'.id ∧ r.matchEngineId =
    r'.matchEngineId) ∨ r'.id ∉ s.spot.orders.map OrderRow.id) (hengine : ∀ r' ∈ s'.spot.orders,
    r'.matchEngineId = .engine → r'.status ≠ .pendingTrigger) (hsent : ∀ f ∈ s'.sent, f ∈ s.sent ∨
    f.order.id ∈ s'.spot.orders.map OrderRow.id ∧ (f.restore ≠ none → ∀ r' ∈ s'.spot.orders, r'.id =
    f.order.id → r'.matchEngineId = .node)) (hread : ∀ x ∈ s'.spot.cancelling, ∃ y : Cancelling,
    x.row = y.row ∧ (y ∈ s.spot.cancelling ∨ y.row ∈ s.spot.orders)) : s'.KnownRows := by
  -- a row under an id that was stored before comes from the row of that id
  have hold : ∀ r' ∈ s'.spot.orders, r'.id ∈ s.spot.orders.map OrderRow.id →
      ∃ r ∈ s.spot.orders, r.id = r'.id ∧ r.matchEngineId = r'.matchEngineId := by
    intro r' hr' hid
    rcases hrows r' hr' with hr | hnew
    · exact hr
    · exact absurd hid hnew
  refine ⟨hnodup, hengine, ?_, ?_, ?_, ?_⟩
  · intro f hf
    rcases hsent f hf with hf | hf
    · exact hids (h.sent_stored f hf)
    · exact hf.1
  · intro f hf hrestore r' hr' hid
    rcases hsent f hf with hf | hf
    · obtain ⟨r, hr, hrid, hreng⟩ := hold r' hr' (hid ▸ h.sent_stored f hf)
      rw [← hreng]
      exact h.sent_node f hf hrestore r hr (hrid.trans hid)
    · exact hf.2 hrestore r' hr' hid
  · intro x hx
    obtain ⟨y, hxy, hy | hy⟩ := hread x hx
    · rw [hxy]
      exact hids (h.read_stored y hy)
    · rw [hxy]
      exact hids (mem_map_of_mem hy)
  · intro x hx r' hr' hid
    obtain ⟨y, hxy, hy | hy⟩ := hread x hx
    · rw [hxy] at hid ⊢
      obtain ⟨r, hr, hrid, hreng⟩ := hold r' hr' (hid ▸ h.read_stored y hy)
      rw [← hreng]
      exact h.read_engine y hy r hr (hrid.trans hid)
    · rw [hxy] at hid ⊢
      obtain ⟨r, hr, hrid, hreng⟩ := hold r' hr' (hid ▸ mem_map_of_mem hy)
      rw [← hreng, h.row_unique hr hy (hrid.trans hid)]

theorem engine_rows_other {spot : SpotState} (hstep : SpotState.RowsStep s.spot spot) :
    ∀ r' ∈ spot.orders, r'.matchEngineId = .engine → r'.status ≠ .pendingTrigger := by
  cases hstep with
  | kept follow _ =>
    intro r' hr' hengine hpending
    obtain ⟨r, hr, hfollows⟩ := follow.rows r' hr'
    apply h.engine_rows r hr (hfollows.engine_eq.symm.trans hengine)
    exact (hfollows.status (.inr hpending)).symm.trans hpending
  | stored c id nowMs hnew orders _ =>
    rw [orders]
    intro r' hr' hengine hpending
    rcases mem_concat hr' with hr' | rfl
    · exact h.engine_rows r' hr' hengine hpending
    · by_cases hstop : c.kind.isStop = true
      · simp [CheckedOrder.row, hstop] at hengine
      · simp [CheckedOrder.row, hstop] at hpending
  | opened r nowMs hr pending orders _ =>
    rw [orders]
    intro r' hr' hengine hpending
    obtain ⟨q, hq, ⟨-, rfl⟩ | ⟨-, rfl⟩⟩ := mem_updateOrder hr'
    · cases hpending
    · exact h.engine_rows r' hq hengine hpending

theorem nodup_other {spot : SpotState} (hstep : SpotState.RowsStep s.spot spot) :
    (spot.orders.map OrderRow.id).Nodup := by
  cases hstep with
  | kept follow _ => exact follow.ids ▸ h.nodup
  | stored c id nowMs hnew orders _ =>
    rw [orders, map_append, map_singleton, ← concat_eq_append]
    exact h.nodup.concat hnew
  | opened r nowMs hr pending orders _ =>
    rw [orders, map_id_open]
    exact h.nodup

theorem sent_other {spot : SpotState} (hstep : SpotState.RowsStep s.spot spot) :
    ∀ f ∈ spot.forwarded, f ∈ s.spot.forwarded ∨ f.order.id ∈ spot.orders.map OrderRow.id ∧
    (f.restore ≠ none → ∀ r' ∈ spot.orders, r'.id = f.order.id → r'.matchEngineId = .node) := by
  have hrows := hstep.rows_from
  cases hstep with
  | kept _ forwarded =>
    rw [forwarded]
    exact fun f hf => .inl hf
  | stored c id nowMs hnew orders forwarded =>
    rw [forwarded]
    intro f hf
    split_ifs at hf
    · exact .inl hf
    · rcases mem_concat hf with hf | rfl
      · exact .inl hf
      · refine .inr ⟨?_, fun hne => absurd rfl hne⟩
        rw [orders, map_append]
        exact mem_append_right _ (mem_singleton_self _)
  | opened r nowMs hr pending orders forwarded =>
    rcases forwarded with forwarded | forwarded
    · rw [forwarded]
      exact fun f hf => .inl hf
    · rw [forwarded]
      intro f hf
      rcases mem_concat hf with hf | rfl
      · exact .inl hf
      · refine .inr ⟨hrows.1 (mem_map_of_mem hr), fun _ r' hr' hid => ?_⟩
        rcases hrows.2 r' hr' with ⟨q, hq, hqid, hqeng⟩ | hnew
        · obtain rfl := h.row_unique hq hr (hqid.trans hid)
          rw [← hqeng]
          cases hengine : q.matchEngineId with
          | node => rfl
          | engine => exact absurd pending (h.engine_rows q hq hengine)
        · exact absurd (mem_map.mpr ⟨r, hr, hid.symm⟩) hnew

theorem other {act : SpotAction} {spot : SpotState} (hstep : SpotState.OtherStep s.spot act spot)
    (cancelled : List (OrderId × ℕ)) :
    KnownRows { s with spot := spot, cancelled := cancelled } := by
  have hrows := hstep.rows
  apply h.follow (h.nodup_other hrows) hrows.rows_from.1 hrows.rows_from.2
    (h.engine_rows_other hrows)
  · intro f hf
    rcases mem_append.mp hf with hf | hf
    · exact (h.sent_other hrows f hf).imp_left (mem_append_left _)
    · exact .inl (mem_append_right _ hf)
  · intro x hx
    rcases hstep.cancelling x hx with hx | ⟨r, hr, rfl⟩ | ⟨i, r, -, hget, rfl⟩
    · exact ⟨x, rfl, .inl hx⟩
    · exact ⟨⟨r, false⟩, rfl, .inr hr⟩
    · exact ⟨⟨r, false⟩, rfl, .inl (mem_of_getElem? hget)⟩

theorem of_sent (horders : s'.spot.orders = s.spot.orders) (hcancelling : s'.spot.cancelling =
    s.spot.cancelling) (hsent : ∀ f ∈ s'.sent, f ∈ s.sent) : s'.KnownRows := by
  refine ⟨?_, ?_, ?_, ?_, ?_, ?_⟩
  · rw [horders]
    exact h.nodup
  · rw [horders]
    exact h.engine_rows
  · rw [horders]
    exact fun f hf => h.sent_stored f (hsent f hf)
  · rw [horders]
    exact fun f hf => h.sent_node f (hsent f hf)
  · rw [horders, hcancelling]
    exact h.read_stored
  · rw [horders, hcancelling]
    exact h.read_engine

end KnownRows

variable {spot : SpotState} {f : Forwarded} {i : ℕ} {r : OrderRow}

theorem mem_sent_set {k : ℕ} {c c' : Call} (hget : s.calls[k]? = some c)
    (hforwarded : c'.forwarded = c.forwarded) (hspot : spot.forwarded = s.spot.forwarded)
    (hf : f ∈ spot.forwarded ++ (s.calls.set k c').map Call.forwarded) : f ∈ s.sent := by
  rw [hspot] at hf
  rcases mem_append.mp hf with hf | hf
  · exact mem_append_left _ hf
  · apply mem_append_right
    obtain ⟨d, hd, rfl⟩ := mem_map.mp hf
    rcases mem_or_eq_of_mem_set hd with hd | rfl
    · exact mem_map_of_mem hd
    · rw [hforwarded]
      exact mem_map_of_mem (mem_of_getElem? hget)

theorem mem_sent_send (hget : s.spot.forwarded[i]? = some f) {g : Forwarded}
    (hg : g ∈ s.spot.forwarded.eraseIdx i ++
      (s.calls ++ ([⟨f, .waiting, none, []⟩] : List Call)).map Call.forwarded) : g ∈ s.sent := by
  rw [map_append] at hg
  rcases mem_append.mp hg with hg | hg
  · exact mem_append_left _ (List.eraseIdx_subset hg)
  · rcases mem_concat hg with hg | rfl
    · exact mem_append_right _ hg
    · exact mem_append_left _ (mem_of_getElem? hget)

namespace KnownRows

theorem fail (h : s.KnownRows) {k : ℕ} {c c' : Call} (hget : s.calls[k]? = some c)
    (hforwarded : c'.forwarded = c.forwarded) :
    KnownRows { s with spot := s.spot.engineFailed c.forwarded, calls := s.calls.set k c' } := by
  have hsent : c.forwarded ∈ s.sent :=
    mem_append_right _ (mem_map_of_mem (mem_of_getElem? hget))
  apply h.follow
  · change ((s.spot.engineFailed c.forwarded).orders.map OrderRow.id).Nodup
    rw [ids_engineFailed]
    exact h.nodup
  · change _ ⊆ (s.spot.engineFailed c.forwarded).orders.map OrderRow.id
    rw [ids_engineFailed]
    exact List.Subset.refl _
  · intro r' hr'
    obtain ⟨r, hr, hfollows | ⟨-, -, -, hid, hengine⟩⟩ := mem_engineFailed hr'
    · exact .inl ⟨r, hr, hfollows.id_eq.symm, hfollows.engine_eq.symm⟩
    · exact .inl ⟨r, hr, hid.symm, hengine.symm⟩
  · intro r' hr' hengine hpending
    obtain ⟨r, hr, hfollows | ⟨hrestore, hrid, -, hid, hreng⟩⟩ := mem_engineFailed hr'
    · apply h.engine_rows r hr (hfollows.engine_eq.symm.trans hengine)
      exact (hfollows.status (.inr hpending)).symm.trans hpending
    · have hnode := h.sent_node c.forwarded hsent hrestore r hr hrid
      rw [← hreng, hengine] at hnode
      cases hnode
  · intro f hf
    exact .inl (mem_sent_set hget hforwarded (forwarded_engineFailed _ _) hf)
  · intro x hx
    have hx : x ∈ (s.spot.engineFailed c.forwarded).cancelling := hx
    rw [cancelling_engineFailed] at hx
    exact ⟨x, rfl, .inl hx⟩

theorem step {cfg : RouteConfig} {markets : Market → Option SpotMarket} {act : CallAction}
    (h : s.KnownRows) (hstep : CallStep cfg markets s act s') : s'.KnownRows := by
  cases hstep with
  | same => exact h
  | other act hcall => exact h.other (s.spot.otherStep cfg markets hcall) _
  | sent i f hget => exact h.of_sent rfl rfl fun g hg => mem_sent_send hget hg
  | committed k clock c c' hget _ hforwarded _ _ | moved _ k c c' hget hforwarded _ _ _ =>
    exact h.of_sent rfl rfl fun f hf =>
      mem_sent_set hget hforwarded (rfl : s.spot.forwarded = _) hf
  | failed k c c' hget _ hforwarded _ _ _ => exact h.fail hget hforwarded

end KnownRows

/-- The engine does not have the order and will not get it: its row does not wait for a
trigger, and is not put back to wait for it. -/
structure Off (s : CallState) (id : OrderId) : Prop where
  not_underway : ¬ s.Underway id
  not_held : ¬ s.spot.Holds id
  stored : id ∈ s.spot.orders.map OrderRow.id
  closed : ∀ r ∈ s.spot.orders, r.id = id →
    r.status ≠ .pendingTrigger ∧ (r.status = .open → r.matchEngineId = .engine)

namespace Off

variable {id : OrderId}

theorem closed_of_follows (h : s.Off id) {r r' : OrderRow} (hr : r ∈ s.spot.orders)
    (hfollows : r'.Follows r) (hid : r'.id = id) :
    r'.status ≠ .pendingTrigger ∧ (r'.status = .open → r'.matchEngineId = .engine) := by
  obtain ⟨hpending, hopen⟩ := h.closed r hr (hfollows.id_eq.symm.trans hid)
  constructor
  · intro hstatus
    exact hpending ((hfollows.status (.inr hstatus)).symm.trans hstatus)
  · intro hstatus
    rw [hfollows.engine_eq]
    exact hopen ((hfollows.status (.inl hstatus)).symm.trans hstatus)

variable {spot : SpotState} {k : ℕ} {c' c : Call}

variable (h : s.Off id)

include h

variable {f : Forwarded} {cancelled : List (OrderId × ℕ)} {act : CallAction}
  {markets : Market → Option SpotMarket} {cfg : RouteConfig}

theorem underway_forward {calls : List Call} (hcalls : calls = s.calls) (hspot : spot.forwarded =
    s.spot.forwarded ++ [f]) (hne : f.order.id ≠ id) : ¬ Underway ⟨spot, calls, cancelled⟩ id := by
  subst hcalls
  rintro (⟨g, hg, hid⟩ | hc)
  · rw [hspot] at hg
    rcases mem_concat hg with hg | rfl
    · exact h.not_underway (.inl ⟨g, hg, hid⟩)
    · exact hne hid
  · exact h.not_underway (.inr hc)

theorem underway_same (hspot : spot.forwarded = s.spot.forwarded) :
    ¬ Underway ⟨spot, s.calls, cancelled⟩ id := by
  rintro (⟨g, hg, hid⟩ | hc)
  · rw [hspot] at hg
    exact h.not_underway (.inl ⟨g, hg, hid⟩)
  · exact h.not_underway (.inr hc)

theorem otherStep {act : SpotAction} (hstep : SpotState.OtherStep s.spot act spot)
    (cancelled : List (OrderId × ℕ)) : Off ⟨spot, s.calls, cancelled⟩ id := by
  have hheld : ¬ spot.Holds id := by
    rintro ⟨x, hx, hid⟩
    exact h.not_held ⟨x, hstep.resting x hx, hid⟩
  have hstored := hstep.rows.rows_from.1 h.stored
  cases hstep.rows with
  | kept follow forwarded =>
    refine ⟨h.underway_same forwarded, hheld, hstored, fun r' hr' hid => ?_⟩
    obtain ⟨r, hr, hfollows⟩ := follow.rows r' hr'
    exact h.closed_of_follows hr hfollows hid
  | stored c z nowMs hnew orders forwarded =>
    have hne : z ≠ id := by
      rintro rfl
      exact hnew h.stored
    refine ⟨?_, hheld, hstored, ?_⟩
    · split_ifs at forwarded
      · exact h.underway_same forwarded
      · exact h.underway_forward rfl forwarded hne
    · change ∀ r ∈ spot.orders, _
      rw [orders]
      intro r hr hid
      rcases mem_concat hr with hr | rfl
      · exact h.closed r hr hid
      · exact absurd hid hne
  | opened r nowMs hr pending orders forwarded =>
    have hne : r.id ≠ id := fun hid => (h.closed r hr hid).1 pending
    refine ⟨?_, hheld, hstored, ?_⟩
    · rcases forwarded with forwarded | forwarded
      · exact h.underway_same forwarded
      · exact h.underway_forward rfl forwarded hne
    · change ∀ r ∈ spot.orders, _
      rw [orders]
      intro r' hr' hid
      obtain ⟨q, hq, ⟨hqid, rfl⟩ | ⟨-, rfl⟩⟩ := mem_updateOrder hr'
      · exact absurd (hqid.symm.trans hid) hne
      · exact h.closed r' hq hid

theorem send {i : ℕ} (hget : s.spot.forwarded[i]? = some f) :
    Off { s with
      spot := { s.spot with forwarded := s.spot.forwarded.eraseIdx i }
      calls := s.calls ++ [⟨f, .waiting, none, []⟩] } id := by
  refine ⟨?_, h.not_held, h.stored, h.closed⟩
  rintro (⟨g, hg, hid⟩ | ⟨c, hc, hwaiting, hid⟩)
  · exact h.not_underway (.inl ⟨g, List.eraseIdx_subset hg, hid⟩)
  · rcases mem_concat hc with hc | rfl
    · exact h.not_underway (.inr ⟨c, hc, hwaiting, hid⟩)
    · exact h.not_underway (.inl ⟨f, mem_of_getElem? hget, hid⟩)

theorem set (hget : s.calls[k]? = some c) (hforwarded : c'.forwarded = c.forwarded)
    (hwaiting : c'.progress = .waiting → c.progress = .waiting)
    (hspot : spot.forwarded = s.spot.forwarded) (hheld : ¬ spot.Holds id)
    (hids : spot.orders.map OrderRow.id = s.spot.orders.map OrderRow.id)
    (hclosed : ∀ r ∈ spot.orders, r.id = id →
      r.status ≠ .pendingTrigger ∧ (r.status = .open → r.matchEngineId = .engine)) :
    Off { s with spot := spot, calls := s.calls.set k c' } id := by
  refine ⟨?_, hheld, ?_, hclosed⟩
  · rintro (⟨g, hg, hgid⟩ | ⟨d, hd, hdw, hdid⟩)
    · have hg : g ∈ s.spot.forwarded := hspot ▸ hg
      exact h.not_underway (.inl ⟨g, hg, hgid⟩)
    · rcases mem_or_eq_of_mem_set hd with hd | rfl
      · exact h.not_underway (.inr ⟨d, hd, hdw, hdid⟩)
      · refine h.not_underway (.inr ⟨c, mem_of_getElem? hget, hwaiting hdw, ?_⟩)
        rw [Call.id, ← hforwarded]
        exact hdid
  · change id ∈ spot.orders.map OrderRow.id
    rw [hids]
    exact h.stored

theorem ne_of_waiting (hget : s.calls[k]? = some c) (hwaiting : c.progress = .waiting) :
    c.id ≠ id :=
  fun hid => h.not_underway (.inr ⟨c, mem_of_getElem? hget, hwaiting, hid⟩)

theorem committed (hget : s.calls[k]? = some c) (hwaiting : c.progress = .waiting)
    (hforwarded : c'.forwarded = c.forwarded) (clock : ℕ → ℕ) :
    Off { s with
      spot := s.spot.placeOnEngine clock c.forwarded.order
      calls := s.calls.set k c' } id := by
  refine h.set hget hforwarded (fun _ => hwaiting) rfl ?_ rfl h.closed
  rintro ⟨x, hx, hid⟩
  obtain ⟨y, rfl | hy, hxy⟩ := Engine.exists_of_mem_orders_placeOrder hx
  · exact h.ne_of_waiting hget hwaiting (hxy.id_eq.symm.trans hid)
  · exact h.not_held ⟨y, hy, hxy.id_eq.symm.trans hid⟩

theorem failed (hs : s.KnownRows) (hget : s.calls[k]? = some c)
    (hforwarded : c'.forwarded = c.forwarded) (hprogress : c'.progress = c.progress) :
    Off { s with
      spot := s.spot.engineFailed c.forwarded
      calls := s.calls.set k c' } id := by
  have hsent : c.forwarded ∈ s.sent :=
    mem_append_right _ (mem_map_of_mem (mem_of_getElem? hget))
  refine h.set hget hforwarded (fun hwaiting => hprogress ▸ hwaiting)
    (forwarded_engineFailed _ _) ?_ (ids_engineFailed _ _) fun r' hr' hid => ?_
  · rintro ⟨x, hx, hid⟩
    rw [engine_engineFailed] at hx
    exact h.not_held ⟨x, hx, hid⟩
  · obtain ⟨r, hr, hfollows | ⟨hrestore, hrid, hopen, hid', -⟩⟩ := mem_engineFailed hr'
    · exact h.closed_of_follows hr hfollows hid
    · -- an open row that is off the book was stored with an engine, so it is not put back
      have hengine := (h.closed r hr (hid'.symm.trans hid)).2 hopen
      rw [hs.sent_node c.forwarded hsent hrestore r hr hrid] at hengine
      cases hengine

theorem step (hs : s.KnownRows) (hstep : CallStep cfg markets s act s') : s'.Off id := by
  cases hstep with
  | same => exact h
  | other act hcall => exact h.otherStep (s.spot.otherStep cfg markets hcall) _
  | sent i f hget => exact h.send hget
  | committed k clock c c' hget hwaiting hforwarded _ _ =>
    exact h.committed hget hwaiting hforwarded clock
  | moved _ k c c' hget hforwarded _ hprogress _ =>
    refine h.set hget hforwarded (fun hwaiting => ?_) rfl h.not_held rfl h.closed
    rcases hprogress with heq | ⟨hc, -⟩
    · exact heq ▸ hwaiting
    · exact hc
  | failed k c c' hget _ hforwarded _ hprogress _ => exact h.failed hs hget hforwarded hprogress

theorem produced_step (hstep : CallStep cfg markets s act s') :
    ∃ es, s'.spot.produced = s.spot.produced ++ es ∧ ∀ ev ∈ es, ¬ ev.Names id := by
  have hsame : ∀ spot : SpotState, spot.produced = s.spot.produced →
      ∃ es, spot.produced = s.spot.produced ++ es ∧ ∀ ev ∈ es, ¬ ev.Names id := by
    intro spot heq
    exact ⟨[], by rw [heq, append_nil], forall_mem_nil _⟩
  cases hstep with
  | same => exact hsame _ rfl
  | other act hcall => exact hsame _ (s.spot.otherStep cfg markets hcall).produced
  | sent i f hget => exact hsame _ rfl
  | committed k clock c c' hget hwaiting _ _ _ =>
    refine ⟨_, rfl, fun ev hev hnames => ?_⟩
    rcases Engine.names_of_mem_placeOrder hev hnames with rfl | ⟨y, hy, rfl⟩
    · exact h.ne_of_waiting hget hwaiting rfl
    · exact h.not_held ⟨y, hy, rfl⟩
  | moved => exact hsame _ rfl
  | failed k c => exact hsame _ (produced_engineFailed _ _)

end Off

theorem off_of_cancelOnEngine (hs : s.KnownRows) (hget : s.spot.cancelling[i]? = some ⟨r, false⟩)
    (hcancels : r.cancelsOnEngine = true) (hdecided : ¬ s.Underway r.id)
    (cancelled : List (OrderId × ℕ)) : Off ⟨s.spot.cancelOnEngine i, s.calls, cancelled⟩ r.id := by
  have hx := mem_of_getElem? hget
  have hengine : r.matchEngineId = .engine := by
    simp only [OrderRow.cancelsOnEngine, Bool.and_eq_true, beq_iff_eq] at hcancels
    exact hcancels.2
  rw [cancelOnEngine, hget]
  simp only [hcancels, if_true]
  refine ⟨hdecided, ?_, hs.read_stored _ hx, fun q hq hid => ?_⟩
  · rintro ⟨x, hx, hid⟩
    rw [Engine.orders_cancelOrder] at hx
    have hne := (mem_filter.mp hx).2
    simp [hid] at hne
  · have hq_engine : q.matchEngineId = .engine := (hs.read_engine _ hx q hq hid).trans hengine
    exact ⟨hs.engine_rows q hq hq_engine, fun _ => hq_engine⟩

theorem off_of_commitCancel (hs : s.KnownRows) (hget : s.spot.cancelling[i]? = some ⟨r, true⟩)
    (hunderway : ¬ s.Underway r.id) (hheld : ¬ s.spot.Holds r.id) (cancelled : List (OrderId × ℕ)) :
    Off ⟨s.spot.commitCancel i, s.calls, cancelled⟩ r.id := by
  have hids : (s.spot.commitCancel i).orders.map OrderRow.id = s.spot.orders.map OrderRow.id := by
    rw [commitCancel, hget]
    exact map_id_updateOrder fun _ => rfl
  have hstored := hids ▸ hs.read_stored _ (mem_of_getElem? hget)
  rw [commitCancel, hget] at hstored ⊢
  refine ⟨hunderway, hheld, hstored, fun q hq hid => ?_⟩
  obtain ⟨q', -, ⟨-, rfl⟩ | ⟨hne, rfl⟩⟩ := mem_updateOrder hq
  · simp
  · exact absurd hid hne

theorem mem_successAnswers {act : SpotAction} {a : OrderId × ℕ} (h : a ∈ spot.successAnswers act) :
    ∃ i r, act = .commitCancel i ∧
      spot.cancelling[i]? = some ⟨r, true⟩ ∧ a = (r.id, spot.produced.length) := by
  unfold successAnswers at h
  split at h
  case h_1 i =>
    split at h
    case h_1 r hget => exact ⟨i, r, rfl, hget, mem_singleton.mp h⟩
    case h_2 => exact nomatch h
  case h_2 => exact nomatch h

/-- The orders are off the book whose cancel the engine was told of or that was answered
with success. -/
structure OffBook (s : CallState) : Prop where
  known : s.KnownRows
  told : ∀ x ∈ s.spot.cancelling, x.engineDone = true → x.row.cancelsOnEngine = true →
    s.Off x.row.id
  answered : ∀ a ∈ s.cancelled, s.Off a.1 ∧ a.2 ≤ s.spot.produced.length ∧
    ∀ ev ∈ s.spot.produced.drop a.2, ¬ ev.Names a.1

namespace OffBook

variable {cfg : RouteConfig} {markets : Market → Option SpotMarket} {act : CallAction}

theorem init : CallState.init.OffBook := by
  refine ⟨KnownRows.init, ?_, ?_⟩ <;> simp [CallState.init, SpotState.init]

theorem carry (h : s.OffBook) (hstep : CallStep cfg markets s act s')
    (htold : ∀ x ∈ s'.spot.cancelling, x.engineDone = true → x.row.cancelsOnEngine = true →
    x ∈ s.spot.cancelling ∨ s'.Off x.row.id) (hanswered : ∀ a ∈ s'.cancelled, a ∈ s.cancelled ∨
    s'.Off a.1 ∧ a.2 = s'.spot.produced.length) : s'.OffBook := by
  refine ⟨h.known.step hstep, ?_, ?_⟩
  · intro x hx hdone hcancels
    rcases htold x hx hdone hcancels with hx | hoff
    · exact (h.told x hx hdone hcancels).step h.known hstep
    · exact hoff
  · intro a ha
    rcases hanswered a ha with ha | ⟨hoff, hlength⟩
    · obtain ⟨hoff, hle, hnames⟩ := h.answered a ha
      obtain ⟨es, hproduced, hes⟩ := hoff.produced_step hstep
      refine ⟨hoff.step h.known hstep, ?_, ?_⟩
      · rw [hproduced, length_append]
        exact hle.trans (Nat.le_add_right _ _)
      · rw [hproduced, drop_append_of_le_length hle]
        intro ev hev
        rcases mem_append.mp hev with hev | hev
        · exact hnames ev hev
        · exact hes ev hev
    · refine ⟨hoff, hlength.le, ?_⟩
      rw [hlength, drop_length]
      exact forall_mem_nil _

theorem other (h : s.OffBook) {act : SpotAction} (hcall : act.isCall = false)
    (hact : s.CancelsDecided (.other act)) :
    OffBook { s with
      spot := s.spot.step cfg markets act
      cancelled := s.cancelled ++ s.spot.successAnswers act } := by
  have hother := s.spot.otherStep cfg markets hcall
  have hstep : CallStep cfg markets s (.other act)
      { s with
        spot := s.spot.step cfg markets act
        cancelled := s.cancelled ++ s.spot.successAnswers act } := .other act hcall
  apply h.carry hstep
  · intro x hx hdone hcancels
    rcases hother.cancelling x hx with hx | ⟨r, -, rfl⟩ | ⟨i, r, rfl, hget, rfl⟩
    · exact .inl hx
    · cases hdone
    · exact .inr (off_of_cancelOnEngine h.known hget hcancels (hact _ hget rfl hcancels) _)
  · intro a ha
    rcases mem_append.mp ha with ha | ha
    · exact .inl ha
    · obtain ⟨i, r, rfl, hget, rfl⟩ := mem_successAnswers ha
      refine .inr ⟨?_, congrArg List.length hother.produced.symm⟩
      by_cases hcancels : r.cancelsOnEngine = true
      · exact (h.told _ (mem_of_getElem? hget) rfl hcancels).step h.known hstep
      · obtain ⟨hunderway, hheld⟩ := hact _ hget rfl (Bool.eq_false_of_not_eq_true hcancels)
        exact off_of_commitCancel h.known hget hunderway hheld _

theorem step (h : s.OffBook) (hstep : CallStep cfg markets s act s')
    (hact : s.CancelsDecided act) : s'.OffBook := by
  have hsame : s'.spot.cancelling = s.spot.cancelling → s'.cancelled = s.cancelled →
      s'.OffBook := by
    intro hcancelling hcancelled
    apply h.carry hstep
    · rw [hcancelling]
      exact fun x hx _ _ => .inl hx
    · rw [hcancelled]
      exact fun a ha => .inl ha
  cases hstep with
  | same => exact h
  | other act hcall => exact h.other hcall hact
  | sent | committed | moved => exact hsame rfl rfl
  | failed => exact hsame (cancelling_engineFailed _ _) rfl

end OffBook

def cancelNow (userId : UserId) (id : OrderId) : List CallAction :=
  [.other (.readCancel userId id), .other (.cancelOnEngine 0), .other (.commitCancel 0)]

def stopBody (price stopPrice : ℚ) : PlaceBody :=
  { sampleBody "buy" "stop_limit" "gtc" (.finite price) 1 false with
    stopPrice := .finite stopPrice }

def cancelRun : List CallAction :=
  sendNow 7 (sampleBody "sell" "limit" "gtc" (.finite 100) 1 false) 1 1000 ++
    [.engineCommits 0 fun _ => 1000, .answer 0] ++ cancelNow 7 1 ++
    [.other (.check 8 (stopBody 100 99)), .other (.commit 0 2 2000)] ++ cancelNow 8 2 ++
    sendNow 9 (sampleBody "buy" "limit" "gtc" (.finite 100) 1 false) 3 3000 ++
    [.engineCommits 1 fun _ => 3000, .answer 1]

def cancelTriggeredRun : List CallAction :=
  [.other (.check 8 (stopBody 100 99)), .other (.commit 0 1 1000),
    .other (.trigger 1 99 2000), .send 0, .engineCommits 0 fun _ => 2000, .answer 0] ++
    cancelNow 8 1 ++
    sendNow 7 (sampleBody "sell" "limit" "gtc" (.finite 100) 1 false) 2 3000 ++
    [.engineCommits 1 fun _ => 3000, .answer 1]

def cancelUnsentRun : List CallAction :=
  [.other (.check 7 (sampleBody "sell" "limit" "gtc" (.finite 100) 1 false)),
    .other (.commit 0 1 1000)] ++ cancelNow 7 1 ++
    [.send 0, .engineCommits 0 fun _ => 1000, .answer 0]

end CallState

end MetherCEX
