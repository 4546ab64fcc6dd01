import MetherCEX.Lib.Run
import MetherCEX.Lib.Table
import MetherCEX.Spot.EngineCall

/-!
# Orders whose engine call has failed

When a call of the engine fails, the order route cancels the order and returns its lock, and the
stop service puts the order back to wait for its trigger.
-/

namespace MetherCEX

open Run Table Call

/-- Every call comes from the call of the same number, with the same order; a failed call
stays failed. -/
def CallsFollow (calls calls' : List Call) : Prop :=
  ∀ (j : ℕ) (d : Call), calls'[j]? = some d →
    ∃ c, calls[j]? = some c ∧ c.id = d.id ∧ (d.failed = false → c.failed = false)

theorem CallsFollow.refl (calls : List Call) : CallsFollow calls calls :=
  fun _ d hd => ⟨d, hd, rfl, fun h => h⟩

theorem CallsFollow.set {calls : List Call} {k : ℕ} {c c' : Call} (hget : calls[k]? = some c)
    (hid : c'.id = c.id) (hfailed : c'.failed = false → c.failed = false) :
    CallsFollow calls (calls.set k c') := by
  intro j d hd
  rcases getElem?_set_cases hd with ⟨rfl, rfl⟩ | ⟨-, hd⟩
  · exact ⟨c, hget, hid.symm, hfailed⟩
  · exact ⟨d, hd, rfl, fun h => h⟩

def Live (forwarded : List Forwarded) (calls : List Call) (id : OrderId) : Prop :=
  (∃ f ∈ forwarded, f.order.id = id) ∨ ∃ c ∈ calls, c.failed = false ∧ c.id = id

/-- An order has one live call at a time, and does not wait for a trigger while it has
one. -/
structure LiveCalls (orders : List OrderRow) (forwarded : List Forwarded)
    (calls : List Call) : Prop where
  forwarded_nodup : (forwarded.map fun f => f.order.id).Nodup
  forwarded_alone : ∀ f ∈ forwarded, ∀ c ∈ calls, c.failed = false → c.id ≠ f.order.id
  last_live : ∀ (j k : ℕ) (c d : Call), calls[j]? = some c → calls[k]? = some d → d.failed = false →
    c.id = d.id → j ≤ k
  live_stored : ∀ id, Live forwarded calls id → id ∈ orders.map OrderRow.id
  live_open : ∀ r ∈ orders, Live forwarded calls r.id → r.status ≠ .pendingTrigger

namespace LiveCalls

variable {orders orders' : List OrderRow} {forwarded : List Forwarded} {calls calls' : List Call}

variable {c c' : Call} {k : ℕ} {f : Forwarded} {s : SpotState}

theorem live_unique (h : LiveCalls orders forwarded calls) {j : ℕ} {d : Call}
    (hc : calls[j]? = some c) (hd : calls[k]? = some d) (hcl : c.failed = false)
    (hdl : d.failed = false) (hid : c.id = d.id) : c = d := by
  have hjk := le_antisymm (h.last_live j k c d hc hd hdl hid)
    (h.last_live k j d c hd hc hcl hid.symm)
  rw [hjk, hd] at hc
  exact (Option.some.inj hc).symm

theorem live_of_callsFollow (hcalls : CallsFollow calls calls') {id : OrderId}
    (hlive : Live forwarded calls' id) : Live forwarded calls id := by
  rcases hlive with hf | ⟨d, hd, hdl, hid⟩
  · exact .inl hf
  · obtain ⟨j, hj⟩ := List.getElem?_of_mem hd
    obtain ⟨c, hc, hcid, hcl⟩ := hcalls j d hj
    exact .inr ⟨c, List.mem_of_getElem? hc, hcl hdl, hcid.trans hid⟩

variable (h : LiveCalls orders forwarded calls)

include h

theorem follow
    (hcalls : CallsFollow calls calls') (hids : orders'.map OrderRow.id = orders.map OrderRow.id)
    (hopen : ∀ r' ∈ orders', Live forwarded calls' r'.id → r'.status = .pendingTrigger → ∃ r ∈
    orders, r.id = r'.id ∧ r.status = .pendingTrigger) : LiveCalls orders' forwarded calls' := by
  refine ⟨h.forwarded_nodup, ?_, ?_, ?_, ?_⟩
  · intro f hf d hd hdl
    obtain ⟨j, hj⟩ := List.getElem?_of_mem hd
    obtain ⟨c, hc, hcid, hcl⟩ := hcalls j d hj
    rw [← hcid]
    exact h.forwarded_alone f hf c (List.mem_of_getElem? hc) (hcl hdl)
  · intro j k c' d' hc' hd' hdl hid
    obtain ⟨c, hc, hcid, -⟩ := hcalls j c' hc'
    obtain ⟨d, hd, hdid, hdl'⟩ := hcalls k d' hd'
    exact h.last_live j k c d hc hd (hdl' hdl) (hcid.trans (hid.trans hdid.symm))
  · intro id hlive
    rw [hids]
    exact h.live_stored id (live_of_callsFollow hcalls hlive)
  · intro r' hr' hlive hpending
    obtain ⟨r, hr, hid, hstatus⟩ := hopen r' hr' hlive hpending
    exact h.live_open r hr (hid ▸ live_of_callsFollow hcalls hlive) hstatus

theorem set (hget : calls[k]? = some c) (hid : c'.id = c.id) (hfailed : c'.failed = false →
    c.failed = false) : LiveCalls orders forwarded (calls.set k c') :=
  h.follow (.set hget hid hfailed) rfl fun r hr _ hpending => ⟨r, hr, rfl, hpending⟩

theorem send {i : ℕ} (hget : forwarded[i]? = some f) :
    LiveCalls orders (forwarded.eraseIdx i) (calls ++ [⟨f, .waiting, none, []⟩]) := by
  have hf : f ∈ forwarded := List.mem_of_getElem? hget
  have hlive : ∀ id, Live (forwarded.eraseIdx i) (calls ++ [⟨f, .waiting, none, []⟩]) id →
      Live forwarded calls id := by
    rintro id (⟨g, hg, hid⟩ | ⟨c, hc, hcl, hid⟩)
    · exact .inl ⟨g, List.eraseIdx_subset hg, hid⟩
    · rcases mem_concat hc with hc | rfl
      · exact .inr ⟨c, hc, hcl, hid⟩
      · exact .inl ⟨f, hf, hid⟩
  refine ⟨?_, ?_, ?_, ?_, ?_⟩
  · exact h.forwarded_nodup.sublist ((List.eraseIdx_sublist _ i).map _)
  · intro g hg c hc hcl
    rcases mem_concat hc with hc | rfl
    · exact h.forwarded_alone g (List.eraseIdx_subset hg) c hc hcl
    · have hperm := (cons_eraseIdx_perm hget).map fun f : Forwarded => f.order.id
      have hnot := (List.nodup_cons.mp (hperm.nodup_iff.mpr h.forwarded_nodup)).1
      exact fun heq => hnot (List.mem_map.mpr ⟨g, hg, heq.symm⟩)
  · intro j k c d hc hd hdl hid
    rcases getElem?_concat_cases hc with ⟨rfl, rfl⟩ | ⟨hj, hc⟩
    · rcases getElem?_concat_cases hd with ⟨rfl, -⟩ | ⟨-, hd⟩
      · exact le_rfl
      · exact absurd hid.symm (h.forwarded_alone f hf d (List.mem_of_getElem? hd) hdl)
    · rcases getElem?_concat_cases hd with ⟨rfl, -⟩ | ⟨-, hd⟩
      · exact hj.le
      · exact h.last_live j k c d hc hd hdl hid
  · exact fun id hid => h.live_stored id (hlive id hid)
  · exact fun r hr hid => h.live_open r hr (hlive r.id hid)

theorem forward (hnew : ¬ Live forwarded calls f.order.id) (horders : orders.map OrderRow.id ⊆
    orders'.map OrderRow.id) (hstored : f.order.id ∈ orders'.map OrderRow.id)
    (hopen : ∀ r' ∈ orders', r'.status = .pendingTrigger → r'.id ≠ f.order.id ∧ ∃ r ∈ orders,
    r.id = r'.id ∧ r.status = .pendingTrigger) : LiveCalls orders' (forwarded ++ [f]) calls := by
  have hlive : ∀ id, Live (forwarded ++ [f]) calls id → Live forwarded calls id ∨
      f.order.id = id := by
    rintro id (⟨g, hg, hid⟩ | hc)
    · rcases mem_concat hg with hg | rfl
      · exact .inl (.inl ⟨g, hg, hid⟩)
      · exact .inr hid
    · exact .inl (.inr hc)
  refine ⟨?_, ?_, h.last_live, ?_, ?_⟩
  · exact nodup_map_concat h.forwarded_nodup fun hmem => hnew (.inl (List.mem_map.mp hmem))
  · intro g hg c hc hcl
    rcases mem_concat hg with hg | rfl
    · exact h.forwarded_alone g hg c hc hcl
    · exact fun hid => hnew (.inr ⟨c, hc, hcl, hid⟩)
  · intro id hid
    rcases hlive id hid with hid | rfl
    · exact horders (h.live_stored id hid)
    · exact hstored
  · intro r' hr' hid hpending
    obtain ⟨hne, r, hr, hrid, hstatus⟩ := hopen r' hr' hpending
    rcases hlive r'.id hid with hid | hid
    · exact h.live_open r hr (hrid ▸ hid) hstatus
    · exact hne hid.symm

omit h

theorem other {s' : SpotState} (h : LiveCalls s.orders s.forwarded calls)
    (hstep : SpotState.RowsStep s s') : LiveCalls s'.orders s'.forwarded calls := by
  cases hstep with
  | kept follow forwarded =>
    rw [forwarded]
    apply h.follow (.refl calls) follow.ids
    intro r' hr' _ hpending
    obtain ⟨r, hr, hfollows⟩ := follow.rows r' hr'
    exact ⟨r, hr, hfollows.id_eq.symm, (hfollows.status (.inr hpending)).symm.trans hpending⟩
  | stored c id nowMs hnew orders forwarded =>
    have hnotlive : ¬ Live s.forwarded calls id := fun hlive => hnew (h.live_stored id hlive)
    rw [orders, forwarded]
    by_cases hstop : c.kind.isStop = true
    · rw [if_pos hstop]
      refine ⟨h.forwarded_nodup, h.forwarded_alone, h.last_live, ?_, ?_⟩
      · intro z hz
        rw [List.map_append]
        exact List.mem_append_left _ (h.live_stored z hz)
      · intro r hr hlive
        rcases mem_concat hr with hr | rfl
        · exact h.live_open r hr hlive
        · exact absurd hlive hnotlive
    · rw [if_neg hstop]
      apply h.forward (f := ⟨c.rustOrder id nowMs, none⟩) hnotlive
      · rw [List.map_append]
        exact List.subset_append_left _ _
      · rw [List.map_append]
        exact List.mem_append_right _ (List.mem_singleton_self _)
      · intro r' hr' hpending
        rcases mem_concat hr' with hr' | rfl
        · exact ⟨fun hid => hnew (List.mem_map.mpr ⟨r', hr', hid⟩), r', hr', rfl, hpending⟩
        · simp [CheckedOrder.row, hstop] at hpending
  | opened r nowMs hr pending orders forwarded =>
    have hids : s'.orders.map OrderRow.id = s.orders.map OrderRow.id := by
      rw [orders, SpotState.map_id_open]
    -- the row that was opened does not wait any more
    have hopen : ∀ r' ∈ s'.orders, r'.status = .pendingTrigger → r'.id ≠ r.id ∧
        ∃ q ∈ s.orders, q.id = r'.id ∧ q.status = .pendingTrigger := by
      intro r' hr' hpending
      rw [orders] at hr'
      obtain ⟨q, hq, ⟨-, rfl⟩ | ⟨hne, rfl⟩⟩ := SpotState.mem_updateOrder hr'
      · cases hpending
      · exact ⟨hne, r', hq, rfl, hpending⟩
    rcases forwarded with forwarded | forwarded
    · rw [forwarded]
      exact h.follow (.refl calls) hids fun r' hr' _ hpending => (hopen r' hr' hpending).2
    · rw [forwarded]
      apply h.forward (f := ⟨r.rustOrder nowMs, some r.kind⟩)
      · exact fun hlive => h.live_open r hr hlive pending
      · exact hids ▸ List.Subset.refl _
      · exact hids ▸ List.mem_map_of_mem hr
      · exact hopen

theorem fail (h : LiveCalls s.orders s.forwarded calls) (hget : calls[k]? = some c)
    (hlive : c.failed = false) (hid : c'.id = c.id) (hfailed : c'.failed = true) :
    LiveCalls (s.engineFailed c.forwarded).orders s.forwarded (calls.set k c') := by
  have hfollow : CallsFollow calls (calls.set k c') :=
    .set hget hid fun hne => absurd hfailed (by simp [hne])
  apply h.follow hfollow (s.ids_engineFailed c.forwarded)
  intro r' hr' hlive' hpending
  obtain ⟨r, hr, hfollows | ⟨-, hrid, -, hrid', -⟩⟩ := SpotState.mem_engineFailed hr'
  · exact ⟨r, hr, hfollows.id_eq.symm, (hfollows.status (.inr hpending)).symm.trans hpending⟩
  · exfalso
    have hcid : c.id = r'.id := (hrid'.trans hrid).symm
    rcases hlive' with ⟨f, hf, hfid⟩ | ⟨d, hd, hdl, hdid⟩
    · exact h.forwarded_alone f hf c (List.mem_of_getElem? hget) hlive (hcid.trans hfid.symm)
    · obtain ⟨j, hj⟩ := List.getElem?_of_mem hd
      rcases getElem?_set_cases hj with ⟨-, rfl⟩ | ⟨hjk, hj⟩
      · rw [hfailed] at hdl
        cases hdl
      · have hle := h.last_live j k d c hj hget hlive (hdid.trans hcid.symm)
        have hge := h.last_live k j c d hget hj hdl (hcid.trans hdid.symm)
        exact hjk (le_antisymm hle hge)

end LiveCalls

namespace CallState

/-- The engine has not committed a call that fails now, and commits no call that has
failed. -/
def CommitsNoFailed (s : CallState) : CallAction → Prop
  | .fail k => ∀ c ∈ s.calls[k]?, c.progress ≠ .committed
  | .engineCommits k _ => ∀ c ∈ s.calls[k]?, c.failed = false
  | _ => True

instance (s : CallState) (act) : Decidable (s.CommitsNoFailed act) := by
  cases act <;> dsimp only [CommitsNoFailed] <;> infer_instance

/-- A failed call leaves nothing in the engine: when the order was taken back the book did
not hold it, the call has no event, and if the book holds the order, it has it from a
later call. -/
def FailedLeavesNothing (s : CallState) : Prop :=
  ∀ (k : ℕ) (c : Call) (held : Bool), s.calls[k]? = some c → c.result = some (.failed held) →
    held = false ∧ c.events = [] ∧
      (s.spot.Holds c.id → ∃ (j : ℕ) (d : Call), k < j ∧ s.calls[j]? = some d ∧ d.id = c.id)

/-- What is in the engine comes from a call that it has committed, and no such call has
failed. -/
structure CleanCalls (s : CallState) : Prop where
  live : LiveCalls s.spot.orders s.spot.forwarded s.calls
  resting : ∀ x ∈ s.spot.engine.orders, ∃ c ∈ s.calls, c.id = x.id ∧ c.progress = .committed
  quiet : ∀ c ∈ s.calls, c.progress ≠ .committed → c.events = []
  failed_quiet : ∀ c ∈ s.calls, c.failed = true → c.progress ≠ .committed
  not_held : ∀ c ∈ s.calls, c.result ≠ some (.failed true)

variable {s : CallState}

theorem Call.failed_of_result {c : Call} {held : Bool}
    (h : c.result = some (.failed held)) : c.failed = true := by
  rw [failed, h]

theorem Call.not_failed_of_result {c : Call} (h : c.result = none) : c.failed = false := by
  rw [failed, h]

namespace CleanCalls

theorem init : CallState.init.CleanCalls := by
  refine ⟨⟨List.nodup_nil, ?_, ?_, ?_, ?_⟩, ?_, ?_, ?_, ?_⟩ <;>
    simp [CallState.init, SpotState.init, Live, Engine.orders, Engine.new, SortedMap.values]

theorem not_failed (h : s.CleanCalls) {c : Call} (hc : c ∈ s.calls)
    (hcommitted : c.progress = .committed) : c.failed = false :=
  Bool.eq_false_iff.mpr fun hfailed => h.failed_quiet c hc hfailed hcommitted

theorem failedLeavesNothing (h : s.CleanCalls) : s.FailedLeavesNothing := by
  intro k c held hget hresult
  have hc : c ∈ s.calls := List.mem_of_getElem? hget
  have hfailed := Call.failed_of_result hresult
  refine ⟨?_, h.quiet c hc (h.failed_quiet c hc hfailed), ?_⟩
  · cases held with
    | false => rfl
    | true => exact absurd hresult (h.not_held c hc)
  · rintro ⟨x, hx, hid⟩
    obtain ⟨d, hd, hdid, hcommitted⟩ := h.resting x hx
    have hdl := h.not_failed hd hcommitted
    obtain ⟨j, hj⟩ := List.getElem?_of_mem hd
    refine ⟨j, d, lt_of_le_of_ne ?_ ?_, hj, hdid.trans hid⟩
    · exact h.live.last_live k j c d hget hj hdl (hid.symm.trans hdid.symm)
    · rintro rfl
      rw [hget] at hj
      cases hj
      rw [hfailed] at hdl
      cases hdl

theorem other (h : s.CleanCalls) {act : SpotAction} {spot : SpotState}
    (hstep : SpotState.OtherStep s.spot act spot) (cancelled : List (OrderId × ℕ)) :
    CleanCalls { s with spot := spot, cancelled := cancelled } :=
  ⟨h.live.other hstep.rows, fun x hx => h.resting x (hstep.resting x hx), h.quiet,
    h.failed_quiet, h.not_held⟩

theorem send (h : s.CleanCalls) {i : ℕ} {f : Forwarded}
    (hget : s.spot.forwarded[i]? = some f) :
    CleanCalls { s with
      spot := { s.spot with forwarded := s.spot.forwarded.eraseIdx i }
      calls := s.calls ++ [⟨f, .waiting, none, []⟩] } := by
  refine ⟨h.live.send hget, ?_, forall_mem_concat h.quiet fun _ => rfl,
    forall_mem_concat h.failed_quiet (by simp), forall_mem_concat h.not_held (by simp)⟩
  intro x hx
  obtain ⟨c, hc, hid, hcommitted⟩ := h.resting x hx
  exact ⟨c, List.mem_append_left _ hc, hid, hcommitted⟩

variable {k : ℕ} {c' c : Call}

variable (h : s.CleanCalls)

include h

theorem set {spot : SpotState} (hget : s.calls[k]? = some c)
    (hlive : LiveCalls spot.orders spot.forwarded (s.calls.set k c')) (hid : c'.id = c.id)
    (hprogress : c.progress = .committed → c'.progress = .committed)
    (hresting : ∀ x ∈ spot.engine.orders, (∃ y ∈ s.spot.engine.orders, x.id = y.id) ∨
      x.id = c.id ∧ c'.progress = .committed) (hquiet : c'.progress ≠ .committed → c'.events = [])
    (hfailed : c'.failed = true → c'.progress ≠ .committed)
    (hheld : c'.result ≠ some (.failed true)) :
    CleanCalls { s with spot := spot, calls := s.calls.set k c' } := by
  have hset : c' ∈ s.calls.set k c' := List.mem_set (lt_length_of_getElem? hget) c'
  refine ⟨hlive, ?_, forall_mem_set h.quiet hquiet, forall_mem_set h.failed_quiet hfailed,
    forall_mem_set h.not_held hheld⟩
  intro x hx
  rcases hresting x hx with ⟨y, hy, hxy⟩ | ⟨hx, hcommitted⟩
  · obtain ⟨d, hd, hdid, hcommitted⟩ := h.resting y hy
    obtain ⟨j, hj⟩ := List.getElem?_of_mem hd
    by_cases hjk : j = k
    · subst hjk
      rw [hget] at hj
      cases hj
      exact ⟨c', hset, hid.trans (hdid.trans hxy.symm), hprogress hcommitted⟩
    · refine ⟨d, List.mem_of_getElem? (i := j) ?_, hdid.trans hxy.symm, hcommitted⟩
      rw [List.getElem?_set_ne (Ne.symm hjk)]
      exact hj
  · exact ⟨c', hset, hid.trans hx.symm, hcommitted⟩

theorem committed (hget : s.calls[k]? = some c) (hlive : c.failed = false)
    (hforwarded : c'.forwarded = c.forwarded) (hprogress : c'.progress = .committed)
    (hresult : c'.result = c.result) (clock : ℕ → ℕ) :
    CleanCalls { s with
      spot := s.spot.placeOnEngine clock c.forwarded.order
      calls := s.calls.set k c' } := by
  have hid : c'.id = c.id := congrArg (fun f => f.order.id) hforwarded
  have hfailed : c'.failed = c.failed := by rw [failed, hresult, failed]
  apply h.set hget
  · exact h.live.set hget hid fun _ => hlive
  · exact hid
  · exact fun _ => hprogress
  · intro x hx
    obtain ⟨y, rfl | hy, hxy⟩ := Engine.exists_of_mem_orders_placeOrder hx
    · exact .inr ⟨hxy.id_eq, hprogress⟩
    · exact .inl ⟨y, hy, hxy.id_eq⟩
  · exact fun hne => absurd hprogress hne
  · rw [hfailed, hlive]
    exact fun hfailed => by cases hfailed
  · rw [hresult]
    exact h.not_held c (List.mem_of_getElem? hget)

theorem moved (hget : s.calls[k]? = some c) (hforwarded : c'.forwarded = c.forwarded)
    (hevents : c'.events = c.events)
    (hprogress : c'.progress = c.progress ∨ c.progress = .waiting ∧ c'.progress = .refused)
    (hresult : c'.result = c.result ∨ c.result = none ∧ c'.failed = false) :
    CleanCalls { s with calls := s.calls.set k c' } := by
  have hc : c ∈ s.calls := List.mem_of_getElem? hget
  have hid : c'.id = c.id := congrArg (fun f => f.order.id) hforwarded
  have hcommitted : c'.progress = .committed ↔ c.progress = .committed := by
    rcases hprogress with heq | ⟨hwaiting, hrefused⟩
    · rw [heq]
    · simp [hwaiting, hrefused]
  have hfailed : c'.failed = c.failed := by
    rcases hresult with heq | ⟨hopen, hlive⟩
    · rw [failed, heq, failed]
    · rw [hlive, Call.not_failed_of_result hopen]
  apply h.set hget
  · exact h.live.set hget hid fun hlive => hfailed ▸ hlive
  · exact hid
  · exact hcommitted.mpr
  · exact fun x hx => .inl ⟨x, hx, rfl⟩
  · intro hne
    rw [hevents]
    exact h.quiet c hc fun heq => hne (hcommitted.mpr heq)
  · exact fun hf heq => h.failed_quiet c hc (hfailed ▸ hf) (hcommitted.mp heq)
  · intro hheld
    rcases hresult with heq | ⟨-, hlive⟩
    · exact h.not_held c hc (heq ▸ hheld)
    · rw [Call.failed_of_result hheld] at hlive
      cases hlive

theorem not_holds (hget : s.calls[k]? = some c) (hlive : c.failed = false)
    (hprogress : c.progress ≠ .committed) : ¬ s.spot.Holds c.id := by
  rintro ⟨x, hx, hid⟩
  obtain ⟨d, hd, hdid, hcommitted⟩ := h.resting x hx
  have hdl := h.not_failed hd hcommitted
  obtain ⟨j, hj⟩ := List.getElem?_of_mem hd
  obtain rfl := h.live.live_unique hj hget hdl hlive (hdid.trans hid)
  exact hprogress hcommitted

theorem failed (hget : s.calls[k]? = some c) (hopen : c.result = none)
    (hforwarded : c'.forwarded = c.forwarded) (hevents : c'.events = c.events)
    (hprogress : c'.progress = c.progress)
    (hresult : c'.result = some (.failed (decide (s.spot.Holds c.id))))
    (hcommitted : c.progress ≠ .committed) :
    CleanCalls { s with
      spot := s.spot.engineFailed c.forwarded
      calls := s.calls.set k c' } := by
  have hlive := Call.not_failed_of_result hopen
  have hid : c'.id = c.id := congrArg (fun f => f.order.id) hforwarded
  apply h.set hget
  · rw [SpotState.forwarded_engineFailed]
    exact h.live.fail hget hlive hid (Call.failed_of_result hresult)
  · exact hid
  · exact fun heq => absurd heq hcommitted
  · intro x hx
    rw [SpotState.engine_engineFailed] at hx
    exact .inl ⟨x, hx, rfl⟩
  · rw [hprogress, hevents]
    exact h.quiet c (List.mem_of_getElem? hget)
  · rw [hprogress]
    exact fun _ => hcommitted
  · rw [hresult]
    simp [h.not_holds hget hlive hcommitted]

theorem step {cfg : RouteConfig} {markets : Market → Option SpotMarket} {act : CallAction}
    {s' : CallState} (hstep : CallStep cfg markets s act s') (hact : s.CommitsNoFailed act) :
    s'.CleanCalls := by
  cases hstep with
  | same => exact h
  | other act hcall => exact h.other (s.spot.otherStep cfg markets hcall) _
  | sent i f hget => exact h.send hget
  | committed k clock c c' hget _ hforwarded hprogress hresult =>
    exact h.committed hget (hact c hget) hforwarded hprogress hresult clock
  | moved _ k c c' hget hforwarded hevents hprogress hresult =>
    exact h.moved hget hforwarded hevents hprogress hresult
  | failed k c c' hget hopen hforwarded hevents hprogress hresult =>
    exact h.failed hget hopen hforwarded hevents hprogress hresult (hact c hget)

end CleanCalls

/-- In every run in which the engine commits no call that fails, a failed call leaves
nothing in the engine. -/
theorem failed_call_leaves_nothing (cfg : RouteConfig) (markets : Market → Option SpotMarket)
    (acts : List CallAction)
    (h : Along (CallState.step cfg markets) CommitsNoFailed CallState.init acts) :
    (run cfg markets acts).FailedLeavesNothing := by
  have hclean : (run cfg markets acts).CleanCalls := by
    apply h.invariant CleanCalls.init
    exact fun s act hs hact => hs.step (callStep cfg markets s act) hact
  exact hclean.failedLeavesNothing

def refusedRun : List CallAction :=
  sendNow 7 (sampleBody "sell" "limit" "gtc" (.finite 100) 1 false) 1 1000 ++
    [.engineCommits 0 fun _ => 1000, .answer 0] ++
    sendNow 8 (sampleBody "buy" "limit" "gtc" (.finite 100) 1 false) 2 2000 ++
    [.engineRefuses 1, .fail 1]

theorem refusedRun_leaves_nothing : (run ⟨false⟩ sampleMarkets refusedRun).calls.map result =
    [some .ok, some (.failed false)] ∧ (run ⟨false⟩ sampleMarkets refusedRun).FailedLeavesNothing :=
  ⟨by decide +kernel,
    failed_call_leaves_nothing ⟨false⟩ sampleMarkets refusedRun (by decide +kernel)⟩

/-- The engine commits a sell and answers with an error; the order is cancelled, and a buy
meets it. -/
def errorAfterCommitRun : List CallAction :=
  sendNow 7 (sampleBody "sell" "limit" "gtc" (.finite 100) 1 false) 1 1000 ++
    [.engineCommits 0 fun _ => 1000, .fail 0] ++
    sendNow 8 (sampleBody "buy" "limit" "gtc" (.finite 100) 1 false) 2 2000 ++
    [.engineCommits 1 fun _ => 2000, .answer 1]

/-- The call for a triggered stop order times out, the order is put back, and then the
engine commits it and matches it with a resting sell. -/
def lateCommitRun : List CallAction :=
  sendNow 7 (sampleBody "sell" "limit" "gtc" (.finite 100) 1 false) 1 1000 ++
    [.engineCommits 0 fun _ => 1000, .answer 0] ++
    [.other (.check 8 { sampleBody "buy" "stop_limit" "gtc" (.finite 100) 1 false with
        stopPrice := .finite 99 }),
      .other (.commit 0 2 2000), .other (.trigger 2 99 3000), .send 0, .fail 1,
      .engineCommits 1 fun _ => 4000]

theorem failed_call_leaves_order : ((run ⟨false⟩ sampleMarkets errorAfterCommitRun).spot.orders.map
    OrderRow.status = [.cancelled, .open] ∧
    (run ⟨false⟩ sampleMarkets errorAfterCommitRun).spot.produced.map MatchEvent.makerOrderId =
    [1] ∧ ¬ (run ⟨false⟩ sampleMarkets errorAfterCommitRun).FailedLeavesNothing) ∧ ((run ⟨false⟩
    sampleMarkets lateCommitRun).spot.orders.map OrderRow.status = [.open, .pendingTrigger] ∧
    (run ⟨false⟩ sampleMarkets lateCommitRun).spot.produced.map MatchEvent.takerOrderId = [2] ∧
    ¬ (run ⟨false⟩ sampleMarkets lateCommitRun).FailedLeavesNothing) := by
  refine ⟨⟨by decide +kernel, by decide +kernel, fun h => ?_⟩, by decide +kernel,
    by decide +kernel, fun h => ?_⟩
  · have hcall : ∃ c ∈ (run ⟨false⟩ sampleMarkets errorAfterCommitRun).calls[0]?,
        c.result = some (.failed true) := by decide +kernel
    obtain ⟨c, hget, hresult⟩ := hcall
    exact Bool.noConfusion (h 0 c true hget hresult).1
  · have hcall : ∃ c ∈ (run ⟨false⟩ sampleMarkets lateCommitRun).calls[1]?,
        c.result = some (.failed false) ∧ c.events ≠ [] := by decide +kernel
    obtain ⟨c, hget, hresult, hevents⟩ := hcall
    exact hevents (h 1 c false hget hresult).2.1

end CallState

end MetherCEX
