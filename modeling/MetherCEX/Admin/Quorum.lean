import MetherCEX.Admin.Approval

/-!
# No action without its approvals

Approvals that are computed from stale reads overwrite each other.
-/

namespace MetherCEX

open Checks Run List ApprovalState

/-- The call read the request as pending, not expired, and not before its delay. -/
structure ApprovalCall.Proper (call : ApprovalCall) : Prop where
  pending : call.read.status = .pending
  notExpired : call.now ≤ call.read.expiresAt
  unlocked : ∀ unlock ∈ call.read.makerUnlockAt, unlock ≤ call.now

structure ApprovalRequest.SameTerms (row row' : ApprovalRequest) : Prop where
  requestedBy : row'.requestedBy = row.requestedBy
  requiredApprovals : row'.requiredApprovals = row.requiredApprovals

theorem ApprovalRequest.expireIfStale_sameTerms (row : ApprovalRequest) (now : ℕ) :
    row.SameTerms (row.expireIfStale now) := by
  unfold expireIfStale
  split_ifs
  · exact ⟨rfl, rfl⟩
  · exact ⟨rfl, rfl⟩

namespace ApprovalState

variable {cfg : ApprovalConfig} {s s' : ApprovalState} {t : ℕ} {id : ApprovalRequestId}
  {row row' read request : ApprovalRequest} {stage : ApprovalStage} {answer : CallAnswer}
  {adminId : AdminId} {automatic : Bool}

def HasApproved (s : ApprovalState) (id : ApprovalRequestId) (adminId : AdminId) : Prop :=
  ∃ call ∈ s.approvals, call.request = id ∧ call.adminId = adminId ∧ call.Proper

/-- The approvals of a version of the row are those of distinct admins who have approved. -/
structure Counted (s : ApprovalState) (id : ApprovalRequestId) (row : ApprovalRequest) :
    Prop where
  count : row.currentApprovals = row.approvedBy.length
  nodup : row.approvedBy.Nodup
  requester : row.requestedBy ∉ row.approvedBy
  approved : ∀ adminId ∈ row.approvedBy, s.HasApproved id adminId
  enough : row.status = .approved → row.requiredApprovals ≤ row.currentApprovals

/-- Enough distinct admins other than the requester have approved the request. -/
def HasQuorum (s : ApprovalState) (id : ApprovalRequestId) : Prop :=
  ∃ row, s.requests[id]? = some row ∧ ∃ admins : List AdminId, admins.Nodup ∧
    row.requiredApprovals ≤ admins.length ∧ row.requestedBy ∉ admins ∧
    ∀ adminId ∈ admins, s.HasApproved id adminId

structure Snapshot (s : ApprovalState) (id : ApprovalRequestId) (read : ApprovalRequest) :
    Prop where
  counted : s.Counted id read
  known : ∃ row, s.requests[id]? = some row ∧ row.SameTerms read

def StageOk (s : ApprovalState) : ApprovalStage → Prop
  | .approve id adminId read now =>
    s.Snapshot id read ∧ (ApprovalCall.mk id adminId read now).Proper ∧
      adminId ∉ read.approvedBy
  | .attempt id request _ | .execute id request _ => s.Snapshot id request
  | _ => True

structure Quorate (s : ApprovalState) : Prop where
  rows : ∀ id row, s.requests[id]? = some row → s.Counted id row
  calls : ∀ stage ∈ s.calls, s.StageOk stage
  applied : ∀ id ∈ s.applied, s.HasQuorum id

theorem quorate_init (pendingApproval : PendingWithdrawalId → Bool) :
    Quorate (init pendingApproval) where
  rows _ _ h := absurd h (by simp [init])
  calls := forall_mem_nil _
  applied := forall_mem_nil _

structure Extends (s s' : ApprovalState) : Prop where
  rows : ∀ (id : ApprovalRequestId) (row : ApprovalRequest), s.requests[id]? = some row →
    ∃ row', s'.requests[id]? = some row' ∧ row.SameTerms row'
  approvals : s.approvals ⊆ s'.approvals

namespace Extends

variable (h : Extends s s')

include h

theorem hasApproved (ha : s.HasApproved id adminId) : s'.HasApproved id adminId := by
  obtain ⟨call, hcall, hrest⟩ := ha
  exact ⟨call, h.approvals hcall, hrest⟩

theorem counted (hrow : s.Counted id row) : s'.Counted id row :=
  { hrow with approved := fun a ha => h.hasApproved (hrow.approved a ha) }

theorem snapshot (hread : s.Snapshot id read) : s'.Snapshot id read := by
  obtain ⟨row, hrow, hsame⟩ := hread.known
  obtain ⟨row', hrow', hsame'⟩ := h.rows id row hrow
  exact
    { counted := h.counted hread.counted
      known := ⟨row', hrow', hsame.requestedBy.trans hsame'.requestedBy.symm,
        hsame.requiredApprovals.trans hsame'.requiredApprovals.symm⟩ }

theorem hasQuorum (hq : s.HasQuorum id) : s'.HasQuorum id := by
  obtain ⟨row, hrow, admins, hnodup, henough, hrequester, happroved⟩ := hq
  obtain ⟨row', hrow', hsame⟩ := h.rows id row hrow
  refine ⟨row', hrow', admins, hnodup, ?_, ?_, fun a ha => h.hasApproved (happroved a ha)⟩
  · rw [hsame.requiredApprovals]
    exact henough
  · rw [hsame.requestedBy]
    exact hrequester

theorem stageOk (hstage : s.StageOk stage) : s'.StageOk stage := by
  cases stage with
  | approve id adminId read now => exact ⟨h.snapshot hstage.1, hstage.2⟩
  | attempt id request automatic | execute id request automatic => exact h.snapshot hstage
  | expire _ => trivial
  | reject _ _ => trivial
  | mark _ _ => trivial
  | fail _ => trivial
  | finished => trivial

theorem quorate (hs : s.Quorate)
    (hrows : ∀ id row, s'.requests[id]? = some row →
      s.requests[id]? = some row ∨ s'.Counted id row)
    (hcalls : ∀ stage ∈ s'.calls, stage ∈ s.calls ∨ s'.StageOk stage)
    (happlied : ∀ id ∈ s'.applied, id ∈ s.applied ∨ s'.HasQuorum id) : s'.Quorate where
  rows id row hrow := by
    rcases hrows id row hrow with hold | hnew
    · exact h.counted (hs.rows id row hold)
    · exact hnew
  calls stage hstage := by
    rcases hcalls stage hstage with hold | hnew
    · exact h.stageOk (hs.calls stage hold)
    · exact hnew
  applied id hid := by
    rcases happlied id hid with hold | hnew
    · exact h.hasQuorum (hs.applied id hold)
    · exact hnew

end Extends

theorem extends_of_requests_eq (hrequests : s'.requests = s.requests)
    (happrovals : s'.approvals = s.approvals) : Extends s s' where
  rows _ row hrow := ⟨row, hrequests ▸ hrow, rfl, rfl⟩
  approvals := happrovals ▸ List.Subset.refl _

theorem extends_setRow (hrow : s.requests[id]? = some row) (hsame : row.SameTerms row') :
    Extends s (s.setRow id row') where
  rows j other hother := by
    by_cases hj : j = id
    · subst hj
      obtain rfl : row = other := Option.some.inj (hrow.symm.trans hother)
      exact ⟨row', Table.getElem?_set_of_getElem? hrow, hsame⟩
    · exact ⟨other, by simpa [setRow, getElem?_set_ne (Ne.symm hj)] using hother, rfl, rfl⟩
  approvals := List.Subset.refl _

theorem Snapshot.hasQuorum (hread : s.Snapshot id request)
    (happroved : request.status = .approved) : s.HasQuorum id := by
  obtain ⟨row, hrow, hsame⟩ := hread.known
  have hc := hread.counted
  refine ⟨row, hrow, request.approvedBy, hc.nodup, ?_, ?_, hc.approved⟩
  · rw [← hsame.requiredApprovals, ← hc.count]
    exact hc.enough happroved
  · rw [← hsame.requestedBy]
    exact hc.requester

theorem Snapshot.counted_approvedRow {now : ℕ} (hread : s.Snapshot id read)
    (hrow : s.requests[id]? = some row) (hproper : (ApprovalCall.mk id adminId read now).Proper)
    (hnew : adminId ∉ read.approvedBy)
    (hrequester : row.requestedBy ∉ read.approvedBy ++ [adminId]) :
    (s.recordApproval (approvedRow row read adminId) ⟨id, adminId, read, now⟩).Counted id
      (approvedRow row read adminId) where
  count := by
    rw [approvedRow, length_append, hread.counted.count]
    rfl
  nodup := by
    rw [approvedRow, ← concat_eq_append]
    exact hread.counted.nodup.concat hnew
  requester := hrequester
  approved a ha := by
    rcases mem_append.mp ha with ha | ha
    · obtain ⟨call, hcall, hrest⟩ := hread.counted.approved a ha
      exact ⟨call, mem_append_left _ hcall, hrest⟩
    · exact ⟨_, mem_append_right _ (mem_singleton_self _), rfl,
        (mem_singleton.mp ha).symm, hproper⟩
  enough hstatus := by
    obtain ⟨row', hrow', hsame⟩ := hread.known
    obtain rfl : row = row' := Option.some.inj (hrow.symm.trans hrow')
    simp only [approvedRow] at hstatus ⊢
    split_ifs at hstatus with henough
    rw [← hsame.requiredApprovals]
    exact henough

namespace Quorate

variable (hs : s.Quorate)

include hs

theorem startCall (hstage : s.StageOk stage) : (s.startCall stage).Quorate := by
  have hext : Extends s (s.startCall stage) := extends_of_requests_eq rfl rfl
  refine hext.quorate hs (fun _ _ hrow => .inl hrow) ?_ fun _ hid => .inl hid
  intro c hc
  rcases mem_append.mp hc with hc | hc
  · exact .inl hc
  · exact .inr (mem_singleton.mp hc ▸ hext.stageOk hstage)

theorem goOn (hstage : s.StageOk stage) : (s.goOn t stage).Quorate := by
  have hext : Extends s (s.goOn t stage) := extends_of_requests_eq rfl rfl
  refine hext.quorate hs (fun _ _ hrow => .inl hrow) ?_ fun _ hid => .inl hid
  intro c hc
  rcases mem_or_eq_of_mem_set hc with hc | hc
  · exact .inl hc
  · exact .inr (hc ▸ hext.stageOk hstage)

theorem finish : (s.goOn t .finished).Quorate := hs.goOn trivial

theorem throwOut : (s.throwOut t id automatic).Quorate := by
  refine hs.goOn ?_
  cases automatic <;> trivial

theorem setRow (hrow : s.requests[id]? = some row) (hcounted : s.Counted id row')
    (hsame : row.SameTerms row') : (s.setRow id row').Quorate := by
  have hext := extends_setRow hrow hsame
  refine hext.quorate hs ?_ (fun _ hc => .inl hc) fun _ hid => .inl hid
  intro j other hother
  rcases Table.getElem?_set_cases hother with ⟨rfl, rfl⟩ | ⟨-, hother⟩
  · exact .inr (hext.counted hcounted)
  · exact .inl hother

theorem setStatus {status : RequestStatus} (hstatus : status ≠ .approved) :
    (s.setStatus id status).Quorate := by
  unfold ApprovalState.setStatus
  split
  · rename_i row hrow
    have hcounted : s.Counted id { row with status := status } :=
      { hs.rows id row hrow with enough := fun h => absurd h hstatus }
    exact hs.setRow hrow hcounted ⟨rfl, rfl⟩
  · exact hs

theorem unlessError (hs' : s'.Quorate) : (s.unlessError answer s').Quorate := by
  unfold ApprovalState.unlessError
  split_ifs
  · exact hs
  · exact hs'

theorem setActionExecuted {executed : Bool} : (s.setActionExecuted id executed).Quorate := by
  unfold ApprovalState.setActionExecuted
  split
  · rename_i row hrow
    have hcounted : s.Counted id { row with actionExecuted := executed } :=
      { hs.rows id row hrow with }
    exact hs.setRow hrow hcounted ⟨rfl, rfl⟩
  · exact hs

theorem apply (hq : s.HasQuorum id) : (s.apply id request).Quorate := by
  have hext : Extends s (s.apply id request) := extends_of_requests_eq rfl rfl
  refine hext.quorate hs (fun _ _ hrow => .inl hrow) (fun _ hc => .inl hc) ?_
  intro j hj
  rcases mem_append.mp hj with hj | hj
  · exact .inl hj
  · obtain rfl := mem_singleton.mp hj
    exact .inr (hext.hasQuorum hq)

theorem recordApproval {now : ℕ} (hread : s.Snapshot id read) (hrow : s.requests[id]? = some row)
    (hproper : (ApprovalCall.mk id adminId read now).Proper) (hnew : adminId ∉ read.approvedBy)
    (hrequester : row.requestedBy ∉ read.approvedBy ++ [adminId]) :
    (s.recordApproval (approvedRow row read adminId) ⟨id, adminId, read, now⟩).Quorate := by
  have hsame : row.SameTerms (approvedRow row read adminId) := ⟨rfl, rfl⟩
  have hext : Extends s
      (s.recordApproval (approvedRow row read adminId) ⟨id, adminId, read, now⟩) :=
    ⟨(extends_setRow hrow hsame).rows, subset_append_left _ _⟩
  refine hext.quorate hs ?_ (fun _ hc => .inl hc) fun _ hid => .inl hid
  intro j other hother
  rcases Table.getElem?_set_cases hother with ⟨rfl, rfl⟩ | ⟨-, hother⟩
  · exact .inr (hread.counted_approvedRow hrow hproper hnew hrequester)
  · exact .inl hother

theorem writeApproval {now : ℕ} (hstage : s.StageOk (.approve id adminId read now)) :
    (s.writeApproval cfg t id answer adminId read now).Quorate := by
  obtain ⟨hread, hproper, hnew⟩ := hstage
  unfold ApprovalState.writeApproval
  split
  · exact hs.finish
  · rename_i row hrow
    split_ifs with hrefused
    · exact hs.finish
    · have hrequester : row.requestedBy ∉ read.approvedBy ++ [adminId] :=
        fun h => hrefused (.inr h)
      have hrecorded := hs.recordApproval hread hrow hproper hnew hrequester
      refine hrecorded.goOn ?_
      split_ifs
      · -- the row that was written goes on to its execution
        have hwritten : (s.recordApproval (approvedRow row read adminId)
            ⟨id, adminId, read, now⟩).requests[id]? = some (approvedRow row read adminId) :=
          Table.getElem?_set_of_getElem? hrow
        exact ⟨hrecorded.rows id _ hwritten, _, hwritten, rfl, rfl⟩
      · trivial

theorem execute (hread : s.Snapshot id request) :
    (s.execute t id request automatic answer).Quorate := by
  unfold ApprovalState.execute
  split
  · exact hs.finish
  · exact hs.throwOut
  · exact hs.goOn trivial
  · rename_i happlies
    exact (hs.apply (hread.hasQuorum (status_of_execution happlies nofun))).goOn trivial
  · rename_i happlies
    exact (hs.apply (hread.hasQuorum (status_of_execution happlies nofun))).throwOut

theorem workOn (hstage : s.StageOk stage) : (s.workOn cfg t answer stage).Quorate := by
  cases stage with
  | expire id =>
    have hexpired : (s.setStatus id .expired).Quorate := hs.setStatus nofun
    exact (hs.unlessError hexpired).finish
  | approve id adminId read now => exact hs.writeApproval hstage
  | reject id adminId =>
    simp only [workOn]
    split
    · exact hs.finish
    · rename_i row hrow
      have hcounted : s.Counted id { row with status := .rejected, rejectedBy := some adminId } :=
        { hs.rows id row hrow with enough := nofun }
      exact (hs.unlessError (hs.setRow hrow hcounted ⟨rfl, rfl⟩)).finish
  | attempt id request automatic =>
    simp only [workOn]
    split
    · exact hs.goOn hstage
    · exact hs.throwOut
  | execute id request automatic => exact hs.execute hstage
  | mark id automatic =>
    simp only [workOn]
    split
    · exact hs.setActionExecuted.finish
    · exact hs.setActionExecuted.throwOut
    · exact hs.throwOut
  | fail id => exact (hs.unlessError hs.setActionExecuted).finish
  | finished => exact hs

theorem approveRequest {now : ℕ} {roleAllowed : Bool} :
    (s.approveRequest id adminId now roleAllowed).Quorate := by
  unfold ApprovalState.approveRequest
  split
  · exact hs
  · rename_i row hrow
    split_ifs with hstatus hexpired
    · exact hs
    · exact hs.startCall trivial
    · split
      · exact hs
      · rename_i hcheck
        obtain ⟨hunlocked, hnew⟩ := row.unlocked_of_checkApproval hcheck
        refine hs.startCall ⟨⟨hs.rows id row hrow, row, hrow, rfl, rfl⟩, ?_, hnew⟩
        exact ⟨not_not.mp hstatus, Nat.not_lt.mp hexpired, hunlocked⟩

theorem rejectRequest : (s.rejectRequest id adminId).Quorate := by
  unfold ApprovalState.rejectRequest
  split
  · exact hs
  · split_ifs
    · exact hs
    · exact hs.startCall trivial

theorem retryExecution : (s.retryExecution id).Quorate := by
  unfold ApprovalState.retryExecution
  split
  · exact hs
  · rename_i row hrow
    split_ifs
    · exact hs
    · exact hs.startCall ⟨hs.rows id row hrow, row, hrow, rfl, rfl⟩

theorem expireStalePending {now : ℕ} : (s.expireStalePending now).Quorate := by
  have hext : Extends s (s.expireStalePending now) :=
    { rows := fun j row hrow => by
        refine ⟨row.expireIfStale now, ?_, row.expireIfStale_sameTerms now⟩
        rw [ApprovalState.expireStalePending, getElem?_map, hrow]
        rfl
      approvals := List.Subset.refl _ }
  refine hext.quorate hs ?_ (fun _ hc => .inl hc) fun _ hid => .inl hid
  intro j row hrow
  rw [ApprovalState.expireStalePending, getElem?_map] at hrow
  obtain ⟨old, hold, rfl⟩ := Option.map_eq_some_iff.mp hrow
  right
  unfold ApprovalRequest.expireIfStale
  split_ifs
  · exact { hext.counted (hs.rows j old hold) with enough := nofun }
  · exact hext.counted (hs.rows j old hold)

theorem create {action : RequestedAction} {requestedBy : AdminId} {custom : Option ℕ} {now : ℕ} :
    Quorate { s with requests := s.requests ++
      [ApprovalRequest.create cfg action requestedBy custom now] } := by
  have hext : Extends s { s with requests := s.requests ++
      [ApprovalRequest.create cfg action requestedBy custom now] } :=
    { rows := fun j row hrow =>
        ⟨row, (getElem?_append_left (Table.lt_length_of_getElem? hrow)).trans hrow, rfl, rfl⟩
      approvals := List.Subset.refl _ }
  refine hext.quorate hs ?_ (fun _ hc => .inl hc) fun _ hid => .inl hid
  intro j row hrow
  rcases Table.getElem?_concat_cases hrow with ⟨-, rfl⟩ | ⟨-, hold⟩
  · exact .inr ⟨rfl, nodup_nil, not_mem_nil, nofun, nofun⟩
  · exact .inl hold

theorem step (act : ApprovalAction) : (s.step cfg act).Quorate := by
  cases act with
  | create action requestedBy custom now => exact hs.create
  | approve id adminId now roleAllowed => exact hs.approveRequest
  | reject id adminId => exact hs.rejectRequest
  | retry id => exact hs.retryExecution
  | expireStalePending now => exact hs.expireStalePending
  | work t answer =>
    simp only [ApprovalState.step]
    split
    · rename_i stage hstage
      exact hs.workOn (hs.calls stage (mem_of_getElem? hstage))
    · exact hs
  | crash t => exact hs.finish
  | decideWithdrawal withdrawalId =>
    have hext : Extends s (s.step cfg (.decideWithdrawal withdrawalId)) :=
      extends_of_requests_eq rfl rfl
    exact hext.quorate hs (fun _ _ hrow => .inl hrow) (fun _ hc => .inl hc)
      fun _ hid => .inl hid

end Quorate

/-- In every run, an action takes effect only after its number of distinct admins other than the
requester have approved the request, and every row counts its approvals. -/
theorem executed_with_quorum (cfg : ApprovalConfig) (pendingApproval : PendingWithdrawalId → Bool)
    (acts : List ApprovalAction) : (∀ id ∈ (run cfg pendingApproval acts).applied,
    (run cfg pendingApproval acts).HasQuorum id) ∧ ∀ row ∈ (run cfg pendingApproval acts).requests,
    row.currentApprovals = row.approvedBy.length ∧ row.approvedBy.Nodup := by
  have hrun : Along (ApprovalState.step cfg) (fun _ _ => True) (init pendingApproval) acts :=
    along_of_forall (fun _ _ => trivial) _ _
  have hs := hrun.invariant (P := Quorate) (quorate_init pendingApproval)
    fun _ act hs _ => hs.step act
  refine ⟨hs.applied, fun row hrow => ?_⟩
  obtain ⟨id, hid⟩ := mem_iff_getElem?.mp hrow
  exact ⟨(hs.rows id row hid).count, (hs.rows id row hid).nodup⟩

end ApprovalState

end MetherCEX
