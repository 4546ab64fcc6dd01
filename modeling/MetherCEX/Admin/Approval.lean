import MetherCEX.Lib.Run
import MetherCEX.Lib.Table
import MetherCEX.Wallet.Ledger

/-!
# Approval requests of the admins

Actions of weight are requested by one admin and approved by others. A row of
`admin_approval_requests` collects the approvals, and the call that brings the last one executes
the action (`executeMakerCheckerIfFullyApproved`).
-/

namespace MetherCEX

open Checks Run

abbrev AdminId := ℕ
abbrev ApprovalRequestId := ℕ
abbrev PendingWithdrawalId := ℕ

/-- `GlobalControlAction`. -/
inductive ControlAction
  | haltTrading
  | resumeTrading
  | cancelAllOrders
  | disableWithdrawals
  | enableWithdrawals
  | disableDeposits
  | enableDeposits
  | pauseP2p
  | resumeP2p
  | pauseMarketMaking
  | resumeMarketMaking
  deriving DecidableEq

/-- The payload of a manual credit, with its texts trimmed; `amount` is `none` where the text is
no number. -/
structure ManualCredit where
  user : String
  currency : String
  amount : Option ℚ
  reason : String
  txHash : String
  deriving DecidableEq

def ManualCredit.Valid (credit : ManualCredit) : Prop :=
  credit.user ≠ "" ∧ credit.currency ≠ "" ∧ 8 ≤ credit.reason.length ∧
    ∃ amount ∈ credit.amount, 0 < toAmount amount
  deriving Decidable

inductive RequestedAction
  | withdrawalApprove (withdrawalId : Option PendingWithdrawalId)
  | manualCredit (credit : ManualCredit)
  | globalControlAction (action : Option ControlAction)
  | tradingHalt
  | settlementCircuitReset
  | systemConfigChange
  | adminRoleChange
  deriving DecidableEq

inductive RequestStatus
  | pending
  | approved
  | rejected
  | expired
  deriving DecidableEq

structure ApprovalRequest where
  action : RequestedAction
  requestedBy : AdminId
  status : RequestStatus
  requiredApprovals : ℕ
  currentApprovals : ℕ
  approvedBy : List AdminId
  rejectedBy : Option AdminId
  expiresAt : ℕ
  makerUnlockAt : Option ℕ
  actionExecuted : Bool
  deriving DecidableEq

/-- The settings of the maker-checker; times are in milliseconds. -/
structure ApprovalConfig where
  makerCheckerEnabled : Bool
  makerCheckerRequiredApprovals : ℕ
  makerCheckerDelay : ℕ

namespace RequestedAction

def defaultThreshold : RequestedAction → ℕ
  | .settlementCircuitReset => 3
  | _ => 2

def IsDelayed : RequestedAction → Bool
  | .withdrawalApprove _ | .manualCredit _ => true
  | _ => false

def IsExecuted : RequestedAction → Bool
  | .withdrawalApprove _ | .manualCredit _ | .globalControlAction _ => true
  | _ => false

def effectiveRequiredApprovals (cfg : ApprovalConfig) (action : RequestedAction) :
    Option ℕ → ℕ
  | some custom => custom
  | none =>
    if cfg.makerCheckerEnabled && action.IsDelayed then cfg.makerCheckerRequiredApprovals
    else action.defaultThreshold

def makerUnlockAt (cfg : ApprovalConfig) (action : RequestedAction) (now : ℕ) : Option ℕ :=
  if cfg.makerCheckerEnabled && action.IsDelayed then some (now + cfg.makerCheckerDelay) else none

end RequestedAction

def defaultExpiry : ℕ := 24 * 60 * 60 * 1000

/-- `createRequest`. -/
def ApprovalRequest.create (cfg : ApprovalConfig) (action : RequestedAction)
    (requestedBy : AdminId) (customThreshold : Option ℕ) (now : ℕ) : ApprovalRequest where
  action := action
  requestedBy := requestedBy
  status := .pending
  requiredApprovals := action.effectiveRequiredApprovals cfg customThreshold
  currentApprovals := 0
  approvedBy := []
  rejectedBy := none
  expiresAt := now + defaultExpiry
  makerUnlockAt := action.makerUnlockAt cfg now
  actionExecuted := false

/-- A row after `expireStalePending`. -/
def ApprovalRequest.expireIfStale (row : ApprovalRequest) (now : ℕ) : ApprovalRequest :=
  if row.status = .pending ∧ row.expiresAt < now then { row with status := .expired } else row

inductive ApprovalRefusal
  | ownRequest
  | delayNotElapsed (makerUnlockAt : ℕ)
  | alreadyApproved
  | checkerRole
  deriving DecidableEq

/-- The checks of `approveRequest` on a request that is pending and not expired. -/
def ApprovalRequest.checkApproval (request : ApprovalRequest) (adminId : AdminId) (now : ℕ)
    (roleAllowed : Bool) : Except ApprovalRefusal Unit := do
  refuseIf (request.requestedBy = adminId) .ownRequest
  refuseIf (∃ unlock ∈ request.makerUnlockAt, now < unlock)
    (.delayNotElapsed (request.makerUnlockAt.getD 0))
  refuseIf (adminId ∈ request.approvedBy) .alreadyApproved
  match request.action with
  | .globalControlAction _ => refuseIf (roleAllowed = false) .checkerRole
  | _ => pure ()

/-- How far a call has come. `automatic` tells an execution by the last approval from a retry. -/
inductive ApprovalStage
  /-- `approveRequest` found the request expired and is about to say so. -/
  | expire (id : ApprovalRequestId)
  /-- `approveRequest` is about to write an approval. -/
  | approve (id : ApprovalRequestId) (adminId : AdminId) (read : ApprovalRequest) (now : ℕ)
  | reject (id : ApprovalRequestId) (adminId : AdminId)
  /-- The attempt of an execution is about to be counted. -/
  | attempt (id : ApprovalRequestId) (request : ApprovalRequest) (automatic : Bool)
  | execute (id : ApprovalRequestId) (request : ApprovalRequest) (automatic : Bool)
  /-- The flag is about to be set. -/
  | mark (id : ApprovalRequestId) (automatic : Bool)
  /-- An execution by the last approval has failed. -/
  | fail (id : ApprovalRequestId)
  | finished
  deriving DecidableEq

inductive CallAnswer
  | ok
  /-- The action is found done: the transaction of a credit is on record, or the withdrawal was
  approved by somebody else who holds its lock. -/
  | skipped
  /-- It fails and has changed nothing. -/
  | error
  /-- It fails after it has changed what it was to change. -/
  | lost
  deriving DecidableEq

/-- An approval that was written, with the row that it was computed from. -/
structure ApprovalCall where
  request : ApprovalRequestId
  adminId : AdminId
  read : ApprovalRequest
  now : ℕ
  deriving DecidableEq

structure ApprovalState where
  requests : List ApprovalRequest
  /-- Is the withdrawal in `pending_approval`? -/
  pendingApproval : PendingWithdrawalId → Bool
  calls : List ApprovalStage
  approvals : List ApprovalCall
  applied : List ApprovalRequestId

inductive ApprovalAction
  | create (action : RequestedAction) (requestedBy : AdminId) (customThreshold : Option ℕ)
      (now : ℕ)
  | approve (id : ApprovalRequestId) (adminId : AdminId) (now : ℕ) (roleAllowed : Bool)
  | reject (id : ApprovalRequestId) (adminId : AdminId)
  | retry (id : ApprovalRequestId)
  | expireStalePending (now : ℕ)
  | work (t : ℕ) (answer : CallAnswer)
  /-- The call ends where it is. -/
  | crash (t : ℕ)
  /-- A withdrawal is approved or rejected by another route. -/
  | decideWithdrawal (withdrawalId : PendingWithdrawalId)
  deriving DecidableEq

inductive Execution
  | nothing
  | throws
  | marks
  | applies
  | appliesAndThrows
  deriving DecidableEq

namespace ApprovalState

variable (cfg : ApprovalConfig) (s : ApprovalState) (t : ℕ) (id : ApprovalRequestId)
  (request : ApprovalRequest) (automatic : Bool) (answer : CallAnswer)

def init (pendingApproval : PendingWithdrawalId → Bool) : ApprovalState :=
  ⟨[], pendingApproval, [], [], []⟩

def setRow : ApprovalState := { s with requests := s.requests.set id request }

def startCall (stage : ApprovalStage) : ApprovalState := { s with calls := s.calls ++ [stage] }

def goOn (stage : ApprovalStage) : ApprovalState := { s with calls := s.calls.set t stage }

def throwOut : ApprovalState := s.goOn t (if automatic then .fail id else .finished)

def setStatus (status : RequestStatus) : ApprovalState :=
  match s.requests[id]? with
  | some row => s.setRow id { row with status := status }
  | none => s

def setActionExecuted (executed : Bool) : ApprovalState :=
  match s.requests[id]? with
  | some row => s.setRow id { row with actionExecuted := executed }
  | none => s

def approveRequest (adminId : AdminId) (now : ℕ) (roleAllowed : Bool) : ApprovalState :=
  match s.requests[id]? with
  | none => s
  | some row =>
    if row.status ≠ .pending then s
    else if row.expiresAt < now then s.startCall (.expire id)
    else
      match row.checkApproval adminId now roleAllowed with
      | .error _ => s
      | .ok () => s.startCall (.approve id adminId row now)

def rejectRequest (adminId : AdminId) : ApprovalState :=
  match s.requests[id]? with
  | none => s
  | some row => if row.status ≠ .pending then s else s.startCall (.reject id adminId)

def retryExecution : ApprovalState :=
  match s.requests[id]? with
  | none => s
  | some row => if row.status ≠ .approved then s else s.startCall (.attempt id row false)

/-- One statement, with its condition on the current status. -/
def expireStalePending (now : ℕ) : ApprovalState :=
  { s with requests := s.requests.map (·.expireIfStale now) }

/-- The row that an approval writes: everything but the columns of the approval is as it is now,
and these are computed from what was read. -/
def approvedRow (row read : ApprovalRequest) (adminId : AdminId) : ApprovalRequest :=
  { row with
    currentApprovals := read.currentApprovals + 1
    approvedBy := read.approvedBy ++ [adminId]
    status := if read.requiredApprovals ≤ read.currentApprovals + 1 then .approved else .pending }

def recordApproval (written : ApprovalRequest) (call : ApprovalCall) : ApprovalState :=
  { s.setRow call.request written with approvals := s.approvals ++ [call] }

/-- The update of `approveRequest`. -/
def writeApproval (adminId : AdminId) (read : ApprovalRequest) (now : ℕ) : ApprovalState :=
  match s.requests[id]? with
  | none => s.goOn t .finished
  | some row =>
    if answer = .error ∨ row.requestedBy ∈ read.approvedBy ++ [adminId] then s.goOn t .finished
    else
      let written := approvedRow row read adminId
      (s.recordApproval written ⟨id, adminId, read, now⟩).goOn t
        (if answer ≠ .lost ∧ written.status = .approved ∧ cfg.makerCheckerEnabled = true ∧
          written.action.IsExecuted = true then .attempt id written true
        else .finished)

/-- `executeMakerCheckerIfFullyApproved`, up to the flag. -/
def execution : Execution :=
  if request.status ≠ .approved ∨ request.actionExecuted = true then .nothing
  else if request.approvedBy.getLast? = some request.requestedBy then .throws
  else
    match request.action, answer with
    | .withdrawalApprove (some withdrawalId), .ok =>
      if request.approvedBy ≠ [] ∧ s.pendingApproval withdrawalId then .applies else .throws
    | .withdrawalApprove (some withdrawalId), .skipped =>
      if request.approvedBy ≠ [] ∧ ¬ s.pendingApproval withdrawalId then .marks else .throws
    | .withdrawalApprove (some withdrawalId), .lost =>
      if request.approvedBy ≠ [] ∧ s.pendingApproval withdrawalId then .appliesAndThrows
      else .throws
    | .manualCredit credit, .ok => if credit.Valid then .applies else .throws
    | .manualCredit credit, .skipped =>
      if credit.Valid ∧ credit.txHash ≠ "" then .marks else .throws
    | .manualCredit credit, .lost => if credit.Valid then .appliesAndThrows else .throws
    | .globalControlAction (some _), .ok => .applies
    | .globalControlAction (some _), .lost => .appliesAndThrows
    | .withdrawalApprove _, _ | .manualCredit _, _ | .globalControlAction _, _ => .throws
    | _, _ => .nothing

def apply : ApprovalState :=
  { s with
    applied := s.applied ++ [id]
    pendingApproval :=
      match request.action with
      | .withdrawalApprove (some withdrawalId) =>
        Function.update s.pendingApproval withdrawalId false
      | _ => s.pendingApproval }

def execute : ApprovalState :=
  match s.execution request answer with
  | .nothing => s.goOn t .finished
  | .throws => s.throwOut t id automatic
  | .marks => s.goOn t (.mark id automatic)
  | .applies => (s.apply id request).goOn t (.mark id automatic)
  | .appliesAndThrows => (s.apply id request).throwOut t id automatic

/-- An update that is written unless it fails, and the call goes on in either case. -/
def unlessError (s' : ApprovalState) : ApprovalState := if answer = .error then s else s'

def workOn : ApprovalStage → ApprovalState
  | .expire id => (s.unlessError answer (s.setStatus id .expired)).goOn t .finished
  | .approve id adminId read now => s.writeApproval cfg t id answer adminId read now
  | .reject id adminId =>
    match s.requests[id]? with
    | none => s.goOn t .finished
    | some row =>
      (s.unlessError answer (s.setRow id
        { row with status := .rejected, rejectedBy := some adminId })).goOn t .finished
  | .attempt id request automatic =>
    match answer with
    | .ok => s.goOn t (.execute id request automatic)
    | _ => s.throwOut t id automatic
  | .execute id request automatic => s.execute t id request automatic answer
  | .mark id automatic =>
    match answer with
    | .ok => (s.setActionExecuted id true).goOn t .finished
    | .lost => (s.setActionExecuted id true).throwOut t id automatic
    | _ => s.throwOut t id automatic
  | .fail id => (s.unlessError answer (s.setActionExecuted id false)).goOn t .finished
  | .finished => s

def step : ApprovalAction → ApprovalState
  | .create action requestedBy customThreshold now =>
    { s with requests := s.requests ++
        [ApprovalRequest.create cfg action requestedBy customThreshold now] }
  | .approve id adminId now roleAllowed => s.approveRequest id adminId now roleAllowed
  | .reject id adminId => s.rejectRequest id adminId
  | .retry id => s.retryExecution id
  | .expireStalePending now => s.expireStalePending now
  | .work t answer =>
    match s.calls[t]? with
    | some stage => s.workOn cfg t answer stage
    | none => s
  | .crash t => s.goOn t .finished
  | .decideWithdrawal withdrawalId =>
    { s with pendingApproval := Function.update s.pendingApproval withdrawalId false }

def run (cfg : ApprovalConfig) (pendingApproval : PendingWithdrawalId → Bool)
    (acts : List ApprovalAction) : ApprovalState :=
  acts.foldl (step cfg) (init pendingApproval)

variable {s request answer}

theorem status_of_execution {e : Execution} (h : s.execution request answer = e)
    (he : e ≠ .nothing) : request.status = .approved := by
  by_contra hstatus
  unfold execution at h
  rw [if_pos (.inl hstatus)] at h
  exact he h.symm

theorem actionExecuted_of_execution {e : Execution} (h : s.execution request answer = e)
    (he : e ≠ .nothing) : request.actionExecuted = false := by
  by_contra hflag
  unfold execution at h
  rw [if_pos (.inr (Bool.eq_true_of_not_eq_false hflag))] at h
  exact he h.symm

theorem answer_of_appliesAndThrows (h : s.execution request answer = .appliesAndThrows) :
    answer = .lost := by
  unfold execution at h
  split_ifs at h
  split at h <;> first | rfl | (split_ifs at h) | exact absurd h nofun

end ApprovalState

theorem ApprovalRequest.unlocked_of_checkApproval {request : ApprovalRequest} {adminId : AdminId}
    {now : ℕ} {roleAllowed : Bool} {u : Unit} (h : request.checkApproval adminId now roleAllowed =
    .ok u) : (∀ unlock ∈ request.makerUnlockAt, unlock ≤ now) ∧ adminId ∉ request.approvedBy := by
  simp only [checkApproval, refuseIf_bind_eq_ok] at h
  obtain ⟨-, hunlock, hnew, -⟩ := h
  exact ⟨fun unlock hu => Nat.not_lt.mp fun hlt => hunlock ⟨unlock, hu, hlt⟩, hnew⟩

end MetherCEX
