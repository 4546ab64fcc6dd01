import MetherCEX.Admin.Approval

/-!
# Decisions and executions of approval requests

A decision is written without a look at the status it replaces, so a request that was rejected or
expired in the meantime becomes pending or approved again, and an approved and executed request
becomes rejected.
-/

namespace MetherCEX

open Run List Option Table ApprovalState ApprovalRequest

namespace ApprovalState

variable {cfg : ApprovalConfig} {s s' : ApprovalState} {t : ℕ} {id : ApprovalRequestId}
  {row row' read request : ApprovalRequest} {stage stage' : ApprovalStage} {answer : CallAnswer}
  {adminId : AdminId} {automatic : Bool}

def executing : ApprovalStage → Option ApprovalRequestId
  | .attempt id _ _ | .execute id _ _ | .mark id _ | .fail id => some id
  | _ => none

def marking : ApprovalStage → Option ApprovalRequestId
  | .mark id _ => some id
  | _ => none

def IsPending (s : ApprovalState) (id : ApprovalRequestId) : Prop :=
  ∀ row ∈ s.requests[id]?, row.status = .pending
  deriving Decidable

def StageInOrder (s : ApprovalState) (answer : CallAnswer) : ApprovalStage → Prop
  | .expire id | .approve id _ _ _ | .reject id _ => s.IsPending id
  | .execute _ _ _ => answer ≠ .lost
  | .mark _ _ => answer = .ok
  | _ => True

def InOrder (s : ApprovalState) : ApprovalAction → Prop
  | .work t answer => ∀ stage ∈ s.calls[t]?, s.StageInOrder answer stage
  | .crash t => ∀ stage ∈ s.calls[t]?, marking stage = none
  | .retry id => ∀ stage ∈ s.calls, executing stage ≠ some id
  | _ => True

instance (stage) : Decidable (s.StageInOrder answer stage) := by
  cases stage <;> dsimp only [StageInOrder] <;> infer_instance

instance (act) : Decidable (s.InOrder act) := by
  cases act <;> dsimp only [InOrder] <;> infer_instance

/-- What a call that executes a request relies on: it has not taken effect, unless the call has
read the flag. -/
def Unapplied (s : ApprovalState) : ApprovalStage → Prop
  | .attempt id request automatic | .execute id request automatic =>
    (request.actionExecuted = false → id ∉ s.applied) ∧
      (request.actionExecuted = true → automatic = false)
  | .fail id => id ∉ s.applied
  | _ => True

def Flagged (s : ApprovalState) (id : ApprovalRequestId) : Prop :=
  ∃ row, s.requests[id]? = some row ∧ row.actionExecuted = true

structure Orderly (s : ApprovalState) : Prop where
  nodup : s.applied.Nodup
  known : ∀ stage ∈ s.calls, ∀ id ∈ executing stage, id < s.requests.length
  single : ∀ (i j : ℕ) (c d : ApprovalStage), s.calls[i]? = some c → s.calls[j]? = some d →
    ∀ id, executing c = some id → executing d = some id → i = j
  pending : ∀ (id : ℕ) (row : ApprovalRequest), s.requests[id]? = some row → row.status = .pending →
    row.actionExecuted = false ∧ id ∉ s.applied ∧ ∀ stage ∈ s.calls, executing stage ≠ some id
  recorded : ∀ id ∈ s.applied, s.Flagged id ∨ ∃ stage ∈ s.calls, marking stage = some id
  unapplied : ∀ stage ∈ s.calls, s.Unapplied stage

theorem orderly_init (pendingApproval : PendingWithdrawalId → Bool) :
    Orderly (init pendingApproval) where
  nodup := nodup_nil
  known := forall_mem_nil _
  single _ _ _ _ h := absurd h (by simp [init])
  pending _ _ h := absurd h (by simp [init])
  recorded := forall_mem_nil _
  unapplied := forall_mem_nil _

/-- Nobody executes the request, which is not pending any more. -/
structure Free (s : ApprovalState) (id : ApprovalRequestId) : Prop where
  idle : ∀ stage ∈ s.calls, executing stage ≠ some id
  decided : ∃ row, s.requests[id]? = some row ∧ row.status ≠ .pending

theorem Unapplied.apply_of_ne (h : s.Unapplied stage) (hne : executing stage ≠ some id) :
    (s.apply id request).Unapplied stage := by
  have hmem : ∀ {j}, executing stage = some j → j ∉ s.applied →
      j ∉ (s.apply id request).applied := by
    intro j hj hnot hin
    rcases mem_append.mp hin with hin | hin
    · exact hnot hin
    · exact hne (mem_singleton.mp hin ▸ hj)
  cases stage with
  | attempt j request automatic | execute j request automatic =>
    exact ⟨fun hf => hmem rfl (h.1 hf), h.2⟩
  | fail j => exact hmem rfl h
  | expire _ => trivial
  | approve _ _ _ _ => trivial
  | reject _ _ => trivial
  | mark _ _ => trivial
  | finished => trivial

theorem Unapplied.of_automatic (hun : s.Unapplied (.execute id request automatic))
    (hauto : automatic = true) : id ∉ s.applied := by
  cases hflag : request.actionExecuted with
  | false => exact hun.1 hflag
  | true => exact absurd (hauto.symm.trans (hun.2 hflag)) nofun

theorem executing_of_marking (h : marking stage = some id) : executing stage = some id := by
  cases stage <;> first | exact h | exact absurd h nofun

theorem calls_setStatus {status : RequestStatus} : (s.setStatus id status).calls = s.calls := by
  unfold setStatus
  split <;> rfl

theorem calls_setActionExecuted {executed : Bool} :
    (s.setActionExecuted id executed).calls = s.calls := by
  unfold setActionExecuted
  split <;> rfl

theorem flagged_setActionExecuted (hid : id < s.requests.length) :
    (s.setActionExecuted id true).Flagged id := by
  have hrow : s.requests[id]? = some s.requests[id] := getElem?_eq_getElem hid
  refine ⟨{ s.requests[id] with actionExecuted := true }, ?_, rfl⟩
  unfold setActionExecuted
  rw [hrow]
  exact getElem?_set_of_getElem? hrow

def KeepsDecisions (s s' : ApprovalState) : Prop :=
  ∀ (id : ApprovalRequestId) (row : ApprovalRequest), s.requests[id]? = some row →
    row.status ≠ .pending → ∃ row', s'.requests[id]? = some row' ∧ row'.status = row.status

theorem keepsDecisions_of_requests_eq (h : s'.requests = s.requests) : s.KeepsDecisions s' :=
  fun _ row hrow _ => ⟨row, h ▸ hrow, rfl⟩

theorem keepsDecisions_setRow (hrow : s.requests[id]? = some row) (hstatus : row.status ≠ .pending →
    row'.status = row.status) : s.KeepsDecisions (s.setRow id row') := by
  intro j other hother hdecided
  by_cases hj : j = id
  · subst hj
    obtain rfl : row = other := some.inj (hrow.symm.trans hother)
    exact ⟨row', getElem?_set_of_getElem? hrow, hstatus hdecided⟩
  · refine ⟨other, ?_, rfl⟩
    rw [setRow, getElem?_set_ne (Ne.symm hj)]
    exact hother

theorem KeepsDecisions.trans {s₁ s₂ s₃ : ApprovalState} (h : s₁.KeepsDecisions s₂)
    (h' : s₂.KeepsDecisions s₃) : s₁.KeepsDecisions s₃ := by
  intro id row hrow hdecided
  obtain ⟨row', hrow', hstatus⟩ := h id row hrow hdecided
  obtain ⟨row'', hrow'', hstatus'⟩ := h' id row' hrow' (hstatus ▸ hdecided)
  exact ⟨row'', hrow'', hstatus'.trans hstatus⟩

/-- The state after a step of a run in order: what was decided stays so. -/
structure Follows (s s' : ApprovalState) : Prop extends s'.Orderly where
  keeps : s.KeepsDecisions s'

theorem Follows.trans {s₁ s₂ s₃ : ApprovalState} (h : s₁.Follows s₂) (h' : s₂.Follows s₃) :
    s₁.Follows s₃ :=
  { h' with keeps := h.keeps.trans h'.keeps }

namespace Orderly

variable (hs : s.Orderly)

include hs

theorem refl : s.Follows s := { hs with keeps := keepsDecisions_of_requests_eq rfl }

/-- The calls change so that only the call `t` takes up the execution of a request, of one that
nobody executes. -/
theorem withCalls {calls : List ApprovalStage}
    (hex : ∀ i c, calls[i]? = some c → ∀ id, executing c = some id →
      (∃ d, s.calls[i]? = some d ∧ executing d = some id) ∨ i = t ∧ s.Free id)
    (hmark : ∀ d ∈ s.calls, ∀ id, marking d = some id →
      (∃ c ∈ calls, marking c = some id) ∨ s.Flagged id)
    (hun : ∀ c ∈ calls, s.Unapplied c) : s.Follows { s with calls := calls } where
  keeps := keepsDecisions_of_requests_eq rfl
  nodup := hs.nodup
  known c hc id hid := by
    obtain ⟨i, hi⟩ := mem_iff_getElem?.mp hc
    rcases hex i c hi id hid with ⟨d, hd, hold⟩ | ⟨-, hfree⟩
    · exact hs.known d (mem_of_getElem? hd) id hold
    · obtain ⟨row, hrow, -⟩ := hfree.decided
      exact lt_length_of_getElem? hrow
  single i j c d hc hd id hcid hdid := by
    rcases hex i c hc id hcid with ⟨c', hc', hold⟩ | ⟨rfl, hfree⟩
    · rcases hex j d hd id hdid with ⟨d', hd', hold'⟩ | ⟨-, hfree⟩
      · exact hs.single i j c' d' hc' hd' id hold hold'
      · exact absurd hold (hfree.idle c' (mem_of_getElem? hc'))
    · rcases hex j d hd id hdid with ⟨d', hd', hold'⟩ | ⟨rfl, -⟩
      · exact absurd hold' (hfree.idle d' (mem_of_getElem? hd'))
      · rfl
  pending id row hrow hpending := by
    obtain ⟨hflag, hid, hidle⟩ := hs.pending id row hrow hpending
    refine ⟨hflag, hid, fun c hc hcid => ?_⟩
    obtain ⟨i, hi⟩ := mem_iff_getElem?.mp hc
    rcases hex i c hi id hcid with ⟨d, hd, hold⟩ | ⟨-, hfree⟩
    · exact hidle d (mem_of_getElem? hd) hold
    · obtain ⟨row', hrow', hdecided⟩ := hfree.decided
      exact hdecided (some.inj (hrow'.symm.trans hrow) ▸ hpending)
  recorded id hid := by
    rcases hs.recorded id hid with hflag | ⟨c, hc, hcid⟩
    · exact .inl hflag
    · exact (hmark c hc id hcid).symm
  unapplied := hun

theorem goOn (hstage : s.calls[t]? = some stage)
    (hex : ∀ id, executing stage' = some id → executing stage = some id ∨ s.Free id)
    (hmark : ∀ id, marking stage = some id → marking stage' = some id ∨ s.Flagged id)
    (hun : s.Unapplied stage') : s.Follows (s.goOn t stage') := by
  refine hs.withCalls (t := t) (fun i c hc id hcid => ?_) (fun d hd id hdid => ?_) fun c hc => ?_
  · rcases getElem?_set_cases hc with ⟨rfl, rfl⟩ | ⟨-, hc⟩
    · exact (hex id hcid).imp (fun hold => ⟨stage, hstage, hold⟩) fun hfree => ⟨rfl, hfree⟩
    · exact .inl ⟨c, hc, hcid⟩
  · obtain ⟨i, hi⟩ := mem_iff_getElem?.mp hd
    by_cases hit : i = t
    · subst hit
      obtain rfl : stage = d := some.inj (hstage.symm.trans hi)
      exact (hmark id hdid).imp_left fun hnew =>
        ⟨stage', mem_of_getElem? (getElem?_set_of_getElem? hstage), hnew⟩
    · exact .inl ⟨d, mem_of_getElem? ((getElem?_set_ne (Ne.symm hit)).trans hi), hdid⟩
  · rcases mem_or_eq_of_mem_set hc with hc | rfl
    · exact hs.unapplied c hc
    · exact hun

theorem startCall (hex : ∀ id, executing stage = some id → s.Free id) (hun : s.Unapplied stage) :
    s.Follows (s.startCall stage) := by
  refine hs.withCalls (t := s.calls.length) (fun i c hc id hcid => ?_)
    (fun d hd id hdid => .inl ⟨d, mem_append_left _ hd, hdid⟩)
    (forall_mem_concat hs.unapplied hun)
  rcases getElem?_concat_cases hc with ⟨rfl, rfl⟩ | ⟨-, hc⟩
  · exact .inr ⟨rfl, hex id hcid⟩
  · exact .inl ⟨c, hc, hcid⟩

theorem setRow (hrow : s.requests[id]? = some row)
    (hflag : id ∈ s.applied → row.actionExecuted = true → row'.actionExecuted = true)
    (hpending : row'.status = .pending →
      row.status = .pending ∧ row'.actionExecuted = row.actionExecuted)
    (hkept : row.status ≠ .pending → row'.status = row.status) : s.Follows (s.setRow id row') where
  keeps := keepsDecisions_setRow hrow hkept
  nodup := hs.nodup
  known c hc j hj := by
    rw [ApprovalState.setRow, length_set]
    exact hs.known c hc j hj
  single := hs.single
  pending j other hother hstatus := by
    rcases getElem?_set_cases hother with ⟨rfl, rfl⟩ | ⟨-, hother⟩
    · obtain ⟨hstatus, hsame⟩ := hpending hstatus
      rw [hsame]
      exact hs.pending j row hrow hstatus
    · exact hs.pending j other hother hstatus
  recorded j hj := by
    rcases hs.recorded j hj with ⟨other, hother, hexecuted⟩ | hmark
    · left
      by_cases hjid : j = id
      · subst hjid
        obtain rfl : row = other := some.inj (hrow.symm.trans hother)
        exact ⟨row', getElem?_set_of_getElem? hrow, hflag hj hexecuted⟩
      · refine ⟨other, ?_, hexecuted⟩
        rw [ApprovalState.setRow, getElem?_set_ne (Ne.symm hjid)]
        exact hother
    · exact .inr hmark
  unapplied := hs.unapplied

theorem apply (hstage : s.calls[t]? = some (.execute id request automatic))
    (hflag : request.actionExecuted = false) :
    s.Follows ((s.apply id request).goOn t (.mark id automatic)) := by
  have hfresh : id ∉ s.applied :=
    (hs.unapplied _ (mem_of_getElem? hstage)).1 hflag
  have hother : ∀ i c, s.calls[i]? = some c → i ≠ t → executing c ≠ some id :=
    fun i c hc hi hcid => hi (hs.single i t c _ hc hstage id hcid rfl)
  have hmoved : s.Follows (s.goOn t (.mark id automatic)) :=
    hs.goOn hstage (fun _ h => .inl h) nofun trivial
  exact
    { keeps := keepsDecisions_of_requests_eq rfl
      nodup := by
        rw [ApprovalState.goOn, ApprovalState.apply, ← concat_eq_append]
        exact hs.nodup.concat hfresh
      known := hmoved.known
      single := hmoved.single
      pending := fun j row hrow hstatus => by
        obtain ⟨hexecuted, hj, hidle⟩ := hmoved.pending j row hrow hstatus
        refine ⟨hexecuted, fun hmem => ?_, hidle⟩
        rcases mem_concat hmem with hmem | rfl
        · exact hj hmem
        · exact hidle _ (mem_of_getElem? (getElem?_set_of_getElem? hstage)) rfl
      recorded := fun j hj => by
        rcases mem_concat hj with hj | rfl
        · exact hmoved.recorded j hj
        · exact .inr ⟨_, mem_of_getElem? (getElem?_set_of_getElem? hstage), rfl⟩
      unapplied := fun c hc => by
        obtain ⟨i, hi⟩ := mem_iff_getElem?.mp hc
        rcases getElem?_set_cases hi with ⟨-, rfl⟩ | ⟨hit, hi⟩
        · trivial
        · have hold : s.Unapplied c := hs.unapplied c (mem_of_getElem? hi)
          have hnew : (s.apply id request).Unapplied c := hold.apply_of_ne (hother i c hi hit)
          exact hnew }

theorem finish (hstage : s.calls[t]? = some stage) (hmark : marking stage = none) :
    s.Follows (s.goOn t .finished) :=
  hs.goOn hstage nofun (fun _ h => absurd (hmark.symm.trans h) nofun) trivial

theorem unlessError (hs' : s.Follows s') (hcalls : s'.calls = s.calls)
    (hstage : s.calls[t]? = some stage) (hmark : marking stage = none) :
    s.Follows ((s.unlessError answer s').goOn t .finished) := by
  unfold ApprovalState.unlessError
  split_ifs
  · exact hs.finish hstage hmark
  · exact hs'.trans (hs'.finish (hcalls ▸ hstage) hmark)

theorem status_of_executing (hstage : s.calls[t]? = some stage) (hid : executing stage = some id)
    (hrow : s.requests[id]? = some row) : row.status ≠ .pending :=
  fun hstatus => (hs.pending id row hrow hstatus).2.2 stage (mem_of_getElem? hstage) hid

theorem writeApproval {now : ℕ} (hstage : s.calls[t]? = some (.approve id adminId read now))
    (hpending : s.IsPending id) :
    s.Follows (s.writeApproval cfg t id answer adminId read now) := by
  unfold ApprovalState.writeApproval
  split
  · exact hs.finish hstage rfl
  · rename_i row hrow
    split_ifs with hrefused
    · exact hs.finish hstage rfl
    · have hstatus : row.status = .pending := hpending row hrow
      obtain ⟨hflag, hid, hidle⟩ := hs.pending id row hrow hstatus
      have hset : s.Follows (s.setRow id (approvedRow row read adminId)) :=
        hs.setRow hrow (fun _ h => h) (fun _ => ⟨hstatus, rfl⟩) (absurd hstatus)
      have hwritten : (s.setRow id (approvedRow row read adminId)).requests[id]? =
          some (approvedRow row read adminId) := getElem?_set_of_getElem? hrow
      -- the record of the approval is history
      have hrecorded : s.Follows (s.recordApproval (approvedRow row read adminId)
          ⟨id, adminId, read, now⟩) := { hset with }
      refine hrecorded.trans (hrecorded.goOn hstage ?_ nofun ?_)
      · intro j hj
        split_ifs at hj with hfull
        · obtain rfl : id = j := some.inj hj
          refine .inr ⟨hidle, _, hwritten, ?_⟩
          rw [hfull.2.1]
          exact nofun
        · exact absurd hj nofun
      · split_ifs
        · exact ⟨fun _ => hid, fun h => absurd (hflag.symm.trans h) nofun⟩
        · trivial

theorem throwOut (hstage : s.calls[t]? = some stage) (hid : executing stage = some id)
    (hmark : marking stage = none) (hun : automatic = true → id ∉ s.applied) :
    s.Follows (s.throwOut t id automatic) := by
  unfold ApprovalState.throwOut
  split_ifs with hauto
  · exact hs.goOn hstage (fun j hj => .inl (some.inj hj ▸ hid))
      (fun _ h => absurd (hmark.symm.trans h) nofun) (hun hauto)
  · exact hs.finish hstage hmark

theorem execute (hstage : s.calls[t]? = some (.execute id request automatic))
    (hanswer : answer ≠ .lost) : s.Follows (s.execute t id request automatic answer) := by
  have hun := hs.unapplied _ (mem_of_getElem? hstage)
  unfold ApprovalState.execute
  split
  · exact hs.finish hstage rfl
  · exact hs.throwOut hstage rfl rfl (Unapplied.of_automatic hun)
  · exact hs.goOn hstage (fun _ h => .inl h) nofun trivial
  · rename_i happlies
    exact hs.apply hstage (actionExecuted_of_execution happlies nofun)
  · rename_i happlies
    exact absurd (answer_of_appliesAndThrows happlies) hanswer

theorem setActionExecuted {executed : Bool} (hstage : s.calls[t]? = some stage)
    (hid : executing stage = some id) (hflag : executed = false → id ∉ s.applied) :
    s.Follows (s.setActionExecuted id executed) := by
  unfold ApprovalState.setActionExecuted
  split
  · rename_i row hrow
    have hdecided : row.status ≠ .pending := hs.status_of_executing hstage hid hrow
    refine hs.setRow hrow (fun happlied _ => ?_) (fun hstatus => absurd hstatus hdecided)
      fun _ => rfl
    cases executed with
    | true => rfl
    | false => exact absurd happlied (hflag rfl)
  · exact hs.refl

theorem setStatus {status : RequestStatus} (hstatus : status ≠ .pending)
    (hpending : s.IsPending id) : s.Follows (s.setStatus id status) := by
  unfold ApprovalState.setStatus
  split
  · rename_i row hrow
    exact hs.setRow hrow (fun _ h => h) (fun h => absurd h hstatus) (absurd (hpending row hrow))
  · exact hs.refl

theorem workOn (hstage : s.calls[t]? = some stage) (horder : s.StageInOrder answer stage) :
    s.Follows (s.workOn cfg t answer stage) := by
  have hun := hs.unapplied stage (mem_of_getElem? hstage)
  cases stage with
  | expire id =>
    exact hs.unlessError (hs.setStatus nofun horder) calls_setStatus hstage rfl
  | approve id adminId read now => exact hs.writeApproval hstage horder
  | reject id adminId =>
    simp only [workOn]
    split
    · exact hs.finish hstage rfl
    · rename_i row hrow
      have hrejected : s.Follows
          (s.setRow id { row with status := .rejected, rejectedBy := some adminId }) :=
        hs.setRow hrow (fun _ h => h) nofun (absurd (horder row hrow))
      exact hs.unlessError hrejected rfl hstage rfl
  | attempt id request automatic =>
    simp only [workOn]
    split
    · exact hs.goOn hstage (fun _ h => .inl h) nofun hun
    · exact hs.throwOut hstage rfl rfl (Unapplied.of_automatic hun)
  | execute id request automatic => exact hs.execute hstage horder
  | mark id automatic =>
    obtain rfl : answer = .ok := horder
    have hflagged : (s.setActionExecuted id true).Flagged id :=
      flagged_setActionExecuted (hs.known _ (mem_of_getElem? hstage) id rfl)
    have hset : s.Follows (s.setActionExecuted id true) :=
      hs.setActionExecuted hstage rfl fun h => absurd h nofun
    have hcall : (s.setActionExecuted id true).calls[t]? = some (.mark id automatic) :=
      (congrArg (·[t]?) calls_setActionExecuted).trans hstage
    exact hset.trans
      (hset.goOn hcall nofun (fun j hj => .inr (some.inj hj ▸ hflagged)) trivial)
  | fail id =>
    have hcleared : s.Follows (s.setActionExecuted id false) :=
      hs.setActionExecuted hstage rfl fun _ => hun
    exact hs.unlessError hcleared calls_setActionExecuted hstage rfl
  | finished => exact hs.refl

theorem approveRequest {now : ℕ} {roleAllowed : Bool} :
    s.Follows (s.approveRequest id adminId now roleAllowed) := by
  unfold ApprovalState.approveRequest
  split
  · exact hs.refl
  · split_ifs
    · exact hs.refl
    · exact hs.startCall nofun trivial
    · split
      · exact hs.refl
      · exact hs.startCall nofun trivial

theorem rejectRequest : s.Follows (s.rejectRequest id adminId) := by
  unfold ApprovalState.rejectRequest
  split
  · exact hs.refl
  · split_ifs
    · exact hs.refl
    · exact hs.startCall nofun trivial

theorem retryExecution (hidle : ∀ stage ∈ s.calls, executing stage ≠ some id) :
    s.Follows (s.retryExecution id) := by
  unfold ApprovalState.retryExecution
  split
  · exact hs.refl
  · rename_i row hrow
    split_ifs with hstatus
    · exact hs.refl
    · have happroved : row.status = .approved := not_not.mp hstatus
      refine hs.startCall (fun j hj => ?_) ⟨fun hflag happlied => ?_, fun _ => rfl⟩
      · obtain rfl : id = j := some.inj hj
        exact ⟨hidle, row, hrow, by rw [happroved]; exact nofun⟩
      · rcases hs.recorded id happlied with ⟨row', hrow', hflag'⟩ | ⟨c, hc, hmark⟩
        · obtain rfl : row = row' := some.inj (hrow.symm.trans hrow')
          exact absurd (hflag.symm.trans hflag') nofun
        · exact hidle c hc (executing_of_marking hmark)

theorem expireStalePending {now : ℕ} : s.Follows (s.expireStalePending now) where
  keeps id row hrow hdecided := by
    refine ⟨row, ?_, rfl⟩
    rw [ApprovalState.expireStalePending, getElem?_map, hrow, map_some,
      ApprovalRequest.expireIfStale, if_neg fun h => hdecided h.1]
  nodup := hs.nodup
  known c hc id hid := by
    rw [ApprovalState.expireStalePending, length_map]
    exact hs.known c hc id hid
  single := hs.single
  pending id row hrow hstatus := by
    rw [ApprovalState.expireStalePending, getElem?_map] at hrow
    obtain ⟨old, hold, rfl⟩ := map_eq_some_iff.mp hrow
    unfold expireIfStale at hstatus ⊢
    split_ifs at hstatus ⊢
    exact hs.pending id old hold hstatus
  recorded id hid := by
    rcases hs.recorded id hid with ⟨row, hrow, hflag⟩ | hmark
    · refine .inl ⟨row.expireIfStale now, ?_, ?_⟩
      · rw [ApprovalState.expireStalePending, getElem?_map, hrow]
        rfl
      · unfold expireIfStale
        split_ifs
        · exact hflag
        · exact hflag
    · exact .inr hmark
  unapplied := hs.unapplied

theorem create {action : RequestedAction} {requestedBy : AdminId} {custom : Option ℕ} {now : ℕ} :
    s.Follows { s with requests := s.requests ++
      [create cfg action requestedBy custom now] } := by
  have hlt : ∀ id ∈ s.applied, id < s.requests.length := by
    intro id hid
    rcases hs.recorded id hid with ⟨row, hrow, -⟩ | ⟨c, hc, hmark⟩
    · exact lt_length_of_getElem? hrow
    · exact hs.known c hc id (executing_of_marking hmark)
  exact
    { keeps := fun id row hrow _ =>
        ⟨row, (getElem?_append_left (lt_length_of_getElem? hrow)).trans hrow, rfl⟩
      nodup := hs.nodup
      known := fun c hc id hid =>
        (hs.known c hc id hid).trans_le (by rw [length_append]; exact Nat.le_add_right _ _)
      single := hs.single
      pending := fun id row hrow hstatus => by
        rcases getElem?_concat_cases hrow with ⟨rfl, rfl⟩ | ⟨-, hold⟩
        · exact ⟨rfl, fun hid => (hlt _ hid).false, fun c hc hcid => (hs.known c hc _ hcid).false⟩
        · exact hs.pending id row hold hstatus
      recorded := fun id hid => by
        rcases hs.recorded id hid with ⟨row, hrow, hflag⟩ | hmark
        · exact .inl ⟨row, (getElem?_append_left (hlt id hid)).trans hrow, hflag⟩
        · exact .inr hmark
      unapplied := hs.unapplied }

theorem step {act : ApprovalAction} (horder : s.InOrder act) : s.Follows (s.step cfg act) := by
  cases act with
  | create action requestedBy custom now => exact hs.create
  | approve id adminId now roleAllowed => exact hs.approveRequest
  | reject id adminId => exact hs.rejectRequest
  | retry id => exact hs.retryExecution horder
  | expireStalePending now => exact hs.expireStalePending
  | work t answer =>
    simp only [ApprovalState.step]
    split
    · rename_i stage hstage
      exact hs.workOn hstage (horder stage hstage)
    · exact hs.refl
  | crash t =>
    cases hstage : s.calls[t]? with
    | some stage => exact hs.finish hstage (horder stage hstage)
    | none =>
      have hsame : s.step cfg (.crash t) = s := by
        rw [ApprovalState.step, ApprovalState.goOn,
          set_eq_of_length_le (getElem?_eq_none_iff.mp hstage)]
      rw [hsame]
      exact hs.refl
  | decideWithdrawal withdrawalId =>
    exact { hs with keeps := keepsDecisions_of_requests_eq rfl }

end Orderly

/-- No action takes effect twice, and what was decided before the rest of the run stays so. -/
def Final (cfg : ApprovalConfig) (pendingApproval : PendingWithdrawalId → Bool)
    (acts rest : List ApprovalAction) : Prop :=
  (run cfg pendingApproval (acts ++ rest)).applied.Nodup ∧
    (run cfg pendingApproval acts).KeepsDecisions (run cfg pendingApproval (acts ++ rest))

/-- In a run in order, an action takes effect at most once and decisions are final. -/
theorem decisions_final (cfg : ApprovalConfig) (pendingApproval : PendingWithdrawalId → Bool)
    (acts rest : List ApprovalAction)
    (horder : Along (step cfg) InOrder (init pendingApproval) (acts ++ rest)) :
    Final cfg pendingApproval acts rest := by
  obtain ⟨hacts, hrest⟩ := along_append.mp horder
  have hs := hacts.invariant (P := Orderly) (orderly_init pendingApproval)
    fun _ _ hs hact => (hs.step hact).toOrderly
  have h := hrest.invariant (P := (run cfg pendingApproval acts).Follows) hs.refl
    fun _ _ h hact => h.trans (h.step hact)
  have hrun : run cfg pendingApproval (acts ++ rest) =
      rest.foldl (step cfg) (run cfg pendingApproval acts) := foldl_append
  exact ⟨hrun ▸ h.nodup, hrun ▸ h.keeps⟩

def twoApprovals : ApprovalConfig := ⟨true, 2, 1000⟩

def sampleCredit : ManualCredit := ⟨"user", "USDT", some 50, "goodwill credit", ""⟩

def retriedRun : List ApprovalAction :=
  [.create (.manualCredit sampleCredit) 0 none 0, .approve 0 1 2000 true, .work 0 .ok,
    .approve 0 2 2000 true, .work 1 .ok, .work 1 .ok, .work 1 .error, .work 1 .ok,
    .retry 0, .work 2 .ok, .work 2 .ok, .work 2 .ok, .retry 0, .work 3 .ok, .work 3 .ok,
    .create (.manualCredit sampleCredit) 0 none 0, .reject 1 2, .work 4 .ok]

theorem retriedRun_final : Along (step twoApprovals) InOrder (init fun _ => false) retriedRun ∧
    (run twoApprovals (fun _ => false) retriedRun).applied = [0] ∧
    Final twoApprovals (fun _ => false) (retriedRun.take 8) (retriedRun.drop 8) :=
  ⟨by decide +kernel, by decide +kernel, decisions_final _ _ _ _ (by decide +kernel)⟩

def racingRun : List ApprovalAction :=
  [.create (.manualCredit sampleCredit) 0 none 0, .approve 0 1 2000 true, .work 0 .ok,
    .reject 0 4, .approve 0 2 2000 true, .approve 0 3 2000 true, .work 2 .ok, .work 3 .ok,
    .work 2 .ok, .work 3 .ok, .work 2 .ok, .work 3 .ok, .work 2 .ok, .work 3 .ok]

theorem credited_twice_and_rejected : (run twoApprovals (fun _ => false) racingRun).applied =
    [0, 0] ∧ (run twoApprovals (fun _ => false) racingRun).requests.map (·.status) = [.approved] ∧
    (run twoApprovals (fun _ => false) (racingRun ++ [.work 1 .ok])).requests.map (·.status) =
    [.rejected] ∧ ¬ Final twoApprovals (fun _ => false) racingRun [.work 1 .ok] := by
  refine ⟨by decide +kernel, by decide +kernel, by decide +kernel, fun h => ?_⟩
  exact absurd h.1 (by decide +kernel)

end ApprovalState

end MetherCEX
