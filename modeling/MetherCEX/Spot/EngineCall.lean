import MetherCEX.Spot.Consistency

/-!
# Calls of the engine

`SpotState.place` takes a call of the engine as one step.
-/

namespace MetherCEX

open Table

inductive CallProgress
  | waiting
  | committed
  | refused
  deriving DecidableEq

inductive CallResult
  | ok
  | failed (held : Bool)
  | dropped
  deriving DecidableEq

/-- A call of the engine for a forwarded order, with the events it has produced. -/
structure Call where
  forwarded : Forwarded
  progress : CallProgress
  result : Option CallResult
  events : List MatchEvent
  deriving DecidableEq

namespace Call

def id (c : Call) : OrderId := c.forwarded.order.id

def failed (c : Call) : Bool :=
  match c.result with
  | some (.failed _) => true
  | _ => false

end Call

/-- The order system with the calls of the engine, numbered as they are made. -/
structure CallState where
  spot : SpotState
  calls : List Call
  cancelled : List (OrderId × ℕ)

inductive CallAction
  | other (act : SpotAction)
  | send (i : ℕ)
  | engineCommits (k : ℕ) (clock : ℕ → ℕ)
  | engineRefuses (k : ℕ)
  | answer (k : ℕ)
  | fail (k : ℕ)
  | drop (k : ℕ)

def SpotAction.isCall : SpotAction → Bool
  | .place _ _ _ => true
  | _ => false

def SpotState.successAnswers (s : SpotState) : SpotAction → List (OrderId × ℕ)
  | .commitCancel i =>
    match s.cancelling[i]? with
    | some ⟨r, true⟩ => [(r.id, s.produced.length)]
    | _ => []
  | _ => []

namespace SpotState

def Holds (s : SpotState) (id : OrderId) : Prop := ∃ x ∈ s.engine.orders, x.id = id
  deriving Decidable

end SpotState

namespace CallState

def init : CallState := ⟨.init, [], []⟩

def send (s : CallState) (i : ℕ) : CallState :=
  match s.spot.forwarded[i]? with
  | none => s
  | some f =>
    { s with
      spot := { s.spot with forwarded := s.spot.forwarded.eraseIdx i }
      calls := s.calls ++ [⟨f, .waiting, none, []⟩] }

def engineCommits (s : CallState) (k : ℕ) (clock : ℕ → ℕ) : CallState :=
  match s.calls[k]? with
  | none => s
  | some c =>
    if c.progress = .waiting then
      { s with
        spot := s.spot.placeOnEngine clock c.forwarded.order
        calls := s.calls.set k
          { c with
            progress := .committed
            events := (s.spot.engine.placeOrder clock c.forwarded.order).2.map Prod.snd } }
    else s

def engineRefuses (s : CallState) (k : ℕ) : CallState :=
  match s.calls[k]? with
  | none => s
  | some c =>
    if c.progress = .waiting then
      { s with calls := s.calls.set k { c with progress := .refused } }
    else s

def answer (s : CallState) (k : ℕ) : CallState :=
  match s.calls[k]? with
  | none => s
  | some c =>
    if c.progress = .committed ∧ c.result = none then
      { s with calls := s.calls.set k { c with result := some .ok } }
    else s

/-- The call ends with an error for its caller, who takes the order back: the answer was
an error or was lost, or it took too long. -/
def fail (s : CallState) (k : ℕ) : CallState :=
  match s.calls[k]? with
  | none => s
  | some c =>
    if c.result = none then
      { s with
        spot := s.spot.engineFailed c.forwarded
        calls := s.calls.set k
          { c with result := some (.failed (decide (s.spot.Holds c.id))) } }
    else s

def drop (s : CallState) (k : ℕ) : CallState :=
  match s.calls[k]? with
  | none => s
  | some c =>
    if c.result = none then
      { s with calls := s.calls.set k { c with result := some .dropped } }
    else s

section Steps

variable (cfg : RouteConfig) (markets : Market → Option SpotMarket)

def other (s : CallState) (act : SpotAction) : CallState :=
  if act.isCall then s
  else
    { s with
      spot := s.spot.step cfg markets act
      cancelled := s.cancelled ++ s.spot.successAnswers act }

def step (s : CallState) : CallAction → CallState
  | .other act => s.other cfg markets act
  | .send i => s.send i
  | .engineCommits k clock => s.engineCommits k clock
  | .engineRefuses k => s.engineRefuses k
  | .answer k => s.answer k
  | .fail k => s.fail k
  | .drop k => s.drop k

def run (acts : List CallAction) : CallState := acts.foldl (step cfg markets) init

def sendNow (userId : UserId) (body : PlaceBody) (id : OrderId) (nowMs : ℕ) :
    List CallAction :=
  [.other (.check userId body), .other (.commit 0 id nowMs), .send 0]

end Steps

end CallState

/-- What no step changes in a row that the amounts of the order are computed from. -/
def OrderRow.terms (r : OrderRow) : Side × Option ℚ × Option ℚ × ℚ :=
  (r.side, r.price, r.stopPrice, r.quantity)

/-- The row `r'` comes from the row `r` by a step that neither opens it nor puts it back. -/
structure OrderRow.Follows (r' r : OrderRow) : Prop where
  id_eq : r'.id = r.id
  engine_eq : r'.matchEngineId = r.matchEngineId
  terms_eq : r'.terms = r.terms
  status : r'.status = .open ∨ r'.status = .pendingTrigger → r'.status = r.status

theorem OrderRow.Follows.refl (r : OrderRow) : r.Follows r := ⟨rfl, rfl, rfl, fun _ => rfl⟩

theorem OrderRow.Follows.trans {r r' r'' : OrderRow} (h : r''.Follows r')
    (h' : r'.Follows r) : r''.Follows r := by
  refine ⟨h.id_eq.trans h'.id_eq, h.engine_eq.trans h'.engine_eq,
    h.terms_eq.trans h'.terms_eq, fun hstatus => ?_⟩
  have heq := h.status hstatus
  rw [heq] at hstatus
  exact heq.trans (h'.status hstatus)

theorem OrderRow.addFilled_follows (r : OrderRow) (fillQty : ℚ) :
    (r.addFilled fillQty).Follows r := by
  refine ⟨rfl, rfl, rfl, fun hstatus => ?_⟩
  simp only [OrderRow.addFilled] at hstatus
  split_ifs at hstatus <;> simp at hstatus

namespace SpotState

variable {s s' : SpotState}

/-- Every row comes from a row of the same id, by a step that neither opens it nor puts it
back. -/
structure RowsFollow (s s' : SpotState) : Prop where
  ids : s'.orders.map OrderRow.id = s.orders.map OrderRow.id
  rows : ∀ r' ∈ s'.orders, ∃ r ∈ s.orders, r'.Follows r

theorem RowsFollow.of_orders_eq (h : s'.orders = s.orders) : RowsFollow s s' := by
  refine ⟨by rw [h], fun r' hr' => ⟨r', h ▸ hr', .refl r'⟩⟩

theorem RowsFollow.trans {s'' : SpotState} (h : RowsFollow s s') (h' : RowsFollow s' s'') :
    RowsFollow s s'' := by
  refine ⟨h'.ids.trans h.ids, fun r'' hr'' => ?_⟩
  obtain ⟨r', hr', hfollows'⟩ := h'.rows r'' hr''
  obtain ⟨r, hr, hfollows⟩ := h.rows r' hr'
  exact ⟨r, hr, hfollows'.trans hfollows⟩

theorem RowsFollow.updateOrder (s : SpotState) {id : OrderId} {f : OrderRow → OrderRow}
    (hf : ∀ r, (f r).Follows r) : RowsFollow s (s.updateOrder id f) := by
  refine ⟨map_id_updateOrder fun r => (hf r).id_eq, fun r' hr' => ?_⟩
  obtain ⟨r, hr, ⟨-, rfl⟩ | ⟨-, rfl⟩⟩ := mem_updateOrder hr'
  · exact ⟨r, hr, hf r⟩
  · exact ⟨r', hr, .refl r'⟩

theorem map_id_open (s : SpotState) (id : OrderId) :
    (s.updateOrder id fun r => { r with status := .open, kind := r.kind.triggered }).orders.map
      OrderRow.id = s.orders.map OrderRow.id :=
  map_id_updateOrder fun _ => rfl

/-- What a step that is not a call does to the table and to the orders to be sent: it
keeps them, stores a request, or opens a stop order. -/
inductive RowsStep (s s' : SpotState) : Prop
  | kept (follow : RowsFollow s s') (forwarded : s'.forwarded = s.forwarded)
  | stored (c : CheckedOrder) (id : OrderId) (nowMs : ℕ)
      (hnew : id ∉ s.orders.map OrderRow.id) (orders : s'.orders = s.orders ++ [c.row id])
      (forwarded : s'.forwarded =
        if c.kind.isStop then s.forwarded
        else s.forwarded ++ [⟨c.rustOrder id nowMs, none⟩])
  | opened (r : OrderRow) (nowMs : ℕ) (hr : r ∈ s.orders) (pending : r.status = .pendingTrigger)
      (orders : s'.orders = (s.updateOrder r.id fun r =>
        { r with status := .open, kind := r.kind.triggered }).orders)
      (forwarded : s'.forwarded = s.forwarded ∨
        s'.forwarded = s.forwarded ++ [⟨r.rustOrder nowMs, some r.kind⟩])

theorem RowsStep.of_eq (horders : s'.orders = s.orders) (hforwarded : s'.forwarded = s.forwarded) :
    RowsStep s s' :=
  .kept (.of_orders_eq horders) hforwarded

/-- What a step that is not a call does: it puts nothing into the book, it produces no
event, and it reads a row to cancel it or tells the engine of a cancel. -/
structure OtherStep (s : SpotState) (act : SpotAction) (s' : SpotState) : Prop where
  rows : RowsStep s s'
  resting : ∀ x ∈ s'.engine.orders, x ∈ s.engine.orders
  produced : s'.produced = s.produced
  cancelling : ∀ x ∈ s'.cancelling, x ∈ s.cancelling ∨ (∃ r ∈ s.orders, x = ⟨r, false⟩) ∨
    ∃ i r, act = .cancelOnEngine i ∧ s.cancelling[i]? = some ⟨r, false⟩ ∧ x = ⟨r, true⟩

variable {act : SpotAction}

theorem OtherStep.of_rows (h : RowsStep s s') (hengine : s'.engine = s.engine) (hproduced :
    s'.produced = s.produced) (hcancelling : s'.cancelling ⊆ s.cancelling) : OtherStep s act s' :=
  ⟨h, fun _ hx => hengine ▸ hx, hproduced, fun _ hx => .inl (hcancelling hx)⟩

theorem OtherStep.refl (s : SpotState) : OtherStep s act s :=
  .of_rows (.of_eq rfl rfl) rfl rfl (List.Subset.refl _)

theorem Change.otherStep {cfg : RouteConfig} {markets : Market → Option SpotMarket}
    (hchange : Change cfg markets s act s') (hact : act.isCall = false) : OtherStep s act s' := by
  cases hchange with
  | same => exact .refl s
  | checked | killed => exact .of_rows (.of_eq rfl rfl) rfl rfl (List.Subset.refl _)
  | @stored i id nowMs c _ hnew =>
    exact .of_rows (.stored c id nowMs hnew rfl rfl) rfl rfl (List.Subset.refl _)
  | placed | refused | lost => cases hact
  | trailed =>
    exact .of_rows (.kept (.updateOrder s fun r => ⟨rfl, rfl, rfl, fun _ => rfl⟩) rfl) rfl rfl
      (List.Subset.refl _)
  | opened hr hpending hforwarded =>
    exact .of_rows (.opened _ _ hr hpending rfl (hforwarded.imp_right And.right)) rfl rfl
      (List.Subset.refl _)
  | read hr =>
    refine ⟨.of_eq rfl rfl, fun x hx => hx, rfl, forall_mem_concat (fun x hx => .inl hx) ?_⟩
    exact .inr (.inl ⟨_, hr, rfl⟩)
  | told hget =>
    refine ⟨.of_eq rfl rfl, fun x hx => Consistent.mem_of_mem_told hx, rfl,
      forall_mem_set (fun x hx => .inl hx) ?_⟩
    exact .inr (.inr ⟨_, _, rfl, hget, rfl⟩)
  | @cancelled i r _ =>
    have herased : RowsFollow s { s with cancelling := s.cancelling.eraseIdx i } :=
      .of_orders_eq rfl
    apply OtherStep.of_rows (.kept (herased.trans (.updateOrder _ fun r => ?_)) rfl) rfl rfl
      List.eraseIdx_subset
    exact ⟨rfl, rfl, rfl, fun h => by simp at h⟩
  | @settled i ev m _ _ =>
    have herased : RowsFollow s { s with unsettled := s.unsettled.eraseIdx i } :=
      .of_orders_eq rfl
    apply OtherStep.of_rows (.kept (herased.trans (.trans (.updateOrder _ ?_)
      (.updateOrder _ ?_))) rfl) rfl rfl (List.Subset.refl _)
    · exact fun r => r.addFilled_follows _
    · exact fun r => r.addFilled_follows _

theorem otherStep (s : SpotState) (cfg : RouteConfig) (markets : Market → Option SpotMarket)
    (hact : act.isCall = false) : OtherStep s act (s.step cfg markets act) :=
  (s.change_of_step cfg markets act).otherStep hact

/-- What a caller does to the table after a failure: the rows follow, except that the stop
service may put back the row of its order. -/
theorem mem_engineFailed {f : Forwarded} {r' : OrderRow} (h : r' ∈ (s.engineFailed f).orders) :
    ∃ r ∈ s.orders, r'.Follows r ∨ f.restore ≠ none ∧
    r.id = f.order.id ∧ r.status = .open ∧ r'.id = r.id ∧ r'.matchEngineId = r.matchEngineId := by
  obtain ⟨g, hg, heq⟩ := s.engineFailed_eq f
  rw [heq] at h
  obtain ⟨r, hr, ⟨hid, rfl⟩ | ⟨-, rfl⟩⟩ := mem_updateOrder h
  · have hback := hg r
    generalize g r = r' at hback ⊢
    refine ⟨r, hr, ?_⟩
    cases hback with
    | kept => exact .inl (.refl r)
    | cancelled => exact .inl ⟨rfl, rfl, rfl, fun h => by simp at h⟩
    | waits hstop hopen => exact .inr ⟨by simp [hstop], hid, hopen, rfl, rfl⟩
  · exact ⟨r', hr, .inl (.refl r')⟩

theorem ids_engineFailed (s : SpotState) (f : Forwarded) :
    (s.engineFailed f).orders.map OrderRow.id = s.orders.map OrderRow.id := by
  obtain ⟨g, hg, heq⟩ := s.engineFailed_eq f
  rw [heq]
  exact map_id_updateOrder fun r => (hg r).id_eq

end SpotState

namespace CallState

/-- What a step does to the calls: nothing, as a step that is not a call; it sends an
order; the engine commits a call; a call moves on with the engine or ends without its order
being taken back; or it fails. -/
inductive CallStep (cfg : RouteConfig) (markets : Market → Option SpotMarket) (s : CallState) :
    CallAction → CallState → Prop
  | same (act : CallAction) : CallStep cfg markets s act s
  | other (act : SpotAction) (hact : act.isCall = false) :
      CallStep cfg markets s (.other act)
        { s with
          spot := s.spot.step cfg markets act
          cancelled := s.cancelled ++ s.spot.successAnswers act }
  | sent (i : ℕ) (f : Forwarded) (hget : s.spot.forwarded[i]? = some f) :
      CallStep cfg markets s (.send i)
        { s with
          spot := { s.spot with forwarded := s.spot.forwarded.eraseIdx i }
          calls := s.calls ++ [⟨f, .waiting, none, []⟩] }
  | committed (k : ℕ) (clock : ℕ → ℕ) (c c' : Call) (hget : s.calls[k]? = some c)
      (hwaiting : c.progress = .waiting) (hforwarded : c'.forwarded = c.forwarded)
      (hprogress : c'.progress = .committed) (hresult : c'.result = c.result) :
      CallStep cfg markets s (.engineCommits k clock)
        { s with
          spot := s.spot.placeOnEngine clock c.forwarded.order
          calls := s.calls.set k c' }
  | moved (act : CallAction) (k : ℕ) (c c' : Call) (hget : s.calls[k]? = some c)
      (hforwarded : c'.forwarded = c.forwarded) (hevents : c'.events = c.events)
      (hprogress : c'.progress = c.progress ∨ c.progress = .waiting ∧ c'.progress = .refused)
      (hresult : c'.result = c.result ∨ c.result = none ∧ c'.failed = false) :
      CallStep cfg markets s act { s with calls := s.calls.set k c' }
  | failed (k : ℕ) (c c' : Call) (hget : s.calls[k]? = some c) (hopen : c.result = none)
      (hforwarded : c'.forwarded = c.forwarded) (hevents : c'.events = c.events)
      (hprogress : c'.progress = c.progress)
      (hresult : c'.result = some (.failed (decide (s.spot.Holds c.id)))) :
      CallStep cfg markets s (.fail k)
        { s with spot := s.spot.engineFailed c.forwarded, calls := s.calls.set k c' }

theorem callStep (cfg : RouteConfig) (markets : Market → Option SpotMarket) (s : CallState)
    (act : CallAction) : CallStep cfg markets s act (s.step cfg markets act) := by
  cases act with
  | other act =>
    simp only [step, other]
    split_ifs with hact
    · exact .same _
    · exact .other act (Bool.eq_false_of_not_eq_true hact)
  | send i =>
    simp only [step, send]
    split
    case h_1 => exact .same _
    case h_2 f hget => exact .sent i f hget
  | engineCommits k clock =>
    simp only [step, engineCommits]
    split
    case h_1 => exact .same _
    case h_2 c hget =>
      split_ifs with hwaiting
      · exact .committed k clock c _ hget hwaiting rfl rfl rfl
      · exact .same _
  | engineRefuses k =>
    simp only [step, engineRefuses]
    split
    case h_1 => exact .same _
    case h_2 c hget =>
      split_ifs with hwaiting
      · exact .moved _ k c _ hget rfl rfl (.inr ⟨hwaiting, rfl⟩) (.inl rfl)
      · exact .same _
  | answer k =>
    simp only [step, answer]
    split
    case h_1 => exact .same _
    case h_2 c hget =>
      split_ifs with hanswer
      · exact .moved _ k c _ hget rfl rfl (.inl rfl) (.inr ⟨hanswer.2, rfl⟩)
      · exact .same _
  | fail k =>
    simp only [step, fail]
    split
    case h_1 => exact .same _
    case h_2 c hget =>
      split_ifs with hopen
      · exact .failed k c _ hget hopen rfl rfl rfl rfl
      · exact .same _
  | drop k =>
    simp only [step, drop]
    split
    case h_1 => exact .same _
    case h_2 c hget =>
      split_ifs with hopen
      · exact .moved _ k c _ hget rfl rfl (.inl rfl) (.inr ⟨hopen, rfl⟩)
      · exact .same _

/-- What the programs do in a call that nothing comes between, by its answer. -/
def callSteps (i k : ℕ) (clock : ℕ → ℕ) : EngineAnswer → List CallAction
  | .ok => [.send i, .engineCommits k clock, .answer k]
  | .refused => [.send i, .engineRefuses k, .fail k]
  | .lost => [.send i, .engineCommits k clock, .fail k]

theorem spot_callSteps (cfg : RouteConfig) (markets : Market → Option SpotMarket)
    (s : CallState) {i : ℕ} {f : Forwarded} (hget : s.spot.forwarded[i]? = some f)
    (clock : ℕ → ℕ) (answer : EngineAnswer) : ((callSteps i s.calls.length clock answer).foldl
    (step cfg markets) s).spot = s.spot.place i clock answer := by
  cases answer <;>
    simp [callSteps, step, send, hget, engineCommits, engineRefuses, CallState.answer, fail,
      SpotState.place]

theorem exists_spot_step (cfg : RouteConfig) (markets : Market → Option SpotMarket)
    (s : CallState) (act : SpotAction) : ∃ acts : List CallAction,
    (acts.foldl (step cfg markets) s).spot = s.spot.step cfg markets act := by
  by_cases hact : act.isCall = true
  · cases act with
    | place i clock answer =>
      cases hget : s.spot.forwarded[i]? with
      | none => exact ⟨[], by simp [SpotState.step, SpotState.place, hget]⟩
      | some f => exact ⟨_, spot_callSteps cfg markets s hget clock answer⟩
    | _ => cases hact
  · exact ⟨[.other act], by simp [step, other, hact]⟩

theorem exists_spot_run (cfg : RouteConfig) (markets : Market → Option SpotMarket) (acts :
    List SpotAction) : ∃ calls, (run cfg markets calls).spot = SpotState.run cfg markets acts := by
  induction acts using List.reverseRecOn with
  | nil => exact ⟨[], rfl⟩
  | append_singleton acts act ih =>
    obtain ⟨calls, hcalls⟩ := ih
    obtain ⟨more, hmore⟩ := exists_spot_step cfg markets (run cfg markets calls) act
    refine ⟨calls ++ more, ?_⟩
    rw [run, List.foldl_append, SpotState.run, List.foldl_append]
    exact hmore.trans (congrArg (fun s : SpotState => s.step cfg markets act) hcalls)

end CallState

end MetherCEX
