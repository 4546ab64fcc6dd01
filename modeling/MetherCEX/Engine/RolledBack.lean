import Mathlib.Data.List.ReduceOption
import MetherCEX.Engine.CounterWrap

/-!
# What a failed callback leaves behind

A placement whose callback fails leaves the books, the buffer and the applied ids as they were;
what it costs is the ids it had drawn.
-/

namespace MetherCEX

open List Engine

theorem Engine.placeGuarded_ok_or_error {ε : Type} (e : Engine) (now : ℕ → ℕ)
    (o : Order) (guard : List (ℕ × MatchEvent) → Except ε Unit) : e.placeGuarded now o guard =
    ((e.placeOrder now o).1, .ok (e.placeOrder now o).2) ∨ ∃ err, e.placeGuarded now o guard =
    ((e.fetchAdd (e.trialMatch now o).1.length).enterMarket o.market, .error err) := by
  by_cases hok : e.pendingPairs now o ≠ [] → guard (e.pendingPairs now o) = .ok ()
  · exact .inl (placeGuarded_of_ok now _ hok)
  · obtain ⟨hne, hguard⟩ := Classical.not_imp.mp hok
    rcases e.placeGuarded_cases now o guard with ⟨hnil, -⟩ | ⟨err, -, herr⟩ | ⟨hgood, -⟩
    · exact absurd hnil hne
    · exact .inr ⟨err, herr⟩
    · exact absurd hgood hguard

namespace PlacePath

variable {ε : Type}

theorem call_cases (e : Engine) (now : ℕ → ℕ) (o : Order) (path : PlacePath ε) :
    path.call e now o = ((e.placeOrder now o).1, some (e.placeOrder now o).2) ∨ path.call e now o =
    ((e.fetchAdd (e.trialMatch now o).1.length).enterMarket o.market, none) := by
  cases path with
  | placeOrder => exact .inl rfl
  | commitAfterPublish publish =>
    rcases e.placeGuarded_ok_or_error now o publish with h | ⟨err, h⟩
    · exact .inl (by rw [call, placeOrderCommitAfterPublish, h]; rfl)
    · exact .inr (by rw [call, placeOrderCommitAfterPublish, h]; rfl)
  | walThenCommitBook walPreCommit =>
    rcases e.placeGuarded_ok_or_error now o walPreCommit with h | ⟨err, h⟩
    · exact .inl (by rw [call, placeOrderWalThenCommitBook, h]; rfl)
    · exact .inr (by rw [call, placeOrderWalThenCommitBook, h]; rfl)
  | walPublishCommitBook walPreCommit publish =>
    rcases e.placeGuarded_ok_or_error now o
      (fun pairs => do walPreCommit pairs; publish pairs) with h | ⟨err, h⟩
    · exact .inl (by rw [call, placeOrderWalPublishCommitBook, h]; rfl)
    · exact .inr (by rw [call, placeOrderWalPublishCommitBook, h]; rfl)

/-- The same variant, with callbacks that return `Ok`. -/
def answered : PlacePath ε → PlacePath ε
  | .placeOrder => .placeOrder
  | .commitAfterPublish _ => .commitAfterPublish fun _ => .ok ()
  | .walThenCommitBook _ => .walThenCommitBook fun _ => .ok ()
  | .walPublishCommitBook _ _ => .walPublishCommitBook (fun _ => .ok ()) fun _ => .ok ()

theorem call_answered (e : Engine) (now : ℕ → ℕ) (o : Order) (path : PlacePath ε) :
    path.answered.call e now o = ((e.placeOrder now o).1, some (e.placeOrder now o).2) := by
  apply call_of_succeeds
  intro _
  cases path with
  | placeOrder => trivial
  | commitAfterPublish publish => rfl
  | walThenCommitBook walPreCommit => rfl
  | walPublishCommitBook walPreCommit publish => exact ⟨rfl, rfl⟩

end PlacePath

/-- The calls without the placements that fail; the others have callbacks that return
`Ok`. -/
def survivors {ε : Type} (e : Engine) : List (PathOp ε) → List (PathOp ε)
  | [] => []
  | .place path now o :: ops =>
    let (e', answer) := path.call e now o
    match answer with
    | some _ => .place path.answered now o :: survivors e' ops
    | none => survivors e' ops
  | .cancel orderId :: ops => .cancel orderId :: survivors (e.cancelOrder orderId) ops

/-- For every placement whether it survives, and the number of fills it attempts. -/
def placementAttempts {ε : Type} (e : Engine) : List (PathOp ε) → List (Bool × ℕ)
  | [] => []
  | .place path now o :: ops =>
    let (e', answer) := path.call e now o
    (answer.isSome, (e.trialMatch now o).1.length) :: placementAttempts e' ops
  | .cancel orderId :: ops => placementAttempts (e.cancelOrder orderId) ops

/-- The ids that placements get when the counter shows `next` at first: every attempted
fill draws one, and a failed placement returns none of them. -/
def drawnIds (next : ℕ) : List (Bool × ℕ) → List (Option (List ℕ))
  | [] => []
  | (true, n) :: rest => some (List.range' next n) :: drawnIds (next + n) rest
  | (false, n) :: rest => none :: drawnIds (next + n) rest

theorem le_of_mem_drawnIds {next : ℕ} {placements : List (Bool × ℕ)} :
    ∀ ids, some ids ∈ drawnIds next placements → ∀ k ∈ ids, next ≤ k := by
  induction placements generalizing next with
  | nil => exact nofun
  | cons placement rest ih =>
    obtain ⟨survives, n⟩ := placement
    intro ids hids k hk
    have hrest : some ids ∈ drawnIds (next + n) rest → next ≤ k := fun h =>
      (Nat.le_add_right _ _).trans (ih ids h k hk)
    cases survives with
    | true =>
      rcases mem_cons.mp hids with heq | h
      · cases heq
        exact (mem_range'_1.mp hk).1
      · exact hrest h
    | false => exact hrest ((mem_cons.mp hids).resolve_left (by simp))

theorem pairwise_drawnIds (next : ℕ) (placements : List (Bool × ℕ)) :
    ((drawnIds next placements).reduceOption.flatten).Pairwise (· < ·) := by
  induction placements generalizing next with
  | nil => exact List.Pairwise.nil
  | cons placement rest ih =>
    obtain ⟨survives, n⟩ := placement
    cases survives with
    | false => exact ih (next + n)
    | true =>
      rw [drawnIds, List.reduceOption_cons_of_some, List.flatten_cons]
      refine pairwise_append.mpr ⟨pairwise_lt_range', ih (next + n), ?_⟩
      intro k hk k' hk'
      obtain ⟨ids, hids, hmem⟩ := mem_flatten.mp hk'
      have hle := le_of_mem_drawnIds ids (List.reduceOption_mem_iff.mp hids) k' hmem
      have hlt := (mem_range'_1.mp hk).2
      omega

namespace PathTrace

variable {ε : Type} {s s' : PathTrace} {ρ : ℕ → ℕ}

def ids (s : PathTrace) : List (Option (List ℕ)) :=
  s.answers.map (Option.map fun pairs => pairs.map Prod.fst)

def IdsLeft (s : PathTrace) : PathOp ε → Prop
  | .place _ now o =>
    s.engine.nextEventId + (s.engine.trialMatch now o).1.length < usizeBound
  | .cancel _ => True

instance (s : PathTrace) (op : PathOp ε) : Decidable (IdsLeft s op) := by
  cases op <;> dsimp only [IdsLeft] <;> infer_instance

theorem foldl_survivors_sameBooks (ops : List (PathOp ε)) (h : s.engine.SameBooks s'.engine) :
    (ops.foldl step s).engine.SameBooks ((survivors s.engine ops).foldl step s').engine := by
  induction ops generalizing s s' with
  | nil => exact h
  | cons op ops ih =>
    cases op with
    | cancel orderId => exact ih (h.cancelOrder orderId)
    | place path now o =>
      rw [foldl_cons, survivors]
      rcases path.call_cases s.engine now o with hcall | hcall
      · rw [step, hcall]
        refine ih ?_
        rw [step, path.call_answered]
        exact h.placeOrder now o
      · rw [step, hcall]
        exact ih fun market => (Engine.SameBooks.failed _ _ _ market).trans (h market)

structure Renamed (ρ : ℕ → ℕ) (s s' : PathTrace) : Prop where
  strictMono : StrictMono ρ
  matchEvents : ∀ hρ : StrictMono ρ, s.engine.matchEvents = s'.engine.matchEvents.mapKeys ρ hρ
  applied : s.engine.bookAppliedMatchEventIds = s'.engine.bookAppliedMatchEventIds.map ρ
  answers : s.answers.reduceOption =
    s'.answers.reduceOption.map (Engine.renamePairs ρ)

structure Survived (ρ : ℕ → ℕ) (s s' : PathTrace) : Prop where
  books : s.engine.SameBooks s'.engine
  renumbered : Engine.Renumbered ρ s.engine s'.engine
  answers : s.answers.reduceOption =
    s'.answers.reduceOption.map (Engine.renamePairs ρ)
  answers_lt : ∀ pairs ∈ s'.answers.reduceOption, ∀ p ∈ pairs, p.1 < s'.engine.nextEventId

namespace Survived

variable (h : Survived ρ s s')

include h

theorem renamed : Renamed ρ s s' :=
  ⟨h.renumbered.shift.strictMono, h.renumbered.matchEvents, h.renumbered.applied, h.answers⟩

theorem cancel (orderId : OrderId) :
    Survived ρ { s with engine := s.engine.cancelOrder orderId }
      { s' with engine := s'.engine.cancelOrder orderId } :=
  ⟨h.books.cancelOrder orderId, h.renumbered.cancelOrder orderId, h.answers, h.answers_lt⟩

theorem idsLeft {now : ℕ → ℕ} {o : Order}
    (hbound : s.engine.nextEventId + (s.engine.trialMatch now o).1.length < usizeBound) :
    s'.engine.nextEventId + (s'.engine.trialMatch now o).1.length < usizeBound := by
  have hle := h.renumbered.shift.le_next
  rw [← h.books.trialMatch_eq now o]
  omega

theorem place {now : ℕ → ℕ} {o : Order}
    (hbound : s.engine.nextEventId + (s.engine.trialMatch now o).1.length < usizeBound) :
    Survived ρ ⟨(s.engine.placeOrder now o).1, s.answers ++ [some (s.engine.placeOrder now o).2]⟩
    ⟨(s'.engine.placeOrder now o).1, s'.answers ++ [some (s'.engine.placeOrder now o).2]⟩ := by
  have hmatch := h.books.trialMatch_eq now o
  obtain ⟨hrenumbered, hpairs⟩ := h.renumbered.placeOrder hmatch hbound
  have hbound' := h.idsLeft hbound
  refine ⟨h.books.placeOrder now o, hrenumbered, ?_, ?_⟩
  · simp only [List.reduceOption_append, map_append, h.answers]
    rw [hpairs]
    rfl
  · intro pairs hmem p hp
    change p.1 < (s'.engine.placeOrder now o).1.nextEventId
    rw [nextEventId_placeOrder _ _ _ hbound']
    rw [List.reduceOption_append, mem_append] at hmem
    rcases hmem with hold | hnew
    · exact (h.answers_lt pairs hold p hp).trans_le (Nat.le_add_right _ _)
    · obtain rfl : pairs = (s'.engine.placeOrder now o).2 := mem_singleton.mp hnew
      exact (mem_numberEvents hp hbound').2

theorem failed {n : ℕ} (hbound : s.engine.nextEventId + n < usizeBound) (market : Market) :
    ∃ ρ', Survived ρ' ⟨(s.engine.fetchAdd n).enterMarket market, s.answers ++ [none]⟩ s' := by
  obtain ⟨ρ', hsame, hrenumbered⟩ := h.renumbered.failed hbound market
  refine ⟨ρ', fun m => (Engine.SameBooks.failed _ _ _ m).trans (h.books m), hrenumbered, ?_,
    h.answers_lt⟩
  have hnone : (s.answers ++ [none]).reduceOption = s.answers.reduceOption := by
    simp [List.reduceOption_append]
  rw [hnone, h.answers]
  refine map_congr_left fun pairs hpairs => map_congr_left fun p hp => ?_
  rw [hsame p.1 (h.answers_lt pairs hpairs p hp)]

end Survived

theorem foldl_survivors (ops : List (PathOp ε)) (h : Survived ρ s s') (hids : Run.Along step IdsLeft
    s ops) : (∃ ρ', Survived ρ' (ops.foldl step s) ((survivors s.engine ops).foldl step s')) ∧
    Run.Along step IdsLeft s' (survivors s.engine ops) := by
  induction ops generalizing s s' ρ with
  | nil => exact ⟨⟨ρ, h⟩, trivial⟩
  | cons op ops ih =>
    obtain ⟨hleft, hids⟩ := hids
    cases op with
    | cancel orderId =>
      obtain ⟨hsurvived, hrest⟩ := ih (h.cancel orderId) hids
      exact ⟨hsurvived, trivial, hrest⟩
    | place path now o =>
      rw [foldl_cons, survivors]
      rcases path.call_cases s.engine now o with hcall | hcall
      · rw [step, hcall] at hids ⊢
        obtain ⟨hsurvived, hrest⟩ := ih (h.place hleft) hids
        refine ⟨?_, h.idsLeft hleft, ?_⟩
        · rw [foldl_cons, step, path.call_answered]
          exact hsurvived
        · rw [step, path.call_answered]
          exact hrest
      · rw [step, hcall] at hids ⊢
        obtain ⟨ρ', hfailed⟩ := h.failed hleft o.market
        exact ih hfailed hids

/-- The ids of a run: each placement gets as many as it has fills, after those that were
drawn before it. -/
theorem ids_foldl (ops : List (PathOp ε)) (hids : Run.Along step IdsLeft s ops) : (ops.foldl
    step s).ids = s.ids ++ drawnIds s.engine.nextEventId (placementAttempts s.engine ops) := by
  induction ops generalizing s with
  | nil => simp [placementAttempts, drawnIds]
  | cons op ops ih =>
    obtain ⟨hleft, hids⟩ := hids
    rw [foldl_cons, ih hids]
    cases op with
    | cancel orderId => rfl
    | place path now o =>
      rw [placementAttempts]
      rcases path.call_cases s.engine now o with hcall | hcall
      · rw [step, hcall]
        dsimp only
        have hfst : (s.engine.placeOrder now o).2.map Prod.fst =
            List.range' s.engine.nextEventId (s.engine.trialMatch now o).1.length :=
          numberEvents_fst hleft
        rw [nextEventId_placeOrder _ _ _ hleft, Option.isSome_some, drawnIds, ids,
          ids, map_append, append_assoc, map_singleton, Option.map_some,
          hfst]
        rfl
      · rw [step, hcall]
        have hnext : ((s.engine.fetchAdd (s.engine.trialMatch now o).1.length).enterMarket
            o.market).nextEventId =
              s.engine.nextEventId + (s.engine.trialMatch now o).1.length :=
          Nat.mod_eq_of_lt hleft
        dsimp only
        rw [hnext, Option.isSome_none, drawnIds, ids, ids, map_append,
          append_assoc, map_singleton, Option.map_none]
        rfl

theorem placementAttempts_survivors (ops : List (PathOp ε)) {e e' : Engine} (h : e.SameBooks e') :
    placementAttempts e' (survivors e ops) = (placementAttempts e ops).filter Prod.fst := by
  induction ops generalizing e e' with
  | nil => rfl
  | cons op ops ih =>
    cases op with
    | cancel orderId => exact ih (h.cancelOrder orderId)
    | place path now o =>
      rw [survivors, placementAttempts]
      rcases path.call_cases e now o with hcall | hcall
      · rw [hcall]
        dsimp only
        rw [placementAttempts, path.call_answered]
        dsimp only
        rw [ih (h.placeOrder now o), h.trialMatch_eq now o]
        rfl
      · rw [hcall]
        exact ih fun market => (Engine.SameBooks.failed _ _ _ market).trans (h market)

end PathTrace

open PathTrace in
/-- A failing callback rolls back in memory and costs only ids. Run a sequence of
placements, any of which may fail, and cancellations, and run it again without the
placements that failed. The books are the same. As long as the counter of ids does not
wrap, a strictly increasing renaming of ids takes the buffer, the applied ids and the
returned events of the second run to those of the first; the returned ids increase, and a
placement gets the ids after all those that were attempted before it, so that a failed one
leaves a gap of the number of fills it attempted. -/
theorem failedPlacements_cost_ids {ε : Type} (ops : List (PathOp ε)) : (run ops).engine.SameBooks
    (run (survivors Engine.new ops)).engine ∧ (Run.Along step IdsLeft init ops → (∃ ρ, Renamed
    ρ (run ops) (run (survivors Engine.new ops))) ∧ (run ops).ids.reduceOption.flatten.Pairwise (· <
    ·) ∧ (run ops).ids = drawnIds 1 (placementAttempts Engine.new ops) ∧ (run (survivors
    Engine.new ops)).ids = drawnIds 1 ((placementAttempts Engine.new ops).filter Prod.fst)) := by
  refine ⟨foldl_survivors_sameBooks ops fun _ => rfl, fun hids => ?_⟩
  have hrun : (run ops).ids = drawnIds 1 (placementAttempts Engine.new ops) := ids_foldl ops hids
  have hsurvived : Survived id init init :=
    ⟨fun _ => rfl, .new, rfl, nofun⟩
  obtain ⟨⟨ρ, hρ⟩, hleft⟩ := foldl_survivors ops hsurvived hids
  refine ⟨⟨ρ, hρ.renamed⟩, hrun ▸ pairwise_drawnIds _ _, hrun, ?_⟩
  rw [← placementAttempts_survivors ops fun _ => rfl]
  exact ids_foldl _ hleft

/-- A sell, a buy whose publication fails, the same buy again, and a cancellation: the
event of the second buy has the id 2. -/
def retriedRun : List (PathOp String) :=
  [.place (.commitAfterPublish fun _ => .ok ()) noClock (unitSell "BTC_USDT" 1),
    .place (.commitAfterPublish fun _ => .error "publish failed") noClock (unitBuy "BTC_USDT" 2),
    .place (.walThenCommitBook fun _ => .ok ()) noClock (unitBuy "BTC_USDT" 2),
    .cancel 7]

theorem retriedRun_ids : (PathTrace.run retriedRun).ids = [some [], none, some [2]] ∧
    (PathTrace.run retriedRun).ids = drawnIds 1 (placementAttempts Engine.new retriedRun) ∧
    (PathTrace.run (survivors Engine.new retriedRun)).ids =
    drawnIds 1 ((placementAttempts Engine.new retriedRun).filter Prod.fst) := by
  have hids : Run.Along PathTrace.step PathTrace.IdsLeft PathTrace.init retriedRun := by
    decide +kernel
  obtain ⟨-, -, hrun, hsurvivors⟩ := (failedPlacements_cost_ids retriedRun).2 hids
  exact ⟨by decide +kernel, hrun, hsurvivors⟩

def EngineOp.via {ε : Type} (path : PlacePath ε) : EngineOp → PathOp ε
  | .place now o => .place path now o
  | .cancel orderId => .cancel orderId

theorem PathTrace.foldl_via {ε : Type} (path : PlacePath ε) (ops : List EngineOp) {s : PathTrace}
    {t : EngineTrace} (hengine : s.engine = t.engine) (hreturned : s.answers.reduceOption.flatten =
    t.returned) : ((ops.map (EngineOp.via path.answered)).foldl step s).engine =
    (ops.foldl EngineTrace.step t).engine ∧ ((ops.map (EngineOp.via path.answered)).foldl
    step s).answers.reduceOption.flatten = (ops.foldl EngineTrace.step t).returned := by
  induction ops generalizing s t with
  | nil => exact ⟨hengine, hreturned⟩
  | cons op ops ih =>
    cases op with
    | cancel orderId => exact ih (congrArg (cancelOrder · orderId) hengine) hreturned
    | place now o =>
      rw [map_cons, foldl_cons, foldl_cons, EngineOp.via, step,
        path.call_answered, hengine]
      refine ih rfl ?_
      simp [List.reduceOption_append, hreturned, EngineTrace.step]

def publishedTrades (n : ℕ) : List (PathOp String) :=
  (unitTrades "BTC_USDT" 1 n).map (EngineOp.via (.commitAfterPublish fun _ => .ok ()))

theorem ids_publishedTrades (n : ℕ) : (PathTrace.run (publishedTrades n)).ids.reduceOption.flatten =
    (List.range n).map fun k => (1 + k) % usizeBound := by
  have hvia := PathTrace.foldl_via (.commitAfterPublish fun _ => .ok () : PlacePath String)
    (unitTrades "BTC_USDT" 1 n) (s := PathTrace.init) (t := ⟨Engine.new, []⟩) rfl rfl
  obtain ⟨pairs, hreturned, hids, -⟩ := (EngineTrace.unitTrades_run 1 n
    (s := ⟨Engine.new, []⟩) rfl (by decide)).returned
  rw [PathTrace.ids, List.reduceOption_map]
  change ((PathTrace.run (publishedTrades n)).answers.reduceOption.map
    (List.map Prod.fst)).flatten = _
  rw [← map_flatten]
  exact (congrArg (List.map Prod.fst) (hvia.2.trans hreturned)).trans hids

/-- After `2 ^ 64` trades the ids have started again. -/
theorem wrappedRun_ids :
    ¬(PathTrace.run (publishedTrades usizeBound)).ids.reduceOption.flatten.Pairwise
      (· < ·) := by
  rw [ids_publishedTrades]
  intro h
  have hlt := pairwise_iff_getElem.mp h (usizeBound - 2) (usizeBound - 1)
    (by simp [usizeBound]) (by simp [usizeBound]) (by simp [usizeBound])
  simp [usizeBound] at hlt

end MetherCEX
