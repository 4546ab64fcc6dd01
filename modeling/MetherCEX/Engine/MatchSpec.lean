import MetherCEX.Lib.GreedyFill
import MetherCEX.Engine.Fills
import MetherCEX.Engine.OrderBook

/-!
# The matching loop is a greedy fill

The loop searches a side that it changes while it searches.
-/

namespace MetherCEX

open List GreedyFill SortedMap Order

section MatchLoop

variable {K : Type} [LinearOrder K]

variable {maker : Order} {key : K} {m : SortedMap K Order}

variable (hid : (m.values.map Order.id).Nodup)

include hid

theorem fst_eq_iff_id_eq (hmem : (key, maker) ∈ m.entries) {e : K × Order} (he : e ∈ m.entries) :
    e.1 = key ↔ e.2.id = maker.id := by
  constructor
  · intro h
    rw [eq_of_mem_of_fst_eq he hmem h]
  · intro h
    rw [values, map_map] at hid
    rw [List.inj_on_of_nodup_map hid he hmem h]

theorem values_eq_of_id_eq {x y : Order} (hx : x ∈ m.values) (hy : y ∈ m.values) (h : x.id = y.id) :
    x = y :=
  List.inj_on_of_nodup_map hid hx hy h

theorem values_remove (hmem : (key, maker) ∈ m.entries) :
    (m.remove key).values = m.values.filter fun x => decide (x.id ≠ maker.id) := by
  rw [values, values, filter_map]
  congr 1
  refine filter_congr fun e he => ?_
  simp [fst_eq_iff_id_eq hid hmem he]

theorem values_insert (hmem : (key, maker) ∈ m.entries) (o : Order) :
    (m.insert key o).values = m.values.map fun x => if x.id = maker.id then o else x := by
  rw [values_insert_of_mem hmem, values, map_map]
  refine map_congr_left fun e he => ?_
  simp [fst_eq_iff_id_eq hid hmem he]

theorem find?_id {o : Order} (hmem : (key, o) ∈ m.entries) :
    m.find? (fun x => decide (x.id = o.id)) = some (key, o) := by
  obtain ⟨e, he⟩ := find?_isSome_of_mem (p := fun x => decide (x.id = o.id))
    (mem_values.mpr ⟨key, hmem⟩) (by simp)
  have hmem' := SortedMap.mem_of_find?_eq_some he
  have hkey := (fst_eq_iff_id_eq hid hmem hmem').mpr (by simpa using SortedMap.find?_some he)
  rw [he, SortedMap.eq_of_mem_of_fst_eq hmem' hmem hkey]

theorem values_rest {o : Order} (hmem : (key, o) ∈ m.entries) (r : Quantity) :
    (if 0 < r then (m.remove key).insert key (o.withRemaining r) else m.remove key).values =
      applyFills [(o, o.remaining - r)] m.values := by
  have heq : ∀ x ∈ m.values, x.id = o.id → x = o := fun x hx =>
    values_eq_of_id_eq hid hx (mem_values.mpr ⟨key, hmem⟩)
  have hrest : ∀ x ∈ m.values, x.id = o.id → x.remaining - (o.remaining - r) = r := by
    intro x hx hxid
    rw [heq x hx hxid, sub_sub_cancel]
  split_ifs with hr
  · rw [insert_remove, values_insert hid hmem,
      applyFills_singleton_of_rest (fun x hx hxid => by rwa [hrest x hx hxid])]
    refine map_congr_left fun x hx => ?_
    split_ifs with hxid
    · rw [hrest x hx hxid, heq x hx hxid]
    · rfl
  · rw [values_remove hid hmem,
      applyFills_cons_of_full (fun x hx hxid => by rwa [hrest x hx hxid]), applyFills_nil]

omit hid

variable {crosses : Order → Order → Bool}
variable {event : Order → Order → Price → Quantity → ℕ → MatchEvent} {now : ℕ → ℕ}

/-- The events of the fills `fs`, the first of them numbered `n` in its call. -/
def fillEvents (event : Order → Order → Price → Quantity → ℕ → MatchEvent) (now : ℕ → ℕ)
    (incoming : Order) (fs : List (Order × Quantity)) (n : ℕ) : List MatchEvent :=
  (fs.zipIdx n).map fun f =>
    event incoming f.1.1 (execPrice f.1.1 incoming) f.1.2 (now f.2)

theorem fillEvents_cons (incoming maker : Order) (q : Quantity) (fs : List (Order × Quantity))
    (n : ℕ) : fillEvents event now incoming ((maker, q) :: fs) n = event incoming
    maker (execPrice maker incoming) q (now n) :: fillEvents event now incoming fs (n + 1) := by
  simp [fillEvents, zipIdx_cons]

theorem map_fillEvents {β : Type*} {incoming : Order} {g : MatchEvent → β}
    {f : Order × Quantity → β} {fs : List (Order × Quantity)} (n : ℕ) (h : ∀ x ∈ fs, ∀ t, g (event
    incoming x.1 (execPrice x.1 incoming) x.2 t) = f x) :
    (fillEvents event now incoming fs n).map g = fs.map f := by
  induction fs generalizing n with
  | nil => rfl
  | cons x fs ih =>
    rw [fillEvents_cons, map_cons, map_cons, h x mem_cons_self,
      ih (n + 1) fun y hy => h y (mem_cons_of_mem x hy)]

theorem fillEvents_split {incoming : Order} {fs : List (Order × Quantity)} {n : ℕ} {pre post : List
    MatchEvent} {ev : MatchEvent} (h : fillEvents event now incoming fs n = pre ++ ev :: post) :
    ∃ fpre f fpost t k, fs = fpre ++ f :: fpost ∧ pre = fillEvents event now incoming fpre n ∧
    ev = event incoming f.1 (execPrice f.1 incoming) f.2 t ∧
    fillEvents event now incoming fpost k = post := by
  induction fs generalizing n pre with
  | nil => exact absurd h (by simp [fillEvents])
  | cons f fs ih =>
    obtain ⟨maker, q⟩ := f
    rw [fillEvents_cons] at h
    cases pre with
    | nil =>
      obtain ⟨rfl, hpost⟩ := List.cons.inj h
      exact ⟨[], (maker, q), fs, now n, n + 1, rfl, rfl, rfl, hpost⟩
    | cons e pre =>
      obtain ⟨rfl, hrest⟩ := List.cons.inj h
      obtain ⟨fpre, g, fpost, t, k, rfl, rfl, rfl, hpost⟩ := ih hrest
      refine ⟨(maker, q) :: fpre, g, fpost, t, k, rfl, ?_, rfl, hpost⟩
      rw [fillEvents_cons]

theorem isCandidate_withRemaining (hcross : ∀ i r o,
    crosses (withRemaining i r) o = crosses i o) (incoming : Order) (r : Quantity) :
    isCandidate crosses (incoming.withRemaining r) = isCandidate crosses incoming := by
  funext o
  rw [isCandidate, isCandidate, hcross, withRemaining_userId]

theorem filter_remove_head {p : Order → Bool} {c : K × Order} {E : List (K × Order)}
    (hE : (m.entries.filter fun e => p e.2) = c :: E) :
    ((m.remove c.1).entries.filter fun e => p e.2) = E := by
  have hnodup : ((c :: E).map Prod.fst).Nodup := by
    rw [← hE]
    exact m.keys_nodup.sublist (filter_sublist.map Prod.fst)
  have hne : ∀ e ∈ E, e.1 ≠ c.1 := by
    intro e he heq
    exact (nodup_cons.mp hnodup).1 (heq ▸ mem_map_of_mem he)
  rw [remove, filter_comm, hE, filter_cons_of_neg (by simp)]
  exact filter_eq_self.mpr fun e he => by simpa using hne e he

/-- `s'` is where a greedy fill of the incoming order of `s` from the orders `l`
ends. -/
structure GreedyResult (event : Order → Order → Price → Quantity → ℕ → MatchEvent)
    (now : ℕ → ℕ) (l : List Order) (s s' : MatchState K) : Prop where
  incoming : s'.incoming = s.incoming.withRemaining
    (GreedyFill.leftover remaining s.incoming.remaining l)
  events : s'.events = s.events ++ fillEvents event now s.incoming
    (GreedyFill.fills remaining s.incoming.remaining l) s.events.length
  passive : s'.passive.values = applyFills
    (GreedyFill.fills remaining s.incoming.remaining l) s.passive.values

theorem GreedyResult.of_stopped {l : List Order} {s : MatchState K}
    (h : ¬ 0 < s.incoming.remaining ∨ l = []) : GreedyResult event now l s s := by
  have hfills : fills remaining s.incoming.remaining l = [] := by
    rcases h with h | rfl
    · exact fills_of_nonpos _ h l
    · rfl
  have hleft : leftover remaining s.incoming.remaining l =
      s.incoming.remaining := by
    rcases h with h | rfl
    · exact leftover_of_nonpos _ h l
    · rfl
  exact ⟨by rw [hleft]; rfl, by rw [hfills]; simp [fillEvents], by rw [hfills]; simp⟩

section Rounds

variable (hevent : ∀ i r m r' p q t,
  event (withRemaining i r) (withRemaining m r') p q t = event i m p q t)
variable {s s' : MatchState K} {key : K} {maker : Order} {l : List Order}

include hevent

theorem fillEvents_withRemaining
    (incoming : Order) (r : Quantity) (fs : List (Order × Quantity)) (n : ℕ) :
    fillEvents event now (incoming.withRemaining r) fs n = fillEvents event now incoming fs n := by
  refine map_congr_left fun f _ => ?_
  exact hevent incoming r f.1.1 f.1.1.remaining _ _ _

theorem matchRound_events : (matchRound event now s key maker).events = s.events ++
    [event s.incoming maker (execPrice maker s.incoming)
      (min s.incoming.remaining maker.remaining) (now s.events.length)] := by
  simp [matchRound, hevent]

theorem GreedyResult.of_round_full (hrem : 0 < s.incoming.remaining)
    (hid : (s.passive.values.map Order.id).Nodup) (hmem : (key, maker) ∈ s.passive.entries) (hfull :
    ¬ 0 < maker.remaining - min s.incoming.remaining maker.remaining) (h : GreedyResult event
    now l (matchRound event now s key maker) s') : GreedyResult event now (maker :: l) s s' := by
  refine ⟨?_, ?_, ?_⟩
  · rw [h.incoming, leftover_cons _ hrem]
    rfl
  · rw [h.events, matchRound_events hevent, fills_cons _ hrem, fillEvents_cons,
      append_assoc, length_append]
    refine congrArg (fun es => s.events ++ (_ :: es)) ?_
    exact fillEvents_withRemaining hevent s.incoming _ _ _
  · rw [h.passive, matchRound_passive_of_full hfull, values_remove hid hmem,
      fills_cons _ hrem, applyFills_cons_of_full]
    · rfl
    · intro x hx hxid
      rw [values_eq_of_id_eq hid hx (mem_values.mpr ⟨key, hmem⟩) hxid]
      exact hfull

theorem GreedyResult.of_round_rest (hrem : 0 < s.incoming.remaining)
    (hid : (s.passive.values.map Order.id).Nodup) (hmem : (key, maker) ∈ s.passive.entries)
    (hrest : 0 < maker.remaining - min s.incoming.remaining maker.remaining) :
    GreedyResult event now (maker :: l) s (matchRound event now s key maker) := by
  have hmin : min s.incoming.remaining maker.remaining = s.incoming.remaining :=
    min_eq_left (not_le.mp (inf_lt_right.mp (sub_pos.mp hrest))).le
  have hzero : ¬ 0 < s.incoming.remaining - min s.incoming.remaining maker.remaining := by
    simp [hmin]
  have hfills := fills_cons remaining hrem maker l
  rw [fills_of_nonpos _ hzero] at hfills
  refine ⟨?_, ?_, ?_⟩
  · rw [leftover_cons _ hrem, leftover_of_nonpos _ hzero]
    rfl
  · rw [matchRound_events hevent, hfills, fillEvents_cons]
    rfl
  · have heq : ∀ x ∈ s.passive.values, x.id = maker.id → x = maker := fun x hx =>
      values_eq_of_id_eq hid hx (mem_values.mpr ⟨key, hmem⟩)
    rw [matchRound_passive_of_rest hrest, values_insert hid hmem, hfills,
      applyFills_singleton_of_rest (fun x hx hxid => heq x hx hxid ▸ hrest)]
    refine map_congr_left fun x hx => ?_
    split_ifs with hxid
    · rw [heq x hx hxid]
    · rfl

end Rounds

section Candidates

variable {s : MatchState K} {key : K} {maker : Order} {E : List (K × Order)}

theorem matchStep_of_no_candidate (hE : (s.passive.entries.filter
    fun e => isCandidate crosses s.incoming e.2) = []) : matchStep crosses event now s = none := by
  rw [matchStep, find?_eq_head?, hE]
  simp

theorem matchStep_of_nonpos (hrem : ¬ 0 < s.incoming.remaining) :
    matchStep crosses event now s = none := by
  rw [matchStep, if_neg hrem]

theorem matchStep_of_candidate (hE : (s.passive.entries.filter fun e => isCandidate
    crosses s.incoming e.2) = (key, maker) :: E) (hrem : 0 < s.incoming.remaining) (hmaker : 0 <
    maker.remaining) : matchStep crosses event now s = some (matchRound event now s key maker) := by
  rw [matchStep, if_pos hrem, find?_eq_head?, hE]
  exact if_neg (lt_min hrem hmaker).ne'

theorem matchRound_remaining_of_rest (hrest : 0 < maker.remaining - min s.incoming.remaining
    maker.remaining) : ¬ 0 < (matchRound event now s key maker).incoming.remaining := by
  have hmin : min s.incoming.remaining maker.remaining = s.incoming.remaining :=
    min_eq_left (not_le.mp (inf_lt_right.mp (sub_pos.mp hrest))).le
  simp [matchRound, hmin]

theorem candidates_matchRound (hcross : ∀ i r o, crosses (withRemaining i r) o = crosses i o)
    (hE : (s.passive.entries.filter fun e => isCandidate crosses s.incoming e.2) = (key,
    maker) :: E) (hfull : ¬ 0 < maker.remaining - min s.incoming.remaining maker.remaining) :
    ((matchRound event now s key maker).passive.entries.filter
    fun e => isCandidate crosses (matchRound event now s key maker).incoming e.2) = E := by
  rw [matchRound_passive_of_full hfull]
  simp only [matchRound, isCandidate_withRemaining hcross]
  exact filter_remove_head hE

end Candidates

variable (hcross : ∀ i r o, crosses (withRemaining i r) o = crosses i o)
  (hevent : ∀ i r m r' p q t,
    event (withRemaining i r) (withRemaining m r') p q t = event i m p q t)

include hcross hevent

/-- The loop from a state whose candidates are `E`, in priority order. -/
theorem iterate_matchStep_spec (E : List (K × Order)) (s : MatchState K)
    (fuel : ℕ) (hE : (s.passive.entries.filter fun e => isCandidate crosses s.incoming e.2) = E)
    (hpos : ∀ o ∈ s.passive.values, 0 < o.remaining) (hid : (s.passive.values.map Order.id).Nodup)
    (hfuel : s.passive.entries.length + 1 ≤ fuel) : GreedyResult
    event now (E.map Prod.snd) s (Loop.iterate (matchStep crosses event now) fuel s) := by
  induction E generalizing s fuel with
  | nil =>
    rw [Loop.iterate_of_none (matchStep_of_no_candidate hE)]
    exact GreedyResult.of_stopped (Or.inr rfl)
  | cons c E ih =>
    obtain ⟨key, maker⟩ := c
    by_cases hrem : 0 < s.incoming.remaining
    · have hmem : (key, maker) ∈ s.passive.entries :=
        mem_of_mem_filter (hE.symm ▸ mem_cons_self)
      have hmaker : 0 < maker.remaining := hpos maker (mem_values.mpr ⟨key, hmem⟩)
      obtain ⟨n, rfl⟩ : ∃ n, fuel = n + 1 := ⟨fuel - 1, by omega⟩
      rw [Loop.iterate_of_some (matchStep_of_candidate hE hrem hmaker), map_cons]
      by_cases hrest : 0 < maker.remaining - min s.incoming.remaining maker.remaining
      · -- the incoming order is used up, so this was the last round
        rw [Loop.iterate_of_none (matchStep_of_nonpos (matchRound_remaining_of_rest hrest))]
        exact GreedyResult.of_round_rest hevent hrem hid hmem hrest
      · have hpassive : (matchRound event now s key maker).passive =
            s.passive.remove key := matchRound_passive_of_full hrest
        have hvalues := values_remove hid hmem
        have hlen : (s.passive.remove key).entries.length < s.passive.entries.length :=
          length_remove_lt hmem
        refine GreedyResult.of_round_full hevent hrem hid hmem hrest
          (ih (matchRound event now s key maker) n (candidates_matchRound hcross hE hrest)
            ?_ ?_ ?_)
        · rw [hpassive, hvalues]
          exact fun o ho => hpos o (mem_of_mem_filter ho)
        · rw [hpassive, hvalues]
          exact hid.sublist (filter_sublist.map _)
        · rw [hpassive]
          omega
    · rw [Loop.iterate_of_none (matchStep_of_nonpos hrem)]
      exact GreedyResult.of_stopped (Or.inl hrem)

/-- The loop fills the incoming order greedily from its candidates, in priority
order. -/
theorem matchLoop_spec (incoming : Order) {passive :
    SortedMap K Order} (hpos : ∀ o ∈ passive.values, 0 < o.remaining) (hid : (passive.values.map
    Order.id).Nodup) : GreedyResult event now (passive.values.filter (isCandidate crosses incoming))
    ⟨incoming, passive, []⟩ (matchLoop crosses event now incoming passive) := by
  rw [values, filter_map]
  exact iterate_matchStep_spec hcross hevent _ _ _ rfl hpos hid le_rfl

/-- The events of the loop alone: they are those of the greedy fill from the
candidates `E` even when ids are repeated, and whatever the other orders have
left. -/
theorem iterate_matchStep_events (E : List (K × Order)) (s : MatchState K)
    (fuel : ℕ) (hE : (s.passive.entries.filter fun e => isCandidate crosses s.incoming e.2) = E)
    (hpos : ∀ e ∈ E, 0 < e.2.remaining) (hfuel : E.length ≤ fuel) : (Loop.iterate
    (matchStep crosses event now) fuel s).events = s.events ++ fillEvents event now s.incoming
    (GreedyFill.fills remaining s.incoming.remaining (E.map Prod.snd)) s.events.length := by
  induction E generalizing s fuel with
  | nil =>
    rw [Loop.iterate_of_none (matchStep_of_no_candidate hE)]
    simp [fillEvents]
  | cons c E ih =>
    obtain ⟨key, maker⟩ := c
    by_cases hrem : 0 < s.incoming.remaining
    · have hmaker : 0 < maker.remaining := hpos (key, maker) mem_cons_self
      obtain ⟨n, rfl⟩ : ∃ n, fuel = n + 1 := ⟨fuel - 1, by
        rw [length_cons] at hfuel
        omega⟩
      rw [Loop.iterate_of_some (matchStep_of_candidate hE hrem hmaker), map_cons,
        fills_cons _ hrem, fillEvents_cons]
      by_cases hrest : 0 < maker.remaining - min s.incoming.remaining maker.remaining
      · have hround : ¬ 0 < (matchRound event now s key maker).incoming.remaining :=
          matchRound_remaining_of_rest hrest
        have hdone : ¬ 0 < s.incoming.remaining -
            min s.incoming.remaining maker.remaining := hround
        rw [Loop.iterate_of_none (matchStep_of_nonpos hround),
          matchRound_events hevent, fills_of_nonpos _ hdone]
        rfl
      · rw [ih (matchRound event now s key maker) n (candidates_matchRound hcross hE hrest)
          (fun e he => hpos e (mem_cons_of_mem _ he))
          (Nat.le_of_succ_le_succ hfuel), matchRound_events hevent, append_assoc,
          length_append]
        refine congrArg (fun es => s.events ++ (_ :: es)) ?_
        exact fillEvents_withRemaining hevent s.incoming _ _ _
    · rw [Loop.iterate_of_none (matchStep_of_nonpos hrem), fills_of_nonpos _ hrem]
      simp [fillEvents]

theorem matchLoop_events (incoming : Order) {passive : SortedMap
    K Order} (hpos : ∀ o ∈ passive.values.filter (isCandidate crosses incoming), 0 < o.remaining) :
    (matchLoop crosses event now incoming passive).events =
    fillEvents event now incoming (GreedyFill.fills remaining
    incoming.remaining (passive.values.filter (isCandidate crosses incoming))) 0 := by
  rw [values, filter_map] at hpos ⊢
  refine (iterate_matchStep_events hcross hevent _ _ _ rfl (fun e he => ?_) ?_).trans
    (nil_append _)
  · exact hpos e.2 (mem_map_of_mem he)
  · exact (length_filter_le _ _).trans (Nat.le_succ _)

end MatchLoop

end MetherCEX
