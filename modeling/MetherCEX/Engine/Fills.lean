import MetherCEX.Engine.MatchLoop

/-!
# Fills and resting quantities

`applyFills fs l` is what a list of resting orders becomes when the orders named in `fs` give what
`fs` says.
-/

namespace MetherCEX

open List

/-- A side after the fills `fs`: a filled order loses what it gave, and leaves
the side when nothing remains. -/
def applyFills (fs : List (Order × Quantity)) (l : List Order) : List Order :=
  l.filterMap fun o =>
    match fs.find? fun f => decide (f.1.id = o.id) with
    | none => some o
    | some f =>
      if 0 < o.remaining - f.2 then some (o.withRemaining (o.remaining - f.2)) else none

@[simp] theorem applyFills_nil (l : List Order) : applyFills [] l = l := by
  simp [applyFills]

variable {l : List Order} {fs : List (Order × Quantity)} {x : OrderId} {f : Order × Quantity}

theorem applyFills_cons_of_full {maker : Order} {q : Quantity}
    (h : ∀ x ∈ l, x.id = maker.id → ¬ 0 < x.remaining - q) : applyFills ((maker, q) :: fs) l =
    applyFills fs (l.filter fun x => decide (x.id ≠ maker.id)) := by
  rw [applyFills, applyFills, filterMap_filter]
  refine filterMap_congr fun x hx => ?_
  by_cases hid : x.id = maker.id
  · simp [hid, h x hx hid]
  · simp [hid, Ne.symm hid]

theorem applyFills_singleton_of_rest {maker : Order} {q : Quantity}
    (h : ∀ x ∈ l, x.id = maker.id → 0 < x.remaining - q) : applyFills [(maker, q)] l =
    l.map fun x => if x.id = maker.id then x.withRemaining (x.remaining - q) else x := by
  rw [applyFills, ← filterMap_eq_map]
  refine filterMap_congr fun x hx => ?_
  by_cases hid : x.id = maker.id
  · simp [hid, h x hx hid]
  · simp [hid, Ne.symm hid]

def restingQty (x : OrderId) (l : List Order) : Quantity :=
  ((l.filter fun o => decide (o.id = x)).map Order.remaining).sum

def givenQty (x : OrderId) (fs : List (Order × Quantity)) : Quantity :=
  ((fs.filter fun f => decide (f.1.id = x)).map Prod.snd).sum

@[simp] theorem restingQty_nil (x : OrderId) : restingQty x [] = 0 := rfl

theorem restingQty_append (x : OrderId) (l l' : List Order) :
    restingQty x (l ++ l') = restingQty x l + restingQty x l' := by
  simp [restingQty]

theorem restingQty_cons (x : OrderId) (o : Order) (l : List Order) :
    restingQty x (o :: l) = (if o.id = x then o.remaining else 0) + restingQty x l := by
  by_cases h : o.id = x <;> simp [restingQty, h]

theorem restingQty_perm (x : OrderId) {l' : List Order} (h : l.Perm l') :
    restingQty x l = restingQty x l' :=
  ((h.filter _).map _).sum_eq

theorem restingQty_filter {p : Order → Bool} (h : ∀ o ∈ l, o.id = x → p o = true) :
    restingQty x (l.filter p) = restingQty x l := by
  rw [restingQty, filter_filter, restingQty]
  congr 2
  refine filter_congr fun o ho => ?_
  by_cases hid : o.id = x
  · simp [hid, h o ho hid]
  · simp [hid]

theorem restingQty_filter_le (hpos : ∀ x ∈ l, 0 < x.remaining) (p : Order → Bool) (x : OrderId) :
    restingQty x (l.filter p) ≤ restingQty x l := by
  induction l with
  | nil => exact le_rfl
  | cons a l ih =>
    have htail := ih fun y hy => hpos y (mem_cons_of_mem a hy)
    have ha := (hpos a mem_cons_self).le
    rw [filter_cons, ← singleton_append (l := l), restingQty_append]
    have hone : 0 ≤ restingQty x [a] := by
      by_cases hx : a.id = x <;> simp [restingQty, hx, ha]
    split_ifs with hp
    · rw [← singleton_append, restingQty_append]
      exact add_le_add_right htail _
    · exact htail.trans (le_add_of_nonneg_left hone)

theorem restingQty_nonneg (hpos : ∀ x ∈ l, 0 < x.remaining) (x : OrderId) : 0 ≤ restingQty x l := by
  apply sum_nonneg
  intro q hq
  obtain ⟨o, ho, rfl⟩ := mem_map.mp hq
  exact (hpos o (mem_of_mem_filter ho)).le

theorem restingQty_eq_zero (h : ∀ o ∈ l, o.id ≠ x) : restingQty x l = 0 := by
  have hnil : (l.filter fun o => decide (o.id = x)) = [] := by
    rw [filter_eq_nil_iff]
    intro o ho
    simpa using h o ho
  rw [restingQty, hnil]
  rfl

theorem filter_key_eq {α : Type*} (key : α → OrderId) {l : List α} (h : (l.map key).Nodup)
    {a : α} (ha : a ∈ l) : (l.filter fun x => decide (key x = key a)) = [a] := by
  induction l with
  | nil => cases ha
  | cons x l ih =>
    obtain ⟨hx, hl⟩ := nodup_cons.mp h
    rcases mem_cons.mp ha with rfl | ha
    · have hnil : (l.filter fun y => decide (key y = key a)) = [] := by
        rw [filter_eq_nil_iff]
        intro y hy hya
        exact hx (mem_map.mpr ⟨y, hy, by simpa using hya⟩)
      rw [filter_cons_of_pos (by simp), hnil]
    · have hne : key x ≠ key a := fun hxa => hx (mem_map.mpr ⟨a, ha, hxa.symm⟩)
      rw [filter_cons_of_neg (by simpa using hne), ih hl ha]

theorem restingQty_of_mem (h : (l.map Order.id).Nodup) {o : Order} (ho : o ∈ l) :
    restingQty o.id l = o.remaining := by
  rw [restingQty, filter_key_eq Order.id h ho]
  simp

theorem givenQty_eq_zero (h : ∀ f ∈ fs, f.1.id ≠ x) : givenQty x fs = 0 := by
  have hnil : (fs.filter fun f => decide (f.1.id = x)) = [] := by
    rw [filter_eq_nil_iff]
    intro f hf
    simpa using h f hf
  rw [givenQty, hnil]
  rfl

theorem givenQty_of_mem (h : (fs.map fun f => f.1.id).Nodup) (hf : f ∈ fs) :
    givenQty f.1.id fs = f.2 := by
  rw [givenQty, filter_key_eq (fun f => f.1.id) h hf]
  simp

theorem exists_of_mem_applyFills {x : Order} (h : x ∈ applyFills fs l) :
    ∃ y ∈ l, (x = y ∧ ∀ f ∈ fs, f.1.id ≠ y.id) ∨
    ∃ f ∈ fs, f.1.id = y.id ∧ 0 < y.remaining - f.2 ∧ x = y.withRemaining (y.remaining - f.2) := by
  obtain ⟨y, hy, hxy⟩ := mem_filterMap.mp h
  refine ⟨y, hy, ?_⟩
  cases hf : fs.find? fun f => decide (f.1.id = y.id) with
  | none =>
    rw [hf] at hxy
    refine .inl ⟨(Option.some.inj hxy).symm, fun f hmem => ?_⟩
    simpa using find?_eq_none.mp hf f hmem
  | some f =>
    simp only [hf] at hxy
    split_ifs at hxy with hpos
    exact .inr ⟨f, mem_of_find?_eq_some hf, by simpa using find?_some hf,
      hpos, (Option.some.inj hxy).symm⟩

theorem mem_applyFills_of_not_filled {x : Order} (hx : x ∈ l) (h : ∀ f ∈ fs, f.1.id ≠ x.id) :
    x ∈ applyFills fs l := by
  have hnone : (fs.find? fun f => decide (f.1.id = x.id)) = none := by
    rw [find?_eq_none]
    intro f hf
    simpa using h f hf
  refine mem_filterMap.mpr ⟨x, hx, ?_⟩
  rw [hnone]

theorem find?_fill (hfs : (fs.map fun f => f.1.id).Nodup) (hf : f ∈ fs) :
    (fs.find? fun g => decide (g.1.id = f.1.id)) = some f := by
  rw [← head?_filter, filter_key_eq (fun f => f.1.id) hfs hf]
  rfl

theorem mem_applyFills_of_rest (hfs : (fs.map fun f => f.1.id).Nodup) (hf : f ∈ fs)
    (hmem : f.1 ∈ l) (hpos : 0 < f.1.remaining - f.2) :
    f.1.withRemaining (f.1.remaining - f.2) ∈ applyFills fs l := by
  refine mem_filterMap.mpr ⟨f.1, hmem, ?_⟩
  rw [find?_fill hfs hf]
  exact if_pos hpos

theorem not_mem_applyFills_of_full (hl : (l.map Order.id).Nodup)
    (hfs : (fs.map fun f => f.1.id).Nodup) (hf : f ∈ fs) (hmem : f.1 ∈ l)
    (hfull : ¬ 0 < f.1.remaining - f.2) : ∀ x ∈ applyFills fs l, x.id ≠ f.1.id := by
  intro x hx hid
  obtain ⟨y, hy, ⟨rfl, hnot⟩ | ⟨g, hg, hgid, hpos, rfl⟩⟩ := exists_of_mem_applyFills hx
  · exact hnot f hf hid.symm
  · have hyf : y = f.1 := List.inj_on_of_nodup_map hl hy hmem hid
    have hgf : g = f := List.inj_on_of_nodup_map hfs hg hf (by rw [hgid, hyf])
    rw [hyf, hgf] at hpos
    exact hfull hpos

theorem applyFills_ids_sublist (fs : List (Order × Quantity)) (l : List Order) :
    ((applyFills fs l).map Order.id).Sublist (l.map Order.id) := by
  induction l with
  | nil => exact List.Sublist.refl _
  | cons o l ih =>
    rw [applyFills, filterMap_cons, map_cons]
    split
    · exact ih.cons _
    · rename_i o' ho'
      have hid : o'.id = o.id := by
        split at ho'
        · rw [← Option.some.inj ho']
        · split_ifs at ho'
          rw [← Option.some.inj ho', Order.withRemaining_id]
      rw [map_cons, hid]
      exact ih.cons_cons _

theorem applyFills_pos (h : ∀ o ∈ l, 0 < o.remaining) : ∀ x ∈ applyFills fs l, 0 < x.remaining := by
  intro x hx
  obtain ⟨y, hy, ⟨rfl, -⟩ | ⟨f, -, -, hpos, rfl⟩⟩ := exists_of_mem_applyFills hx
  · exact h x hy
  · exact hpos

theorem restingQty_applyFills (hl : (l.map Order.id).Nodup) (hfs : (fs.map fun f => f.1.id).Nodup)
    (hle : ∀ f ∈ fs, f.1 ∈ l ∧ f.2 ≤ f.1.remaining) (x : OrderId) :
    restingQty x (applyFills fs l) + givenQty x fs = restingQty x l := by
  have hl' : ((applyFills fs l).map Order.id).Nodup := hl.sublist (applyFills_ids_sublist fs l)
  by_cases hx : ∃ f ∈ fs, f.1.id = x
  · obtain ⟨f, hf, rfl⟩ := hx
    obtain ⟨hmem, hfle⟩ := hle f hf
    rw [givenQty_of_mem hfs hf, restingQty_of_mem hl hmem]
    by_cases hpos : 0 < f.1.remaining - f.2
    · have hrest := restingQty_of_mem hl' (mem_applyFills_of_rest hfs hf hmem hpos)
      rw [Order.withRemaining_id] at hrest
      rw [hrest, Order.withRemaining_remaining, sub_add_cancel]
    · rw [restingQty_eq_zero (not_mem_applyFills_of_full hl hfs hf hmem hpos), zero_add]
      exact le_antisymm hfle (sub_nonpos.mp (not_lt.mp hpos))
  · have hnot : ∀ f ∈ fs, f.1.id ≠ x := fun f hf hid => hx ⟨f, hf, hid⟩
    rw [givenQty_eq_zero hnot, add_zero]
    by_cases hmem : ∃ y ∈ l, y.id = x
    · obtain ⟨y, hy, rfl⟩ := hmem
      rw [restingQty_of_mem hl hy,
        restingQty_of_mem hl' (mem_applyFills_of_not_filled hy hnot)]
    · have hnone : ∀ y ∈ l, y.id ≠ x := fun y hy hid => hmem ⟨y, hy, hid⟩
      rw [restingQty_eq_zero hnone, restingQty_eq_zero]
      intro y hy hid
      have hin : y.id ∈ l.map Order.id :=
        (applyFills_ids_sublist fs l).subset (mem_map_of_mem hy)
      obtain ⟨z, hz, hzid⟩ := mem_map.mp hin
      exact hnone z hz (hzid.trans hid)

end MetherCEX
