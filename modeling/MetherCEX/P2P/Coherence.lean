import MetherCEX.P2P.Changes

/-!
# Orders and escrows agree

In every reachable state an order that is not ended has a locked escrow, a completed order has an
escrow that was released to the buyer once, and a cancelled order one that was refunded to the
seller once; an order that is ended keeps its status (`orders_coherent`).
-/

namespace MetherCEX

open Checks Run Table List Option

namespace P2PState

theorem payouts_eq_nil {s : P2PState} {id : EscrowId}
    (h : ∀ x ∈ s.ledger, some id ≠ x.referenceId) : s.payouts id = [] := by
  rw [payouts, filter_eq_nil_iff.mpr, map_nil]
  intro x hx hmatch
  rw [Bool.and_eq_true, beq_iff_eq] at hmatch
  exact h x hx hmatch.1.symm

theorem payouts_escrowLocked (s : P2PState) (key : FundingKey) (amount : ℚ) (id : EscrowId) :
    (s.escrowLocked key amount).payouts id = s.payouts id := by
  simp [payouts, escrowLocked, writeRow]

namespace Linked

variable {s : P2PState}

theorem init (available : FundingKey → ℚ≥0) : (P2PState.init available).Linked where
  length := rfl
  escrowId _ _ hget := absurd hget (by simp [P2PState.init])
  seller _ _ _ hget := absurd hget (by simp [P2PState.init])
  amount := nofun
  agrees _ _ _ hget := absurd hget (by simp [P2PState.init])
  ledger := nofun

theorem setOrder (h : s.Linked) {id : OrderId} {o o' : P2POrder} (hget : s.orders[id]? = some o)
    (hseller : o'.sellerId = o.sellerId) (hescrow : o'.escrowId = o.escrowId)
    (hopen : o.status.isTerminal = false) (hopen' : o'.status.isTerminal = false)
    (ds : List P2PDispute) : { s with orders := s.orders.set id o', disputes := ds }.Linked where
  length := h.length.trans (length_set).symm
  escrowId := forall_getElem?_set h.escrowId (hescrow.trans (h.escrowId id o hget))
  seller j x e := forall_getElem?_set (fun j x => h.seller j x e)
    (fun he => (h.seller id o e hget he).trans hseller.symm) j x
  amount := h.amount
  agrees j x e hj he := by
    rcases getElem?_set_cases hj with ⟨rfl, rfl⟩ | ⟨-, hj⟩
    · obtain ⟨hlocked, hnone⟩ := (h.agrees j o e hget he).of_open hopen
      change Agrees x e (s.payouts j)
      rw [hnone]
      exact agrees_of_open hopen' hlocked
    · exact h.agrees j x e hj he
  ledger x hx j hj := (h.ledger x hx j hj).trans_eq (length_set).symm

theorem froze (h : s.Linked) {id : EscrowId} {e : Escrow} (hget : s.escrows[id]? = some e)
    (adminFrozen : Bool) :
    { s with escrows := s.escrows.set id { e with adminFrozen := adminFrozen } }.Linked where
  length := (length_set).trans h.length
  escrowId := h.escrowId
  seller j o x ho hx := by
    rcases getElem?_set_cases hx with ⟨rfl, rfl⟩ | ⟨-, hx⟩
    · exact h.seller j o e ho hget
    · exact h.seller j o x ho hx
  amount := forall_mem_set h.amount (h.amount e (mem_of_getElem? hget))
  agrees j o x ho hx := by
    rcases getElem?_set_cases hx with ⟨rfl, rfl⟩ | ⟨-, hx⟩
    · exact h.agrees j o e ho hget
    · exact h.agrees j o x ho hx
  ledger := h.ledger

theorem closed (h : s.Linked) {id : OrderId} {o o' : P2POrder} {e : Escrow} (out : Outcome)
    (hget : s.orders[id]? = some o) (hopen : o.status.isTerminal = false)
    (he : s.escrows[id]? = some e) (hbuyer : o'.buyerId = o.buyerId)
    (hseller : o'.sellerId = o.sellerId) (hescrow : o'.escrowId = o.escrowId)
    (hstatus : o'.status = out.orderStatus) (ads : List P2PAd) (ds : List P2PDispute) :
    { s.closed id e out.escrowStatus (out.payee o) with
      orders := s.orders.set id o', ads := ads, disputes := ds }.Linked where
  length := by
    simp only [escrows_closed, length_set]
    exact h.length
  escrowId := forall_getElem?_set h.escrowId (hescrow.trans (h.escrowId id o hget))
  seller j x y hj hy := by
    rcases getElem?_set_cases₂ hj hy with ⟨rfl, rfl, rfl⟩ | ⟨-, hj, hy⟩
    · exact (h.seller j o e hget he).trans hseller.symm
    · exact h.seller j x y hj hy
  amount := forall_mem_set h.amount (h.amount e (mem_of_getElem? he))
  agrees j x y hj hy := by
    change Agrees x y ((s.closed id e out.escrowStatus (out.payee o)).payouts j)
    rcases getElem?_set_cases₂ hj hy with ⟨rfl, rfl, rfl⟩ | ⟨hne, hj, hy⟩
    · obtain ⟨-, hnone⟩ := (h.agrees j o e hget he).of_open hopen
      rw [payouts_closed_self, hnone, nil_append, h.amount e (mem_of_getElem? he),
        Agrees, hstatus, hbuyer, hseller]
      cases out with
      | released | refunded => exact ⟨rfl, rfl⟩
    · rw [payouts_closed_of_ne s id e _ _ hne]
      exact h.agrees j x y hj hy
  ledger x hx j hj := by
    rw [length_set]
    simp only [P2PState.closed, availableCredited, escrowDebited, writeRow, mem_append,
      mem_singleton] at hx
    rcases hx with (hx | rfl) | rfl
    · exact h.ledger x hx j hj
    · exact some.inj hj ▸ lt_length_of_getElem? hget
    · exact some.inj hj ▸ lt_length_of_getElem? hget

theorem created (h : s.Linked) (cfg : P2PConfig) (userId : UserId) (adId : AdId) (ad : P2PAd)
    (quantity : ℚ) (now : ℕ) {key : FundingKey} (hkey : key.userId = ad.sellerFor userId) :
    (s.created cfg userId adId ad quantity now key).Linked where
  length := by
    simp only [P2PState.created, length_append, h.length]
    rfl
  escrowId j x hj := by
    rcases getElem?_concat_cases hj with ⟨rfl, rfl⟩ | ⟨-, hj⟩
    · exact h.length
    · exact h.escrowId j x hj
  seller j x y hj hy := by
    rcases getElem?_concat_cases₂ h.length hj hy with ⟨-, rfl, rfl⟩ | ⟨-, hj, hy⟩
    · exact hkey
    · exact h.seller j x y hj hy
  amount := forall_mem_concat h.amount
    (Decimal.onGrid_roundDown amountPrecision quantity).roundDown_eq
  agrees j x y hj hy := by
    change Agrees x y ((s.escrowLocked key (toAmount quantity)).payouts j)
    rw [payouts_escrowLocked]
    rcases getElem?_concat_cases₂ h.length hj hy with ⟨rfl, rfl, rfl⟩ | ⟨-, hj, hy⟩
    · have hnone : s.payouts s.orders.length = [] :=
        payouts_eq_nil fun x hx heq => (h.ledger x hx _ heq.symm).ne rfl
      rw [hnone]
      exact agrees_of_open rfl rfl
    · exact h.agrees j x y hj hy
  ledger x hx j hj := by
    have hlt : s.orders.length < (s.orders ++ [newOrder cfg adId ad (ad.buyerFor userId)
        (ad.sellerFor userId) quantity s.escrows.length now]).length := by simp
    simp only [P2PState.created, escrowLocked, writeRow, mem_append, mem_cons,
      not_mem_nil, or_false] at hx
    rcases hx with hx | rfl | rfl
    · exact (h.ledger x hx j hj).trans hlt
    · exact absurd hj (not_mem_none j)
    · exact absurd hj (not_mem_none j)

theorem change (h : s.Linked) {cfg : P2PConfig} {act : P2PAction} {s' : P2PState}
    (hchange : Change cfg s act s') : s'.Linked := by
  cases hchange with
  | same => exact h
  | adCreated | adChanged | other => exact { h with }
  | created _ _ _ _ hkey _ => exact h.created _ _ _ _ _ _ (by rw [hkey])
  | confirmed at? v hget hstatus =>
    refine h.setOrder hget ?_ ?_ ?_ ?_ s.disputes
    · rfl
    · rfl
    · rcases hstatus with hstatus | hstatus <;> rw [hstatus] <;> rfl
    · rfl
  | disputed v hget hstatus =>
    refine h.setOrder hget ?_ ?_ ?_ ?_ _
    · rfl
    · rfl
    · rw [hstatus]
      rfl
    · rfl
  | closed v hget hopen he _ _ _ =>
    refine h.closed _ hget hopen he ?_ ?_ ?_ ?_ _ _
    · rfl
    · rfl
    · rfl
    · rfl
  | froze adminFrozen hget => exact h.froze hget adminFrozen

end Linked

namespace DisputesOpen

variable {s : P2PState}

theorem init (available : FundingKey → ℚ≥0) : (P2PState.init available).DisputesOpen where
  active := nofun
  unique _ _ _ _ hd := absurd hd (by simp [P2PState.init])
  disputed _ _ hget := absurd hget (by simp [P2PState.init])

variable {o' o : P2POrder} {id : OrderId}

variable (h : s.DisputesOpen)

include h

theorem setOrder (hget : s.orders[id]? = some o) (hstatus : o.status ≠ .disputed)
    (hstatus' : o'.status ≠ .disputed) : (s.setOrder id o').DisputesOpen where
  active d hd hactive := by
    obtain ⟨x, hx, hdisputed⟩ := h.active d hd hactive
    have hne : id ≠ d.orderId := by
      rintro rfl
      exact hstatus (some.inj (hget.symm.trans hx) ▸ hdisputed)
    exact ⟨x, (getElem?_set_ne hne).trans hx, hdisputed⟩
  unique := h.unique
  disputed j x hj hdisputed := by
    rcases getElem?_set_cases hj with ⟨-, rfl⟩ | ⟨-, hj⟩
    · exact absurd hdisputed hstatus'
    · exact h.disputed j x hj hdisputed

theorem opened (hget : s.orders[id]? = some o) (hstatus : o.status ≠ .disputed)
    (hstatus' : o'.status = .disputed) :
    { s with
      orders := s.orders.set id o'
      disputes := s.disputes ++ [(⟨id, .opened⟩ : P2PDispute)] }.DisputesOpen where
  active d hd hactive := by
    rcases mem_concat hd with hd | rfl
    · obtain ⟨-, hne⟩ := (h.ends_of_not_disputed hget hstatus).kept _ d
        (getElem?_of_mem hd).choose_spec hactive
      obtain ⟨x, hx, hdisputed⟩ := h.active d hd hactive
      exact ⟨x, (getElem?_set_ne hne.symm).trans hx, hdisputed⟩
    · exact ⟨o', getElem?_set_of_getElem? hget, hstatus'⟩
  unique i j d d' hd hd' hactive hactive' heq := by
    have hends := h.ends_of_not_disputed hget hstatus
    rcases getElem?_concat_cases hd with ⟨hi, rfl⟩ | ⟨-, hd⟩
    · rcases getElem?_concat_cases hd' with ⟨hj, rfl⟩ | ⟨-, hd'⟩
      · exact hi.trans hj.symm
      · exact absurd heq.symm (hends.kept j d' hd' hactive').2
    · rcases getElem?_concat_cases hd' with ⟨hj, rfl⟩ | ⟨-, hd'⟩
      · exact absurd heq (hends.kept i d hd hactive).2
      · exact h.unique i j d d' hd hd' hactive hactive' heq
  disputed j x hj hdisputed := by
    rcases getElem?_set_cases hj with ⟨rfl, rfl⟩ | ⟨-, hj⟩
    · exact ⟨⟨j, .opened⟩, mem_append_right _ (mem_singleton.mpr rfl), rfl, rfl⟩
    · obtain ⟨d, hd, hactive, heq⟩ := h.disputed j x hj hdisputed
      exact ⟨d, mem_append_left _ hd, hactive, heq⟩

theorem closed {ds : List P2PDispute} (hstatus' : o'.status ≠ .disputed)
    (hends : EndsDisputes s.disputes id ds) :
    { s with orders := s.orders.set id o', disputes := ds }.DisputesOpen where
  active d hd hactive := by
    obtain ⟨i, hi⟩ := getElem?_of_mem hd
    obtain ⟨hd, hne⟩ := hends.kept i d hi hactive
    obtain ⟨x, hx, hdisputed⟩ := h.active d (mem_of_getElem? hd) hactive
    exact ⟨x, (getElem?_set_ne hne.symm).trans hx, hdisputed⟩
  unique i j d d' hd hd' hactive hactive' heq :=
    h.unique i j d d' (hends.kept i d hd hactive).1 (hends.kept j d' hd' hactive').1 hactive
      hactive' heq
  disputed j x hj hdisputed := by
    rcases getElem?_set_cases hj with ⟨-, rfl⟩ | ⟨hne, hj⟩
    · exact absurd hdisputed hstatus'
    · obtain ⟨d, hd, hactive, heq⟩ := h.disputed j x hj hdisputed
      exact ⟨d, hends.others d hd hactive (heq ▸ hne), hactive, heq⟩

theorem inserted (hstatus : o.status ≠ .disputed) :
    { s with orders := s.orders ++ [o] }.DisputesOpen where
  active d hd hactive := by
    obtain ⟨x, hx, hdisputed⟩ := h.active d hd hactive
    exact ⟨x, (getElem?_append_left (lt_length_of_getElem? hx)).trans hx, hdisputed⟩
  unique := h.unique
  disputed j x hj hdisputed := by
    rcases getElem?_concat_cases hj with ⟨-, rfl⟩ | ⟨-, hj⟩
    · exact absurd hdisputed hstatus
    · exact h.disputed j x hj hdisputed

theorem change {cfg : P2PConfig} {act : P2PAction} {s' : P2PState} (hchange : Change cfg s act s') :
    s'.DisputesOpen := by
  cases hchange with
  | same => exact h
  | adCreated | adChanged | other | froze => exact { h with }
  | created => exact { h.inserted (o := newOrder ..) P2POrderStatus.noConfusion with }
  | confirmed at? v hget hstatus =>
    refine h.setOrder hget ?_ P2POrderStatus.noConfusion
    rcases hstatus with hstatus | hstatus <;> rw [hstatus] <;> decide
  | disputed v hget hstatus => exact h.opened hget (by rw [hstatus]; decide) rfl
  | @closed _ _ _ _ out _ _ v hget hopen he _ _ hends =>
    have hstatus : out.orderStatus ≠ .disputed := by
      cases out <;> decide
    exact { h.closed hstatus hends with }

end DisputesOpen

/-- The orders that are ended in the first state are so in the second one. -/
def KeepsEnded (s s' : P2PState) : Prop :=
  ∀ (id : OrderId) (o : P2POrder), s.orders[id]? = some o → o.status.isTerminal = true →
    ∃ o', s'.orders[id]? = some o' ∧ o'.status = o.status

namespace KeepsEnded

variable {s s' s'' : P2PState}

theorem of_eq (h : s'.orders = s.orders) : KeepsEnded s s' :=
  fun _ o hget _ => ⟨o, h ▸ hget, rfl⟩

theorem trans (h : KeepsEnded s s') (h' : KeepsEnded s' s'') : KeepsEnded s s'' := by
  intro id o hget hended
  obtain ⟨o₁, hget₁, hstatus₁⟩ := h id o hget hended
  obtain ⟨o₂, hget₂, hstatus₂⟩ := h' id o₁ hget₁ (hstatus₁ ▸ hended)
  exact ⟨o₂, hget₂, hstatus₂.trans hstatus₁⟩

theorem set {id : OrderId} {o o' : P2POrder} (hget : s.orders[id]? = some o) (hopen :
    o.status.isTerminal = false) (h : s'.orders = s.orders.set id o') : KeepsEnded s s' := by
  intro j x hj hended
  have hne : id ≠ j := by
    rintro rfl
    rw [some.inj (hget.symm.trans hj)] at hopen
    exact Bool.false_ne_true (hopen.symm.trans hended)
  exact ⟨x, h ▸ (getElem?_set_ne hne).trans hj, rfl⟩

theorem concat {o : P2POrder} (h : s'.orders = s.orders ++ [o]) : KeepsEnded s s' :=
  fun _ x hget _ =>
    ⟨x, h ▸ (getElem?_append_left (lt_length_of_getElem? hget)).trans hget, rfl⟩

theorem change {cfg : P2PConfig} {act : P2PAction} (hchange : Change cfg s act s') :
    KeepsEnded s s' := by
  cases hchange with
  | same | adCreated | adChanged | other | froze => exact of_eq rfl
  | created => exact concat rfl
  | confirmed at? v hget hstatus =>
    refine set hget ?_ rfl
    rcases hstatus with hstatus | hstatus <;> rw [hstatus] <;> rfl
  | disputed v hget hstatus => exact set hget (by rw [hstatus]; rfl) rfl
  | closed v hget hopen => exact set hget hopen rfl

end KeepsEnded

structure Sound (s : P2PState) : Prop where
  linked : s.Linked
  disputesOpen : s.DisputesOpen

namespace Sound

theorem init (available : FundingKey → ℚ≥0) : (P2PState.init available).Sound :=
  ⟨.init available, .init available⟩

variable {s : P2PState} (h : s.Sound) (cfg : P2PConfig)
include h

theorem change (act : P2PAction) : Change cfg s act (s.step cfg act) :=
  change_of_step h.linked h.disputesOpen act

theorem step (act : P2PAction) : (s.step cfg act).Sound :=
  ⟨h.linked.change (h.change cfg act), h.disputesOpen.change (h.change cfg act)⟩

theorem keepsEnded (acts : List P2PAction) : KeepsEnded s (acts.foldl (P2PState.step cfg) s) := by
  induction acts generalizing s with
  | nil => exact .of_eq rfl
  | cons act acts ih => exact (KeepsEnded.change (h.change cfg act)).trans (ih (h.step cfg act))

end Sound

theorem sound_run (cfg : P2PConfig) (available : FundingKey → ℚ≥0) (acts : List P2PAction) :
    (run cfg available acts).Sound :=
  (along_of_forall (C := fun _ _ => True) (fun _ _ => trivial) _ acts).invariant
    (P := Sound) (.init available) fun _ act hs _ => hs.step cfg act

/-- The order and its escrow have ended in the same way, or not at all, and the one who is
entitled was credited the amount of the escrow once. -/
def Coherent (s : P2PState) : Prop :=
  ∀ (id : OrderId) (o : P2POrder), s.orders[id]? = some o →
    ∃ e, s.escrows[o.escrowId]? = some e ∧
      (o.status.isTerminal = false ↔ e.status = .locked) ∧
      (o.status = .completed ↔
        e.status = .released ∧ s.payouts o.escrowId = [(o.buyerId, e.amount)]) ∧
      (o.status = .cancelled ∨ o.status = .expired ↔
        e.status = .refunded ∧ s.payouts o.escrowId = [(o.sellerId, e.amount)])

theorem Linked.coherent {s : P2PState} (h : s.Linked) : s.Coherent := by
  intro id o hget
  obtain ⟨e, he⟩ := h.exists_escrow hget
  have hagrees := h.agrees id o e hget he
  rw [h.escrowId id o hget]
  refine ⟨e, he, ?_⟩
  unfold Agrees at hagrees
  cases hs : o.status <;> rw [hs] at hagrees <;> obtain ⟨hstatus, hpayouts⟩ := hagrees <;>
    simp [hstatus, hpayouts, P2POrderStatus.isTerminal]

/-- In every reachable state the orders agree with their escrows, and an order that is ended
keeps its status ever after. -/
theorem orders_coherent (cfg : P2PConfig) (available : FundingKey → ℚ≥0)
    (acts more : List P2PAction) :
    (run cfg available acts).Coherent ∧
      KeepsEnded (run cfg available acts) (run cfg available (acts ++ more)) := by
  have hsound := sound_run cfg available acts
  refine ⟨hsound.linked.coherent, ?_⟩
  rw [run, run, foldl_append]
  exact hsound.keepsEnded cfg more

end P2PState

end MetherCEX
