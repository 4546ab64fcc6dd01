import Mathlib.Data.Rat.Lemmas
import Mathlib.Tactic
import MetherCEX.Lib.Json
import MetherCEX.Lib.Utf8
import MetherCEX.Wal.Journal

/-!
# The text of a journal line

A journal line is a JSON object in UTF-8.
-/

namespace MetherCEX

open Json List

section Scalars

def digits? (cs : List Char) : Option ℕ :=
  if cs ≠ [] ∧ cs.all Char.isDigit = true then some (Nat.ofDigitChars 10 cs 0) else none

def uuidJson (id : ℕ) : Json := .str (String.ofList (Nat.toDigits 10 id))

def uuid? (v : Json) : Option ℕ := v.asStr?.bind fun s => digits? s.toList

def fraction? (cs : List Char) : Option ℚ :=
  (digits? (cs.takeWhile (· != '/'))).bind fun n =>
    (digits? ((cs.dropWhile (· != '/')).drop 1)).map fun d => (n : ℚ) / d

def decimalJson (q : ℚ) : Json :=
  .str (String.ofList ((if q < 0 then ['-'] else []) ++
    (Nat.toDigits 10 q.num.natAbs ++ '/' :: Nat.toDigits 10 q.den)))

def decimal? (v : Json) : Option ℚ :=
  v.asStr?.bind fun s =>
    match s.toList with
    | '-' :: cs => (fraction? cs).map fun q => -q
    | cs => fraction? cs

def sideJson : Side → Json
  | .buy => .str "BUY"
  | .sell => .str "SELL"

def side? (v : Json) : Option Side :=
  v.asStr?.bind fun s =>
    if s = "BUY" ∨ s = "buy" ∨ s = "Buy" then some .buy
    else if s = "SELL" ∨ s = "sell" ∨ s = "Sell" then some .sell
    else none

theorem digits?_toDigits (n : ℕ) : digits? (Nat.toDigits 10 n) = some n := by
  have hall : (Nat.toDigits 10 n).all Char.isDigit = true := by
    rw [all_eq_true]
    exact fun c hc => isDigit_of_mem_print hc
  rw [digits?, if_pos ⟨Nat.toDigits_ne_nil, hall⟩, Nat.ofDigitChars_ten_toDigits]

theorem uuid?_uuidJson (id : ℕ) : uuid? (uuidJson id) = some id := by
  simp [uuid?, uuidJson, asStr?, digits?_toDigits]

theorem slash_not_mem_toDigits (n : ℕ) : ∀ c ∈ Nat.toDigits 10 n, (c != '/') = true := by
  intro c hc
  rw [bne_iff_ne]
  rintro rfl
  have := isDigit_of_mem_print hc
  simp at this

theorem fraction?_toDigits (n d : ℕ) :
    fraction? (Nat.toDigits 10 n ++ '/' :: Nat.toDigits 10 d) = some ((n : ℚ) / d) := by
  have hall := slash_not_mem_toDigits n
  rw [fraction?, takeWhile_append_of_pos hall, dropWhile_append_of_pos hall]
  simp [digits?_toDigits]

theorem decimal?_decimalJson (q : ℚ) : decimal? (decimalJson q) = some q := by
  have hdiv : (q.num : ℚ) / q.den = q := Rat.num_div_den q
  by_cases hneg : q < 0
  · have hnum : ((q.num.natAbs : ℕ) : ℚ) = -q.num := by
      have : q.num < 0 := Rat.num_neg.mpr hneg
      rw [← Int.cast_natCast, Int.natCast_natAbs, abs_of_neg this, Int.cast_neg]
    simp [decimal?, decimalJson, asStr?, hneg, fraction?_toDigits, hnum, neg_div, hdiv]
  · have hnum : ((q.num.natAbs : ℕ) : ℚ) = q.num := by
      have : 0 ≤ q.num := Rat.num_nonneg.mpr (not_lt.mp hneg)
      rw [← Int.cast_natCast, Int.natCast_natAbs, abs_of_nonneg this]
    have hhead : ∀ cs,
        Nat.toDigits 10 q.num.natAbs ++ '/' :: Nat.toDigits 10 q.den ≠ '-' :: cs := by
      intro cs heq
      cases hds : Nat.toDigits 10 q.num.natAbs with
      | nil => exact Nat.toDigits_ne_nil hds
      | cons c ds =>
        have hc : c.isDigit = true := isDigit_of_mem_print (hds ▸ mem_cons_self)
        rw [hds, cons_append, List.cons.injEq] at heq
        rw [heq.1] at hc
        simp at hc
    simp only [decimal?, decimalJson, asStr?, hneg, if_false, nil_append, Option.bind_some,
      String.toList_ofList]
    rw [fraction?_toDigits, hnum, hdiv]

theorem side?_sideJson (side : Side) : side? (sideJson side) = some side := by
  cases side <;> rfl

end Scalars

namespace MatchEvent

def toJson (e : MatchEvent) : Json :=
  .obj (.ofList [("ask_order_id", uuidJson e.askOrderId), ("ask_user_id", uuidJson e.askUserId),
    ("bid_order_id", uuidJson e.bidOrderId), ("bid_user_id", uuidJson e.bidUserId),
    ("maker_order_id", uuidJson e.makerOrderId), ("maker_user_id", uuidJson e.makerUserId),
    ("market", .str e.market), ("price", decimalJson e.price),
    ("quantity", decimalJson e.quantity), ("taker_order_id", uuidJson e.takerOrderId),
    ("taker_side", sideJson e.takerSide), ("taker_user_id", uuidJson e.takerUserId),
    ("timestamp", .num e.timestamp)])

def ofJson? (v : Json) : Option MatchEvent := do
  let market ← (v.get? "market").bind asStr?
  let bidOrderId ← (v.get? "bid_order_id").bind uuid?
  let askOrderId ← (v.get? "ask_order_id").bind uuid?
  let bidUserId ← (v.get? "bid_user_id").bind uuid?
  let askUserId ← (v.get? "ask_user_id").bind uuid?
  let takerOrderId ← (v.get? "taker_order_id").bind uuid?
  let makerOrderId ← (v.get? "maker_order_id").bind uuid?
  let takerUserId ← (v.get? "taker_user_id").bind uuid?
  let makerUserId ← (v.get? "maker_user_id").bind uuid?
  let takerSide ← (v.get? "taker_side").bind side?
  let price ← (v.get? "price").bind decimal?
  let quantity ← (v.get? "quantity").bind decimal?
  let timestamp ← (v.get? "timestamp").bind asNat?
  some ⟨market, bidOrderId, askOrderId, bidUserId, askUserId, takerOrderId, makerOrderId,
    takerUserId, makerUserId, takerSide, price, quantity, timestamp⟩

theorem ofJson?_toJson (e : MatchEvent) : ofJson? e.toJson = some e := by
  simp [ofJson?, toJson, JsonFields.ofList, Json.get?, JsonFields.get?, uuid?_uuidJson,
    decimal?_decimalJson, side?_sideJson, asStr?, asNat?]

end MatchEvent

inductive WalRecord
  | evt (engineId : String) (row : WalPendingEvent)
  | ack (eventId : ℕ)
  deriving DecidableEq

namespace WalRecord

def line : WalRecord → WalLine
  | .evt engineId row => .evt engineId row
  | .ack eventId => .ack eventId

def fields : WalRecord → JsonFields
  | .evt engineId row =>
    .ofList [("engine_id", .str engineId), ("event_id", .num row.eventId),
      ("payload", row.event.toJson), ("subject", .str row.subject), ("t", .str "evt"),
      ("v", .num 1)]
  | .ack eventId => .ofList [("event_id", .num eventId), ("t", .str "ack"), ("v", .num 1)]

def text (r : WalRecord) : List Char := print (.obj r.fields)

def bytes (r : WalRecord) : List UInt8 := Utf8.encode r.text

end WalRecord

namespace WalLine

def evt? (v : Json) : Option WalLine := do
  let engineId ← (v.get? "engine_id").bind asStr?
  let eventId ← (v.get? "event_id").bind asNat?
  let subject ← (v.get? "subject").bind asStr?
  let event ← (v.get? "payload").bind MatchEvent.ofJson?
  some (.evt engineId ⟨eventId, subject, event⟩)

def ofJson (v : Json) : WalLine :=
  match (v.get? "t").bind asStr? with
  | some "ack" => (((v.get? "event_id").bind asNat?).map .ack).getD .unreadable
  | some "evt" => (evt? v).getD .unreadable
  | _ => .unreadable

/-- The characters `trim` removes. -/
def isWhiteSpace (c : Char) : Bool :=
  let n := c.toNat
  (9 ≤ n && n ≤ 13) || n == 0x20 || n == 0x85 || n == 0xA0 || n == 0x1680 ||
    (0x2000 ≤ n && n ≤ 0x200A) || n == 0x2028 || n == 0x2029 || n == 0x202F || n == 0x205F ||
    n == 0x3000

def trim (cs : List Char) : List Char :=
  ((cs.dropWhile isWhiteSpace).reverse.dropWhile isWhiteSpace).reverse

def ofText (cs : List Char) : WalLine :=
  if trim cs = [] then .unreadable
  else
    match Json.parse (trim cs) with
    | some v => ofJson v
    | none => .unreadable

/-- What the scan makes of a line of the file; `none` is a read error. -/
def ofBytes? (bytes : List UInt8) : Option WalLine := (Utf8.decode? bytes).map ofText

theorem ofJson_fields (r : WalRecord) : ofJson (.obj r.fields) = r.line := by
  cases r with
  | evt engineId row =>
    simp [ofJson, evt?, WalRecord.fields, WalRecord.line, JsonFields.ofList, Json.get?,
      JsonFields.get?, asStr?, asNat?, MatchEvent.ofJson?_toJson]
  | ack eventId =>
    simp [ofJson, WalRecord.fields, WalRecord.line, JsonFields.ofList, Json.get?,
      JsonFields.get?, asStr?, asNat?]

theorem newline_not_mem_bytes (r : WalRecord) : 10 ∉ r.bytes := by
  intro h
  exact newline_not_mem_print _ (Utf8.newline_mem_encode h)

theorem trim_braces (cs : List Char) : trim ('{' :: (cs ++ ['}'])) = '{' :: (cs ++ ['}']) := by
  simp [trim, isWhiteSpace]

theorem trim_isPrefix {cs rest : List Char} (h : cs <+: '{' :: rest) : trim cs <+: cs := by
  cases cs with
  | nil => exact List.prefix_refl _
  | cons c cs =>
    obtain ⟨rfl, -⟩ := cons_prefix_cons.mp h
    have hdrop : ('{' :: cs).dropWhile isWhiteSpace = '{' :: cs := by simp [isWhiteSpace]
    rw [trim, hdrop, ← reverse_suffix, reverse_reverse]
    exact dropWhile_suffix _

theorem ofBytes?_bytes (r : WalRecord) : ofBytes? r.bytes = some r.line := by
  obtain ⟨cs, hcs⟩ := print_obj_braces r.fields
  have htrim : trim r.text = r.text := by rw [WalRecord.text, hcs, trim_braces]
  have hne : r.text ≠ [] := by simp [WalRecord.text, hcs]
  rw [ofBytes?, WalRecord.bytes, Utf8.decode?_encode, Option.map_some, ofText, htrim, if_neg hne,
    WalRecord.text, parse_print]
  exact congrArg some (ofJson_fields r)

theorem ofBytes?_cut {r : WalRecord} {p : List UInt8} (hp : p <+: r.bytes) (hne : p ≠ r.bytes) :
    ofBytes? p = none ∨ ofBytes? p = some .unreadable := by
  cases hdec : Utf8.decode? p with
  | none => exact .inl (by simp [ofBytes?, hdec])
  | some cs =>
    right
    obtain rfl := Utf8.encode_of_decode? hdec
    have hcs : cs <+: r.text := Utf8.isPrefix_of_encode hp
    have hcut : cs ≠ r.text := fun h => hne (by rw [h, WalRecord.bytes])
    obtain ⟨body, hbody⟩ := print_obj_braces r.fields
    have hbrace : cs <+: '{' :: (body ++ ['}']) := by rwa [WalRecord.text, hbody] at hcs
    have htrim : trim cs <+: cs := trim_isPrefix hbrace
    have hnone : Json.parse (trim cs) = none := by
      apply parse_cut (htrim.trans hcs)
      intro heq
      -- a trimmed beginning that is the whole text was not cut off
      rw [heq] at htrim
      exact hcut (hcs.eq_of_length (hcs.length_le.antisymm htrim.length_le))
    simp [ofBytes?, hdec, ofText, hnone]

end WalLine

end MetherCEX
