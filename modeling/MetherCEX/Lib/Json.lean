import Mathlib.Data.List.Basic
import Mathlib.Data.Char
import Mathlib.Tactic.Common

/-!
# Compact JSON

A printer and a parser for the JSON values made of natural numbers, strings and objects, without
blanks between the tokens.
-/

mutual

inductive Json
  | num (n : ℕ)
  | str (s : String)
  | obj (fields : JsonFields)

inductive JsonFields
  | nil
  | cons (key : String) (value : Json) (rest : JsonFields)

end

def JsonFields.ofList : List (String × Json) → JsonFields
  | [] => .nil
  | (key, value) :: rest => .cons key value (ofList rest)

/-- The value under a key; a repeated key has its last value. -/
def JsonFields.get? : JsonFields → String → Option Json
  | .nil, _ => none
  | .cons k value rest, key => (rest.get? key).or (if k = key then some value else none)

namespace Json

open List Option

def get? : Json → String → Option Json
  | .obj fields, key => fields.get? key
  | _, _ => none

def asNat? : Json → Option ℕ
  | .num n => some n
  | _ => none

def asStr? : Json → Option String
  | .str s => some s
  | _ => none

section Print

/-- The letter after the backslash for the characters with a short escape. -/
def shortEscape (c : Char) : Option Char :=
  if c = '"' then some '"'
  else if c = '\\' then some '\\'
  else if c = '\x08' then some 'b'
  else if c = '\t' then some 't'
  else if c = '\n' then some 'n'
  else if c = '\x0c' then some 'f'
  else if c = '\r' then some 'r'
  else none

def escapeChar (c : Char) : List Char :=
  match shortEscape c with
  | some e => ['\\', e]
  | none =>
    if c.toNat < 32 then
      ['\\', 'u', '0', '0', Nat.digitChar (c.toNat / 16), Nat.digitChar (c.toNat % 16)]
    else [c]

def escape (cs : List Char) : List Char := cs.flatMap escapeChar

def quoted (s : String) : List Char := '"' :: (escape s.toList ++ ['"'])

mutual

def print : Json → List Char
  | .num n => Nat.toDigits 10 n
  | .str s => quoted s
  | .obj .nil => ['{', '}']
  | .obj (.cons key value rest) =>
    '{' :: (quoted key ++ ':' :: (print value ++ printTail rest))

def printTail : JsonFields → List Char
  | .nil => ['}']
  | .cons key value rest => ',' :: (quoted key ++ ':' :: (print value ++ printTail rest))

end

end Print

section Parse

def unescape (e : Char) : Option Char :=
  if e = '"' then some '"'
  else if e = '\\' then some '\\'
  else if e = 'b' then some '\x08'
  else if e = 't' then some '\t'
  else if e = 'n' then some '\n'
  else if e = 'f' then some '\x0c'
  else if e = 'r' then some '\r'
  else none

def hexValue (c : Char) : Option ℕ :=
  if c.isDigit then some (c.toNat - 48)
  else if 'a' ≤ c ∧ c ≤ 'f' then some (c.toNat - 87)
  else none

def parseChars : List Char → Option (List Char × List Char)
  | [] => none
  | '"' :: rest => some ([], rest)
  | '\\' :: 'u' :: '0' :: '0' :: hi :: lo :: rest =>
    (hexValue hi).bind fun h => (hexValue lo).bind fun l =>
      (parseChars rest).map fun p => (Char.ofNat (16 * h + l) :: p.1, p.2)
  | '\\' :: e :: rest =>
    (unescape e).bind fun c => (parseChars rest).map fun p => (c :: p.1, p.2)
  | '\\' :: [] => none
  | c :: rest => (parseChars rest).map fun p => (c :: p.1, p.2)

def parseQuoted : List Char → Option (String × List Char)
  | '"' :: rest => (parseChars rest).map fun p => (String.ofList p.1, p.2)
  | _ => none

def parseNat (s : List Char) : Option (Json × List Char) :=
  if s.takeWhile Char.isDigit = [] then none
  else some (.num (Nat.ofDigitChars 10 (s.takeWhile Char.isDigit) 0), s.dropWhile Char.isDigit)

def parseKey (s : List Char) : Option (String × List Char) :=
  match parseQuoted s with
  | some (key, ':' :: rest) => some (key, rest)
  | _ => none

mutual

def parseValue : ℕ → List Char → Option (Json × List Char)
  | 0, _ => none
  | fuel + 1, s =>
    match s with
    | '"' :: _ => (parseQuoted s).map fun p => (.str p.1, p.2)
    | '{' :: '}' :: rest => some (.obj .nil, rest)
    | '{' :: rest => (parseField fuel rest).map fun p => (.obj p.1, p.2)
    | _ => parseNat s

def parseField : ℕ → List Char → Option (JsonFields × List Char)
  | 0, _ => none
  | fuel + 1, s => do
      let (key, s) ← parseKey s
      let (value, s) ← parseValue fuel s
      let (rest, s) ← parseTail fuel s
      some (.cons key value rest, s)

def parseTail : ℕ → List Char → Option (JsonFields × List Char)
  | 0, _ => none
  | fuel + 1, s =>
    match s with
    | '}' :: rest => some (.nil, rest)
    | ',' :: rest => parseField fuel rest
    | _ => none

end

def parse (s : List Char) : Option Json :=
  match parseValue (s.length + 1) s with
  | some (value, []) => some value
  | _ => none

end Parse

section Strings

theorem unescape_of_shortEscape {c e : Char} (h : shortEscape c = some e) :
    unescape e = some c ∧ e ≠ 'u' ∧ e ≠ '\n' := by
  unfold shortEscape at h
  split_ifs at h <;> cases h <;> subst_vars <;> decide

theorem hexValue_digitChar : ∀ d < 16, hexValue (Nat.digitChar d) = some d := by
  decide

theorem parseChars_short {e : Char} (he : e ≠ 'u') (rest : List Char) : parseChars ('\\'
    :: e :: rest) = (unescape e).bind fun c => (parseChars rest).map fun p => (c :: p.1, p.2) := by
  rw [parseChars.eq_def]
  split <;> grind

theorem parseChars_plain {c : Char} (hq : c ≠ '"') (hb : c ≠ '\\') (rest : List Char) :
    parseChars (c :: rest) = (parseChars rest).map fun p => (c :: p.1, p.2) := by
  rw [parseChars.eq_def]
  split <;> simp_all

theorem plain_of_shortEscape_none {c : Char} (h : shortEscape c = none) :
    c ≠ '"' ∧ c ≠ '\\' ∧ c ≠ '\n' := by
  unfold shortEscape at h
  split_ifs at h
  simp_all

theorem parseChars_escapeChar (c : Char) (rest : List Char) :
    parseChars (escapeChar c ++ rest) = (parseChars rest).map fun p => (c :: p.1, p.2) := by
  unfold escapeChar
  cases h : shortEscape c with
  | some e =>
    obtain ⟨hun, hu, -⟩ := unescape_of_shortEscape h
    simp [parseChars_short hu, hun]
  | none =>
    obtain ⟨hq, hb, -⟩ := plain_of_shortEscape_none h
    by_cases hc : c.toNat < 32
    · have hhi := hexValue_digitChar (c.toNat / 16) (by omega)
      have hlo := hexValue_digitChar (c.toNat % 16) (by omega)
      have hback : Char.ofNat (16 * (c.toNat / 16) + c.toNat % 16) = c := by
        rw [Nat.div_add_mod, Char.ofNat_toNat]
      simp [hc, parseChars, hhi, hlo, hback]
    · simp [hc, parseChars_plain hq hb]

theorem parseChars_escape (cs rest : List Char) :
    parseChars (escape cs ++ '"' :: rest) = some (cs, rest) := by
  induction cs with
  | nil => simp [escape, parseChars]
  | cons c cs ih =>
    rw [escape, flatMap_cons, append_assoc, parseChars_escapeChar]
    rw [escape] at ih
    simp [ih]

/-- What follows a string is not read. -/
theorem parseChars_append {s cs r : List Char} (t : List Char) (h : parseChars s = some (cs, r)) :
    parseChars (s ++ t) = some (cs, r ++ t) := by
  induction s using parseChars.induct generalizing cs r with
  | case1 => cases h
  | case2 rest =>
    cases h
    rfl
  | case3 hi lo rest ih =>
    simp only [parseChars, bind_eq_some_iff, map_eq_some_iff] at h
    obtain ⟨x, hx, y, hy, q, hq, hr⟩ := h
    cases hr
    simp [parseChars, hx, hy, ih hq]
  | case4 e rest hu ih =>
    simp only [parseChars.eq_4 e rest hu, bind_eq_some_iff, map_eq_some_iff] at h
    obtain ⟨x, hx, q, hq, hr⟩ := h
    cases hr
    have he : e ≠ 'u' := by rintro rfl; simp [unescape] at hx
    simp [parseChars_short he, hx, ih hq]
  | case5 => cases h
  | case6 c rest hquote _ hshort hend ih =>
    have hb : c ≠ '\\' := by
      rintro rfl
      cases rest with
      | nil => exact hend rfl rfl
      | cons e rest => exact hshort e rest rfl rfl
    rw [parseChars_plain hquote hb, map_eq_some_iff] at h
    obtain ⟨q, hq, hr⟩ := h
    cases hr
    simp [parseChars_plain hquote hb, ih hq]

theorem parseQuoted_quoted (s : String) (rest : List Char) :
    parseQuoted (quoted s ++ rest) = some (s, rest) := by
  simp [parseQuoted, quoted, parseChars_escape]

theorem parseQuoted_append {s r : List Char} {k : String} (t : List Char)
    (h : parseQuoted s = some (k, r)) : parseQuoted (s ++ t) = some (k, r ++ t) := by
  unfold parseQuoted at h
  split at h
  · obtain ⟨q, hq, hr⟩ := map_eq_some_iff.mp h
    cases hr
    simp [parseQuoted, parseChars_append t hq]
  · cases h

theorem parseKey_append {s r : List Char} {k : String} (t : List Char)
    (h : parseKey s = some (k, r)) : parseKey (s ++ t) = some (k, r ++ t) := by
  unfold parseKey at h
  split at h
  · rename_i hq
    cases h
    simp [parseKey, parseQuoted_append t hq]
  · cases h

theorem parseKey_quoted (key : String) (rest : List Char) :
    parseKey (quoted key ++ ':' :: rest) = some (key, rest) := by
  simp [parseKey, parseQuoted_quoted]

theorem newline_not_mem_escapeChar (c : Char) : '\n' ∉ escapeChar c := by
  unfold escapeChar
  cases h : shortEscape c with
  | some e =>
    obtain ⟨-, -, hn⟩ := unescape_of_shortEscape h
    simp [hn.symm]
  | none =>
    obtain ⟨-, -, hn⟩ := plain_of_shortEscape_none h
    by_cases hc : c.toNat < 32
    · have hdigit : ∀ d < 16, '\n' ≠ Nat.digitChar d := by decide
      simp [hc, hdigit (c.toNat / 16) (by omega), hdigit (c.toNat % 16) (by omega)]
    · simp [hc, hn.symm]

theorem newline_not_mem_quoted (s : String) : '\n' ∉ quoted s := by
  simp [quoted, escape, newline_not_mem_escapeChar]

end Strings

section Numbers

def NoDigit (rest : List Char) : Prop := ∀ c ∈ rest.head?, c.isDigit = false

theorem span_digits {ds rest : List Char} (hall : ∀ c ∈ ds, c.isDigit = true) (hrest : NoDigit rest)
    : (ds ++ rest).takeWhile Char.isDigit = ds ∧ (ds ++ rest).dropWhile Char.isDigit = rest := by
  rw [takeWhile_append_of_pos hall, dropWhile_append_of_pos hall]
  cases rest with
  | nil => simp
  | cons c rest => simp [hrest c rfl]

theorem isDigit_of_mem_print {n : ℕ} {c : Char} (h : c ∈ Nat.toDigits 10 n) : c.isDigit = true :=
  Nat.isDigit_of_mem_toDigits (by decide) (by decide) h

theorem parseNat_print {n : ℕ} {rest : List Char} (hrest : NoDigit rest) :
    parseNat (Nat.toDigits 10 n ++ rest) = some (.num n, rest) := by
  have hall : ∀ c ∈ Nat.toDigits 10 n, c.isDigit = true := fun c hc => isDigit_of_mem_print hc
  obtain ⟨htake, hdrop⟩ := span_digits hall hrest
  simp [parseNat, htake, hdrop, Nat.ofDigitChars_ten_toDigits]

theorem parseNat_append {s r : List Char} {v : Json} (t : List Char) (h : parseNat s = some (v, r))
    (hr : r ≠ []) : parseNat (s ++ t) = some (v, r ++ t) := by
  rw [parseNat] at h
  split_ifs at h with hnil
  cases h
  have hrest : NoDigit (s.dropWhile Char.isDigit ++ t) := by
    obtain ⟨c, rest, hc⟩ := exists_cons_of_ne_nil hr
    have := head_dropWhile_not Char.isDigit hr
    simp_all [NoDigit]
  obtain ⟨htake, hdrop⟩ := span_digits (all_eq_true.mp all_takeWhile) hrest
  rw [← append_assoc, takeWhile_append_dropWhile] at htake hdrop
  simp [parseNat, htake, hdrop, hnil]

end Numbers

section Values

def printField (key : String) (value : Json) (rest : JsonFields) : List Char :=
  quoted key ++ ':' :: (print value ++ printTail rest)

theorem print_obj_cons (key : String) (value : Json) (rest : JsonFields) :
    print (.obj (.cons key value rest)) = '{' :: printField key value rest := by
  rw [print, printField]

theorem printTail_cons (key : String) (value : Json) (rest : JsonFields) :
    printTail (.cons key value rest) = ',' :: printField key value rest := by
  rw [printTail, printField]

theorem noDigit_printTail (fields : JsonFields) (rest : List Char) :
    NoDigit (printTail fields ++ rest) := by
  cases fields <;> simp [NoDigit, printTail]

theorem parseValue_of_digit {fuel : ℕ} {s : List Char} (hs : ∀ c ∈ s.head?, c.isDigit = true) :
    parseValue (fuel + 1) s = parseNat s := by
  rw [parseValue.eq_def]
  cases s with
  | nil => rfl
  | cons c s =>
    have hc : c.isDigit = true := hs c rfl
    have hq : c ≠ '"' := by rintro rfl; simp at hc
    have hb : c ≠ '{' := by rintro rfl; simp at hc
    simp [hq, hb]

theorem parseValue_quote {fuel : ℕ} {s : List Char} :
    parseValue (fuel + 1) ('"' :: s) = (parseQuoted ('"' :: s)).map fun p => (.str p.1, p.2) := by
  rw [parseValue]

theorem parseValue_brace {fuel : ℕ} {s : List Char} (hs : ∀ c ∈ s.head?, c ≠ '}') :
    parseValue (fuel + 1) ('{' :: s) = (parseField fuel s).map fun p => (.obj p.1, p.2) := by
  rw [parseValue.eq_def]
  cases s with
  | nil => rfl
  | cons c s => simp [hs c rfl]

theorem parseField_nil (fuel : ℕ) : parseField fuel [] = none := by
  cases fuel <;> simp [parseField, parseKey, parseQuoted]

theorem parseField_print {fuel : ℕ} {key : String} {value : Json} {fields : JsonFields}
    {rest : List Char} (hvalue : parseValue fuel (print value ++ (printTail fields ++ rest)) =
    some (value, printTail fields ++ rest))
    (htail : parseTail fuel (printTail fields ++ rest) = some (fields, rest)) : parseField
    (fuel + 1) (printField key value fields ++ rest) = some (.cons key value fields, rest) := by
  have hkey := parseKey_quoted key (print value ++ (printTail fields ++ rest))
  simp [parseField, printField, hkey, hvalue, htail]

mutual

theorem parseValue_print (v : Json) (fuel : ℕ) (rest : List Char) (hfuel : (print v).length ≤ fuel)
    (hrest : NoDigit rest) : parseValue (fuel + 1) (print v ++ rest) = some (v, rest) := by
  match v with
  | .num n =>
    have hdigit : ∀ c ∈ (Nat.toDigits 10 n ++ rest).head?, c.isDigit = true := by
      intro c hc
      rw [head?_append_of_ne_nil _ Nat.toDigits_ne_nil] at hc
      exact isDigit_of_mem_print (mem_of_mem_head? hc)
    rw [print, parseValue_of_digit hdigit, parseNat_print hrest]
  | .str s =>
    rw [print, quoted, cons_append, parseValue_quote, ← cons_append, ← quoted,
      parseQuoted_quoted]
    rfl
  | .obj .nil => simp [print, parseValue]
  | .obj (.cons key value fields) =>
    simp only [print_obj_cons, printField, length_cons, length_append] at hfuel
    obtain ⟨fuel, rfl⟩ : ∃ k, fuel = k + 2 := ⟨fuel - 2, by omega⟩
    have hvalue := parseValue_print value fuel (printTail fields ++ rest) (by omega)
      (noDigit_printTail fields rest)
    have htail := parseTail_print fields fuel rest (by omega) 
    have hhead : ∀ c ∈ (printField key value fields ++ rest).head?, c ≠ '}' := by
      simp [printField, quoted]
    rw [print_obj_cons, cons_append, parseValue_brace hhead,
      parseField_print hvalue htail]
    rfl

theorem parseTail_print (fields : JsonFields) (fuel : ℕ) (rest : List Char)
    (hfuel : (printTail fields).length ≤ fuel) :
    parseTail (fuel + 1) (printTail fields ++ rest) = some (fields, rest) := by
  match fields with
  | .nil => simp [printTail, parseTail]
  | .cons key value fields =>
    simp only [printTail_cons, printField, length_cons, length_append] at hfuel
    obtain ⟨fuel, rfl⟩ : ∃ k, fuel = k + 2 := ⟨fuel - 2, by omega⟩
    have hvalue := parseValue_print value fuel (printTail fields ++ rest) (by omega)
      (noDigit_printTail fields rest)
    have htail := parseTail_print fields fuel rest (by omega)
    rw [printTail_cons, cons_append, parseTail, parseField_print hvalue htail]

end

mutual

theorem parseValue_mono {fuel : ℕ} {s : List Char} {r : Json × List Char}
    (h : parseValue fuel s = some r) : parseValue (fuel + 1) s = some r := by
  match fuel with
  | 0 => simp [parseValue] at h
  | fuel + 1 =>
    rw [parseValue.eq_def] at h ⊢
    simp only at h ⊢
    split at h <;> simp_all
    obtain ⟨fields, rest, hfield, rfl⟩ := h
    exact ⟨fields, rest, parseField_mono hfield, rfl⟩

theorem parseField_mono {fuel : ℕ} {s : List Char} {r : JsonFields × List Char}
    (h : parseField fuel s = some r) : parseField (fuel + 1) s = some r := by
  match fuel with
  | 0 => simp [parseField] at h
  | fuel + 1 =>
    simp only [parseField, bind, bind_eq_some_iff] at h ⊢
    obtain ⟨⟨key, s₁⟩, hkey, ⟨value, s₂⟩, hvalue, ⟨fields, s₃⟩, htail, hr⟩ := h
    exact ⟨(key, s₁), hkey, (value, s₂), parseValue_mono hvalue, (fields, s₃),
      parseTail_mono htail, hr⟩

theorem parseTail_mono {fuel : ℕ} {s : List Char} {r : JsonFields × List Char}
    (h : parseTail fuel s = some r) : parseTail (fuel + 1) s = some r := by
  match fuel with
  | 0 => simp [parseTail] at h
  | fuel + 1 =>
    rw [parseTail.eq_def] at h ⊢
    simp only at h ⊢
    split at h
    · exact h
    · exact parseField_mono h
    · cases h

end

mutual

/-- What follows a value is not read, unless it is a number that goes up to the end. -/
theorem parseValue_append {fuel : ℕ} {s r : List Char} {v : Json} (t : List Char)
    (h : parseValue fuel s = some (v, r)) (hend : r ≠ [] ∨ ∀ n, v ≠ .num n) :
    parseValue fuel (s ++ t) = some (v, r ++ t) := by
  match fuel with
  | 0 => simp [parseValue] at h
  | fuel + 1 =>
    rw [parseValue.eq_def] at h
    simp only at h
    split at h
    · obtain ⟨q, hq, hr⟩ := map_eq_some_iff.mp h
      cases hr
      rw [cons_append, parseValue_quote, ← cons_append, parseQuoted_append t hq]
      rfl
    · cases h
      rfl
    · rename_i rest hbrace
      obtain ⟨q, hq, hr⟩ := map_eq_some_iff.mp h
      cases hr
      have hhead : ∀ c ∈ (rest ++ t).head?, c ≠ '}' := by
        cases rest with
        | nil => simp [parseField_nil] at hq
        | cons c rest =>
          rintro _ ⟨⟩ rfl
          exact hbrace rest rfl
      rw [cons_append, parseValue_brace hhead, parseField_append t hq]
      rfl
    · have hr : r ≠ [] := by
        refine hend.resolve_right fun hv => ?_
        unfold parseNat at h
        split_ifs at h
        cases h
        exact hv _ rfl
      have hdigit : ∀ c ∈ (s ++ t).head?, c.isDigit = true := by
        cases s with
        | nil => cases h
        | cons c s =>
          rintro _ ⟨⟩
          by_contra hc
          simp [parseNat, hc] at h
      rw [parseValue_of_digit hdigit, parseNat_append t h hr]

theorem parseField_append {fuel : ℕ} {s r : List Char} {fields : JsonFields} (t : List Char)
    (h : parseField fuel s = some (fields, r)) :
    parseField fuel (s ++ t) = some (fields, r ++ t) := by
  match fuel with
  | 0 => simp [parseField] at h
  | fuel + 1 =>
    simp only [parseField, bind, bind_eq_some_iff] at h ⊢
    obtain ⟨⟨key, s₁⟩, hkey, ⟨value, s₂⟩, hvalue, ⟨rest, s₃⟩, htail, hr⟩ := h
    cases hr
    have hs₂ : s₂ ≠ [] := by
      rintro rfl
      cases fuel <;> simp [parseTail] at htail
    exact ⟨_, parseKey_append t hkey, _, parseValue_append t hvalue (.inl hs₂), _,
      parseTail_append t htail, rfl⟩

theorem parseTail_append {fuel : ℕ} {s r : List Char} {fields : JsonFields} (t : List Char)
    (h : parseTail fuel s = some (fields, r)) :
    parseTail fuel (s ++ t) = some (fields, r ++ t) := by
  match fuel with
  | 0 => simp [parseTail] at h
  | fuel + 1 =>
    rw [parseTail.eq_def] at h
    simp only at h
    split at h
    · cases h
      rfl
    · exact parseField_append t h
    · cases h

end

theorem parseValue_mono_le {fuel fuel' : ℕ} (hle : fuel ≤ fuel') {s : List Char}
    {r : Json × List Char} (h : parseValue fuel s = some r) : parseValue fuel' s = some r := by
  induction hle with
  | refl => exact h
  | step _ ih => exact parseValue_mono ih

mutual

theorem newline_not_mem_print (v : Json) : '\n' ∉ print v := by
  match v with
  | .num n =>
    intro h
    have := isDigit_of_mem_print h
    simp at this
  | .str s => exact newline_not_mem_quoted s
  | .obj .nil => simp [print]
  | .obj (.cons key value fields) =>
    simp [print, newline_not_mem_quoted, newline_not_mem_print value,
      newline_not_mem_printTail fields]

theorem newline_not_mem_printTail (fields : JsonFields) : '\n' ∉ printTail fields := by
  match fields with
  | .nil => simp [printTail]
  | .cons key value fields =>
    simp [printTail, newline_not_mem_quoted, newline_not_mem_print value,
      newline_not_mem_printTail fields]

end

theorem printTail_ends (fields : JsonFields) : ∃ cs, printTail fields = cs ++ ['}'] := by
  match fields with
  | .nil => exact ⟨[], rfl⟩
  | .cons key value rest =>
    obtain ⟨cs, hcs⟩ := printTail_ends rest
    exact ⟨',' :: (quoted key ++ ':' :: (print value ++ cs)), by simp [printTail, hcs]⟩

theorem print_obj_braces (fields : JsonFields) :
    ∃ cs, print (.obj fields) = '{' :: (cs ++ ['}']) := by
  cases fields with
  | nil => exact ⟨[], by simp [print]⟩
  | cons key value rest =>
    obtain ⟨cs, hcs⟩ := printTail_ends rest
    exact ⟨quoted key ++ ':' :: (print value ++ cs), by simp [print, hcs]⟩

end Values

theorem parse_print (v : Json) : parse (print v) = some v := by
  have h := parseValue_print v (print v).length [] le_rfl (by simp [NoDigit])
  rw [append_nil] at h
  simp [parse, h]

/-- The parser does not accept an object that is cut off. -/
theorem parse_cut {fields : JsonFields} {p : List Char} (hp : p <+: print (.obj fields))
    (hne : p ≠ print (.obj fields)) : parse p = none := by
  obtain ⟨t, ht⟩ := hp
  rw [parse]
  split
  · rename_i v h
    have hv : ∀ n, v ≠ .num n := by
      rintro n rfl
      obtain ⟨cs, hcs⟩ := print_obj_braces fields
      cases p with
      | nil => cases h
      | cons c p =>
        obtain ⟨rfl, -⟩ := cons_eq_cons.mp (ht.trans hcs)
        rw [parseValue.eq_def] at h
        simp only at h
        split at h <;> simp_all
    -- the whole text would be read as the value of the part, with a rest
    have hmore := parseValue_append t h (.inr hv)
    rw [ht] at hmore
    have hlength : p.length + 1 ≤ (print (.obj fields)).length + 1 := by simp [← ht]
    have hwhole := parseValue_print (.obj fields) _ [] le_rfl (by simp [NoDigit])
    rw [append_nil, parseValue_mono_le hlength hmore] at hwhole
    have hrest : t = [] := (Prod.mk.inj (some.inj hwhole)).2
    exact absurd (by rw [← ht, hrest, append_nil]) hne
  · rfl

end Json
