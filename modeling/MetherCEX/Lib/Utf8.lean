import Mathlib.Data.List.Basic
import Mathlib.Tactic.Common

/-!
# UTF-8

A decoder for UTF-8 that is structural on the bytes.
-/

namespace Utf8

open List

def encode (cs : List Char) : List UInt8 := cs.flatMap String.utf8EncodeChar

/-- The characters of a byte string, by the lengths the lead bytes announce. -/
def chars : List UInt8 → List Char
  | [] => []
  | a :: rest =>
    if a.toNat < 0x80 then Char.ofNat a.toNat :: chars rest
    else
      match rest with
      | [] => []
      | b :: rest =>
        if a.toNat < 0xE0 then Char.ofNat (a.toNat % 32 * 64 + b.toNat % 64) :: chars rest
        else
          match rest with
          | [] => []
          | c :: rest =>
            if a.toNat < 0xF0 then
              Char.ofNat ((a.toNat % 16 * 64 + b.toNat % 64) * 64 + c.toNat % 64) ::
                chars rest
            else
              match rest with
              | [] => []
              | d :: rest =>
                Char.ofNat (((a.toNat % 8 * 64 + b.toNat % 64) * 64 + c.toNat % 64) * 64 +
                  d.toNat % 64) :: chars rest

def decode? (bytes : List UInt8) : Option (List Char) :=
  if encode (chars bytes) = bytes then some (chars bytes) else none

theorem chars_encodeChar (c : Char) (rest : List UInt8) :
    chars (String.utf8EncodeChar c ++ rest) = c :: chars rest := by
  have hback : Char.ofNat c.val.toNat = c := Char.ofNat_toNat c
  have hlt : c.val.toNat < 0x110000 := by
    rcases c.valid with h | h <;> omega
  rw [String.utf8EncodeChar]
  split_ifs with h1 h2 h3
  · simp only [cons_append, nil_append]
    rw [chars.eq_def]
    simp only [UInt8.toNat_ofNat']
    rw [if_pos (by omega), Nat.mod_eq_of_lt (by omega), hback]
  · simp only [cons_append, nil_append]
    rw [chars.eq_def]
    simp only [UInt8.toNat_ofNat']
    rw [if_neg (by omega), if_pos (by omega)]
    exact congrArg (· :: _) ((congrArg Char.ofNat (by omega)).trans hback)
  · simp only [cons_append, nil_append]
    rw [chars.eq_def]
    simp only [UInt8.toNat_ofNat']
    rw [if_neg (by omega), if_neg (by omega), if_pos (by omega)]
    exact congrArg (· :: _) ((congrArg Char.ofNat (by omega)).trans hback)
  · simp only [cons_append, nil_append]
    rw [chars.eq_def]
    simp only [UInt8.toNat_ofNat']
    rw [if_neg (by omega), if_neg (by omega), if_neg (by omega)]
    exact congrArg (· :: _) ((congrArg Char.ofNat (by omega)).trans hback)

theorem chars_encode (cs : List Char) : chars (encode cs) = cs := by
  induction cs with
  | nil => rfl
  | cons c cs ih =>
    change chars (String.utf8EncodeChar c ++ encode cs) = c :: cs
    rw [chars_encodeChar, ih]

theorem decode?_encode (cs : List Char) : decode? (encode cs) = some cs := by
  rw [decode?, chars_encode, if_pos rfl]

theorem encode_of_decode? {bytes : List UInt8} {cs : List Char} (h : decode? bytes = some cs) :
    bytes = encode cs := by
  rw [decode?] at h
  split_ifs at h with hback
  cases h
  exact hback.symm

theorem isPrefix_of_encode {cs text : List Char} (h : encode cs <+: encode text) : cs <+: text := by
  obtain ⟨rest, hrest⟩ := h
  apply List.isPrefix_of_utf8Encode_append_eq_utf8Encode rest.toByteArray
  change (encode cs).toByteArray ++ rest.toByteArray = (encode text).toByteArray
  rw [← List.toByteArray_append, hrest]

/-- The newline byte is in the bytes of the newline only. -/
theorem newline_mem_utf8EncodeChar {c : Char} (h : 10 ∈ String.utf8EncodeChar c) : c = '\n' := by
  have hbyte : ∀ {n : ℕ}, (10 : UInt8) = UInt8.ofNat n → n % 256 = 10 := by
    intro n hn
    have := congrArg UInt8.toNat hn
    simpa using this.symm
  rw [String.utf8EncodeChar] at h
  apply Char.toNat_inj.mp
  split_ifs at h with h1 h2 h3
  · have := hbyte (mem_singleton.mp h)
    change c.val.toNat = 10
    omega
  · simp only [mem_cons, not_mem_nil, or_false] at h
    rcases h with h | h <;> have := hbyte h <;> omega
  · simp only [mem_cons, not_mem_nil, or_false] at h
    rcases h with h | h | h <;> have := hbyte h <;> omega
  · simp only [mem_cons, not_mem_nil, or_false] at h
    rcases h with h | h | h | h <;> have := hbyte h <;> omega

theorem newline_mem_encode {cs : List Char} (h : 10 ∈ encode cs) : '\n' ∈ cs := by
  obtain ⟨c, hc, hmem⟩ := mem_flatMap.mp h
  rwa [newline_mem_utf8EncodeChar hmem] at hc

end Utf8
