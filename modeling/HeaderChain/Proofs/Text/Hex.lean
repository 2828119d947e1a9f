import HeaderChain.Hash

/-!
# Hexadecimal Text Read Back

What is written in hexadecimal is read as the same bytes.

Writing makes characters and reading takes the bytes of their UTF-8 form. The digits in use
are ASCII, so each of them is one byte, and the text has two bytes for every byte written.
Its length is right then, and each pair of digits is read as the byte that it was written
for.

## Main definitions

* `Hex.digitByte`: A digit as it stands in UTF-8.

## Theorems

* `Hex.encode_eq_digits`: The digits of a hexadecimal text.
* `Hex.utf8_encode`: The bytes of a hexadecimal text.
* `Hex.pairs_utf8_encode`: Pair by pair they are read back.
* `Hash.parse_toHex`: A hash is read back from its text form.
-/

namespace HeaderChain

namespace Hex

/-- The digit for a value below sixteen, as it stands in UTF-8. -/
def digitByte (n : Nat) : UInt8 :=
  UInt8.ofNat (digit n).toNat

theorem digit_spec : ∀ n < 16,
    String.utf8EncodeChar (digit n) = [digitByte n] ∧ value? (digitByte n) = some n := by
  decide

theorem digit_eq_digitChar : ∀ n < 16, digit n = Nat.digitChar n := by
  decide

theorem halves_lt (byte : UInt8) : byte.toNat / 16 < 16 ∧ byte.toNat % 16 < 16 := by
  have hbyte : byte.toNat < 256 := byte.toNat_lt
  omega

theorem pair_eq_digits (byte : UInt8) :
    pair byte = [Nat.digitChar (byte.toNat / 16), Nat.digitChar (byte.toNat % 16)] := by
  rcases halves_lt byte with ⟨hhigh, hlow⟩
  rw [pair, digit_eq_digitChar _ hhigh, digit_eq_digitChar _ hlow]

/-- The text of a byte string is two digits for each byte. -/
theorem encode_eq_digits (bytes : List UInt8) :
    encode bytes = String.ofList (bytes.flatMap fun byte =>
      [Nat.digitChar (byte.toNat / 16), Nat.digitChar (byte.toNat % 16)]) := by
  rw [encode, funext pair_eq_digits]

/-- The text of a byte string, in bytes. -/
theorem utf8_encode (bytes : List UInt8) :
    utf8 (encode bytes)
      = bytes.flatMap fun b => [digitByte (b.toNat / 16), digitByte (b.toNat % 16)] := by
  rw [utf8, encode, String.toList_ofList]
  induction bytes with
  | nil => rfl
  | cons b rest ih =>
      rcases halves_lt b with ⟨hhigh, hlow⟩
      rw [List.flatMap_cons, List.flatMap_append, ih, List.flatMap_cons, pair, List.flatMap_cons,
        List.flatMap_cons, (digit_spec _ hhigh).1, (digit_spec _ hlow).1]
      rfl

theorem length_utf8_encode (bytes : List UInt8) :
    (utf8 (encode bytes)).length = 2 * bytes.length := by
  rw [utf8_encode]
  induction bytes with
  | nil => rfl
  | cons b rest ih =>
      rw [List.flatMap_cons, List.length_append, ih, List.length_cons]
      simp only [List.length_cons, List.length_nil]
      omega

theorem valueAt_digitByte {n : Nat} (h : n < 16) (position : Nat) :
    valueAt position (digitByte n) = .ok n := by
  rw [valueAt, (digit_spec n h).2]

/-- Pair by pair the bytes are read back. -/
theorem pairs_utf8_encode (bytes : List UInt8) (position : Nat) :
    pairs position (utf8 (encode bytes)) = .ok bytes := by
  rw [utf8_encode]
  induction bytes generalizing position with
  | nil => rfl
  | cons b rest ih =>
      rcases halves_lt b with ⟨hhigh, hlow⟩
      have hbyte : UInt8.ofNat (16 * (b.toNat / 16) + b.toNat % 16) = b := by
        rw [Nat.div_add_mod]
        exact UInt8.ofNat_toNat
      rw [List.flatMap_cons, List.cons_append, List.cons_append, List.nil_append, pairs,
        valueAt_digitByte hhigh, valueAt_digitByte hlow, ih]
      exact congrArg (fun b => Except.ok (b :: rest)) hbyte

theorem decode_encode (bytes : List UInt8) : decode bytes.length (encode bytes) = .ok bytes := by
  -- Two bytes for each byte written: the length is even, and it is the one asked for.
  have hlength := length_utf8_encode bytes
  have heven : ¬ (utf8 (encode bytes)).length % 2 = 1 := by omega
  rw [decode, if_neg heven, if_neg (not_not_intro hlength)]
  exact pairs_utf8_encode bytes 0

end Hex

/-- A hash is read back from its text form. -/
theorem Hash.parse_toHex {size : Nat} (hash : Hash size) : Hash.parse hash.toHex = .ok hash := by
  rcases hash with ⟨bytes, rfl⟩
  rw [parse, toHex, Hex.decode_encode]
  exact dif_pos rfl

end HeaderChain
