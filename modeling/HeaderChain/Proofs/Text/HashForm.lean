import HeaderChain.Proofs.Cascade
import HeaderChain.Proofs.Text.Hex

/-!
# The Text Form of Hashes

Which texts are read as hashes, as which ones, and what is said of the others.

A text is read by its UTF-8 bytes. It is asked for an even number of them, then for the
number that the size of the hash calls for, and then for one digit after the other.
These are conditions in a row, so it is enough to list them: the text is read if all of
them hold, and otherwise the first one that does not is reported. In particular, the
position of a byte that is no digit is that of the first such byte.

Writing uses lower case and reading takes either, so a text is read as the hash whose
form is that text in lower case. Only the letters of ASCII have another case here. The
bytes of any other character lie above ASCII and stay as they are, which is why it does
not matter whether a text is put into lower case by its characters or by its bytes.

The digits ascend as bytes just as they do as numbers, and a byte has its high digit in
front. So the form keeps the order of the bytes.

## Main definitions

* `Hex.IsDigit`: A byte is a digit, in either case.
* `Hex.lower`: A byte in lower case.
* `Hex.formConditions`: What a text is asked for.

## Theorems

* `Hex.map_lower_of_pairs`, `Hex.pairs_of_map_lower`: A run of digits is read as the bytes
  that are written as it.
* `Hex.decides_pairs`: It is checked digit by digit.
* `Hex.utf8_toLower`: A text in lower case, byte by byte.
* `Hex.utf8_encode_lt_iff`: The form keeps the order.
* `hash_text_faithful`: The text form is a faithful code of hashes.
-/

namespace HeaderChain

namespace Hex

/-! ### Digits -/

/-- A byte that stands for a hexadecimal digit, in either case. -/
def IsDigit (byte : UInt8) : Prop :=
  byte ∈ ['0', '1', '2', '3', '4', '5', '6', '7', '8', '9', 'a', 'b', 'c', 'd', 'e', 'f',
    'A', 'B', 'C', 'D', 'E', 'F'].map Char.toUInt8

instance (byte : UInt8) : Decidable (IsDigit byte) :=
  inferInstanceAs (Decidable (byte ∈ _))

/-- A byte in lower case, which is another one only for a capital letter of ASCII. -/
def lower (byte : UInt8) : UInt8 :=
  if 65 ≤ byte.toNat ∧ byte.toNat ≤ 90 then byte + 32 else byte

/-- What is checked for the 256 bytes holds of all. -/
theorem forall_byte {P : UInt8 → Prop} (h : ∀ n < 256, P (UInt8.ofNat n)) (byte : UInt8) :
    P byte := by
  have hbyte := h byte.toNat byte.toNat_lt
  rwa [UInt8.ofNat_toNat] at hbyte

theorem value?_isSome_iff : ∀ byte, (value? byte).isSome = true ↔ IsDigit byte :=
  forall_byte (by decide +kernel)

/-- Only the sixteen values are read, each from the digit that is written for it, but
    for its case. -/
theorem value?_eq_some_iff {byte : UInt8} {n : Nat} :
    value? byte = some n ↔ n < 16 ∧ lower byte = digitByte n := by
  have hlt : ∀ byte : UInt8, ∀ n ∈ value? byte, n < 16 := forall_byte (by decide +kernel)
  have hvalue : ∀ byte : UInt8, ∀ n < 16, value? byte = some n ↔ lower byte = digitByte n :=
    forall_byte (by decide +kernel)
  constructor
  · intro h
    exact ⟨hlt byte n h, (hvalue byte n (hlt byte n h)).mp h⟩
  · rintro ⟨hn, h⟩
    exact (hvalue byte n hn).mpr h

/-- The digits ascend as bytes as they do as numbers. -/
theorem digitByte_order : ∀ m < 16, ∀ n < 16,
    (digitByte m < digitByte n ↔ m < n) ∧ (digitByte m = digitByte n ↔ m = n) := by
  decide

/-! ### Runs of digits -/

theorem utf8_encode_nil : utf8 (encode []) = [] := by
  rw [utf8_encode, List.flatMap_nil]

theorem utf8_encode_cons (byte : UInt8) (bytes : List UInt8) :
    utf8 (encode (byte :: bytes))
      = digitByte (byte.toNat / 16) :: digitByte (byte.toNat % 16) :: utf8 (encode bytes) := by
  rw [utf8_encode, utf8_encode, List.flatMap_cons]
  rfl

theorem ofNat_halves (byte : UInt8) :
    UInt8.ofNat (16 * (byte.toNat / 16) + byte.toNat % 16) = byte := by
  rw [Nat.div_add_mod]
  exact UInt8.ofNat_toNat

theorem halves_ofNat {h l : Nat} (hh : h < 16) (hl : l < 16) :
    (UInt8.ofNat (16 * h + l)).toNat / 16 = h ∧ (UInt8.ofNat (16 * h + l)).toNat % 16 = l := by
  have hbyte : (UInt8.ofNat (16 * h + l)).toNat = 16 * h + l :=
    Nat.mod_eq_of_lt (by omega)
  omega

/-- Two digits at the front are read before the others. -/
theorem pairs_cons_cons (position : Nat) (high low : UInt8) (rest : List UInt8) :
    pairs position (high :: low :: rest)
      = match value? high, value? low with
        | none, _ => .error (.notADigit high position)
        | some _, none => .error (.notADigit low (position + 1))
        | some h, some l =>
          (pairs (position + 2) rest).map fun bytes => UInt8.ofNat (16 * h + l) :: bytes := by
  rw [pairs, valueAt, valueAt]
  cases value? high <;> cases value? low <;> rfl

/-- What holds of no digits, and goes on to hold with two more in front, holds of every
    even number of them. -/
theorem even_induction {motive : (digits : List UInt8) → digits.length % 2 = 0 → Prop}
    (nil : motive [] rfl)
    (cons_cons : ∀ high low rest heven, motive rest heven →
      motive (high :: low :: rest) ((Nat.add_mod_right _ 2).trans heven)) :
    ∀ digits heven, motive digits heven
  | [], _ => nil
  | [_], heven => absurd heven Nat.one_ne_zero
  | high :: low :: rest, heven =>
    have hrest : rest.length % 2 = 0 := (Nat.add_mod_right _ 2).symm.trans heven
    cons_cons high low rest hrest (even_induction nil cons_cons rest hrest)

/-- What is read is written as the digits that it was read from, but for their case. -/
theorem map_lower_of_pairs {digits out : List UInt8} {position : Nat}
    (heven : digits.length % 2 = 0) (h : pairs position digits = .ok out) :
    digits.map lower = utf8 (encode out) := by
  -- Two digits are taken at a time, and the position moves on with them.
  induction digits, heven using even_induction generalizing position out with
  | nil =>
      cases h
      exact utf8_encode_nil.symm
  | cons_cons high low rest _ ih =>
      rw [pairs_cons_cons] at h
      split at h
      · exact nomatch h
      · exact nomatch h
      · next hi lo hhigh hlow =>
        cases hrest : pairs (position + 2) rest with
        | error fault => exact nomatch hrest ▸ h
        | ok bytes =>
            rw [hrest] at h
            cases h
            rcases value?_eq_some_iff.mp hhigh with ⟨hhi, hhigh⟩
            rcases value?_eq_some_iff.mp hlow with ⟨hlo, hlow⟩
            rcases halves_ofNat hhi hlo with ⟨hdiv, hmod⟩
            rw [List.map_cons, List.map_cons, ih hrest, utf8_encode_cons, hdiv, hmod, hhigh, hlow]

/-- What is written is read back, in either case. -/
theorem pairs_of_map_lower {digits out : List UInt8} (h : digits.map lower = utf8 (encode out))
    (position : Nat) : pairs position digits = .ok out := by
  -- What is written is known byte by byte, so the induction is on that.
  induction out generalizing digits position with
  | nil =>
      rw [utf8_encode_nil] at h
      rw [List.map_eq_nil_iff.mp h]
      rfl
  | cons byte bytes ih =>
      rw [utf8_encode_cons] at h
      rcases List.map_eq_cons_iff.mp h with ⟨high, _, rfl, hhigh, h⟩
      rcases List.map_eq_cons_iff.mp h with ⟨low, rest, rfl, hlow, h⟩
      rcases halves_lt byte with ⟨hhi, hlo⟩
      rw [pairs_cons_cons, value?_eq_some_iff.mpr ⟨hhi, hhigh⟩, value?_eq_some_iff.mpr ⟨hlo, hlow⟩]
      simp only [ih h, ofNat_halves]
      rfl

/-! ### Conditions -/

/-- One byte after the other is asked to be a digit, the first standing at
    `position`. -/
def digitConditions (position : Nat) (bytes : List UInt8) : List (Condition Fault) :=
  (bytes.zipIdx position).map fun b => ⟨IsDigit b.1, .notADigit b.1 b.2⟩

/-- Whether there is a fault does not depend on what is read. -/
theorem map_pairs_cons_cons (position : Nat) (high low : UInt8) (rest : List UInt8) :
    (pairs position (high :: low :: rest)).map (fun _ => ())
      = if ¬ IsDigit high then .error (.notADigit high position)
        else if ¬ IsDigit low then .error (.notADigit low (position + 1))
        else (pairs (position + 2) rest).map fun _ => () := by
  rw [pairs_cons_cons]
  simp only [← value?_isSome_iff]
  cases value? high with
  | none => rfl
  | some h =>
      cases value? low with
      | none => rfl
      | some l => cases pairs (position + 2) rest <;> rfl

/-- A run is checked digit by digit. -/
theorem decides_pairs {digits : List UInt8} (heven : digits.length % 2 = 0) (position : Nat) :
    Decides ((pairs position digits).map fun _ => ()) (digitConditions position digits) := by
  induction digits, heven using even_induction generalizing position with
  | nil => exact .nil
  | cons_cons high low rest _ ih =>
      rw [map_pairs_cons_cons]
      exact .require _ (.require _ (ih (position + 2)))

/-! ### Texts and their bytes -/

theorem toByteArray_eq (text : String) : text.toByteArray = (utf8 text).toByteArray := by
  have hbytes : (String.ofList text.toList).toByteArray = (utf8 text).toByteArray :=
    String.toByteArray_ofList
  rwa [String.ofList_toList] at hbytes

theorem length_utf8 (text : String) : (utf8 text).length = text.utf8ByteSize := by
  rw [String.utf8ByteSize, toByteArray_eq, List.size_toByteArray]

/-- A text is known by its bytes. -/
theorem utf8_inj {s t : String} : utf8 s = utf8 t ↔ s = t := by
  rw [← String.toByteArray_inj, toByteArray_eq, toByteArray_eq, List.toByteArray_inj]

theorem lower_of_le {byte : UInt8} (h : 128 ≤ byte.toNat) : lower byte = byte :=
  if_neg fun hcapital => absurd hcapital.2 (by omega)

theorem toLower_of_le {c : Char} (h : 128 ≤ c.toNat) : c.toLower = c := by
  refine dif_neg fun hcapital => ?_
  have hle : c.toNat ≤ 90 := UInt32.le_iff_toNat_le.mp hcapital.2
  omega

/-- The bytes of a character beyond ASCII lie beyond ASCII themselves. -/
theorem le_of_mem_utf8EncodeChar {c : Char} (hc : 128 ≤ c.toNat) {byte : UInt8}
    (h : byte ∈ String.utf8EncodeChar c) : 128 ≤ byte.toNat := by
  have hbyte : ∀ n, 128 ≤ n → n < 256 → byte = UInt8.ofNat n → 128 ≤ byte.toNat := by
    rintro n hlow hhigh rfl
    rwa [UInt8.toNat_ofNat_of_lt' hhigh]
  have hval : ¬ c.val.toNat ≤ 127 := Nat.not_le.mpr hc
  -- There are two, three or four bytes, by the size of the character.
  unfold String.utf8EncodeChar at h
  simp only [hval, if_false] at h
  split at h
  · simp only [List.mem_cons, List.not_mem_nil, or_false] at h
    rcases h with h | h <;> exact hbyte _ (by omega) (by omega) h
  · split at h
    · simp only [List.mem_cons, List.not_mem_nil, or_false] at h
      rcases h with h | h | h <;> exact hbyte _ (by omega) (by omega) h
    · simp only [List.mem_cons, List.not_mem_nil, or_false] at h
      rcases h with h | h | h | h <;> exact hbyte _ (by omega) (by omega) h

/-- A character in lower case, byte by byte. -/
theorem utf8EncodeChar_toLower (c : Char) :
    String.utf8EncodeChar c.toLower = (String.utf8EncodeChar c).map lower := by
  by_cases hc : c.toNat < 128
  · have hascii : ∀ n < 128, String.utf8EncodeChar (Char.ofNat n).toLower
        = (String.utf8EncodeChar (Char.ofNat n)).map lower := by decide +kernel
    have h := hascii c.toNat hc
    rwa [Char.ofNat_toNat] at h
  · -- Neither the character nor any of its bytes is a capital letter of ASCII.
    have hc : 128 ≤ c.toNat := Nat.not_lt.mp hc
    have hbytes : ∀ byte ∈ String.utf8EncodeChar c, lower byte = byte :=
      fun _ h => lower_of_le (le_of_mem_utf8EncodeChar hc h)
    rw [toLower_of_le hc, List.map_congr_left hbytes, List.map_id']

/-- A text in lower case, byte by byte. -/
theorem utf8_toLower (text : String) : utf8 text.toLower = (utf8 text).map lower := by
  have hlower : text.toLower.toList = text.toList.map Char.toLower := String.toList_map
  rw [utf8, utf8, hlower, List.flatMap_map, List.map_flatMap]
  exact congrArg (fun f => List.flatMap f text.toList) (funext utf8EncodeChar_toLower)

/-! ### Order -/

/-- The digits of two bytes are compared as the bytes are. -/
theorem halves_lt_iff {x y : UInt8} {as bs : List UInt8} :
    digitByte (x.toNat / 16) :: digitByte (x.toNat % 16) :: as
        < digitByte (y.toNat / 16) :: digitByte (y.toNat % 16) :: bs ↔
      x < y ∨ (x = y ∧ as < bs) := by
  rcases halves_lt x with ⟨hx, hx'⟩
  rcases halves_lt y with ⟨hy, hy'⟩
  have hlt : x < y ↔ x.toNat / 16 < y.toNat / 16 ∨
      (x.toNat / 16 = y.toNat / 16 ∧ x.toNat % 16 < y.toNat % 16) := by
    rw [UInt8.lt_iff_toNat_lt]
    omega
  have heq : x = y ↔ x.toNat / 16 = y.toNat / 16 ∧ x.toNat % 16 = y.toNat % 16 := by
    rw [← UInt8.toNat_inj]
    omega
  rw [List.cons_lt_cons_iff, List.cons_lt_cons_iff, (digitByte_order _ hx _ hy).1,
    (digitByte_order _ hx _ hy).2, (digitByte_order _ hx' _ hy').1,
    (digitByte_order _ hx' _ hy').2, hlt, heq, and_or_left, or_assoc, and_assoc]

/-- The form of byte strings keeps their order. -/
theorem utf8_encode_lt_iff {as bs : List UInt8} : utf8 (encode as) < utf8 (encode bs) ↔ as < bs := by
  induction as generalizing bs with
  | nil =>
      rw [utf8_encode_nil]
      cases bs with
      | nil => rw [utf8_encode_nil]
      | cons y bs =>
          rw [utf8_encode_cons]
          exact iff_of_true (List.nil_lt_cons _ _) (List.nil_lt_cons _ _)
  | cons x as ih =>
      cases bs with
      | nil =>
          rw [utf8_encode_nil]
          exact iff_of_false (List.not_lt_nil _) (List.not_lt_nil _)
      | cons y bs => rw [utf8_encode_cons, utf8_encode_cons, halves_lt_iff, ih, List.cons_lt_cons_iff]

/-! ### Reading a text -/

/-- What a text is asked for to be the form of so many bytes: an even number of bytes,
    two for each of those, and digits. -/
def formConditions (size : Nat) (text : String) : List (Condition Fault) :=
  ⟨text.utf8ByteSize % 2 = 0, .oddLength⟩ :: ⟨text.utf8ByteSize = 2 * size, .wrongLength⟩ ::
    digitConditions 0 (utf8 text)

/-- A text is read in three steps, of which the first two look at its length alone. -/
theorem decode_eq (size : Nat) (text : String) :
    decode size text
      = if text.utf8ByteSize % 2 = 1 then .error .oddLength
        else if ¬ text.utf8ByteSize = 2 * size then .error .wrongLength
        else pairs 0 (utf8 text) := by
  simp only [decode, length_utf8, ne_eq]

/-- A text is checked by one condition after the other. -/
theorem decides_decode (size : Nat) (text : String) :
    Decides ((decode size text).map fun _ => ()) (formConditions size text) := by
  have heven : text.utf8ByteSize % 2 = 0 ↔ ¬ text.utf8ByteSize % 2 = 1 := by omega
  have hmap : ∀ e : Fault, (Except.error e : Except Fault (List UInt8)).map (fun _ => ()) = .error e :=
    fun _ => rfl
  rw [decode_eq, apply_ite (Except.map fun _ => ()), apply_ite (Except.map fun _ => ()), hmap, hmap]
  refine .cons_of_not heven _ fun hodd => .require _ (decides_pairs ?_ 0)
  rw [length_utf8]
  exact heven.mpr hodd

/-- A text is read as so many bytes if that is their form, but for its case. -/
theorem decode_eq_ok_iff {size : Nat} {text : String} {out : List UInt8} :
    decode size text = .ok out ↔ out.length = size ∧ encode out = text.toLower := by
  -- Form and text have the same number of bytes, in lower case or not.
  have hlength : (utf8 text).map lower = utf8 (encode out) → text.utf8ByteSize = 2 * out.length := by
    intro h
    have hbytes := congrArg List.length h
    rwa [List.length_map, length_utf8, length_utf8_encode] at hbytes
  rw [← utf8_inj, utf8_toLower, eq_comm (b := (utf8 text).map lower), decode_eq]
  constructor
  · intro h
    split at h
    · exact nomatch h
    · next hodd =>
      split at h
      · exact nomatch h
      · next hsize =>
        have heven : (utf8 text).length % 2 = 0 := by
          rw [length_utf8]
          omega
        have hlower := map_lower_of_pairs heven h
        have hbytes := hlength hlower
        exact ⟨by omega, hlower⟩
  · rintro ⟨rfl, h⟩
    have hbytes := hlength h
    rw [if_neg (by omega), if_neg (not_not_intro hbytes)]
    exact pairs_of_map_lower h 0

end Hex

namespace Hash

variable {size : Nat}

/-- As many bytes are read as the hash has. -/
theorem map_bytes_parse (size : Nat) (text : String) :
    (Hash.parse text : Except Hex.Fault (Hash size)).map bytes = Hex.decode size text := by
  unfold parse
  cases hdecode : Hex.decode size text with
  | error fault => rfl
  | ok out =>
      have hlength : out.length = size := (Hex.decode_eq_ok_iff.mp hdecode).1
      simp only [hlength, dif_pos]
      rfl

/-- A text is read as the hash whose form it is in lower case. -/
theorem parse_eq_ok_iff {text : String} {hash : Hash size} :
    Hash.parse text = .ok hash ↔ hash.toHex = text.toLower := by
  have hdecode := map_bytes_parse size text
  constructor
  · intro h
    rw [h] at hdecode
    exact (Hex.decode_eq_ok_iff.mp hdecode.symm).2
  · intro h
    rw [Hex.decode_eq_ok_iff.mpr ⟨hash.length_eq, h⟩] at hdecode
    cases hparse : (Hash.parse text : Except Hex.Fault (Hash size)) with
    | error fault => exact nomatch hparse ▸ hdecode
    | ok other =>
        rw [hparse] at hdecode
        cases hash
        cases other
        cases hdecode
        rfl

/-- A text is checked by one condition after the other. -/
theorem decides_parse (size : Nat) (text : String) :
    Decides ((Hash.parse text : Except Hex.Fault (Hash size)).map fun _ => ())
      (Hex.formConditions size text) := by
  have hdecides := Hex.decides_decode size text
  rw [← map_bytes_parse] at hdecides
  cases hparse : (Hash.parse text : Except Hex.Fault (Hash size)) <;> rwa [hparse] at hdecides

/-- Positions are those of bytes. A text of three characters has the four that are asked for,
    and it is the second one that is no digit. -/
example : (Hash.parse "aé1" : Except Hex.Fault (Hash 2)) = .error (.notADigit 195 1) := by
  rfl

end Hash

/-- The text form is a faithful code of the hashes of a size, which keeps their order. A
    text is read if it has two bytes for each byte of the hash, all of them digits of
    either case. Otherwise an odd length is reported, or else a wrong one, or else the
    first byte that is no digit. A text is read as the one hash whose form is the text
    in lower case, so a form is read back. And hashes are ordered as their forms are,
    byte by byte. -/
theorem hash_text_faithful (size : Nat) :
    (∀ text : String, Decides ((Hash.parse text : Except Hex.Fault (Hash size)).map fun _ => ())
      (Hex.formConditions size text)) ∧
      (∀ (text : String) (hash : Hash size),
        Hash.parse text = .ok hash ↔ hash.toHex = text.toLower) ∧
      (∀ hash : Hash size, Hash.parse hash.toHex = .ok hash) ∧
      ∀ a b : Hash size, a < b ↔ Hex.utf8 a.toHex < Hex.utf8 b.toHex := by
  refine ⟨Hash.decides_parse size, fun _ _ => Hash.parse_eq_ok_iff, Hash.parse_toHex,
    fun a b => ?_⟩
  rw [Hash.toHex, Hash.toHex, Hex.utf8_encode_lt_iff]
  exact Iff.rfl

end HeaderChain
