import HeaderChain.Json.Text

/-!
# JSON Strings Read Back

What is written as a JSON string is read as the same string.

A string is read in two steps, and each of them undoes its part of the writing character by
character. Cutting turns what was written for a character into one piece, which is the
character itself or, for a control without a short escape, a code unit. Joining turns that
piece back into the character. The code unit of a control is no half of a surrogate pair, so
it does not matter what piece comes after it.

## Main definitions

* `Json.piece`: The piece that a written character is read as.

## Theorems

* `Json.body?_escape`: Cutting takes a written character for one piece.
* `Json.join?_piece`: Joining turns the piece back into the character.
* `Json.body?_quote`, `Json.join?_pieces`: A written string is read back.
-/

namespace HeaderChain

namespace Json

/-- Whether a character is written by its code unit, as a control that has no short
    escape. -/
def isCoded (c : Char) : Bool :=
  c.toNat < 32 && c != '\x08' && c != '\x0c' && c != '\n' && c != '\r' && c != '\t'

/-- The piece that a written character is read as. -/
def piece (c : Char) : Piece :=
  if isCoded c then .unit c.toNat else .char c

/-- The characters with a short escape, each with the letter of that. -/
def shortEscapes : List (Char × Char) :=
  [('"', '"'), ('\\', '\\'), ('\x08', 'b'), ('\x0c', 'f'), ('\n', 'n'), ('\r', 'r'), ('\t', 't')]

/-- A character is written by a short escape, by its code unit or as it is. -/
theorem escape_cases (c : Char) :
    (∃ e, escape c = ['\\', e] ∧ escaped? e = some c ∧ e ≠ 'u' ∧ isCoded c = false) ∨
      (escape c = ['\\', 'u', '0', '0', hexDigit (c.toNat / 16), hexDigit (c.toNat % 16)] ∧
        c.toNat < 32 ∧ isCoded c = true) ∨
      (escape c = [c] ∧ c ≠ '"' ∧ c ≠ '\\' ∧ ¬ c.toNat < 32 ∧ isCoded c = false) := by
  have hshort : ∀ p ∈ shortEscapes, escape p.1 = ['\\', p.2] ∧ escaped? p.2 = some p.1 ∧
      p.2 ≠ 'u' ∧ isCoded p.1 = false := by
    decide
  by_cases hc : ∃ p ∈ shortEscapes, p.1 = c
  · rcases hc with ⟨p, hp, rfl⟩
    exact .inl ⟨p.2, hshort p hp⟩
  · -- Seven comparisons fail, and the code point decides.
    simp only [shortEscapes, List.mem_cons, List.not_mem_nil, or_false, exists_eq_or_imp,
      exists_eq_left, not_or, eq_comm (b := c)] at hc
    rcases hc with ⟨hquote, hslash, hb, hf, hn, hr, ht⟩
    by_cases hcontrol : c.toNat < 32 <;> simp [escape, isCoded, *]

theorem hexValue?_hexDigit : ∀ n < 16, hexValue? (hexDigit n) = some n := by
  decide

/-- The escape of a control names its code unit. -/
theorem unit?_of_lt {n : Nat} (h : n < 256) :
    unit? '0' '0' (hexDigit (n / 16)) (hexDigit (n % 16)) = some n := by
  have hzero : hexValue? '0' = some 0 := by decide
  have hhigh := hexValue?_hexDigit (n / 16) (by omega)
  have hlow := hexValue?_hexDigit (n % 16) (by omega)
  simp only [unit?, hzero, hhigh, hlow, bind, Option.bind, pure, Option.some.injEq]
  omega

section Cutting

variable {a b c d e : Char} {n : Nat} (cs : List Char)

theorem body?_short (he : escaped? e = some c) (hu : e ≠ 'u') :
    body? ('\\' :: e :: cs) = (body? cs).map fun (ps, rest) => (.char c :: ps, rest) := by
  rw [body?, he]
  · cases body? cs <;> rfl
  · exact fun _ _ _ _ _ heq => absurd heq hu

theorem body?_unit (hn : unit? a b c d = some n) :
    body? ('\\' :: 'u' :: a :: b :: c :: d :: cs)
      = (body? cs).map fun (ps, rest) => (.unit n :: ps, rest) := by
  rw [body?, hn]
  cases body? cs <;> rfl

theorem body?_plain (hquote : c ≠ '"') (hslash : c ≠ '\\') (hcontrol : ¬ c.toNat < 32) :
    body? (c :: cs) = (body? cs).map fun (ps, rest) => (.char c :: ps, rest) := by
  rw [body?, if_neg hcontrol]
  · cases body? cs <;> rfl
  · exact hquote
  · exact fun _ _ _ _ _ heq => absurd heq hslash
  · exact fun _ _ heq => absurd heq hslash

/-- Cutting takes a written character for one piece. -/
theorem body?_escape (c : Char) :
    body? (escape c ++ cs) = (body? cs).map fun (ps, rest) => (piece c :: ps, rest) := by
  unfold piece
  rcases escape_cases c with
    ⟨e, hescape, he, hu, hcoded⟩ | ⟨hescape, hcontrol, hcoded⟩ |
      ⟨hescape, hquote, hslash, hcontrol, hcoded⟩
  · rw [hescape, hcoded]
    exact body?_short cs he hu
  · rw [hescape, hcoded]
    exact body?_unit cs (unit?_of_lt (by omega))
  · rw [hescape, hcoded]
    exact body?_plain cs hquote hslash hcontrol

end Cutting

/-- Joining turns the piece of a character back into it. -/
theorem join?_piece (c : Char) (ps : List Piece) :
    join? (piece c :: ps) = (join? ps).map (c :: ·) := by
  unfold piece
  split
  · next hcoded =>
    -- A control is no half of a pair, so what follows makes no difference.
    have hcontrol : c.toNat < 32 := by
      simp only [isCoded, Bool.and_eq_true, decide_eq_true_eq] at hcoded
      omega
    have hhigh : isHigh c.toNat = false := by
      simp only [isHigh, Bool.and_eq_false_iff, decide_eq_false_iff_not]
      omega
    have hlow : isLow c.toNat = false := by
      simp only [isLow, Bool.and_eq_false_iff, decide_eq_false_iff_not]
      omega
    cases ps with
    | nil => simp [join?, hhigh, hlow]
    | cons p ps => cases p <;> simp [join?, hhigh, hlow]
  · rw [join?]

/-- A written string is cut into the pieces of its characters. -/
theorem body?_quote (cs rest : List Char) :
    body? (cs.flatMap escape ++ '"' :: rest) = some (cs.map piece, rest) := by
  induction cs with
  | nil => rw [List.flatMap_nil, List.nil_append, body?, List.map_nil]
  | cons c cs ih =>
      rw [List.flatMap_cons, List.append_assoc, body?_escape, ih]
      rfl

/-- And the pieces are joined into the characters. -/
theorem join?_pieces (cs : List Char) : join? (cs.map piece) = some cs := by
  induction cs with
  | nil => rfl
  | cons c cs ih =>
      rw [List.map_cons, join?_piece, ih]
      rfl

end Json

end HeaderChain
