import HeaderChain.Text.Decimal

/-!
# Decimal Numerals Read Back

What is written as a decimal numeral is read as the same number.

Writing splits off the last digit and reading folds from the first one, so the two meet at
the last digit: what is read before it is the number without it. Of the digits themselves a
reader needs to know two more things. All of them are digits, so a run of digits takes in
the whole numeral. And zero stands at the front only where it stands alone, which is what
the form of a number in JSON asks for. The digits are the usual ones.

## Theorems

* `Decimal.ofNat_eq_repr`: A numeral is the decimal form of its number.
* `Decimal.value_digits`: The digits of a number stand for it.
* `Decimal.isDigit_of_mem_digits`: They are digits.
* `Decimal.head?_digits_of_pos`: A positive number does not start with zero.
-/

namespace HeaderChain

namespace Decimal

theorem digit_spec : ∀ n < 10, digitValue (digit n) = n ∧ isDigit (digit n) = true := by
  decide

theorem value_concat (ds : List Char) (d : Char) :
    value (ds ++ [d]) = value ds * 10 + digitValue d :=
  List.foldl_append

theorem digits_of_lt {n : Nat} (h : n < 10) : digits n = [digit n] := by
  rw [digits, if_pos h]

theorem digits_of_le {n : Nat} (h : 10 ≤ n) : digits n = digits (n / 10) ++ [digit (n % 10)] := by
  rw [digits, if_neg (Nat.not_lt.mpr h)]

theorem digit_eq_digitChar : ∀ n < 10, digit n = Nat.digitChar n := by
  decide

/-- The digits of a number are those of its decimal form. -/
theorem digits_eq_toDigits (n : Nat) : digits n = Nat.toDigits 10 n := by
  induction n using Nat.strongRecOn with
  | _ n ih =>
      by_cases h : n < 10
      · rw [digits_of_lt h, Nat.toDigits_of_lt_base h, digit_eq_digitChar n h]
      · rw [digits_of_le (Nat.not_lt.mp h), ih (n / 10) (by omega),
          digit_eq_digitChar (n % 10) (by omega),
          Nat.toDigits_of_base_le (by decide) (Nat.not_lt.mp h)]

theorem ofNat_eq_repr (n : Nat) : ofNat n = n.repr := by
  rw [ofNat, digits_eq_toDigits, Nat.repr_eq_ofList_toDigits]

/-- The digits of a number stand for it. -/
theorem value_digits (n : Nat) : value (digits n) = n := by
  induction n using Nat.strongRecOn with
  | _ n ih =>
      by_cases h : n < 10
      · rw [digits_of_lt h, ← List.nil_append [digit n], value_concat, (digit_spec n h).1]
        exact Nat.zero_add n
      · -- Without its last digit the number is smaller.
        rw [digits_of_le (Nat.not_lt.mp h), value_concat, ih (n / 10) (by omega),
          (digit_spec (n % 10) (by omega)).1]
        omega

theorem isDigit_of_mem_digits {n : Nat} {c : Char} (hc : c ∈ digits n) : isDigit c = true := by
  induction n using Nat.strongRecOn with
  | _ n ih =>
      by_cases h : n < 10
      · rw [digits_of_lt h, List.mem_singleton] at hc
        rw [hc]
        exact (digit_spec n h).2
      · rw [digits_of_le (Nat.not_lt.mp h), List.mem_append, List.mem_singleton] at hc
        rcases hc with hc | rfl
        · exact ih (n / 10) (by omega) hc
        · exact (digit_spec (n % 10) (by omega)).2

theorem digits_ne_nil (n : Nat) : digits n ≠ [] := by
  by_cases h : n < 10
  · rw [digits_of_lt h]
    exact List.cons_ne_nil _ _
  · rw [digits_of_le (Nat.not_lt.mp h)]
    exact List.append_ne_nil_of_right_ne_nil _ (List.cons_ne_nil _ _)

/-- A positive number does not start with zero. -/
theorem head?_digits_of_pos {n : Nat} (hpos : 0 < n) : (digits n).head? ≠ some '0' := by
  induction n using Nat.strongRecOn with
  | _ n ih =>
      by_cases h : n < 10
      · have hne : ∀ m < 10, 0 < m → digit m ≠ '0' := by decide
        rw [digits_of_lt h, List.head?_cons, ne_eq, Option.some.injEq]
        exact hne n h hpos
      · -- The first digit is that of the number without its last one.
        have hfront := ih (n / 10) (by omega) (by omega)
        rw [digits_of_le (Nat.not_lt.mp h), List.head?_append]
        cases hhead : (digits (n / 10)).head? with
        | none => exact absurd (List.head?_eq_none_iff.mp hhead) (digits_ne_nil _)
        | some c =>
            rw [hhead] at hfront
            exact hfront

end Decimal

end HeaderChain
