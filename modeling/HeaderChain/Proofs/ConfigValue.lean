import HeaderChain.ConfigValue
import Mathlib.Algebra.Order.Round
import Mathlib.Data.Rat.Floor
import Mathlib.Data.Sign.Basic
import Mathlib.Tactic.FieldSimp
import Mathlib.Tactic.Ring

/-!
# What Configuration Values Stand For

Which integer a loosely typed value stands for, and which values stand for none.

A setting may be given as a truth value, as a number of one kind or another, or as a
text. `Denotes` says for each kind which integer is meant, in the terms in which one
would explain it: a number with a fraction means the nearest integer, a half going away
from zero, held within the range; a whole number, or a text of decimal digits with at
most one sign in front, means itself, if it is in range; and a truth value, or one of six
words for it, means one or zero. Nothing else means anything.

A number with a fraction is a double, and what it means is said of the rational number
that its bits stand for, which is zero if they stand for no number. It is rounded without
fractions: adding a half and taking the floor is a division of twice the significand by a
power of two. The sign is put aside before and put back after, since the floor of a
negative number lies farther from zero.

A text is looked up among the words first. That does not take anything away from the
numbers, because the words have no digits in them.

## Main definitions

* `Double.Exact.toRat`: An exact value as a rational number.
* `ConfigValue.Spells`: A text spells an integer.
* `ConfigValue.Denotes`: A value stands for an integer.

## Theorems

* `Double.Exact.round_eq`: Rounding goes to the nearest integer.
* `ConfigValue.spelledInt?_eq_some_iff`, `ConfigValue.spelledFlag?_eq_some_iff`: Which
  texts are read as numbers and as truth values.
* `ConfigValue.toInt64?_eq_some_iff`: A value is read as the integer it stands for.
-/

namespace HeaderChain

/-! ### Doubles -/

namespace Double.Exact

/-- The rational number that an exact value is. -/
def toRat (x : Exact) : ℚ :=
  (if x.negative then -1 else 1) * (x.significand * 2 ^ x.power)

theorem significand_mul_nonneg (x : Exact) : 0 ≤ (x.significand : ℚ) * 2 ^ x.power :=
  mul_nonneg (Nat.cast_nonneg _) (zpow_nonneg (by norm_num) _)

theorem abs_toRat (x : Exact) : |x.toRat| = x.significand * 2 ^ x.power := by
  unfold toRat
  split
  · rw [neg_one_mul, abs_neg, abs_of_nonneg x.significand_mul_nonneg]
  · rw [one_mul, abs_of_nonneg x.significand_mul_nonneg]

/-- The magnitude is rounded up from a half on. -/
theorem magnitude_eq (x : Exact) : (x.magnitude : ℤ) = ⌊|x.toRat| + 1 / 2⌋ := by
  rw [abs_toRat, magnitude]
  split
  · next hpower =>
    -- The value is an integer already.
    have hvalue : (x.significand : ℚ) * 2 ^ x.power
        = ((x.significand * Nat.pow 2 x.power.toNat : ℕ) : ℤ) := by
      conv_lhs => rw [← Int.toNat_of_nonneg hpower, zpow_natCast]
      simp only [Nat.pow_eq]
      push_cast
      rfl
    rw [hvalue, Int.floor_intCast_add]
    norm_num
  · next hpower =>
    -- Half of the unit is added over twice the denominator.
    have hneg : x.power = -((-x.power).toNat : ℤ) := by omega
    have hvalue : (x.significand : ℚ) * 2 ^ x.power + 1 / 2
        = ((2 * x.significand + Nat.pow 2 (-x.power).toNat : ℕ) : ℚ)
          / (Nat.pow 2 ((-x.power).toNat + 1) : ℕ) := by
      conv_lhs => rw [hneg, zpow_neg, zpow_natCast]
      simp only [Nat.pow_eq, pow_succ]
      push_cast
      field_simp
    rw [hvalue, Rat.floor_natCast_div_natCast]
    rfl

/-- The integer nearest to a rational number, a half going away from zero. -/
def nearest (q : ℚ) : ℤ :=
  SignType.sign q * ⌊|q| + 1 / 2⌋

/-- Rounding goes to the nearest integer. -/
theorem round_eq (x : Exact) : x.round = nearest x.toRat := by
  rw [nearest, ← magnitude_eq]
  rcases x.significand_mul_nonneg.eq_or_lt with hzero | hpos
  · -- Without a magnitude the sign does not matter.
    have hvalue : x.toRat = 0 := abs_eq_zero.mp (x.abs_toRat.trans hzero.symm)
    have hmagnitude : (x.magnitude : ℤ) = 0 := by
      rw [magnitude_eq, hvalue]
      norm_num
    rw [round, hmagnitude, neg_zero, mul_zero, ite_self]
  · unfold round toRat
    split
    · rw [neg_one_mul, Left.sign_neg, sign_pos hpos]
      exact (neg_one_mul _).symm
    · rw [one_mul, sign_pos hpos]
      exact (one_mul _).symm

end Double.Exact

/-! ### Texts -/

namespace ConfigValue

open Decimal (isDigit value)

/-- The words for a truth value. -/
def words : Bool → List String
  | true => ["true", "on", "yes"]
  | false => ["false", "off", "no"]

/-- Decimal digits, of which there is one at least. -/
def IsNumeral (ds : List Char) : Prop :=
  ds ≠ [] ∧ ∀ d ∈ ds, isDigit d = true

/-- A text spells an integer in decimal digits, behind one sign at most. -/
inductive Spells : List Char → ℤ → Prop
  /-- Digits alone. -/
  | unsigned {ds : List Char} (h : IsNumeral ds) : Spells ds (value ds)
  /-- Digits behind a plus. -/
  | plus {ds : List Char} (h : IsNumeral ds) : Spells ('+' :: ds) (value ds)
  /-- Digits behind a minus. -/
  | minus {ds : List Char} (h : IsNumeral ds) : Spells ('-' :: ds) (-value ds)

theorem spelledDigits?_eq_some_iff {cs : List Char} {n : Nat} :
    spelledDigits? cs = some n ↔ IsNumeral cs ∧ value cs = n := by
  unfold spelledDigits? IsNumeral
  by_cases hempty : cs = []
  · rw [if_pos (List.isEmpty_iff.mpr hempty)]
    exact iff_of_false nofun fun h => h.1.1 hempty
  · rw [if_neg fun h => hempty (List.isEmpty_iff.mp h), and_iff_right hempty]
    by_cases hall : ∀ d ∈ cs, isDigit d = true
    · rw [if_pos (List.all_eq_true.mpr hall), and_iff_right hall, Option.some.injEq]
    · rw [if_neg fun h => hall (List.all_eq_true.mp h)]
      exact iff_of_false nofun fun h => hall h.1

/-- What is read behind a sign, or without one. -/
theorem map_spelledDigits?_eq_some_iff {cs : List Char} {f : Nat → ℤ} {n : ℤ} :
    (spelledDigits? cs).map f = some n ↔ IsNumeral cs ∧ f (value cs) = n := by
  simp only [Option.map_eq_some_iff, spelledDigits?_eq_some_iff]
  constructor
  · rintro ⟨_, ⟨hcs, rfl⟩, hn⟩
    exact ⟨hcs, hn⟩
  · rintro ⟨hcs, hn⟩
    exact ⟨_, ⟨hcs, rfl⟩, hn⟩

/-- A text is read as an integer if it spells one. -/
theorem spelledInt?_eq_some_iff {s : String} {n : ℤ} :
    spelledInt? true s = some n ↔ Spells s.toList n := by
  unfold spelledInt?
  generalize s.toList = text
  constructor
  · intro h
    split at h
    · rcases map_spelledDigits?_eq_some_iff.mp h with ⟨hcs, rfl⟩
      exact .plus hcs
    · rcases map_spelledDigits?_eq_some_iff.mp ((if_pos rfl).symm.trans h) with ⟨hcs, rfl⟩
      exact .minus hcs
    · rcases map_spelledDigits?_eq_some_iff.mp h with ⟨hcs, rfl⟩
      exact .unsigned hcs
  · intro h
    cases h with
    | unsigned h =>
        -- No sign is a digit, so the text is taken as it is.
        split
        · exact absurd (h.2 _ List.mem_cons_self) (by decide)
        · exact absurd (h.2 _ List.mem_cons_self) (by decide)
        · exact map_spelledDigits?_eq_some_iff.mpr ⟨h, rfl⟩
    | plus h => exact map_spelledDigits?_eq_some_iff.mpr ⟨h, rfl⟩
    | minus h => exact (if_pos rfl).trans (map_spelledDigits?_eq_some_iff.mpr ⟨h, rfl⟩)

theorem lower_eq (s : String) : lower s = s.toLower.toList :=
  String.toList_map.symm

theorem mem_words_iff {s : String} {b : Bool} :
    s.toLower ∈ words b ↔ lower s ∈ (words b).map String.toList := by
  rw [lower_eq, List.mem_map_of_injective fun _ _ h => String.toList_injective h]

/-- No word is one for both truth values. -/
theorem not_mem_words {s : String} (h : s.toLower ∈ words true) : s.toLower ∉ words false := by
  have hdisjoint : ∀ w ∈ words true, w ∉ words false := by decide
  exact hdisjoint _ h

/-- A text is looked up among the words for either truth value. -/
theorem spelledFlag?_eq (s : String) :
    spelledFlag? s
      = if s.toLower ∈ words true then some true
        else if s.toLower ∈ words false then some false
        else none := by
  simp only [mem_words_iff]
  unfold spelledFlag?
  simp only [words, List.map_cons, List.map_nil, List.mem_cons, List.not_mem_nil, or_false]
  rfl

/-- A text is read as a truth value if it is one of the words for it, in any case. -/
theorem spelledFlag?_eq_some_iff {s : String} {b : Bool} :
    spelledFlag? s = some b ↔ s.toLower ∈ words b := by
  rw [spelledFlag?_eq]
  by_cases htrue : s.toLower ∈ words true
  · rw [if_pos htrue]
    cases b with
    | true => exact iff_of_true rfl htrue
    | false => exact iff_of_false nofun (not_mem_words htrue)
  · rw [if_neg htrue]
    by_cases hfalse : s.toLower ∈ words false
    · rw [if_pos hfalse]
      cases b with
      | true => exact iff_of_false nofun htrue
      | false => exact iff_of_true rfl hfalse
    · rw [if_neg hfalse]
      cases b with
      | true => exact iff_of_false nofun htrue
      | false => exact iff_of_false nofun hfalse

theorem toLower_of_isDigit {c : Char} (h : isDigit c = true) : c.toLower = c := by
  refine dif_neg fun hcapital => ?_
  have hdigit : c.toNat ≤ 57 := of_decide_eq_true (Bool.and_eq_true_iff.mp h).2
  have hletter : 65 ≤ c.toNat := UInt32.le_iff_toNat_le.mp hcapital.1
  omega

theorem Spells.exists_digit {cs : List Char} {n : ℤ} (h : Spells cs n) :
    ∃ d ∈ cs, isDigit d = true := by
  have hfirst : ∀ {ds : List Char}, IsNumeral ds → ∃ d ∈ ds, isDigit d = true := fun h => by
    rcases List.exists_mem_of_ne_nil _ h.1 with ⟨d, hd⟩
    exact ⟨d, hd, h.2 d hd⟩
  cases h with
  | unsigned h => exact hfirst h
  | plus h => exact (hfirst h).imp fun d hd => ⟨List.mem_cons_of_mem _ hd.1, hd.2⟩
  | minus h => exact (hfirst h).imp fun d hd => ⟨List.mem_cons_of_mem _ hd.1, hd.2⟩

/-- A text that spells an integer is no word for a truth value, as those have no digits. -/
theorem spelledFlag?_of_spells {s : String} {n : ℤ} (h : Spells s.toList n) :
    spelledFlag? s = none := by
  rcases h.exists_digit with ⟨d, hd, hdigit⟩
  have hnone : ∀ b, ∀ w ∈ (words b).map String.toList, w.any isDigit = false := by decide
  cases hflag : spelledFlag? s with
  | none => rfl
  | some b =>
      have hword := mem_words_iff.mp (spelledFlag?_eq_some_iff.mp hflag)
      have hmem : d ∈ lower s := by
        rw [lower, ← toLower_of_isDigit hdigit]
        exact List.mem_map_of_mem hd
      exact absurd hdigit (List.any_eq_false.mp (hnone b _ hword) d hmem)

/-! ### Values -/

/-- A value stands for a signed 64-bit integer. -/
inductive Denotes : ConfigValue → Int64 → Prop
  /-- A truth value stands for one or zero. -/
  | flag (b : Bool) : Denotes (.flag b) (if b then 1 else 0)
  /-- A whole number stands for itself. -/
  | whole (n : Int64) : Denotes (.whole n.toInt) n
  /-- A number with a fraction stands for the nearest integer, or for the end of the
      range that it lies beyond. -/
  | real {x : Float} {n : Int64}
      (h : n.toInt = max Int64.minValue.toInt (min Int64.maxValue.toInt
        (Double.Exact.nearest (Double.Exact.ofDouble x).toRat))) :
      Denotes (.real x) n
  /-- A word for a truth value, in any case, stands for one or zero. -/
  | word {s : String} {b : Bool} (h : s.toLower ∈ words b) :
      Denotes (.text s) (if b then 1 else 0)
  /-- Any other text stands for the integer that it spells. -/
  | numeral {s : String} {n : Int64} (h : Spells s.toList n.toInt) : Denotes (.text s) n

/-- What is read as an integer of 64 bits is in the range of these. -/
theorem toInt?_range {v : ConfigValue} {m : ℤ}
    (h : toInt? Int64.minValue.toInt Int64.maxValue.toInt v = some m) :
    Int64.minValue.toInt ≤ m ∧ m ≤ Int64.maxValue.toInt := by
  cases v with
  | nothing => exact nomatch h
  | list values => exact nomatch h
  | table entries => exact nomatch h
  | flag b => cases b <;> cases h <;> decide
  | whole n =>
      rw [toInt?, Option.ite_none_right_eq_some] at h
      exact Option.some.inj h.2 ▸ h.1
  | real x =>
      cases h
      exact ⟨le_max_left _ _, max_le (by decide) (min_le_left _ _)⟩
  | text s =>
      rw [toInt?] at h
      split at h
      · next b _ => cases b <;> cases h <;> decide
      · exact of_decide_eq_true (Option.filter_eq_some_iff.mp h).2

theorem toInt64?_eq_some_iff_toInt? {v : ConfigValue} {n : Int64} :
    v.toInt64? = some n ↔ toInt? Int64.minValue.toInt Int64.maxValue.toInt v = some n.toInt := by
  rw [toInt64?, Option.map_eq_some_iff]
  constructor
  · rintro ⟨m, hm, rfl⟩
    rcases toInt?_range hm with ⟨hlow, hhigh⟩
    rwa [Int64.toInt_ofInt_of_le hlow (Int.lt_add_one_of_le hhigh)]
  · intro h
    exact ⟨n.toInt, h, Int64.ofInt_toInt n⟩

/-- One and zero are the same as words and as integers. -/
theorem toInt_flag_eq_iff {b : Bool} {n : Int64} :
    some (if b then 1 else 0 : ℤ) = some n.toInt ↔ (if b then 1 else 0) = n := by
  rw [Option.some.injEq, ← Int64.toInt_inj]
  cases b <;> exact Iff.rfl

/-- A text is read as a truth value or as the integer that it spells. -/
theorem toInt?_text_eq_some_iff {s : String} {n : Int64} :
    toInt? Int64.minValue.toInt Int64.maxValue.toInt (.text s) = some n.toInt ↔
      (∃ b : Bool, s.toLower ∈ words b ∧ (if b then 1 else 0) = n) ∨ Spells s.toList n.toInt := by
  rw [toInt?]
  cases hread : spelledFlag? s with
  | some b =>
      refine toInt_flag_eq_iff.trans ⟨fun h => .inl ⟨b, spelledFlag?_eq_some_iff.mp hread, h⟩, ?_⟩
      rintro (⟨b', hword, h⟩ | hspells)
      · cases hread.symm.trans (spelledFlag?_eq_some_iff.mpr hword)
        exact h
      · exact nomatch hread.symm.trans (spelledFlag?_of_spells hspells)
  | none =>
      rw [Option.filter_eq_some_iff]
      constructor
      · rintro ⟨hspelled, _⟩
        exact .inr (spelledInt?_eq_some_iff.mp hspelled)
      · rintro (⟨b, hword, _⟩ | hspells)
        · exact nomatch hread.symm.trans (spelledFlag?_eq_some_iff.mpr hword)
        · -- Whatever is an integer of 64 bits is in their range.
          have hhigh : n.toInt ≤ Int64.maxValue.toInt := Int.le_of_lt_add_one n.toInt_lt
          exact ⟨spelledInt?_eq_some_iff.mpr hspells, decide_eq_true ⟨n.le_toInt, hhigh⟩⟩

/-- A value is read as the integer it stands for. -/
theorem toInt64?_eq_some_iff {v : ConfigValue} {n : Int64} :
    v.toInt64? = some n ↔ v.Denotes n := by
  rw [toInt64?_eq_some_iff_toInt?]
  cases v with
  | nothing => exact ⟨nofun, nofun⟩
  | list values => exact ⟨nofun, nofun⟩
  | table entries => exact ⟨nofun, nofun⟩
  | flag b =>
      refine toInt_flag_eq_iff.trans ⟨?_, ?_⟩
      · rintro rfl
        exact .flag b
      · rintro ⟨⟩
        rfl
  | whole m =>
      rw [toInt?, Option.ite_none_right_eq_some, Option.some.injEq]
      constructor
      · rintro ⟨_, rfl⟩
        exact .whole n
      · rintro ⟨⟩
        exact ⟨⟨n.le_toInt, Int.le_of_lt_add_one n.toInt_lt⟩, rfl⟩
  | real x =>
      rw [toInt?, Double.Exact.clamp, Double.Exact.round_eq, Option.some.injEq, eq_comm]
      constructor
      · exact .real
      · intro h
        cases h with
        | real h => exact h
  | text s =>
      rw [toInt?_text_eq_some_iff]
      constructor
      · rintro (⟨b, hword, rfl⟩ | hspells)
        · exact .word hword
        · exact .numeral hspells
      · intro h
        cases h with
        | word hword => exact .inl ⟨_, hword, rfl⟩
        | numeral hspells => exact .inr hspells

/-- A half goes away from zero, and what lies beyond the range is held at its end. -/
example : (ConfigValue.real (-2.5)).toInt64? = some (-3) ∧
    (ConfigValue.real 1e30).toInt64? = some Int64.maxValue := by
  decide +kernel

end ConfigValue

end HeaderChain
