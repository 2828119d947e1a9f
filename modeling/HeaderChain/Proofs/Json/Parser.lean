import HeaderChain.Json.Parser
import HeaderChain.Json.Printer
import HeaderChain.Proofs.Json.Text
import HeaderChain.Proofs.Text.Decimal

/-!
# JSON Text Read Back

What is written for a tree is read as the same tree.

This holds of the trees that have a written form: nothing in them is broken or left open,
every key is a string, and every number is an integer of 64 bits. A value ends where its own
grammar says so, with one exception. A numeral goes on for as long as it can, so what
follows it must not go on with it. Inside a tree that is a comma, a colon or a closing
bracket, and at its end there is nothing.

The fuel counts calls. Each call for a value, an item or a member spends one unit and leaves
a text behind that is shorter by a character at least, so as many units as there are
characters in a value are enough for it.

## Main definitions

* `Json.Written`: A tree that has a written form.
* `Json.Ends`: A text that does not go on with a numeral.

## Theorems

* `Json.numeral?_intDigits`: A written integer is read back.
* `Json.Written.readValue`: And so is every tree that has a written form.
* `Json.Written.parse_render`: A whole text is read back, and nothing follows it.
-/

namespace HeaderChain

namespace Json

/-- A tree that has a written form. -/
inductive Written : Json → Prop
  /-- The value `null`. -/
  | null : Written .null
  /-- A truth value. -/
  | bool (b : Bool) : Written (.bool b)
  /-- An integer of 64 bits, signed or not. -/
  | integer {n : Int} : Int64.minValue.toInt ≤ n → n < UInt64.size → Written (.integer n)
  /-- A string. -/
  | string (s : String) : Written (.string s)
  /-- A closed list. -/
  | list {items : List Json} : (∀ item ∈ items, Written item) → Written (.list items true)
  /-- A closed object whose keys are strings. -/
  | object {members : List (Json × Json)} :
      (∀ m ∈ members, ∃ name, m.1 = .string name) → (∀ m ∈ members, Written m.2) →
        Written (.object members true)

/-- A text that does not go on with a numeral before it. -/
def Ends (rest : List Char) : Prop :=
  ∀ c ∈ rest.head?, Decimal.isDigit c = false ∧ c ≠ '.' ∧ c ≠ 'e' ∧ c ≠ 'E'

theorem ends_nil : Ends [] := fun _ hc => nomatch hc

theorem ends_cons {c : Char} {rest : List Char}
    (hc : Decimal.isDigit c = false ∧ c ≠ '.' ∧ c ≠ 'e' ∧ c ≠ 'E') : Ends (c :: rest) := by
  intro d hd
  rw [List.head?_cons, Option.mem_some_iff] at hd
  rw [← hd]
  exact hc

section Numerals

variable {rest : List Char}

/-- A run of digits takes in the whole numeral and nothing else. -/
theorem digitRun_digits (n : Nat) (hrest : Ends rest) :
    digitRun (Decimal.digits n ++ rest) = (Decimal.digits n, rest) := by
  have hall : ∀ c ∈ Decimal.digits n, Decimal.isDigit c = true :=
    fun c hc => Decimal.isDigit_of_mem_digits hc
  have hstop : rest.takeWhile Decimal.isDigit = [] ∧ rest.dropWhile Decimal.isDigit = rest := by
    cases rest with
    | nil => exact ⟨rfl, rfl⟩
    | cons c rest =>
        have hc := (hrest c rfl).1
        exact ⟨List.takeWhile_cons_of_neg (by rw [hc]; decide),
          List.dropWhile_cons_of_neg (by rw [hc]; decide)⟩
  rw [digitRun, List.takeWhile_append_of_pos hall, List.dropWhile_append_of_pos hall, hstop.1,
    hstop.2, List.append_nil]

theorem whole?_digits (n : Nat) (hrest : Ends rest) :
    whole? (Decimal.digits n ++ rest) = some (Decimal.digits n, rest) := by
  rw [whole?, digitRun_digits n hrest]
  split
  · next heq => exact absurd (Prod.mk.inj heq).1 (Decimal.digits_ne_nil n)
  · next heq =>
    -- Zero at the front, with more digits after it: the number is neither zero nor positive.
    have hdigits := (Prod.mk.inj heq).1
    rcases Nat.eq_zero_or_pos n with rfl | hpos
    · rw [Decimal.digits_of_lt (by decide)] at hdigits
      exact absurd hdigits nofun
    · refine absurd ?_ (Decimal.head?_digits_of_pos hpos)
      rw [hdigits, List.head?_cons]
  · rfl

theorem fraction?_of_ends (hrest : Ends rest) : fraction? rest = some (none, rest) := by
  unfold fraction?
  split
  · exact absurd rfl (hrest _ rfl).2.1
  · rfl

theorem exponent?_of_ends (hrest : Ends rest) : exponent? rest = some (none, rest) := by
  unfold exponent?
  split
  · rfl
  · have hc := hrest _ rfl
    exact if_neg fun hexponent => hexponent.elim hc.2.2.1 hc.2.2.2

theorem minusSign_intDigits (n : Int) (rest : List Char) :
    minusSign (Decimal.intDigits n ++ rest)
      = (decide (n < 0), Decimal.digits n.natAbs ++ rest) := by
  unfold Decimal.intDigits
  split
  · next hn =>
    rw [decide_eq_true hn]
    rfl
  · next hn =>
    rw [decide_eq_false hn, minusSign]
    -- The first character is a digit, and not a minus sign.
    intro cs hminus
    cases hdigits : Decimal.digits n.natAbs with
    | nil => exact Decimal.digits_ne_nil _ hdigits
    | cons d ds =>
        have hd : Decimal.isDigit d = true :=
          Decimal.isDigit_of_mem_digits (hdigits ▸ List.mem_cons_self)
        rw [hdigits] at hminus
        rw [(List.cons.inj hminus).1] at hd
        exact absurd hd (by decide)

/-- A written integer is taken for its sign and its digits. -/
theorem numeral?_intDigits (n : Int) (hrest : Ends rest) :
    numeral? (Decimal.intDigits n ++ rest)
      = some (⟨decide (n < 0), Decimal.digits n.natAbs, none, none⟩, rest) := by
  simp only [numeral?, minusSign_intDigits, whole?_digits _ hrest, fraction?_of_ends hrest,
    exponent?_of_ends hrest, bind, Option.bind, pure]

theorem toJson_intDigits {n : Int} (hlow : Int64.minValue.toInt ≤ n) (hhigh : n < UInt64.size) :
    Numeral.toJson ⟨decide (n < 0), Decimal.digits n.natAbs, none, none⟩ = .integer n := by
  have hmin : Int64.minValue.toInt = -(Nat.pow 2 63 : Nat) := by decide
  simp only [Numeral.toJson, Decimal.value_digits, decide_eq_true_eq]
  by_cases hn : n < 0
  · rw [if_pos hn, if_pos (by omega)]
    congr 1
    omega
  · rw [if_neg hn, if_pos (by omega)]
    congr 1
    omega

end Numerals

theorem skipBlanks_cons {c : Char} (hc : isBlank c = false) (cs : List Char) :
    skipBlanks (c :: cs) = c :: cs :=
  List.dropWhile_cons_of_neg (by rw [hc]; decide)

theorem skipBlanks_colon (cs : List Char) : skipBlanks (':' :: cs) = ':' :: cs :=
  skipBlanks_cons (by decide) cs

/-- What starts neither a list nor an object has no parts. -/
theorem readValue_of_scalar {c : Char} (hc : isBlank c = false ∧ c ≠ '[' ∧ c ≠ '{') (fuel : Nat)
    (cs : List Char) : readValue (fuel + 1) (c :: cs) = scalar (c :: cs) := by
  rw [readValue, skipBlanks_cons hc.1]
  split
  · next heq => exact absurd (List.cons.inj heq).1 hc.2.1
  · next heq => exact absurd (List.cons.inj heq).1 hc.2.2
  · rfl

/-- What does not start with a closing bracket is taken for the items of a list. -/
theorem readValue_list {c : Char} (hc : isBlank c = false ∧ c ≠ ']') (fuel : Nat)
    (cs : List Char) :
    readValue (fuel + 1) ('[' :: c :: cs)
      = (.list (readItems fuel (c :: cs)).1 (readItems fuel (c :: cs)).2.1,
        (readItems fuel (c :: cs)).2.2) := by
  rw [readValue, skipBlanks_cons (by decide)]
  simp only [skipBlanks_cons hc.1]
  split
  · next heq => exact absurd (List.cons.inj heq).1 hc.2
  · rfl

/-- What starts with a quote is taken for the members of an object. -/
theorem readValue_object (fuel : Nat) (cs : List Char) :
    readValue (fuel + 1) ('{' :: '"' :: cs)
      = (.object (readMembers fuel ('"' :: cs)).1 (readMembers fuel ('"' :: cs)).2.1,
        (readMembers fuel ('"' :: cs)).2.2) :=
  rfl

theorem scalar_quote (s : String) (rest : List Char) :
    scalar (quote s ++ rest) = (.string s, rest) := by
  have hbody : body? (s.toList.flatMap escape ++ ['"'] ++ rest)
      = some (s.toList.map piece, rest) := by
    rw [List.append_assoc]
    exact body?_quote s.toList rest
  rw [quote, List.cons_append, List.cons_append, scalar, hbody]
  simp only [join?_pieces, String.ofList_toList]

/-- Whether a character may be the first of a numeral. -/
def startsNumeral (c : Char) : Bool :=
  c == '-' || Decimal.isDigit c

theorem ne_of_startsNumeral {c d : Char} (hc : startsNumeral c = true)
    (hd : startsNumeral d = false) : c ≠ d := by
  rintro rfl
  exact Bool.noConfusion (hc.symm.trans hd)

theorem isBlank_of_startsNumeral {c : Char} (hc : startsNumeral c = true) : isBlank c = false := by
  simp only [isBlank, Bool.or_eq_false_iff, beq_eq_false_iff_ne]
  exact ⟨⟨⟨ne_of_startsNumeral hc (by decide), ne_of_startsNumeral hc (by decide)⟩,
    ne_of_startsNumeral hc (by decide)⟩, ne_of_startsNumeral hc (by decide)⟩

theorem exists_intDigits_eq (n : Int) :
    ∃ c cs, Decimal.intDigits n = c :: cs ∧ startsNumeral c = true := by
  unfold Decimal.intDigits
  split
  · exact ⟨_, _, rfl, by decide⟩
  · cases hdigits : Decimal.digits n.natAbs with
    | nil => exact absurd hdigits (Decimal.digits_ne_nil _)
    | cons d ds =>
        refine ⟨d, ds, rfl, ?_⟩
        rw [startsNumeral, Decimal.isDigit_of_mem_digits (hdigits ▸ List.mem_cons_self), Bool.or_true]

theorem scalar_intDigits {n : Int} (hlow : Int64.minValue.toInt ≤ n) (hhigh : n < UInt64.size)
    {rest : List Char} (hrest : Ends rest) :
    scalar (Decimal.intDigits n ++ rest) = (.integer n, rest) := by
  have hnumeral := numeral?_intDigits n hrest
  rcases exists_intDigits_eq n with ⟨c, cs, hdigits, hc⟩
  rw [hdigits, List.cons_append] at hnumeral ⊢
  rw [scalar, hnumeral]
  · simp only [toJson_intDigits hlow hhigh]
  all_goals exact fun _ heq => absurd (List.cons.inj heq).1 (ne_of_startsNumeral hc (by decide))

/-- A value is read back from its written form, wherever that stands. -/
def ReadsBack (j : Json) : Prop :=
  ∀ fuel rest, j.chars.length ≤ fuel → Ends rest → readValue fuel (j.chars ++ rest) = (j, rest)

theorem readsBack_of_scalar {j : Json} {c : Char} {cs : List Char} (hchars : j.chars = c :: cs)
    (hc : isBlank c = false ∧ c ≠ '[' ∧ c ≠ '{')
    (hscalar : ∀ rest, Ends rest → scalar (j.chars ++ rest) = (j, rest)) : ReadsBack j := by
  intro fuel rest hfuel hrest
  rw [hchars, List.length_cons] at hfuel
  rw [hchars, List.cons_append]
  cases fuel with
  | zero => exact absurd hfuel (Nat.not_succ_le_zero _)
  | succ fuel =>
      rw [readValue_of_scalar hc, ← List.cons_append, ← hchars]
      exact hscalar rest hrest

theorem readsBack_string (s : String) : ReadsBack (.string s) :=
  readsBack_of_scalar rfl (by decide) fun rest _ => scalar_quote s rest

theorem readsBack_integer {n : Int} (hlow : Int64.minValue.toInt ≤ n) (hhigh : n < UInt64.size) :
    ReadsBack (.integer n) := by
  rcases exists_intDigits_eq n with ⟨c, cs, hdigits, hc⟩
  exact readsBack_of_scalar hdigits
    ⟨isBlank_of_startsNumeral hc, ne_of_startsNumeral hc (by decide),
      ne_of_startsNumeral hc (by decide)⟩
    fun rest hrest => scalar_intDigits hlow hhigh hrest

section Items

variable {fuel : Nat} {item : Json} (hitem : ReadsBack item) (hfuel : item.chars.length ≤ fuel)
  (rest : List Char)

include hitem hfuel

theorem readItems_last : readItems (fuel + 1) (item.chars ++ ']' :: rest) = ([item], true, rest) := by
  rw [readItems, hitem fuel (']' :: rest) hfuel (ends_cons (by decide))]
  rfl

theorem readItems_more :
    readItems (fuel + 1) (item.chars ++ ',' :: rest)
      = (item :: (readItems fuel rest).1, (readItems fuel rest).2) := by
  rw [readItems, hitem fuel (',' :: rest) hfuel (ends_cons (by decide))]
  rfl

end Items

/-- The items of a list are read back up to the closing bracket. -/
theorem readItems_chars {item : Json} {more : List Json} (hitems : ∀ j ∈ item :: more, ReadsBack j)
    {fuel : Nat} (hfuel : (item.chars ++ itemChars more).length ≤ fuel) (rest : List Char) :
    readItems fuel (item.chars ++ itemChars more ++ rest) = (item :: more, true, rest) := by
  have hitem := hitems item List.mem_cons_self
  induction more generalizing item fuel with
  | nil =>
      simp only [itemChars, List.length_append, List.length_singleton] at hfuel
      cases fuel with
      | zero => omega
      | succ fuel =>
          rw [itemChars, List.append_assoc, List.singleton_append]
          exact readItems_last hitem (by omega) rest
  | cons next more ih =>
      simp only [itemChars, List.length_append, List.length_cons] at hfuel
      cases fuel with
      | zero => omega
      | succ fuel =>
          have hnext := hitems next (List.mem_cons_of_mem _ List.mem_cons_self)
          -- The comma pays for the call that takes the items after it.
          have hmore : readItems fuel (next.chars ++ itemChars more ++ rest)
              = (next :: more, true, rest) := by
            refine ih (fun j hj => hitems j (List.mem_cons_of_mem _ hj)) ?_ hnext
            rw [List.length_append]
            omega
          rw [itemChars, List.append_assoc, List.cons_append, List.cons_append,
            readItems_more hitem (by omega), hmore]

theorem readValue_key {fuel : Nat} (name : String) (hfuel : (quote name).length ≤ fuel)
    (rest : List Char) :
    readValue fuel (quote name ++ ':' :: rest) = (.string name, ':' :: rest) :=
  readsBack_string name fuel (':' :: rest) hfuel (ends_cons (by decide))

section Members

variable {fuel : Nat} (name : String) {value : Json} (hvalue : ReadsBack value)
  (hkeyfuel : (quote name).length ≤ fuel) (hfuel : value.chars.length ≤ fuel) (rest : List Char)

include hvalue hkeyfuel hfuel

theorem readMembers_last :
    readMembers (fuel + 1) (quote name ++ ':' :: (value.chars ++ '}' :: rest))
      = ([(.string name, value)], true, rest) := by
  have hread := hvalue fuel ('}' :: rest) hfuel (ends_cons (by decide))
  rw [readMembers, readValue_key name hkeyfuel]
  simp only [skipBlanks_colon, hread]
  rfl

theorem readMembers_more :
    readMembers (fuel + 1) (quote name ++ ':' :: (value.chars ++ ',' :: rest))
      = ((.string name, value) :: (readMembers fuel rest).1, (readMembers fuel rest).2) := by
  have hread := hvalue fuel (',' :: rest) hfuel (ends_cons (by decide))
  rw [readMembers, readValue_key name hkeyfuel]
  simp only [skipBlanks_colon, hread]
  rfl

end Members

/-- The members of an object are read back up to the closing brace. -/
theorem readMembers_chars (name : String) {value : Json} {more : List (Json × Json)}
    (hkeys : ∀ m ∈ more, ∃ name, m.1 = .string name)
    (hvalues : ∀ m ∈ (.string name, value) :: more, ReadsBack m.2) {fuel : Nat}
    (hfuel : (quote name ++ ':' :: value.chars ++ memberChars more).length ≤ fuel)
    (rest : List Char) :
    readMembers fuel (quote name ++ ':' :: value.chars ++ memberChars more ++ rest)
      = ((.string name, value) :: more, true, rest) := by
  have hvalue : ReadsBack value := hvalues _ List.mem_cons_self
  induction more generalizing name value fuel with
  | nil =>
      simp only [memberChars, List.length_append, List.length_cons, List.length_nil] at hfuel
      cases fuel with
      | zero => omega
      | succ fuel =>
          simp only [memberChars, List.append_assoc, List.cons_append, List.nil_append]
          exact readMembers_last name hvalue (by omega) (by omega) rest
  | cons next more ih =>
      rcases next with ⟨key, next⟩
      rcases hkeys _ List.mem_cons_self with ⟨nextName, rfl⟩
      simp only [memberChars, chars, List.length_append, List.length_cons] at hfuel
      cases fuel with
      | zero => omega
      | succ fuel =>
          have hnext : ReadsBack next :=
            hvalues _ (List.mem_cons_of_mem _ List.mem_cons_self)
          have hmore : readMembers fuel
              (quote nextName ++ ':' :: next.chars ++ memberChars more ++ rest)
              = ((.string nextName, next) :: more, true, rest) := by
            refine ih nextName (fun m hm => hkeys m (List.mem_cons_of_mem _ hm))
              (fun m hm => hvalues m (List.mem_cons_of_mem _ hm)) ?_ hnext
            simp only [List.length_append, List.length_cons]
            omega
          simp only [memberChars, chars, List.append_assoc, List.cons_append] at hmore ⊢
          rw [readMembers_more name hvalue (by omega) (by omega), hmore]

/-- A written value starts with a character that is no blank and closes no list. -/
theorem Written.head {j : Json} (h : Written j) :
    ∃ c cs, j.chars = c :: cs ∧ isBlank c = false ∧ c ≠ ']' := by
  cases h with
  | null => exact ⟨_, _, rfl, by decide⟩
  | bool b => cases b <;> exact ⟨_, _, rfl, by decide⟩
  | @integer n _ _ =>
      rcases exists_intDigits_eq n with ⟨c, cs, hdigits, hc⟩
      exact ⟨c, cs, hdigits, isBlank_of_startsNumeral hc, ne_of_startsNumeral hc (by decide)⟩
  | string s => exact ⟨_, _, rfl, by decide⟩
  | @list items _ => cases items <;> exact ⟨_, _, rfl, by decide⟩
  | @object members _ _ => cases members <;> exact ⟨_, _, rfl, by decide⟩

/-- Every tree that has a written form is read back from it. -/
theorem Written.readsBack {j : Json} (h : Written j) : ReadsBack j := by
  induction h with
  | null => exact readsBack_of_scalar rfl (by decide) fun _ _ => rfl
  | bool b => cases b <;> exact readsBack_of_scalar rfl (by decide) fun _ _ => rfl
  | integer hlow hhigh => exact readsBack_integer hlow hhigh
  | string s => exact readsBack_string s
  | @list items hitems ih =>
      intro fuel rest hfuel _
      cases fuel with
      | zero => cases items <;> exact absurd hfuel (Nat.not_succ_le_zero _)
      | succ fuel =>
          cases items with
          | nil => rfl
          | cons item more =>
              -- The bracket has taken one unit, and the items may spend the rest.
              rw [chars, List.cons_append, List.length_cons] at hfuel
              have hread := readItems_chars ih (Nat.le_of_succ_le_succ hfuel) rest
              rcases (hitems item List.mem_cons_self).head with ⟨c, cs, hitem, hc⟩
              rw [hitem, List.cons_append, List.cons_append] at hread
              rw [chars, hitem, List.cons_append, List.cons_append, List.cons_append,
                List.cons_append, readValue_list hc, hread]
  | @object members hkeys hvalues ih =>
      intro fuel rest hfuel _
      cases fuel with
      | zero => cases members <;> exact absurd hfuel (Nat.not_succ_le_zero _)
      | succ fuel =>
          cases members with
          | nil => rfl
          | cons member more =>
              rcases member with ⟨key, value⟩
              rcases hkeys _ List.mem_cons_self with ⟨name, rfl⟩
              have hread := readMembers_chars name
                (fun m hm => hkeys m (List.mem_cons_of_mem _ hm)) ih
                (Nat.le_of_succ_le_succ hfuel) rest
              rw [quote, List.cons_append] at hread
              simp only [chars, quote, List.cons_append] at hread ⊢
              rw [readValue_object, hread]

/-- So is the text of such a tree, and nothing follows it. -/
theorem Written.parse_render {j : Json} (h : Written j) : parse j.render = (j, true) := by
  have hread := h.readsBack (2 * j.chars.length + 2) [] (by omega) ends_nil
  rw [List.append_nil] at hread
  rw [parse, render, String.toList_ofList, String.length_ofList, hread]
  rfl

end Json

end HeaderChain
