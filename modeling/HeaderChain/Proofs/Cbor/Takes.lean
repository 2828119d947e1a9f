import HeaderChain.Cbor.Skip
import HeaderChain.Cbor.Writer

/-!
# What a Reader Takes

A reader that takes a piece of bytes off the front, and no more and no less.

To say that a value is read back from its binary form is too little for a
format whose records stand inside one another, since it says nothing about what
stands behind the form. So a reader `Takes` a piece if it reads the same value
off the front whatever comes next, and leaves that untouched. This is what lets
readers follow one another: two pieces are taken in a row if each is taken by
itself.

The other half is what happens if the bytes end too early. A reader that takes a
piece never settles for a beginning of it, but asks for more. Nor does it find
another fault there, so bytes that are cut off are told from bytes that are
wrong.

An element of an array is taken like the item it is, and the cursor moves on. A
reader that asks for elements until none is left is the only one with fuel to
run out of. Since every element takes a byte at least, it has enough as long as
no bytes are missing; and if some are, running out of fuel and running out of
bytes are the same fault.

## Main definitions

* `RunsOut`: A reader asks for more on every beginning of a piece.
* `Takes`: A reader takes a piece, and exactly that.

## Theorems

* `Takes.bind`: Readers follow one another as their pieces do.
* `ofBigEndian_bigEndian`: A number is read back from its bytes.
* `Takes.head`: The head of an item is taken with its argument.
* `Takes.collect`: An array is taken with all its elements.
-/

namespace HeaderChain

namespace Cbor

/-- A reader asks for more if all it gets is a beginning of a piece. -/
def RunsOut {α : Type} (read : Reader α) (piece : List UInt8) : Prop :=
  ∀ front, front <+: piece → front ≠ piece → read front = .error .endOfInput

/-- What would come after a reader is not reached if the bytes end before. -/
theorem RunsOut.andThen {α β : Type} {read : Reader α} {piece : List UInt8}
    (h : RunsOut read piece) (next : α → Reader β) : RunsOut (read >>= next) piece := by
  intro front hp hne
  change Except.bind (read front) (fun p => next p.1 p.2) = _
  rw [h front hp hne]
  rfl

/-- A reader takes a piece, which stands for a value, and exactly that. -/
structure Takes {α : Type} (read : Reader α) (piece : List UInt8) (a : α) : Prop where
  /-- It reads the value off the front and leaves what comes next. -/
  reads : ∀ rest, read (piece ++ rest) = .ok (a, rest)
  /-- It asks for more if the bytes end before the piece does. -/
  runsOut : RunsOut read piece

namespace Takes

variable {α β : Type} {read : Reader α} {next : α → Reader β} {piece piece' : List UInt8}
  {a : α} {b : β}

theorem reads_all (h : Takes read piece a) : read piece = .ok (a, []) := by
  have hreads := h.reads []
  rwa [List.append_nil] at hreads

/-- A reader that needs a byte at least takes no empty piece. -/
theorem ne_nil (h : Takes read piece a) (hempty : read [] = .error .endOfInput) : piece ≠ [] := by
  rintro rfl
  exact nomatch h.reads_all.symm.trans hempty

/-- A piece that is a beginning of another stands for the same. -/
theorem eq_of_isPrefix {other : α} (h : Takes read piece a) (h' : Takes read piece' other)
    (hp : piece <+: piece') : a = other := by
  rcases hp with ⟨rest, rfl⟩
  have hread : Except.ok (a, rest) = Except.ok (other, []) :=
    (h.reads rest).symm.trans h'.reads_all
  exact congrArg Prod.fst (Except.ok.inj hread)

theorem pure (a : α) : Takes (Pure.pure a) [] a where
  reads _ := rfl
  runsOut _ hp hne := absurd (List.prefix_nil.mp hp) hne

/-- If the bytes end within two pieces, they end within the first, or within the
    second when the first has been taken. -/
theorem bind_runsOut (h : Takes read piece a) (hnext : RunsOut (next a) piece') :
    RunsOut (read >>= next) (piece ++ piece') := by
  intro front hp hne
  change Except.bind (read front) (fun p => next p.1 p.2) = _
  rcases List.prefix_or_prefix_of_prefix hp (List.prefix_append piece piece') with hbefore | hafter
  · by_cases hall : front = piece
    · -- All of the first piece is there and nothing of the second.
      subst hall
      have hmissing : [] ≠ piece' := fun hnil => hne (by rw [← hnil, List.append_nil])
      rw [h.reads_all]
      exact hnext [] (List.nil_prefix) hmissing
    · exact h.runsOut.andThen next front hbefore hall
  · rcases hafter with ⟨front', rfl⟩
    rw [h.reads front']
    exact hnext front' ((List.prefix_append_right_inj piece).mp hp)
      fun hall => hne (congrArg (piece ++ ·) hall)

/-- Readers follow one another as their pieces do. -/
theorem bind (h : Takes read piece a) (hnext : Takes (next a) piece' b) :
    Takes (read >>= next) (piece ++ piece') b where
  reads rest := by
    change Except.bind (read (piece ++ piece' ++ rest)) (fun p => next p.1 p.2) = _
    rw [List.append_assoc, h.reads]
    exact hnext.reads rest
  runsOut := h.bind_runsOut hnext.runsOut

/-- A reader is the last to take something. -/
theorem last (h : Takes read piece a) (hnext : Takes (next a) [] b) :
    Takes (read >>= next) piece b := by
  have hboth := h.bind hnext
  rwa [List.append_nil] at hboth

/-- A reader takes nothing yet. -/
theorem first (h : Takes read [] a) (hnext : Takes (next a) piece b) :
    Takes (read >>= next) piece b :=
  h.bind hnext

theorem map (f : α → β) (h : Takes read piece a) : Takes (f <$> read) piece (f a) := by
  have hlast : Takes (read >>= fun a => Pure.pure (f a)) piece (f a) := h.last (.pure (f a))
  exact hlast

theorem byte (head : UInt8) : Takes Cbor.byte [head] head where
  reads _ := rfl
  runsOut front hp hne := by
    rcases List.prefix_cons_iff.mp hp with rfl | ⟨t, rfl, ht⟩
    · rfl
    · exact absurd (congrArg _ (List.prefix_nil.mp ht)) hne

theorem take (bytes : List UInt8) : Takes (Cbor.take bytes.length) bytes bytes where
  reads rest := by
    unfold Cbor.take
    rw [if_pos (by rw [List.length_append]; omega), List.take_left, List.drop_left]
  runsOut front hp hne := by
    have hshort : ¬ bytes.length ≤ front.length := fun hlong => hne (hp.eq_of_length_le hlong)
    exact if_neg hshort

end Takes

/-! ### Heads -/

theorem length_bigEndian (width n : Nat) : (bigEndian width n).length = width := by
  induction width with
  | zero => rfl
  | succ width ih => rw [bigEndian, List.length_cons, ih]

/-- The bytes of a number continue those of another as digits do. -/
theorem foldl_bigEndian (width n acc : Nat) :
    (bigEndian width n).foldl (fun n b => n * 256 + b.toNat) acc
      = acc * Nat.pow 256 width + n % Nat.pow 256 width := by
  induction width generalizing acc with
  | zero => simp [bigEndian, Nat.mod_one]
  | succ width ih =>
      -- The first byte is the highest digit, and the others are those of the same
      -- number, so the accumulator has to be general.
      have hdigit : (UInt8.ofNat (n / Nat.pow 256 width)).toNat = n / Nat.pow 256 width % 256 := rfl
      have hsplit : n % Nat.pow 256 (width + 1)
          = n % Nat.pow 256 width + Nat.pow 256 width * (n / Nat.pow 256 width % 256) :=
        Nat.mod_pow_succ
      have hshift : Nat.pow 256 (width + 1) = Nat.pow 256 width * 256 := rfl
      rw [bigEndian, List.foldl_cons, ih, hdigit, hsplit, hshift, Nat.add_mul, Nat.mul_assoc,
        Nat.mul_comm 256, Nat.mul_comm (n / _ % 256), Nat.add_assoc,
        Nat.add_comm (n % Nat.pow 256 width)]

/-- A number is read back from its bytes, if there are enough of them. -/
theorem ofBigEndian_bigEndian {width n : Nat} (h : n < Nat.pow 256 width) :
    ofBigEndian (bigEndian width n) = n := by
  rw [ofBigEndian, foldl_bigEndian, Nat.zero_mul, Nat.zero_add, Nat.mod_eq_of_lt h]

theorem toNat_headByte {m i : Nat} (hm : m < 8) (hi : i < 32) :
    (headByte m i).toNat = 32 * m + i := by
  have hbyte : 32 * m + i < 256 := by omega
  exact Nat.mod_eq_of_lt hbyte

theorem major_headByte {m i : Nat} (hm : m < 8) (hi : i < 32) : major (headByte m i) = m := by
  rw [major, toNat_headByte hm hi]
  omega

theorem info_headByte {m i : Nat} (hm : m < 8) (hi : i < 32) : info (headByte m i) = i := by
  rw [info, toNat_headByte hm hi]
  omega

namespace Takes

variable {α β : Type} {read : Reader α} {next : Nat → Reader α} {piece : List UInt8}
  {a : α} {n limit : Nat}

theorem bigEndian (width : Nat) (h : n < Nat.pow 256 width) :
    Takes (ofBigEndian <$> Cbor.take width) (Cbor.bigEndian width n) n := by
  have htake := (Takes.take (Cbor.bigEndian width n)).map ofBigEndian
  rwa [length_bigEndian, ofBigEndian_bigEndian h] at htake

/-- The head of an item is a first byte that tells the type, and then whatever of
    the argument has found no room in it. -/
theorem exists_head (m : Nat) (hn : n < UInt64.size) :
    ∃ i tail, i < indefinite ∧ Cbor.head m n = headByte m i :: tail ∧
      Takes (argument i) tail n := by
  unfold Cbor.head
  split
  · next h =>
    have hroom : n < indefinite := Nat.lt_trans h (by decide)
    have hread : argument n = Pure.pure n := if_pos h
    exact ⟨n, [], hroom, rfl, hread ▸ .pure n⟩
  · split
    · next h => exact ⟨24, _, by decide, rfl, .bigEndian 1 h⟩
    · split
      · next h => exact ⟨25, _, by decide, rfl, .bigEndian 2 h⟩
      · split
        · next h => exact ⟨26, _, by decide, rfl, .bigEndian 4 h⟩
        · exact ⟨27, _, by decide, rfl, .bigEndian 8 hn⟩

/-- A reader that tells from the first byte that the type is right goes on with the
    argument and with what stands behind it. -/
theorem head {m : Nat} (hm : m < 8) (hn : n < UInt64.size) {read : UInt8 → Reader α}
    (hread : ∀ first, major first = m → info first ≠ indefinite →
      read first = argument (info first) >>= next)
    (hnext : Takes (next n) piece a) : Takes (Cbor.byte >>= read) (Cbor.head m n ++ piece) a := by
  rcases exists_head m hn with ⟨i, tail, hi, hhead, htail⟩
  have hi' : i < 32 := Nat.lt_trans hi (by decide)
  have hinfo := info_headByte hm hi'
  rw [hhead]
  refine (Takes.byte (headByte m i)).bind ?_
  rw [hread _ (major_headByte hm hi') (hinfo.symm ▸ Nat.ne_of_lt hi), hinfo]
  exact htail.bind hnext

/-! ### Leaves -/

theorem unsigned (hlimit : n < limit) (hn : n < UInt64.size) :
    Takes (Cbor.unsigned limit) (putUnsigned n) n := by
  rw [← List.append_nil (putUnsigned n)]
  refine head (by decide) hn (fun _ hmajor _ => if_pos hmajor) ?_
  rw [if_pos hlimit]
  exact .pure n

theorem uint64 (n : UInt64) : Takes Cbor.uint64 (putUnsigned n.toNat) n := by
  have hread := (unsigned n.toNat_lt_size n.toNat_lt_size).map UInt64.ofNat
  rwa [UInt64.ofNat_toNat] at hread

theorem uint32 (n : UInt32) : Takes Cbor.uint32 (putUnsigned n.toNat) n := by
  have hn : n.toNat < UInt64.size := Nat.lt_trans n.toNat_lt_size (by decide)
  have hread := (unsigned n.toNat_lt_size hn).map UInt32.ofNat
  rwa [UInt32.ofNat_toNat] at hread

theorem signed (hn : n < Nat.pow 2 63) : Takes Cbor.signed (putUnsigned n) (n : Int) := by
  have hword : n < UInt64.size := Nat.lt_trans hn (by decide)
  rw [← List.append_nil (putUnsigned n)]
  refine head (by decide) hword (fun _ hmajor _ => if_pos hmajor) ?_
  rw [if_pos hn]
  exact .pure (n : Int)

theorem byteString {bytes : List UInt8} (hn : bytes.length < UInt64.size) :
    Takes Cbor.byteString (putBytes bytes) bytes :=
  head (by decide) hn (fun _ hmajor hinfo => if_pos ⟨hmajor, hinfo⟩) (.take bytes)

theorem hash {size : Nat} (hash : Hash size) (hn : size < UInt64.size) :
    Takes Cbor.hash (putBytes hash.bytes) hash := by
  refine (byteString (hash.length_eq.symm ▸ hn)).last ?_
  have hsize : Hash.ofBytes? hash.bytes = some hash := dif_pos hash.length_eq
  rw [hsize]
  exact .pure hash

theorem bool (b : Bool) : Takes Cbor.bool (putBool b) b := by
  cases b with
  | false => exact (Takes.byte 0xf4).last (.pure false)
  | true => exact (Takes.byte 0xf5).last (.pure true)

/-- An item that is not `null` is taken where `null` might have been. -/
theorem nullable {head : UInt8} (hhead : head ≠ 0xf6) (h : Takes read (head :: piece) a) :
    Takes (Cbor.nullable read) (head :: piece) (some a) where
  reads rest := by
    have hread : Cbor.nullable read (head :: piece ++ rest) = (some <$> read) (head :: piece ++ rest) :=
      if_neg hhead
    rw [hread]
    exact (h.map some).reads rest
  runsOut front hp hne := by
    cases front with
    | nil => rfl
    | cons first front =>
        -- If anything is there, it starts like the piece, so it is not `null`.
        have hfirst : first = head := (List.cons_prefix_cons.mp hp).1
        have hread : Cbor.nullable read (first :: front) = (some <$> read) (first :: front) :=
          if_neg (hfirst ▸ hhead)
        rw [hread]
        exact (h.map some).runsOut _ hp hne

/-! ### Arrays -/

theorem openArray (hn : n < UInt64.size) : Takes Cbor.openArray (putArray n) (.left n) := by
  rw [← List.append_nil (putArray n)]
  refine head (by decide) hn (fun _ hmajor hinfo => (if_pos hmajor).trans (if_neg hinfo)) ?_
  exact .pure (Cursor.left n)

theorem element (h : Takes read piece a) (n : Nat) :
    Takes (Cbor.element read (.left (n + 1))) piece (some a, .left n) :=
  Takes.first (.pure (some (Cursor.left n))) (h.last (.pure (some a, Cursor.left n)))

/-- A part that may be left out is missing. -/
theorem element_nil (read : Reader α) : Takes (Cbor.element read (.left 0)) [] (none, .left 0) :=
  Takes.first (.pure none) (.pure (none, Cursor.left 0))

theorem finish : Takes (Cbor.finish (.left 0)) [] () where
  reads _ := rfl
  runsOut _ hp hne := absurd (List.prefix_nil.mp hp) hne

section Elements

variable {write : α → List UInt8} {as : List α}

theorem elements_succ (read : Reader α) (fuel n : Nat) :
    Cbor.elements read (fuel + 1) (.left (n + 1)) = read >>= fun a =>
      Cbor.elements read fuel (.left n) >>= fun more => Pure.pure (a :: more) :=
  rfl

theorem elements (h : ∀ a ∈ as, Takes read (write a) a) (fuel : Nat) (hfuel : as.length < fuel) :
    Takes (Cbor.elements read fuel (.left as.length)) (as.flatMap write) as := by
  induction as generalizing fuel with
  | nil =>
      cases fuel with
      | zero => exact absurd hfuel (Nat.not_lt_zero _)
      | succ fuel => exact Takes.first (.pure none) (.pure [])
  | cons a as ih =>
      cases fuel with
      | zero => exact absurd hfuel (Nat.not_lt_zero _)
      | succ fuel =>
          have hmore := ih (fun b hb => h b (List.mem_cons_of_mem a hb)) fuel
            (Nat.lt_of_succ_lt_succ hfuel)
          rw [List.flatMap_cons, List.length_cons, elements_succ]
          exact (h a List.mem_cons_self).bind (hmore.last (.pure (a :: as)))

/-- If bytes are missing, it does not matter how much fuel there is. -/
theorem elements_runsOut (h : ∀ a ∈ as, Takes read (write a) a) (fuel : Nat) :
    RunsOut (Cbor.elements read fuel (.left as.length)) (as.flatMap write) := by
  induction as generalizing fuel with
  | nil => exact fun front hp hne => absurd (List.prefix_nil.mp hp) hne
  | cons a as ih =>
      cases fuel with
      | zero => exact fun _ _ _ => rfl
      | succ fuel =>
          -- The bytes end in the first element, or in the others, for which there may
          -- be no fuel left.
          have hmore := ih (fun b hb => h b (List.mem_cons_of_mem a hb)) fuel
          rw [List.flatMap_cons, List.length_cons, elements_succ]
          exact (h a List.mem_cons_self).bind_runsOut (hmore.andThen _)

theorem length_le_flatMap (hne : ∀ a ∈ as, write a ≠ []) : as.length ≤ (as.flatMap write).length := by
  induction as with
  | nil => exact Nat.le_refl 0
  | cons a as ih =>
      have hfirst : 0 < (write a).length :=
        List.length_pos_iff.mpr (hne a List.mem_cons_self)
      have hrest := ih fun b hb => hne b (List.mem_cons_of_mem a hb)
      rw [List.flatMap_cons, List.length_append, List.length_cons]
      omega

/-- An array is taken with all its elements, if these are not made of nothing. -/
theorem collect (h : ∀ a ∈ as, Takes read (write a) a) (hempty : read [] = .error .endOfInput) :
    Takes (Cbor.collect read (.left as.length)) (as.flatMap write) as where
  reads rest := by
    refine (elements h _ ?_).reads rest
    have hlength := length_le_flatMap fun a ha => (h a ha).ne_nil hempty
    rw [List.length_append]
    omega
  runsOut front hp hne := elements_runsOut h _ front hp hne

end Elements

end Takes

end Cbor

end HeaderChain
