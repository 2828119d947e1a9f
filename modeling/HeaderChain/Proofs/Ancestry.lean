import HeaderChain.Proofs.Cbor.Header
import HeaderChain.Proofs.Succession

/-!
# Ancestry

A header has one line of ancestors.

A header names its predecessor by hash, so from a header one can go back to
the header that it was built on, and from there to the next. That there is never
a choice on the way takes two steps. If the hash function has no collision among
the headers in question, then two predecessors have the same canonical form. And
since that form is read back exactly, they are then the same header, of the same
kind and with the same proof or none. Two lists of ancestors of one header can
then differ in one thing only, which is how far back they go.

What a validator checks besides depends on the epochs from which features are
active and on how proofs are verified. None of it matters here, so a header is
said to follow another as soon as some validator that hashes canonically accepts
it. Which one that is may change from pair to pair, as the answer of a validator
does whose features come and go.

## Main definitions

* `Header.Follows`: A header is accepted on top of another.
* `Ancestry`: Each header of a list follows the one before it.
* `CollisionFree`: The digests of some headers tell their canonical forms apart.
* `Consecutive`: The nonces of a list have no gap and the rounds go up.

## Theorems

* `Header.Follows.unique`: A header has one predecessor.
* `Ancestry.consecutive`: An ancestry is consecutive.
* `ancestry_unique`: Of two ancestries of one header, the shorter is the end of
  the longer.
-/

namespace HeaderChain

/-- A header is accepted on top of another by a validator that hashes headers in
    the canonical way, whatever its schedule of features and its verifier. -/
def Header.Follows (current previous : Header) : Prop :=
  ∃ flags verify,
    Validator.check ⟨.canonical, flags, verify⟩ (some current) (some previous) = .ok ()

/-- Each header of a list follows the one before it. -/
def Ancestry (headers : List Header) : Prop :=
  headers.IsChain fun previous current => current.Follows previous

theorem Validator.Links.ancestry {v : Validator} {headers : List Header} (h : v.Links headers)
    (hv : v.hasher = .canonical) : Ancestry headers := by
  refine List.IsChain.imp (fun previous current hcheck => ⟨v.flags, v.verify, ?_⟩) h
  rw [← hv]
  exact hcheck

/-- No two headers of different canonical forms have the same digest. -/
def CollisionFree (headers : List Header) : Prop :=
  ∀ a ∈ headers, ∀ b ∈ headers, a.hash = b.hash → a.toCbor = b.toCbor

instance (headers : List Header) : Decidable (CollisionFree headers) :=
  inferInstanceAs (Decidable (∀ a ∈ headers, _))

/-- The headers of a list are numbered without a gap, in later and later rounds. -/
structure Consecutive (headers : List Header) : Prop where
  /-- The nonces count up from that of the first header, and do not wrap. -/
  nonces : ∀ first ∈ headers.head?, ∀ i header, headers[i]? = some header →
    header.nonce.toNat = first.nonce.toNat + i
  /-- Of two headers, the later one in the list is of the later round. -/
  rounds : headers.Pairwise fun a b => a.round < b.round
  /-- No header occurs twice. -/
  distinct : headers.Nodup

namespace Header.Follows

variable {current previous other : Header}

theorem lt (h : current.Follows previous) :
    previous.round < current.round ∧ current.nonce.toNat = previous.nonce.toNat + 1 := by
  rcases h with ⟨flags, verify, hcheck⟩
  exact Validator.lt_of_check hcheck

theorem prevHash_eq (h : current.Follows previous) : previous.hash = current.prevHash := by
  rcases h with ⟨flags, verify, hcheck⟩
  exact Except.ok.inj (Validator.links_of_check hcheck).2.2.1

/-- A header has one predecessor, if hashes tell the candidates apart. -/
theorem unique (h : current.Follows previous) (h' : current.Follows other)
    (hprevious : previous.Encodable) (hother : other.Encodable)
    (hfree : previous.hash = other.hash → previous.toCbor = other.toCbor) : previous = other := by
  have hform : previous.toCbor = other.toCbor :=
    hfree (h.prevHash_eq.trans h'.prevHash_eq.symm)
  have hprefix : previous.toCbor <+: other.toCbor := hform ▸ List.prefix_rfl
  exact (Header.takes hprevious).eq_of_isPrefix (Header.takes hother) hprefix

end Header.Follows

namespace Ancestry

variable {headers xs ys : List Header}

theorem nonce_eq {first header : Header} {rest : List Header} (h : Ancestry (first :: rest))
    {i : Nat} (hi : (first :: rest)[i]? = some header) :
    header.nonce.toNat = first.nonce.toNat + i := by
  induction rest generalizing first i with
  | nil =>
      cases i with
      | zero => rw [← Option.some.inj hi, Nat.add_zero]
      | succ i => simp only [List.getElem?_cons_succ, List.getElem?_nil, reduceCtorEq] at hi
  | cons second rest ih =>
      rcases List.isChain_cons_cons.mp h with ⟨hfollows, hrest⟩
      cases i with
      | zero => rw [← Option.some.inj hi, Nat.add_zero]
      | succ i =>
          -- Counted from the second header, it is one step less.
          have hfromSecond := ih hrest hi
          have hnext := hfollows.lt.2
          omega

theorem rounds (h : Ancestry headers) : headers.Pairwise fun a b => a.round < b.round := by
  have : Trans (fun a b : Header => a.round < b.round) (fun a b : Header => a.round < b.round)
      (fun a b : Header => a.round < b.round) := ⟨fun hab hbc => UInt64.lt_trans hab hbc⟩
  exact List.isChain_iff_pairwise.mp (List.IsChain.imp (fun _ _ hfollows => hfollows.lt.1) h)

/-- The nonces of an ancestry have no gap and its rounds go up, so no header occurs
    twice. -/
theorem consecutive (h : Ancestry headers) : Consecutive headers where
  nonces first hfirst i header hi := by
    cases headers with
    | nil => exact absurd hfirst (Option.not_mem_none first)
    | cons _ rest =>
        cases Option.some.inj hfirst
        exact h.nonce_eq hi
  rounds := h.rounds
  distinct := by
    refine List.nodup_iff_pairwise_ne.mpr (h.rounds.imp ?_)
    rintro a _ hlt rfl
    exact UInt64.lt_irrefl _ hlt

/-- If no header of two ancestries is a second predecessor, and they end in the same
    header after the same number of steps, they are the same. -/
theorem eq_of_length_eq (hxs : Ancestry xs) (hys : Ancestry ys)
    (hunique : ∀ x ∈ xs, ∀ y ∈ ys, ∀ next : Header, next.Follows x → next.Follows y → x = y)
    (htip : xs.getLast? = ys.getLast?) (hlength : xs.length = ys.length) : xs = ys := by
  induction xs generalizing ys with
  | nil => exact (List.length_eq_zero_iff.mp hlength.symm).symm
  | cons x xs ih =>
      cases ys with
      | nil => exact absurd hlength (Nat.succ_ne_zero _)
      | cons y ys =>
          cases xs with
          | nil =>
              cases ys with
              | nil => exact congrArg (fun tip => [tip]) (Option.some.inj htip)
              | cons _ _ => exact absurd (Nat.succ.inj hlength) (Nat.succ_ne_zero _).symm
          | cons next xs =>
              cases ys with
              | nil => exact absurd (Nat.succ.inj hlength) (Nat.succ_ne_zero _)
              | cons next' ys =>
                  rcases List.isChain_cons_cons.mp hxs with ⟨hx, hxs'⟩
                  rcases List.isChain_cons_cons.mp hys with ⟨hy, hys'⟩
                  rw [List.getLast?_cons_cons, List.getLast?_cons_cons] at htip
                  have hrest : next :: xs = next' :: ys := by
                    refine ih hxs' hys' (fun a ha b hb => ?_) htip (Nat.succ.inj hlength)
                    exact hunique a (List.mem_cons_of_mem x ha) b (List.mem_cons_of_mem y hb)
                  -- The first headers are both followed by the second one.
                  rw [← (List.cons.inj hrest).1] at hy
                  rw [hunique x List.mem_cons_self y List.mem_cons_self next hx hy, hrest]

/-- The longer of two ancestries of one header goes on where the shorter stops. -/
theorem isSuffix (hxs : Ancestry xs) (hys : Ancestry ys)
    (hunique : ∀ x ∈ xs, ∀ y ∈ ys, ∀ next : Header, next.Follows x → next.Follows y → x = y)
    (htip : xs.getLast? = ys.getLast?) (hle : xs.length ≤ ys.length) : xs <:+ ys := by
  induction ys with
  | nil => exact List.length_eq_zero_iff.mp (Nat.le_zero.mp hle) ▸ List.suffix_rfl
  | cons y ys ih =>
      by_cases hlength : xs.length = (y :: ys).length
      · exact eq_of_length_eq hxs hys hunique htip hlength ▸ List.suffix_rfl
      · have hshorter : xs.length ≤ ys.length :=
          Nat.le_of_lt_succ (Nat.lt_of_le_of_ne hle hlength)
        -- The first header of the longer list is then not needed.
        cases ys with
        | nil =>
            -- There is a last header, so the shorter list is not empty.
            have hempty : xs = [] := List.length_eq_zero_iff.mp (Nat.le_zero.mp hshorter)
            rw [hempty] at htip
            exact nomatch htip
        | cons next ys =>
            rw [List.getLast?_cons_cons] at htip
            have hrest := ih (List.isChain_cons_cons.mp hys).2
              (fun a ha b hb => hunique a ha b (List.mem_cons_of_mem y hb)) htip hshorter
            exact hrest.trans (List.suffix_cons y _)

end Ancestry

/-- Ancestry is unique. Along two lists of headers, each of which is accepted on top
    of the one before it, the nonces have no gap and do not wrap, the rounds go up,
    and no header occurs twice. And if the lists end in the same header, and what
    their headers hold can be written, without a collision among the digests of what
    is written, then the shorter list is the end of the longer. -/
theorem ancestry_unique {xs ys : List Header} (hxs : Ancestry xs) (hys : Ancestry ys) :
    Consecutive xs ∧ Consecutive ys ∧
      (xs.getLast? = ys.getLast? → (∀ header ∈ xs ++ ys, header.Encodable) →
        CollisionFree (xs ++ ys) → xs.length ≤ ys.length → xs <:+ ys) := by
  refine ⟨hxs.consecutive, hys.consecutive, fun htip hencodable hfree hle => ?_⟩
  refine hxs.isSuffix hys (fun x hx y hy next hnext hnext' => ?_) htip hle
  have hx' : x ∈ xs ++ ys := List.mem_append_left ys hx
  have hy' : y ∈ xs ++ ys := List.mem_append_right xs hy
  exact hnext.unique hnext' (hencodable x hx') (hencodable y hy') (hfree x hx' y hy')

/-- A shard header, another on top of it in a new epoch, and a metachain header on top
    of that, which carries a proof. -/
def provenLine : List Header :=
  let first := Sample.header 41 50
  let second := Header.shard ⟨0, { Sample.core 42 52 with epoch := 1, prevHash := first.hash }⟩
  let proof : QuorumProof :=
    { signers := [5], signature := [7], headerHash := second.hash, epoch := 1, nonce := 42
      round := 52, shard := 0, startsEpoch := true }
  let third := { Sample.core 43 53 with prevHash := second.hash, prevProof := some proof }
  [first, second, .metachain ⟨third, [first.hash]⟩]

/-- Proofs are due for the headers of the new epoch, and are to name them. -/
def provingValidator : Validator :=
  ⟨.canonical, FlagSchedule.empty.schedule quorumProofs 1, .bound .canonical⟩

/-- The last two headers are an ancestry by themselves, of the same header as all
    three, and so they are the end of the line. -/
theorem ancestry_of_provenLine :
    Ancestry provenLine.tail ∧ Ancestry provenLine ∧
      provenLine.tail.getLast? = provenLine.getLast? ∧
      (∀ header ∈ provenLine.tail ++ provenLine, header.Encodable) ∧
      CollisionFree (provenLine.tail ++ provenLine) ∧ provenLine.tail <:+ provenLine ∧
      Consecutive provenLine ∧ provenLine.map (·.nonce) = [41, 42, 43] := by
  have hlinks : provingValidator.Links provenLine := by decide +kernel
  have h : Ancestry provenLine := hlinks.ancestry rfl
  have htail : Ancestry provenLine.tail := h.tail
  have htip : provenLine.tail.getLast? = provenLine.getLast? := rfl
  have hencodable : ∀ header ∈ provenLine.tail ++ provenLine, header.Encodable := by
    decide +kernel
  have hfree : CollisionFree (provenLine.tail ++ provenLine) := by decide +kernel
  rcases ancestry_unique htail h with ⟨_, hconsecutive, hsuffix⟩
  exact ⟨htail, h, htip, hencodable, hfree, hsuffix htip hencodable hfree (by decide),
    hconsecutive, by decide⟩

end HeaderChain
