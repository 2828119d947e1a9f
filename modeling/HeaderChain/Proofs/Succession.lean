import HeaderChain.Succession
import Mathlib.Data.List.Chain

/-!
# Accepted Successions

What headers have in common that are accepted one on top of the other.

Of the checks of a succession, that of the proof depends on the schedule and the
verifier, and that of the predecessor's hash on how headers are hashed. Those of
rounds and nonces come before them and are the same for all, so whatever the
validator, a list of headers in which each is accepted on top of the one before it
has nonces without a gap, and rounds that go up.

## Main definitions

* `Validator.Links`: Each header of a list is accepted on top of the one before
  it.

## Theorems

* `Validator.links_of_check`: What is checked of every accepted header.
* `Validator.lt_of_check`: An accepted header has the next nonce and a later
  round.
* `Validator.Links.nonce_add`: The nonces of linked headers have no gap.
-/

namespace HeaderChain

namespace Validator

variable {v : Validator}

theorem nextNonce?_eq_some {nonce next : UInt64} (h : nextNonce? nonce = some next) :
    next.toNat = nonce.toNat + 1 := by
  unfold nextNonce? at h
  split at h
  · next hroom =>
    rw [← Option.some.inj h, UInt64.toNat_add]
    exact Nat.mod_eq_of_lt hroom
  · simp only [reduceCtorEq] at h

/-- What is checked before the proof, and whatever the schedule and the verifier. -/
theorem links_of_check {current previous : Header}
    (h : v.check (some current) (some previous) = .ok ()) :
    previous.round < current.round ∧ nextNonce? previous.nonce = some current.nonce ∧
      v.hasher.hash previous = .ok current.prevHash ∧ current.prevSeed = previous.seed := by
  have hlinks : v.checkLinks current previous = .ok () := by
    cases hlinks : v.checkLinks current previous with
    | ok _ => rfl
    | error violation => simp only [check, proofDue, hlinks, reduceCtorEq] at h
  unfold checkLinks at hlinks
  split at hlinks
  · simp only [reduceCtorEq] at hlinks
  · next hround =>
    split at hlinks
    · simp only [reduceCtorEq] at hlinks
    · next hnonce =>
      split at hlinks
      · simp only [reduceCtorEq] at hlinks
      · next hash hhash =>
        split at hlinks
        · simp only [reduceCtorEq] at hlinks
        · next hprev =>
          split at hlinks
          · simp only [reduceCtorEq] at hlinks
          · next hseed =>
            rw [Decidable.not_not.mp hprev]
            exact ⟨UInt64.not_le.mp hround, Decidable.not_not.mp hnonce, hhash,
              Decidable.not_not.mp hseed⟩

/-- A header that is accepted on top of another is of a later round and has the
    next nonce. -/
theorem lt_of_check {current previous : Header}
    (h : v.check (some current) (some previous) = .ok ()) :
    previous.round < current.round ∧ current.nonce.toNat = previous.nonce.toNat + 1 :=
  ⟨(links_of_check h).1, nextNonce?_eq_some (links_of_check h).2.1⟩

/-- Each header of a list is accepted on top of the one before it. -/
def Links (v : Validator) (headers : List Header) : Prop :=
  headers.IsChain fun previous current => v.check (some current) (some previous) = .ok ()

instance (result : Except Violation Unit) : Decidable (result = .ok ()) :=
  match result with
  | .ok () => isTrue rfl
  | .error _ => isFalse nofun

instance (v : Validator) (headers : List Header) : Decidable (v.Links headers) :=
  inferInstanceAs (Decidable (headers.IsChain _))

/-- The nonces of linked headers have no gap: a header lies as far below the last
    one as there are headers after it. -/
theorem Links.nonce_add {headers : List Header} (h : v.Links headers) {tip header : Header}
    (htip : headers.getLast? = some tip) {i : Nat} (hi : headers[i]? = some header) :
    header.nonce.toNat + headers.length = tip.nonce.toNat + i + 1 := by
  induction headers generalizing i header with
  | nil => simp only [List.getLast?_nil, reduceCtorEq] at htip
  | cons first rest ih =>
      cases rest with
      | nil =>
          -- There is only the last header.
          simp only [List.getLast?_singleton, Option.some.injEq] at htip
          cases i with
          | zero =>
              simp only [List.getElem?_cons_zero, Option.some.injEq] at hi
              rw [← hi, htip, List.length_singleton]
          | succ i => simp only [List.getElem?_cons_succ, List.getElem?_nil, reduceCtorEq] at hi
      | cons second rest =>
          rcases List.isChain_cons_cons.mp h with ⟨hcheck, hlinks⟩
          rw [List.getLast?_cons_cons] at htip
          cases i with
          | zero =>
              have hat : (second :: rest)[0]? = some second := rfl
              have hsecond := ih hlinks htip hat
              have hnext := (lt_of_check hcheck).2
              simp only [List.getElem?_cons_zero, Option.some.injEq] at hi
              rw [← hi, List.length_cons]
              omega
          | succ i =>
              rw [List.getElem?_cons_succ] at hi
              have hrest := ih hlinks htip hi
              rw [List.length_cons]
              omega

end Validator

end HeaderChain
