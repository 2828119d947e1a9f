import HeaderChain.Detector.Run
import Mathlib.Data.List.Forall2
import Mathlib.Data.List.Induction

/-!
# Taking Runs Apart

Runs as something to compute and as something to cut into pieces.

`Reaches` says that a run is in range step by step, which is what an
induction wants. Whether a run on given operations is in range can also be
computed, and `reaches_iff` says that the two agree, so a particular run is
checked by evaluating it.

A statement about what happens along a run needs the state in which an
operation finds the detector, and not only the one it leaves behind. `Visits`
names that state. It cuts the run in two, and `Reaches.of_visits` says that
what lies before the cut is a run in its own right.

A run can also be compared with what is left of it when some of its operations
are taken out. The two visit different states, and it is for a relation between
them to say in what they do not differ. It has to survive an operation that both
carry out and one that only the longer run does, and then it holds all along.

Some things that a detector keeps are a trace of its past: an operation left them
there, and none that came later took them away. `Since` says this of a run, and it
is followed operation by operation from the end of the run, where the next one
either leaves such a trace itself or lets an earlier one stand.

## Main definitions

* `Detector.RunsInRange`: All operations of a sequence are in range.
* `Detector.Visits`: A run comes to a state and goes on with an operation.
* `Detector.Since`: Something happened on a run and was not undone.

## Theorems

* `Detector.reaches_iff`: A run is in range and ends where it leads.
* `Detector.Reaches.of_append`: A run over two sequences is two runs.
* `Detector.Reaches.of_visits`: Whatever a run visits is reached.
* `Detector.Reaches.invariant`: What every operation of a run keeps holds at its
  end.
* `Detector.Reaches.tracked`: So does what every operation keeps in view of the
  operations before it.
* `Detector.concat_eq_append_cons_iff`: The ways to cut a list with one more element.
* `Detector.since_concat`: What the last operation adds to a past.
* `Detector.trace_filter`, `Detector.Reaches.filter`: A run and what is left of it
  are related all along.
-/

namespace HeaderChain

namespace Detector

instance (settings : Settings) (d : Detector) (event : Event) :
    Decidable (d.InRange settings event) :=
  inferInstanceAs (Decidable (∀ n ∈ d.differences settings event, Fits n))

theorem trace_cons (settings : Settings) (d : Detector) (event : Event) (rest : List Event) :
    d.trace settings (event :: rest)
      = ⟨event, (d.step settings event).1, (d.step settings event).2⟩
        :: (d.step settings event).2.trace settings rest :=
  rfl

/-- A trace over two sequences of operations is two traces. -/
theorem trace_append (settings : Settings) (d : Detector) (events events' : List Event) :
    d.trace settings (events ++ events')
      = d.trace settings events ++ (d.run settings events).trace settings events' := by
  induction events generalizing d with
  | nil => rfl
  | cons event rest ih =>
      rw [List.cons_append, trace_cons, trace_cons, ih, List.cons_append]
      rfl

/-- Whether all operations of a sequence are in range, each where the ones
    before it lead. -/
def RunsInRange (settings : Settings) : Detector → List Event → Prop
  | _, [] => True
  | d, event :: rest =>
    d.InRange settings event ∧ RunsInRange settings (d.step settings event).2 rest

instance decidableRunsInRange (settings : Settings) :
    (d : Detector) → (events : List Event) → Decidable (RunsInRange settings d events)
  | _, [] => inferInstanceAs (Decidable True)
  | d, event :: rest =>
    haveI := decidableRunsInRange settings (d.step settings event).2 rest
    inferInstanceAs (Decidable (d.InRange settings event ∧ _))

variable {settings : Settings} {d d' : Detector} {events events' : List Event}

/-- A run is in range and ends where its operations lead. -/
theorem reaches_iff :
    Reaches settings d events d' ↔ RunsInRange settings d events ∧ d' = d.run settings events := by
  constructor
  · -- The end of a run is known already, so only the range is left.
    intro h
    refine ⟨?_, h.eq_run⟩
    induction h with
    | refl d => trivial
    | step d event events d' hr _ ih => exact ⟨hr, ih⟩
  · rintro ⟨hr, rfl⟩
    induction events generalizing d with
    | nil => exact .refl d
    | cons event rest ih => exact .step d event rest _ hr.1 (ih hr.2)

/-- A run over two sequences of operations is a run over each of them. -/
theorem Reaches.of_append (h : Reaches settings d (events ++ events') d') :
    Reaches settings d events (d.run settings events) ∧
      Reaches settings (d.run settings events) events' d' := by
  induction events generalizing d with
  | nil => exact ⟨.refl d, h⟩
  | cons event rest ih =>
      cases h with
      | step _ _ _ _ hr hrest =>
          rcases ih hrest with ⟨hfirst, hsecond⟩
          exact ⟨.step d event rest _ hr hfirst, hsecond⟩

/-- A run from `d` comes to `u` and goes on with `event`. -/
def Visits (settings : Settings) (d : Detector) (events : List Event) (u : Detector)
    (event : Event) : Prop :=
  ∃ before after, events = before ++ event :: after ∧ u = d.run settings before

/-- Whatever a run visits is reached, by operations that belong to the run. -/
theorem Reaches.of_visits {u : Detector} {event : Event} (h : Reaches settings d events d')
    (hu : Visits settings d events u event) :
    ∃ before, Reaches settings d before u ∧ ∀ e ∈ before, e ∈ events := by
  rcases hu with ⟨before, after, rfl, rfl⟩
  exact ⟨before, h.of_append.1, fun e he => List.mem_append_left _ he⟩

/-- What the first part of a run visits is visited by the whole, and so is what
    the second part visits from where the first leads. -/
theorem Visits.append_right {u : Detector} {event : Event}
    (hu : Visits settings d events u event) (events' : List Event) :
    Visits settings d (events ++ events') u event := by
  rcases hu with ⟨before, after, rfl, rfl⟩
  exact ⟨before, after ++ events', List.append_assoc _ _ _, rfl⟩

theorem Visits.append_left {u : Detector} {event : Event} (events : List Event)
    (hu : Visits settings (d.run settings events) events' u event) :
    Visits settings d (events ++ events') u event := by
  rcases hu with ⟨before, after, rfl, rfl⟩
  exact ⟨events ++ before, after, (List.append_assoc _ _ _).symm, (run_append _ _ _ _).symm⟩

/-- What the rest of a run visits is visited by the whole. -/
theorem Visits.cons {u : Detector} {event : Event} (first : Event)
    (hu : Visits settings (d.step settings first).2 events u event) :
    Visits settings d (first :: events) u event :=
  hu.append_left [first]

/-- What holds at the start of a run and is kept by every operation that it comes
    to holds at its end. -/
theorem Reaches.invariant {P : Detector → Prop} (h : Reaches settings d events d') (hd : P d)
    (hstep : ∀ u event, Visits settings d events u event → P u → P (u.step settings event).2) :
    P d' := by
  induction h with
  | refl _ => exact hd
  | step d event rest _ _ _ ih =>
      have hfirst : Visits settings d (event :: rest) d event := ⟨[], rest, rfl, rfl⟩
      exact ih (hstep d event hfirst hd) fun u e hu => hstep u e (hu.cons event)

theorem Visits.mem {u : Detector} {event : Event} (hu : Visits settings d events u event) :
    event ∈ events := by
  rcases hu with ⟨before, after, rfl, _⟩
  exact List.mem_append_right _ List.mem_cons_self

theorem Visits.mem_trace {u : Detector} {event : Event} (hu : Visits settings d events u event) :
    ⟨event, (u.step settings event).1, (u.step settings event).2⟩ ∈ d.trace settings events := by
  rcases hu with ⟨before, after, rfl, rfl⟩
  rw [trace_append, trace_cons]
  exact List.mem_append_right _ List.mem_cons_self

/-- Whatever stands in a trace comes from an operation in a state that the run visits. -/
theorem exists_visits_of_mem_trace {entry : Entry} (h : entry ∈ d.trace settings events) :
    ∃ u, Visits settings d events u entry.event ∧
      entry = ⟨entry.event, (u.step settings entry.event).1, (u.step settings entry.event).2⟩ := by
  induction events generalizing d with
  | nil => exact absurd h List.not_mem_nil
  | cons event rest ih =>
      rw [trace_cons] at h
      rcases List.mem_cons.mp h with rfl | hrest
      · exact ⟨d, ⟨[], rest, rfl, rfl⟩, rfl⟩
      · rcases ih hrest with ⟨u, hu, hentry⟩
        exact ⟨u, hu.cons event, hentry⟩

section Past

/-- What holds at the start of a run, and is kept by every operation in view of the
    operations before it, holds at the end in view of the whole run. -/
theorem Reaches.tracked {P : List Event → Detector → Prop} (h : Reaches settings d events d')
    (hstart : P [] d)
    (hstep : ∀ before u event, Reaches settings d before u → P before u →
      P (before ++ [event]) (u.step settings event).2) :
    P events d' := by
  -- The operations are taken off from the end, so that those before stay a run.
  induction events using List.reverseRecOn generalizing d' with
  | nil =>
      cases h with
      | refl _ => exact hstart
  | append_singleton before event ih =>
      rcases h.of_append with ⟨hbefore, hlast⟩
      rw [hlast.eq_run]
      exact hstep before _ event hbefore (ih hbefore)

/-- A list with one more element is cut in two either at that element or at one that it
    already had. -/
theorem concat_eq_append_cons_iff {α : Type} {xs before after : List α} {x y : α} :
    xs ++ [y] = before ++ x :: after ↔
      (after = [] ∧ xs = before ∧ y = x) ∨ ∃ rest, after = rest ++ [y] ∧ xs = before ++ x :: rest := by
  constructor
  · intro hsplit
    rcases List.eq_nil_or_concat after with rfl | ⟨rest, last, rfl⟩
    · rcases List.append_inj' hsplit rfl with ⟨hxs, hlast⟩
      exact .inl ⟨rfl, hxs, List.singleton_inj.mp hlast⟩
    · rw [List.concat_eq_append, ← List.cons_append, ← List.append_assoc] at hsplit
      rcases List.append_inj' hsplit rfl with ⟨hxs, hlast⟩
      rw [List.concat_eq_append, List.singleton_inj.mp hlast]
      exact .inr ⟨rest, rfl, hxs⟩
  · rintro (⟨rfl, rfl, rfl⟩ | ⟨rest, rfl, rfl⟩)
    · rfl
    · rw [List.append_assoc, List.cons_append]

/-- Something happened on a run from `d`, and no operation after it undid it. -/
def Since (settings : Settings) (d : Detector) (undoes : Event → Prop)
    (happens : Detector → Event → Prop) (events : List Event) : Prop :=
  ∃ before event after, events = before ++ event :: after ∧
    happens (d.run settings before) event ∧ ∀ e ∈ after, ¬ undoes e

variable {undoes : Event → Prop} {happens : Detector → Event → Prop}

theorem not_since_nil : ¬ Since settings d undoes happens [] := by
  rintro ⟨before, event, after, hsplit, _⟩
  exact absurd hsplit.symm (List.append_ne_nil_of_right_ne_nil before (List.cons_ne_nil event after))

/-- The last operation either does it or leaves it as it was done before. -/
theorem since_concat {event : Event} :
    Since settings d undoes happens (events ++ [event]) ↔
      happens (d.run settings events) event ∨
        (Since settings d undoes happens events ∧ ¬ undoes event) := by
  constructor
  · rintro ⟨before, e, after, hsplit, hhappens, hstands⟩
    rcases concat_eq_append_cons_iff.mp hsplit with ⟨_, rfl, rfl⟩ | ⟨rest, rfl, rfl⟩
    · exact .inl hhappens
    · refine .inr ⟨⟨before, e, rest, rfl, hhappens, fun e he => ?_⟩, ?_⟩
      · exact hstands e (List.mem_append_left _ he)
      · exact hstands event (List.mem_append_right _ List.mem_cons_self)
  · rintro (hhappens | ⟨⟨before, e, after, rfl, hhappens, hstands⟩, hnot⟩)
    · exact ⟨events, event, [], rfl, hhappens, fun e he => absurd he List.not_mem_nil⟩
    · refine ⟨before, e, after ++ [event], ?_, hhappens, fun e he => ?_⟩
      · rw [List.append_assoc, List.cons_append]
      · rcases List.mem_append.mp he with hold | hlast
        · exact hstands e hold
        · rw [List.mem_singleton.mp hlast]
          exact hnot

end Past

section Filter

variable {R : Detector → Detector → Prop} (keep : Event → Bool)

/-- A run and what is left of it when the operations that fail a test are taken
    out. Let a relation between their states be kept by every operation that is
    left, and by one that is taken out when only the first run carries it out. If
    it holds at the start, what it makes of an operation holds of every operation
    that is left. -/
theorem trace_filter {E : Entry → Entry → Prop} (hR : R d d')
    (hdropped : ∀ u u' event, Visits settings d events u event → keep event = false → R u u' →
      R (u.step settings event).2 u')
    (hkept : ∀ u u' event, Visits settings d events u event → keep event = true → R u u' →
      R (u.step settings event).2 (u'.step settings event).2 ∧
        E ⟨event, (u.step settings event).1, (u.step settings event).2⟩
          ⟨event, (u'.step settings event).1, (u'.step settings event).2⟩) :
    List.Forall₂ E ((d.trace settings events).filter fun e => keep e.event)
      (d'.trace settings (events.filter keep)) := by
  induction events generalizing d d' with
  | nil => exact .nil
  | cons event rest ih =>
      have hfirst : Visits settings d (event :: rest) d event := ⟨[], rest, rfl, rfl⟩
      have hlater := fun d' (hR : R (d.step settings event).2 d') => ih hR
        (fun u u' e hu => hdropped u u' e (hu.cons event))
        fun u u' e hu => hkept u u' e (hu.cons event)
      rw [trace_cons, List.filter_cons, List.filter_cons]
      cases hkeep : keep event with
      | true =>
          rcases hkept d d' event hfirst hkeep hR with ⟨hnext, hentry⟩
          rw [if_pos rfl, if_pos rfl, trace_cons]
          exact .cons hentry (hlater _ hnext)
      | false =>
          rw [if_neg Bool.false_ne_true, if_neg Bool.false_ne_true]
          exact hlater d' (hdropped d d' event hfirst hkeep hR)

/-- If the operations that are left stay in range as well, what is left is a run,
    and the relation holds at the end. -/
theorem Reaches.filter {v : Detector} (h : Reaches settings d events v) (hR : R d d')
    (hdropped : ∀ u u' event, Visits settings d events u event → keep event = false → R u u' →
      R (u.step settings event).2 u')
    (hkept : ∀ u u' event, Visits settings d events u event → keep event = true → R u u' →
      R (u.step settings event).2 (u'.step settings event).2 ∧
        (u.InRange settings event → u'.InRange settings event)) :
    ∃ v', Reaches settings d' (events.filter keep) v' ∧ R v v' := by
  induction h generalizing d' with
  | refl d => exact ⟨d', .refl d', hR⟩
  | step d event rest v hrange _ ih =>
      have hfirst : Visits settings d (event :: rest) d event := ⟨[], rest, rfl, rfl⟩
      have hlater := fun d' (hR : R (d.step settings event).2 d') => ih hR
        (fun u u' e hu => hdropped u u' e (hu.cons event))
        fun u u' e hu => hkept u u' e (hu.cons event)
      rw [List.filter_cons]
      cases hkeep : keep event with
      | true =>
          rcases hkept d d' event hfirst hkeep hR with ⟨hnext, hstays⟩
          rcases hlater _ hnext with ⟨v', hv', hend⟩
          rw [if_pos rfl]
          exact ⟨v', .step d' event _ v' (hstays hrange) hv', hend⟩
      | false =>
          rw [if_neg Bool.false_ne_true]
          exact hlater d' (hdropped d d' event hfirst hkeep hR)

end Filter

end Detector

end HeaderChain
