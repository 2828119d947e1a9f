import HeaderChain.Proofs.ForkChoice
import HeaderChain.Proofs.HeaderTable.Sound
import HeaderChain.Proofs.Provenance
import Mathlib.Data.List.Nodup
import Mathlib.Data.List.Pairwise

/-!
# What a Check for Forks Finds and Leaves

A check folds over every row twice and combines two comparisons that go in
opposite directions. The first picks the least of the headers that the node
has not processed, the second asks whether the node's own header comes before
it. Taken together they say something that neither says alone: a nonce is
reported only if the node's own header comes before *every* other header of
its nonce. `Consistent.forked_iff` is that argument.

In a consistent table a row is known by what is in it. Its own header is the
one processed header, whatever the place, and the leading rival is the least
of the others. So the verdict depends on the contents of the rows and not on
the order in which they were filled, which `Consistent.fork?_eq_some_iff`
makes visible.

What is left of a row comes in two forms only. Either the row stays as it is,
because it is forked or has no header to compare with, or its own header alone
is left. A row of one header is not forked, and its check leaves it alone, so
a second check finds and leaves the same as the first.

## Main definitions

* `HeaderTable.rivals`: The headers of a nonce that the node has not
  processed.

## Theorems

* `HeaderTable.Consistent.own?_eq_some_iff`: The own header of a row.
* `HeaderTable.Consistent.fork?_eq_some_iff`: The candidate that forks a row.
* `HeaderTable.Consistent.forked_iff`: A nonce is forked if a candidate forks
  its row.
* `HeaderTable.Regular.received_of_fork?`: What forks a row is received.
* `HeaderTable.verdict_congr`: A verdict depends on what forks the rows.
* `HeaderTable.Consistent.reports_iff`: The least forked nonce is
  reported with the leading of its rivals.
* `HeaderTable.Consistent.row_scan_cases`: The two forms of what is left of a
  row.
* `HeaderTable.Consistent.fork?_eq_none_of_scanned`: A row that is not forked stays
  so until something is added to it.
* `HeaderTable.Consistent.scan_scan`: A second check changes nothing.
-/

namespace HeaderChain

namespace HeaderTable

variable {t u : HeaderTable} {nonce : UInt64} {own o p : Observation} {c : Candidate}

/-- The headers of a nonce that the node has not processed. -/
def rivals (t : HeaderTable) (nonce : UInt64) : List Observation :=
  (t.row nonce).filter fun o => !o.provenance.isProcessed

theorem mem_rivals : o ∈ t.rivals nonce ↔ o ∈ t.row nonce ∧ o.provenance ≠ .processed := by
  rw [rivals, List.mem_filter, Bool.not_eq_true', ← Bool.not_eq_true, Provenance.isProcessed_iff]

-- A header of a row is known by its hash, and a processed one by being so.

theorem Consistent.eq_of_hash_eq (h : t.Consistent) (ho : o ∈ t.row nonce) (hp : p ∈ t.row nonce)
    (hhash : o.hash = p.hash) : o = p := by
  have : Std.Symm fun a b : Observation => a.hash ≠ b.hash := ⟨fun _ _ hne => hne.symm⟩
  by_cases heq : o = p
  · exact heq
  · exact absurd hhash ((h.distinct nonce).forall ho hp heq)

theorem Consistent.eq_of_processed (h : t.Consistent) (ho : o ∈ t.row nonce)
    (hp : p ∈ t.row nonce) (hoprocessed : o.provenance = .processed)
    (hpprocessed : p.provenance = .processed) : o = p := by
  have : Std.Symm fun a b : Observation =>
      ¬(a.provenance = .processed ∧ b.provenance = .processed) := ⟨fun _ _ hne hab => hne hab.symm⟩
  by_cases heq : o = p
  · exact heq
  · exact absurd ⟨hoprocessed, hpprocessed⟩ ((h.single nonce).forall ho hp heq)

/-- Whatever is not the own header is a rival. -/
theorem Consistent.mem_rivals_of_ne (h : t.Consistent) (hown : own ∈ t.row nonce)
    (hprocessed : own.provenance = .processed) (ho : o ∈ t.row nonce) (hne : o ≠ own) :
    o ∈ t.rivals nonce :=
  mem_rivals.mpr ⟨ho, fun hop => hne (h.eq_of_processed ho hown hop hprocessed)⟩

theorem ne_of_mem_rivals (ho : o ∈ t.rivals nonce) (hprocessed : own.provenance = .processed) :
    o ≠ own :=
  fun heq => (mem_rivals.mp ho).2 (heq ▸ hprocessed)

/-- A row without a processed header has no own one. -/
theorem own?_eq_none_iff {row : List Observation} :
    own? row = none ↔ ∀ o ∈ row, o.provenance ≠ .processed := by
  simp only [own?, List.find?_eq_none, List.mem_reverse, Provenance.isProcessed_iff, ne_eq]

/-- The own header of a row is the one that is processed. -/
theorem Consistent.own?_eq_some_iff (h : t.Consistent) :
    own? (t.row nonce) = some own ↔ own ∈ t.row nonce ∧ own.provenance = .processed := by
  have hfound : ∀ o, own? (t.row nonce) = some o →
      o ∈ t.row nonce ∧ o.provenance = .processed := by
    intro o ho
    have hprocessed : o.provenance.isProcessed = true :=
      List.find?_some (p := fun o : Observation => o.provenance.isProcessed) ho
    exact ⟨List.mem_reverse.mp (List.mem_of_find?_eq_some ho),
      Provenance.isProcessed_iff.mp hprocessed⟩
  refine ⟨hfound own, fun hown => ?_⟩
  cases hfind : own? (t.row nonce) with
  | none => exact absurd hown.2 (own?_eq_none_iff.mp hfind own hown.1)
  | some o =>
      -- The search finds some processed header, and there is no other.
      rcases hfound o hfind with ⟨ho, hprocessed⟩
      rw [h.eq_of_processed ho hown.1 hprocessed hown.2]

/-- What forks a row with an own header is its leading rival. -/
theorem fork?_of_own {row : List Observation} (hown : own? row = some own) :
    fork? row = some c ↔ rival? row = some c ∧ Candidate.of own < c := by
  simp only [fork?, hown]
  by_cases hsignal : signals own (rival? row) = true
  · rw [if_pos hsignal]
    rcases signals_iff.mp hsignal with ⟨d, hd, hlt⟩
    rw [hd, Option.some.injEq]
    exact ⟨fun hdc => ⟨hdc, hdc ▸ hlt⟩, fun hc => hc.1⟩
  · rw [if_neg hsignal]
    refine ⟨fun hnone => absurd hnone (by simp only [reduceCtorEq, not_false_eq_true]),
      fun hc => ?_⟩
    exact absurd (signals_iff.mpr ⟨c, hc⟩) hsignal

theorem fork?_of_unprocessed {row : List Observation} (h : own? row = none) :
    fork? row = none := by
  simp only [fork?, h]

/-- A row is forked by the leading rival if its own header comes before
    it. -/
theorem Consistent.fork?_eq_some_iff (h : t.Consistent) :
    fork? (t.row nonce) = some c ↔
      ∃ own ∈ t.row nonce, own.provenance = .processed ∧ IsLeading (t.rivals nonce) c ∧
        Candidate.of own < c := by
  have hlead : rival? (t.row nonce) = some c ↔ IsLeading (t.rivals nonce) c :=
    leading?_eq_some_iff
  constructor
  · intro hc
    cases hown : own? (t.row nonce) with
    | none => exact absurd hc (by simp only [fork?_of_unprocessed hown, reduceCtorEq,
        not_false_eq_true])
    | some own =>
        rcases h.own?_eq_some_iff.mp hown with ⟨hmem, hprocessed⟩
        rcases (fork?_of_own hown).mp hc with ⟨hrival, hlt⟩
        exact ⟨own, hmem, hprocessed, hlead.mp hrival, hlt⟩
  · rintro ⟨own, hmem, hprocessed, hleading, hlt⟩
    have hown := h.own?_eq_some_iff.mpr ⟨hmem, hprocessed⟩
    exact (fork?_of_own hown).mpr ⟨hlead.mpr hleading, hlt⟩

/-- The node's own header comes before all of its rivals if it comes before
    the leading one, so a nonce is forked if its row is. -/
theorem Consistent.forked_iff (h : t.Consistent) :
    t.Forked nonce ↔ ∃ c, fork? (t.row nonce) = some c := by
  constructor
  · rintro ⟨own, hmem, hprocessed, ⟨o, ho, hne⟩, hall⟩
    -- There is a rival, so one of them leads, and it is ranked after the own
    -- header like any other.
    rcases exists_isLeading (h.mem_rivals_of_ne hmem hprocessed ho hne) with ⟨c, hleading⟩
    rcases hleading.1 with ⟨p, hp, rfl⟩
    have hlt := hall p (mem_rivals.mp hp).1 (ne_of_mem_rivals hp hprocessed)
    exact ⟨_, h.fork?_eq_some_iff.mpr ⟨own, hmem, hprocessed, hleading, hlt⟩⟩
  · rintro ⟨c, hc⟩
    rcases h.fork?_eq_some_iff.mp hc with ⟨own, hmem, hprocessed, hleading, hlt⟩
    refine ⟨own, hmem, hprocessed, ?_, fun o ho hne => ?_⟩
    · rcases hleading.1 with ⟨o, ho, _⟩
      exact ⟨o, (mem_rivals.mp ho).1, ne_of_mem_rivals ho hprocessed⟩
    · exact lt_of_lt_of_le hlt
        (hleading.2 o (h.mem_rivals_of_ne hmem hprocessed ho hne))

/-- What forks a row is received. A notarized header would come before the own
    one, and proposals are not in the table. -/
theorem Regular.received_of_fork? (h : t.Regular) (hc : fork? (t.row nonce) = some c)
    (ho : o ∈ t.rivals nonce) : o.provenance = .received := by
  rcases h.toConsistent.fork?_eq_some_iff.mp hc with ⟨own, _, hprocessed, hleading, hlt⟩
  have hafter : Candidate.of own < Candidate.of o := lt_of_lt_of_le hlt (hleading.2 o ho)
  rcases mem_rivals.mp ho with ⟨hrow, hunprocessed⟩
  cases hprovenance : o.provenance with
  | proposed => exact absurd hprovenance (h.unproposed o (mem_row.mp hrow).1)
  | received => rfl
  | notarized =>
      have hown := Candidate.notarized_of_lt hafter hprovenance
      rw [hprocessed] at hown
      exact absurd hown (by decide)
  | processed => exact absurd hprovenance hunprocessed

-- The verdict is about the lowest of the nonces, which are listed in order.

/-- Taking out what stands twice makes an ascending list strictly
    ascending. -/
theorem pairwise_eraseDups {ns : List UInt64} (h : ns.Pairwise (· ≤ ·)) :
    ns.eraseDups.Pairwise (· < ·) := by
  induction hlength : ns.length using Nat.strongRecOn generalizing ns with
  | ind length ih =>
      cases ns with
      | nil => exact .nil
      | cons n rest =>
          have hn := List.pairwise_cons.mp h
          have hshorter : (rest.filter fun m => !m == n).length < length := by
            rw [← hlength]
            exact Nat.lt_succ_of_le (List.length_filter_le _ rest)
          rw [List.eraseDups_cons]
          refine List.pairwise_cons.mpr ⟨fun m hm => ?_, ih _ hshorter (hn.2.filter _) rfl⟩
          rcases List.mem_filter.mp (List.mem_eraseDups.mp hm) with ⟨hmem, hne⟩
          simp only [Bool.not_eq_true', beq_eq_false_iff_ne] at hne
          exact UInt64.lt_of_le_of_ne (hn.1 m hmem) (Ne.symm hne)

theorem pairwise_nonces (t : HeaderTable) : t.nonces.Pairwise (· < ·) :=
  pairwise_eraseDups (List.pairwise_map.mpr t.ascending)

theorem mem_nonces_iff_row : nonce ∈ t.nonces ↔ ∃ o, o ∈ t.row nonce := by
  simp only [mem_nonces, mem_row]

/-- A forked row is not empty. -/
theorem mem_nonces_of_fork? (hc : fork? (t.row nonce) = some c) : nonce ∈ t.nonces := by
  rw [mem_nonces_iff_row]
  cases hrow : t.row nonce with
  | nil => exact absurd (hrow ▸ hc) (by simp only [fork?, own?, List.reverse_nil, List.find?_nil,
      reduceCtorEq, not_false_eq_true])
  | cons o rest => exact ⟨o, List.mem_cons_self⟩

/-- The first fork is that of the lowest forked nonce. -/
theorem firstFork?_eq_some_iff :
    t.firstFork? = some (nonce, c) ↔
      fork? (t.row nonce) = some c ∧ ∀ lower < nonce, fork? (t.row lower) = none := by
  have hpair : ∀ n, (fork? (t.row n)).map (fun d => (n, d)) = some (nonce, c) ↔
      n = nonce ∧ fork? (t.row nonce) = some c := by
    intro n
    simp only [Option.map_eq_some_iff, Prod.mk.injEq]
    constructor
    · rintro ⟨d, hd, rfl, rfl⟩
      exact ⟨rfl, hd⟩
    · rintro ⟨rfl, hc⟩
      exact ⟨c, hc, rfl, rfl⟩
  rw [firstFork?, List.findSome?_eq_some_iff]
  constructor
  · rintro ⟨below, n, above, hsplit, hn, hbelow⟩
    rcases (hpair n).mp hn with ⟨rfl, hc⟩
    refine ⟨hc, fun lower hlt => ?_⟩
    cases hlower : fork? (t.row lower) with
    | none => rfl
    | some d =>
        -- A lower forked nonce would be listed before this one, where the
        -- search found nothing.
        have hascending := hsplit ▸ t.pairwise_nonces
        have hmem := hsplit ▸ mem_nonces_of_fork? hlower
        rcases List.mem_append.mp hmem with hmem | hmem
        · have hnone := hbelow lower hmem
          rw [hlower] at hnone
          exact absurd hnone (by simp only [Option.map_some, reduceCtorEq, not_false_eq_true])
        · rcases List.mem_cons.mp hmem with rfl | hmem
          · exact absurd hlt (UInt64.lt_irrefl _)
          · have hafter := (List.pairwise_cons.mp (List.pairwise_append.mp hascending).2.1).1
            exact absurd (UInt64.lt_trans hlt (hafter lower hmem)) (UInt64.lt_irrefl _)
  · rintro ⟨hc, hlowest⟩
    rcases List.append_of_mem (mem_nonces_of_fork? hc) with ⟨below, above, hsplit⟩
    refine ⟨below, nonce, above, hsplit, (hpair nonce).mpr ⟨rfl, hc⟩, fun n hn => ?_⟩
    have hascending := hsplit ▸ t.pairwise_nonces
    have hlt : n < nonce :=
      (List.pairwise_append.mp hascending).2.2 n hn nonce List.mem_cons_self
    rw [hlowest n hlt, Option.map_none]

theorem firstFork?_eq_none_iff :
    t.firstFork? = none ↔ ∀ nonce, fork? (t.row nonce) = none := by
  rw [firstFork?, List.findSome?_eq_none_iff]
  constructor
  · intro hnone n
    cases hn : fork? (t.row n) with
    | none => rfl
    | some d =>
        have habsent := hnone n (mem_nonces_of_fork? hn)
        rw [hn] at habsent
        exact absurd habsent (by simp only [Option.map_some, reduceCtorEq, not_false_eq_true])
  · intro hnone n _
    rw [hnone n, Option.map_none]

/-- The lowest forked nonce is reported, with what forks it. -/
theorem verdict_eq_forked_iff :
    t.scan.1 = .forked nonce c ↔
      fork? (t.row nonce) = some c ∧ ∀ lower < nonce, fork? (t.row lower) = none := by
  rw [← firstFork?_eq_some_iff]
  unfold scan
  cases t.firstFork? with
  | none => simp only [reduceCtorEq]
  | some found =>
      cases found
      simp only [Verdict.forked.injEq, Option.some.injEq, Prod.mk.injEq]

/-- Nothing is reported if no row is forked. -/
theorem verdict_eq_clear_iff :
    t.scan.1 = .clear ↔ ∀ nonce, fork? (t.row nonce) = none := by
  rw [← firstFork?_eq_none_iff]
  unfold scan
  cases t.firstFork? with
  | none => simp only []
  | some found => simp only [reduceCtorEq]

/-- A check of a table answers one of the two. -/
theorem verdict_cases (t : HeaderTable) :
    t.scan.1 = .clear ∨ ∃ nonce c, t.scan.1 = .forked nonce c := by
  unfold scan
  cases t.firstFork? with
  | none => exact .inl rfl
  | some found => exact .inr ⟨found.1, found.2, rfl⟩

/-- The verdict depends on what forks the rows and on nothing else. -/
theorem verdict_congr (h : ∀ nonce, fork? (t.row nonce) = fork? (u.row nonce)) :
    t.scan.1 = u.scan.1 := by
  rcases t.verdict_cases with hclear | ⟨nonce, c, hforked⟩
  · rw [hclear, eq_comm, verdict_eq_clear_iff]
    exact fun nonce => (h nonce) ▸ verdict_eq_clear_iff.mp hclear nonce
  · rw [hforked, eq_comm, verdict_eq_forked_iff]
    rcases verdict_eq_forked_iff.mp hforked with ⟨hc, hlowest⟩
    exact ⟨h nonce ▸ hc, fun lower hlt => h lower ▸ hlowest lower hlt⟩

/-- The least forked nonce is reported with the leading of its rivals. -/
theorem Consistent.reports_iff (h : t.Consistent) :
    t.scan.1 = .forked nonce c ↔
      (t.Forked nonce ∧ ∀ other, t.Forked other → nonce ≤ other) ∧
        IsLeading (t.rivals nonce) c := by
  rw [verdict_eq_forked_iff]
  constructor
  · rintro ⟨hc, hlowest⟩
    refine ⟨⟨h.forked_iff.mpr ⟨c, hc⟩, fun other hother => ?_⟩, ?_⟩
    · rcases h.forked_iff.mp hother with ⟨b, hb⟩
      by_contra hlt
      rw [hlowest other (UInt64.not_le.mp hlt)] at hb
      exact absurd hb (by simp only [reduceCtorEq, not_false_eq_true])
    · rcases h.fork?_eq_some_iff.mp hc with ⟨_, _, _, hleading, _⟩
      exact hleading
  · rintro ⟨⟨hforked, hleast⟩, hleading⟩
    constructor
    · -- Some candidate forks the row, and it leads as well.
      rcases h.forked_iff.mp hforked with ⟨b, hb⟩
      rcases h.fork?_eq_some_iff.mp hb with ⟨_, _, _, hb', _⟩
      rw [hleading.unique hb']
      exact hb
    · intro lower hlt
      cases hlower : fork? (t.row lower) with
      | none => rfl
      | some b =>
          have hle := hleast lower (h.forked_iff.mpr ⟨b, hlower⟩)
          exact absurd (UInt64.lt_of_le_of_lt hle hlt) (UInt64.lt_irrefl _)

/-- A fork is reported if there is one. -/
theorem Consistent.isFork_scan_iff (h : t.Consistent) :
    t.scan.1.isFork = true ↔ ∃ nonce, t.Forked nonce := by
  constructor
  · intro hfork
    rcases t.verdict_cases with hclear | ⟨nonce, c, hforked⟩
    · rw [hclear] at hfork
      exact absurd hfork Bool.false_ne_true
    · exact ⟨nonce, (h.reports_iff.mp hforked).1.1⟩
  · rintro ⟨nonce, hforked⟩
    rcases h.forked_iff.mp hforked with ⟨c, hc⟩
    rcases t.verdict_cases with hclear | ⟨n, b, hb⟩
    · rw [verdict_eq_clear_iff.mp hclear nonce] at hc
      exact absurd hc (by simp only [reduceCtorEq, not_false_eq_true])
    · rw [hb]
      rfl

/-- The candidate reported is not the node's own header. -/
theorem Consistent.hash_ne_own (h : t.Consistent) (hleading : IsLeading (t.rivals nonce) c)
    (hown : own ∈ t.row nonce) (hprocessed : own.provenance = .processed) :
    c.hash ≠ own.hash := by
  rcases hleading.1 with ⟨o, ho, rfl⟩
  intro hhash
  exact ne_of_mem_rivals ho hprocessed (h.eq_of_hash_eq (mem_rivals.mp ho).1 hown hhash)

-- What is left of a row.

theorem row_scan (t : HeaderTable) (nonce : UInt64) :
    t.scan.2.row nonce = (t.row nonce).filter (survives (t.row nonce)) := by
  rw [scan, row_keep]
  refine List.filter_congr fun o ho => ?_
  rw [(mem_row.mp ho).2]

/-- A row without a processed header stays as it is. -/
theorem row_scan_of_unprocessed (h : own? (t.row nonce) = none) :
    t.scan.2.row nonce = t.row nonce := by
  rw [row_scan, List.filter_eq_self]
  intro o _
  simp only [survives, h]

/-- In a row with an own header either everything outlives the check or that
    header alone does. -/
theorem survives_of_own {row : List Observation} (hown : own? row = some own) :
    survives row o = ((fork? row).isSome || o == own) := by
  simp only [survives, fork?, hown]
  cases hsignal : signals own (rival? row) with
  | true =>
      rcases signals_iff.mp hsignal with ⟨c, hc, _⟩
      rw [if_pos rfl, hc, Option.isSome_some]
  | false => rw [if_neg Bool.false_ne_true, Option.isSome_none]

/-- A forked row stays as it is. -/
theorem row_scan_of_fork? (hc : fork? (t.row nonce) = some c) :
    t.scan.2.row nonce = t.row nonce := by
  cases hown : own? (t.row nonce) with
  | none => exact row_scan_of_unprocessed hown
  | some own =>
      rw [row_scan, List.filter_eq_self]
      intro o _
      rw [survives_of_own hown, hc, Option.isSome_some, Bool.true_or]

theorem Consistent.nodup_row (h : t.Consistent) (nonce : UInt64) : (t.row nonce).Nodup :=
  (h.distinct nonce).imp fun hne heq => hne (congrArg Observation.hash heq)

/-- A row of which nothing differs from one header holds that alone. -/
theorem Consistent.row_eq_singleton (h : t.Consistent) (ho : o ∈ t.row nonce)
    (hall : ∀ p ∈ t.row nonce, p = o) : t.row nonce = [o] := by
  have hself : (t.row nonce).filter (· == o) = t.row nonce :=
    List.filter_eq_self.mpr fun p hp => beq_iff_eq.mpr (hall p hp)
  rw [← hself, List.filter_beq, List.count_eq_one_of_mem (h.nodup_row nonce) ho,
    List.replicate_one]

/-- Of any other row its own header is left. -/
theorem Consistent.row_scan_of_own (h : t.Consistent) (hmem : own ∈ t.row nonce)
    (hprocessed : own.provenance = .processed) (hfork : fork? (t.row nonce) = none) :
    t.scan.2.row nonce = [own] := by
  have hown := h.own?_eq_some_iff.mpr ⟨hmem, hprocessed⟩
  have hsurvives : ∀ o ∈ t.row nonce, survives (t.row nonce) o = (o == own) := by
    intro o _
    rw [survives_of_own hown, hfork, Option.isSome_none, Bool.false_or]
  rw [row_scan, List.filter_congr hsurvives, List.filter_beq,
    List.count_eq_one_of_mem (h.nodup_row nonce) hmem, List.replicate_one]

/-- A check leaves every row either as it is or with its own header alone. -/
theorem Consistent.row_scan_cases (h : t.Consistent) (nonce : UInt64) :
    t.scan.2.row nonce = t.row nonce ∨
      ∃ own ∈ t.row nonce, own.provenance = .processed ∧ fork? (t.row nonce) = none ∧
        t.scan.2.row nonce = [own] := by
  cases hown : own? (t.row nonce) with
  | none => exact .inl (row_scan_of_unprocessed hown)
  | some own =>
      cases hfork : fork? (t.row nonce) with
      | some c => exact .inl (row_scan_of_fork? hfork)
      | none =>
          rcases h.own?_eq_some_iff.mp hown with ⟨hmem, hprocessed⟩
          exact .inr ⟨own, hmem, hprocessed, rfl, h.row_scan_of_own hmem hprocessed hfork⟩

/-- A header alone in its row is not forked. -/
theorem fork?_singleton (own : Observation) : fork? [own] = none := by
  cases hprocessed : own.provenance.isProcessed <;>
    simp [fork?, own?, rival?, leading?, signals, hprocessed]

/-- A check changes nothing about what forks the rows. -/
theorem Consistent.fork?_scan (h : t.Consistent) (nonce : UInt64) :
    fork? (t.scan.2.row nonce) = fork? (t.row nonce) := by
  rcases h.row_scan_cases nonce with hsame | ⟨own, _, _, hfork, hleft⟩
  · rw [hsame]
  · rw [hleft, hfork, fork?_singleton]

/-- A row that a check did not find forked is not forked as long as nothing is
    added to it. -/
theorem Consistent.fork?_eq_none_of_scanned (h : t.Consistent) (hu : u.Consistent)
    (hfork : fork? (t.row nonce) = none) (hsub : u.row nonce ⊆ t.scan.2.row nonce) :
    fork? (u.row nonce) = none := by
  cases hc : fork? (u.row nonce) with
  | none => rfl
  | some c =>
      rcases hu.fork?_eq_some_iff.mp hc with ⟨own, hown, hprocessed, ⟨⟨o, ho, _⟩, _⟩, _⟩
      -- The check left the own header alone, so it has no rival.
      have hmem : own ∈ t.row nonce := by
        have hleft := hsub hown
        rw [row_scan] at hleft
        exact (List.mem_filter.mp hleft).1
      have hrival := hsub (mem_rivals.mp ho).1
      rw [h.row_scan_of_own hmem hprocessed hfork, List.mem_singleton] at hrival
      exact absurd hrival (ne_of_mem_rivals ho hprocessed)

theorem Consistent.scan (h : t.Consistent) : t.scan.2.Consistent :=
  h.keep _

/-- A check loses no nonce. -/
theorem Consistent.mem_nonces_scan (h : t.Consistent) :
    nonce ∈ t.scan.2.nonces ↔ nonce ∈ t.nonces := by
  rw [mem_nonces_iff_row, mem_nonces_iff_row]
  rcases h.row_scan_cases nonce with hsame | ⟨own, hmem, _, _, hleft⟩
  · rw [hsame]
  · rw [hleft]
    exact ⟨fun _ => ⟨own, hmem⟩, fun _ => ⟨own, List.mem_singleton.mpr rfl⟩⟩

/-- A second check finds the same and changes nothing. -/
theorem Consistent.scan_scan (h : t.Consistent) : t.scan.2.scan = t.scan := by
  refine Prod.ext (verdict_congr h.fork?_scan) (ext_row fun nonce => ?_)
  rcases h.scan.row_scan_cases nonce with hsame | ⟨own, hmem, hprocessed, hfork, hleft⟩
  · exact hsame
  · -- What a second check leaves alone, the first has left alone already.
    rw [h.fork?_scan] at hfork
    have hmem' : own ∈ t.row nonce := by
      rw [row_scan] at hmem
      exact (List.mem_filter.mp hmem).1
    rw [hleft, h.row_scan_of_own hmem' hprocessed hfork]

end HeaderTable

end HeaderChain
