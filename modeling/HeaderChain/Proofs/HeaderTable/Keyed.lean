import HeaderChain.HeaderTable.Keyed
import HeaderChain.Proofs.HeaderTable.Observe
import HeaderChain.Proofs.HeaderTable.Scan
import Mathlib.Data.List.Sort

/-!
# Rows under Their Nonces

A table of rows and a table in one list hold the same, and stay so under every operation.

`HeaderTable.keyed` puts the rows of a table under their nonces. No other rows are there:
a nonce of which nothing is held has none. That is what the operations on a keyed table
have to keep up by themselves. They make a row when they first observe a header of its
nonce, and take out a row when they have emptied it, and if one of them did not, it would
lead out of the tables that `keyed` gives. So that each of them commutes with `keyed` says
of the keyed table both what it holds and that none of its rows is empty or stands under
another nonce.

A keyed table is known by what is found under its nonces, because they ascend. For the
tables in one list the same is true of their rows. An operation therefore commutes if what
it leaves under a nonce is what the other leaves of the row. Two of them go about a row in
another way. Observing changes the first header of a hash where the other looks for every
one, and checking for forks goes through a row once where the other asks for its own header
and then for the candidate. The results are the same in a row of different hashes.

## Main definitions

* `HeaderTable.keyed`: The table with its rows under their nonces.

## Theorems

* `KeyedTable.ext_get?`: A keyed table is known by what is found in it.
* `KeyedTable.get?_alter`, `KeyedTable.get?_mapRows`: What is found after a change.
* `KeyedTable.appended_eq_noted`, `KeyedTable.inspect_eq`: The two that go about a row in
  another way.
* `HeaderTable.get?_keyed`: What is found under the nonces of a table.
* `HeaderTable.Consistent.keyed_observe`, `HeaderTable.keyed_dropBelow`,
  `HeaderTable.keyed_dropPremature`, `HeaderTable.keyed_retract`,
  `HeaderTable.Consistent.keyed_scan`: The operations commute with it.
-/

namespace HeaderChain

namespace KeyedTable

variable {t u : KeyedTable} {nonce : UInt64} {row : List Observation}

/-- The row under a nonce is the one that the table lists with it. -/
theorem get?_eq_some_iff : t.get? nonce = some row ↔ (nonce, row) ∈ t.rows := by
  rw [get?, List.lookup_eq_some_iff]
  constructor
  · rintro ⟨below, above, hsplit, _⟩
    rw [hsplit]
    exact List.mem_append_right below List.mem_cons_self
  · intro hmem
    rcases List.append_of_mem hmem with ⟨below, above, hsplit⟩
    -- All that is listed before has a lower nonce.
    have hascending := hsplit ▸ t.ascending
    refine ⟨below, above, hsplit, fun e he => bne_iff_ne.mpr (UInt64.ne_of_lt ?_).symm⟩
    exact (List.pairwise_append.mp hascending).2.2 e he _ List.mem_cons_self

/-- Tables with the same rows under the same nonces are the same. -/
theorem ext_get? (h : ∀ nonce, t.get? nonce = u.get? nonce) : t = u := by
  have hirrefl : Std.Irrefl fun a b : UInt64 × List Observation => a.1 < b.1 :=
    ⟨fun a => UInt64.lt_irrefl a.1⟩
  have hantisymm : Std.Antisymm fun a b : UInt64 × List Observation => a.1 < b.1 :=
    ⟨fun _ _ hab hba => absurd (UInt64.lt_trans hab hba) (UInt64.lt_irrefl _)⟩
  refine KeyedTable.ext (t.ascending.eq_of_mem_iff u.ascending fun e => ?_)
  rw [← get?_eq_some_iff, ← get?_eq_some_iff, h]

theorem lookup_eq_none {rows : List (UInt64 × List Observation)}
    (h : ∀ e ∈ rows, nonce < e.1) : rows.lookup nonce = none :=
  List.lookup_eq_none_iff.mpr fun e he => bne_iff_ne.mpr (UInt64.ne_of_lt (h e he))

theorem lookup_cons (e : UInt64 × List Observation) (rows : List (UInt64 × List Observation))
    (n : UInt64) : (e :: rows).lookup n = if n = e.1 then some e.2 else rows.lookup n := by
  rw [List.lookup_cons]
  by_cases h : n = e.1
  · rw [if_pos h, beq_iff_eq.mpr h]
  · rw [if_neg h, beq_eq_false_iff_ne.mpr h]

/-- A row that is put in front of higher nonces is found under its own. -/
theorem lookup_inFront {rows : List (UInt64 × List Observation)}
    (h : ∀ e ∈ rows, nonce < e.1) (row? : Option (List Observation)) (n : UInt64) :
    (inFront nonce rows row?).lookup n = if n = nonce then row? else rows.lookup n := by
  cases row? with
  | none =>
      by_cases heq : n = nonce
      · rw [if_pos heq, heq]
        exact lookup_eq_none h
      · rw [if_neg heq]
        rfl
  | some row => exact lookup_cons _ _ _

/-- A changed row is found under its nonce, and under any other what was there. -/
theorem lookup_alterIn (f : Option (List Observation) → Option (List Observation))
    {rows : List (UInt64 × List Observation)} (h : rows.Pairwise fun a b => a.1 < b.1)
    (n : UInt64) :
    (alterIn nonce f rows).lookup n
      = if n = nonce then f (rows.lookup nonce) else rows.lookup n := by
  induction rows with
  | nil => exact lookup_inFront (fun e he => absurd he List.not_mem_nil) (f none) n
  | cons p rest ih =>
      have hrest := List.pairwise_cons.mp h
      unfold alterIn
      split
      · next hlt =>
        -- The row in front keeps its place, and its nonce is another.
        have hother : nonce ≠ p.1 := (UInt64.ne_of_lt hlt).symm
        rw [lookup_cons, lookup_cons, lookup_cons, if_neg hother, ih hrest.2]
        by_cases hn : n = nonce
        · rw [if_pos hn, if_pos hn, if_neg (hn ▸ hother)]
        · rw [if_neg hn, if_neg hn]
      · next hge =>
        split
        · next heq =>
          rw [← heq, lookup_inFront hrest.1, lookup_cons, lookup_cons, if_pos rfl]
          by_cases hn : n = p.1
          · rw [if_pos hn, if_pos hn]
          · rw [if_neg hn, if_neg hn, if_neg hn]
        · next hne =>
          have habove := lt_of_head h hge hne
          rw [lookup_inFront habove, lookup_eq_none habove]

theorem get?_alter (t : KeyedTable) (nonce : UInt64)
    (f : Option (List Observation) → Option (List Observation)) (n : UInt64) :
    (t.alter nonce f).get? n = if n = nonce then f (t.get? nonce) else t.get? n :=
  lookup_alterIn f t.ascending n

/-- A change of every row is found under each nonce. -/
theorem get?_mapRows (t : KeyedTable) (f : UInt64 → List Observation → Option (List Observation))
    (nonce : UInt64) : (t.mapRows f).get? nonce = (t.get? nonce).bind (f nonce) := by
  refine Option.ext fun row => ?_
  rw [get?_eq_some_iff, Option.bind_eq_some_iff]
  simp only [mapRows, List.mem_filterMap, Option.map_eq_some_iff, Prod.mk.injEq, Prod.exists,
    get?_eq_some_iff]
  constructor
  · rintro ⟨n, old, hold, new, hnew, rfl, rfl⟩
    exact ⟨old, hold, hnew⟩
  · rintro ⟨old, hold, hnew⟩
    exact ⟨nonce, old, hold, row, hnew, rfl, rfl⟩

-- A row that is left out when it is empty is read as empty, and so changes like any other.

theorem unlessEmpty_eq_some_iff {row' : List Observation} :
    unlessEmpty row = some row' ↔ row ≠ [] ∧ row = row' := by
  cases row with
  | nil => simp only [unlessEmpty, List.isEmpty_nil, if_true, reduceCtorEq, ne_eq,
      not_true_eq_false, false_and]
  | cons o rest => simp only [unlessEmpty, List.isEmpty_cons, Bool.false_eq_true, if_false,
      Option.some.injEq, ne_eq, reduceCtorEq, not_false_eq_true, true_and]

theorem unlessEmpty_of_ne_nil (h : row ≠ []) : unlessEmpty row = some row :=
  unlessEmpty_eq_some_iff.mpr ⟨h, rfl⟩

theorem unlessEmpty_getD (row : List Observation) : (unlessEmpty row).getD [] = row := by
  cases row <;> rfl

theorem unlessEmpty_bind {g : List Observation → Option (List Observation)} (h : g [] = none)
    (row : List Observation) : (unlessEmpty row).bind g = g row := by
  cases row with
  | nil => exact h.symm
  | cons o rest => rfl

theorem upsert_of_fresh {o : Observation} (h : ∀ p ∈ row, p.hash ≠ o.hash) :
    upsert o row = row ++ [o] := by
  induction row with
  | nil => rfl
  | cons p rest ih =>
      rw [upsert, if_neg fun heq => h p List.mem_cons_self (beq_iff_eq.mp heq),
        ih fun q hq => h q (List.mem_cons_of_mem p hq), List.cons_append]

/-- In a row of different hashes, a header that stands in it is the only one to change. -/
theorem upsert_of_known {o known : Observation} (h : row.Pairwise fun a b => a.hash ≠ b.hash)
    (hknown : known ∈ row) (hhash : known.hash = o.hash) :
    upsert o row = row.map (HeaderTable.raised o) := by
  induction row with
  | nil => exact absurd hknown List.not_mem_nil
  | cons p rest ih =>
      have hp := List.pairwise_cons.mp h
      rw [upsert, List.map_cons]
      by_cases heq : p.hash = o.hash
      · have hother : ∀ q ∈ rest, HeaderTable.raised o q = q :=
          fun q hq => if_neg fun hqo => hp.1 q hq (heq.trans hqo.symm)
        rw [if_pos (beq_iff_eq.mpr heq), List.map_congr_left hother, List.map_id',
          HeaderTable.raised, if_pos heq]
      · have hmem : known ∈ rest :=
          (List.mem_cons.mp hknown).resolve_left fun hkp => heq (hkp ▸ hhash)
        rw [if_neg (mt beq_iff_eq.mp heq), HeaderTable.raised, if_neg heq, ih hp.2 hmem]

/-- An observation changes a row of different hashes as it changes a row of a table. -/
theorem appended_eq_noted {o : Observation} (h : row.Pairwise fun a b => a.hash ≠ b.hash) :
    appended row o = HeaderTable.noted row o := by
  have hupsert : ∀ known ∈ row, known.hash = o.hash →
      upsert o (HeaderTable.roomIn row o)
        = (HeaderTable.roomIn row o).map (HeaderTable.raised o) :=
    fun known hknown hhash => upsert_of_known (h.sublist (HeaderTable.roomIn_sublist row o))
      (HeaderTable.mem_roomIn_of_hash_eq hknown hhash) hhash
  unfold appended HeaderTable.noted
  cases hfind : row.find? (·.hash == o.hash) with
  | none =>
      refine upsert_of_fresh fun p hp hhash => ?_
      have hmem := (HeaderTable.roomIn_sublist row o).subset hp
      exact List.find?_eq_none.mp hfind p hmem (beq_iff_eq.mpr hhash)
  | some known =>
      have hhash := List.find?_some hfind
      rw [beq_iff_eq] at hhash
      cases hsup : o.provenance.supersedes known.provenance with
      | true =>
          simp only [Option.any_some, hsup, Bool.not_true, Bool.false_eq_true, if_false, if_true]
          exact hupsert known (List.mem_of_find?_eq_some hfind) hhash
      | false =>
          simp only [Option.any_some, hsup, Bool.not_false, Bool.false_eq_true, if_false, if_true]

open HeaderTable in
/-- Going through a row finds its own header and the leading of the others. -/
theorem inspect_eq (row : List Observation) : inspect row = (own? row, rival? row) := by
  have hfold : ∀ (row : List Observation) (own : Option Observation) (rival : Option Candidate),
      row.foldl look (own, rival)
        = ((own? row).or own, (row.filter fun o => !o.provenance.isProcessed).foldl
            (fun current o => some (Candidate.better current o)) rival) := by
    intro row
    induction row with
    | nil => exact fun _ _ => rfl
    | cons o rest ih =>
        intro own rival
        have hown : own? (o :: rest)
            = (own? rest).or (if o.provenance.isProcessed then some o else none) := by
          simp only [own?, List.reverse_cons, List.find?_append, List.find?_singleton]
        rw [List.foldl_cons, ih, hown, Option.or_assoc]
        cases hprocessed : o.provenance.isProcessed <;> simp [look, hprocessed]
  exact (hfold row none none).trans (Prod.ext Option.or_none rfl)

/-- The candidate that is reported of a row is the one that forks it. -/
theorem judge_fst (row : List Observation) : (judge row).1 = HeaderTable.fork? row := by
  unfold judge
  split
  · next hshort =>
    cases row with
    | nil => rfl
    | cons o rest =>
        have hnil : rest = [] := by
          refine List.length_eq_zero_iff.mp (Nat.lt_one_iff.mp ?_)
          exact Nat.lt_of_succ_lt_succ hshort
        rw [hnil, HeaderTable.fork?_singleton]
  · rw [inspect_eq]
    unfold HeaderTable.fork?
    cases HeaderTable.own? row with
    | none => rfl
    | some own =>
        cases hsignals : signals own (HeaderTable.rival? row) <;>
          simp only [hsignals, if_true, Bool.false_eq_true, if_false]

end KeyedTable

namespace HeaderTable

open KeyedTable

variable {t : HeaderTable} {nonce : UInt64} {o : Observation}

theorem mem_nonces_iff_ne_nil : nonce ∈ t.nonces ↔ t.row nonce ≠ [] :=
  mem_nonces_iff_row.trans
    ⟨fun ⟨_, ho⟩ => List.ne_nil_of_mem ho, List.exists_mem_of_ne_nil (t.row nonce)⟩

/-- The table with its rows under their nonces. -/
def keyed (t : HeaderTable) : KeyedTable :=
  ⟨t.nonces.map fun n => (n, t.row n), List.pairwise_map.mpr t.pairwise_nonces⟩

theorem mem_rows_keyed {e : UInt64 × List Observation} :
    e ∈ t.keyed.rows ↔ e.1 ∈ t.nonces ∧ e.2 = t.row e.1 := by
  rw [keyed, List.mem_map]
  constructor
  · rintro ⟨n, hn, rfl⟩
    exact ⟨hn, rfl⟩
  · rintro ⟨hn, hrow⟩
    exact ⟨e.1, hn, Prod.ext rfl hrow.symm⟩

/-- Of a nonce the keyed table has the row that is there, unless it is empty. -/
theorem get?_keyed (t : HeaderTable) (nonce : UInt64) :
    t.keyed.get? nonce = unlessEmpty (t.row nonce) := by
  refine Option.ext fun row => ?_
  rw [get?_eq_some_iff, mem_rows_keyed, unlessEmpty_eq_some_iff, mem_nonces_iff_ne_nil, eq_comm]

theorem row_keyed (t : HeaderTable) (nonce : UInt64) : t.keyed.row nonce = t.row nonce := by
  rw [KeyedTable.row, get?_keyed, unlessEmpty_getD]

theorem nonces_keyed (t : HeaderTable) : t.keyed.nonces = t.nonces := by
  simp only [KeyedTable.nonces, keyed, List.map_map, Function.comp_def, List.map_id']

theorem notarized?_keyed (t : HeaderTable) (nonce : UInt64) :
    t.keyed.notarized? nonce = t.notarized? nonce := by
  rw [KeyedTable.notarized?, row_keyed, notarized?]

theorem isEmpty_keyed (t : HeaderTable) : t.keyed.isEmpty = t.isEmpty := by
  rw [KeyedTable.isEmpty, keyed, List.isEmpty_map, nonces, isEmpty]
  cases t.observations with
  | nil => rfl
  | cons o rest =>
      rw [List.map_cons, List.eraseDups_cons]
      rfl

theorem highest?_keyed (t : HeaderTable) : t.keyed.highest? = t.highest? := by
  have hlast : t.keyed.highest? = t.nonces.getLast? := by
    rw [← nonces_keyed, KeyedTable.nonces, List.getLast?_map, KeyedTable.highest?]
  rw [hlast]
  cases hhighest : t.highest? with
  | none =>
      rw [nonces, highest?_eq_none_iff.mp hhighest]
      rfl
  | some n =>
      rcases highest?_spec hhighest with ⟨hmem, hle⟩
      cases hm : t.nonces.getLast? with
      | none =>
          rw [List.getLast?_eq_none_iff] at hm
          exact absurd (mem_nonces.mpr hmem) (hm ▸ List.not_mem_nil)
      | some m =>
          rcases mem_nonces.mp (List.mem_of_getLast? hm) with ⟨o, ho, hom⟩
          rcases List.getLast?_eq_some_iff.mp hm with ⟨below, hsplit⟩
          -- Listed last, it is not exceeded by the highest either.
          have hascending := hsplit ▸ t.pairwise_nonces
          have hmem' := hsplit ▸ mem_nonces.mpr hmem
          rcases List.mem_append.mp hmem' with hbelow | hself
          · have hlt := (List.pairwise_append.mp hascending).2.2 n hbelow m List.mem_cons_self
            exact absurd (hom ▸ hle o ho) (UInt64.not_le.mpr hlt)
          · rw [List.mem_singleton.mp hself]

-- Every operation on a table does to the rows under their nonces what it does to the rows.

theorem Consistent.keyed_observe (h : t.Consistent) (o : Observation) :
    (t.observe o).keyed = t.keyed.observe o := by
  refine ext_get? fun n => ?_
  rw [get?_keyed, KeyedTable.observe, get?_alter, get?_keyed, get?_keyed]
  by_cases hn : n = o.nonce
  · rw [if_pos hn, hn, unlessEmpty_getD, appended_eq_noted (h.distinct o.nonce),
      row_observe_self]
    refine unlessEmpty_of_ne_nil ?_
    -- The header observed stands in its row.
    rcases exists_mem_observe t o with ⟨p, hp, hnonce, _⟩
    rw [← row_observe_self]
    exact List.ne_nil_of_mem (mem_row.mpr ⟨hp, hnonce⟩)
  · rw [if_neg hn, row_observe_of_ne (Ne.symm hn)]

theorem keyed_dropBelow (t : HeaderTable) (nonce : UInt64) :
    (t.dropBelow nonce).keyed = t.keyed.dropBelow nonce := by
  refine ext_get? fun n => ?_
  rw [get?_keyed, KeyedTable.dropBelow, get?_mapRows, get?_keyed, dropBelow, row_keep]
  by_cases hn : nonce ≤ n
  · have hall : ∀ o ∈ t.row n, decide (nonce ≤ o.nonce) = true :=
      fun o ho => decide_eq_true ((mem_row.mp ho).2 ▸ hn)
    rw [List.filter_eq_self.mpr hall]
    simp only [hn, if_true, Option.bind_fun_some]
  · have hnone : ∀ o ∈ t.row n, ¬ decide (nonce ≤ o.nonce) = true :=
      fun o ho => mt of_decide_eq_true ((mem_row.mp ho).2 ▸ hn)
    rw [List.filter_eq_nil_iff.mpr hnone]
    simp only [hn, if_false, Option.bind_fun_none]
    rfl

theorem keyed_dropPremature (t : HeaderTable) (final : Checkpoint) :
    (t.dropPremature final).keyed = t.keyed.dropPremature final := by
  refine ext_get? fun n => ?_
  rw [get?_keyed, KeyedTable.dropPremature, get?_mapRows, get?_keyed, dropPremature, row_keep,
    unlessEmpty_bind rfl]

theorem keyed_retract (t : HeaderTable) (nonce : UInt64) (hash : HeaderHash) :
    (t.retract nonce hash).keyed = t.keyed.retract nonce hash := by
  refine ext_get? fun n => ?_
  rw [get?_keyed, KeyedTable.retract, get?_alter, get?_keyed, get?_keyed, retract, row_keep]
  by_cases hn : n = nonce
  · rw [if_pos hn, hn, unlessEmpty_bind rfl]
    refine congrArg unlessEmpty (List.filter_congr fun o ho => ?_)
    rw [(mem_row.mp ho).2, bne_self_eq_false, Bool.false_or]
  · rw [if_neg hn]
    refine congrArg unlessEmpty (List.filter_eq_self.mpr fun o ho => ?_)
    rw [(mem_row.mp ho).2, bne_iff_ne.mpr hn, Bool.true_or]

/-- A check leaves of a row what it leaves under its nonce. -/
theorem Consistent.judge_snd (h : t.Consistent) (nonce : UInt64) :
    (judge (t.row nonce)).2 = t.scan.2.row nonce := by
  unfold judge
  split
  · next hshort =>
    rcases h.row_scan_cases nonce with hsame | ⟨own, hown, _, _, hleft⟩
    · exact hsame.symm
    · -- The own header of a row of one is all of the row.
      have hsingle : t.row nonce = [own] := h.row_eq_singleton hown fun p hp => by
        rcases List.getElem_of_mem hown with ⟨i, hi, rfl⟩
        rcases List.getElem_of_mem hp with ⟨j, hj, rfl⟩
        congr 1
        omega
      rw [hleft, hsingle]
  · rw [inspect_eq]
    cases hown : own? (t.row nonce) with
    | none => exact (row_scan_of_unprocessed hown).symm
    | some own =>
        rcases h.own?_eq_some_iff.mp hown with ⟨hmem, hprocessed⟩
        cases hsignals : signals own (rival? (t.row nonce)) with
        | true =>
            rcases signals_iff.mp hsignals with ⟨c, hc⟩
            simp only [hsignals, if_true]
            exact (row_scan_of_fork? ((fork?_of_own hown).mpr hc)).symm
        | false =>
            have hfork : fork? (t.row nonce) = none := by
              simp only [fork?, hown, hsignals, Bool.false_eq_true, if_false]
            simp only [hsignals, Bool.false_eq_true, if_false]
            exact (h.row_scan_of_own hmem hprocessed hfork).symm

/-- Reporting the first fork found is looking for it. -/
theorem foldl_report (f : UInt64 → Option Candidate) (ns : List UInt64) :
    ns.foldl (fun verdict n => report verdict n (f n)) .clear
      = match ns.findSome? fun n => (f n).map fun candidate => (n, candidate) with
        | none => .clear
        | some (n, candidate) => .forked n candidate := by
  have hstays : ∀ (ns : List UInt64) (n : UInt64) (c : Candidate),
      ns.foldl (fun verdict n => report verdict n (f n)) (.forked n c) = .forked n c := by
    intro ns n c
    induction ns with
    | nil => rfl
    | cons m rest ih =>
        rw [List.foldl_cons]
        cases f m with
        | none => exact ih
        | some candidate => exact ih
  induction ns with
  | nil => rfl
  | cons n rest ih =>
      rw [List.foldl_cons, List.findSome?_cons]
      cases f n with
      | none => exact ih
      | some candidate => exact hstays rest n candidate

theorem Consistent.keyed_scan (h : t.Consistent) :
    t.keyed.scan = (t.scan.1, t.scan.2.keyed) := by
  refine Prod.ext ?_ (ext_get? fun n => ?_)
  · simp only [KeyedTable.scan, keyed, List.foldl_map, judge_fst]
    exact foldl_report (fun n => fork? (t.row n)) t.nonces
  · rw [KeyedTable.scan, get?_mapRows, get?_keyed, get?_keyed]
    by_cases hn : n ∈ t.nonces
    · -- A check empties no row.
      rw [unlessEmpty_of_ne_nil (mem_nonces_iff_ne_nil.mp hn), Option.bind_some, h.judge_snd,
        unlessEmpty_of_ne_nil (mem_nonces_iff_ne_nil.mp (h.mem_nonces_scan.mpr hn))]
    · have hscan := mt h.mem_nonces_scan.mp hn
      rw [mem_nonces_iff_ne_nil, not_not] at hn hscan
      rw [hn, hscan]
      rfl

end HeaderTable

end HeaderChain
