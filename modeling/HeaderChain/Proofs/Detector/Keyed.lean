import HeaderChain.Detector.Keyed
import HeaderChain.Proofs.Detector.Sound
import HeaderChain.Proofs.HeaderTable.Keyed

/-!
# Keyed Runs

A detector with rows under their nonces goes through the states of one with a list.

`Detector.keyed` puts the rows of a detector's table under their nonces and
leaves the rest of the detector as it is. Every operation commutes with it and
answers the same. Observing and checking for forks do so in a consistent table
only, which that of a sound detector is, so a step commutes from a sound detector
and a run from genesis does throughout. What is proved of the states of a
detector is thereby known of the states of a keyed one.

About its own rows a keyed detector has more to say, because its type allows for
empty rows and for headers under a nonce that is not theirs. There are none of
either at the end of a run. All rows there are rows of a table, so what soundness
says of a table holds of each of them as well.

## Main definitions

* `Detector.keyed`: The detector with its rows under their nonces.

## Theorems

* `Detector.keyed_offer`, `Detector.keyed_check`, `Detector.keyed_rollBack`,
  `Detector.keyed_tidy`: The operations that look at the table commute with it.
* `Detector.Sound.step_keyed`: Every operation does, and answers the same.
* `Detector.Sound.run_keyed`: So does every run.
* `KeyedDetector.rows_of_run`: The rows at the end of a run.
-/

namespace HeaderChain

namespace Detector

variable {settings : Settings} {d : Detector}

/-- The detector with the rows of its table under their nonces. -/
def keyed (d : Detector) : KeyedDetector :=
  { table := d.table.keyed, history := d.history, tip := d.tip
    lastBlockRound := d.lastBlockRound, lastProposed := d.lastProposed, forced := d.forced }

theorem keyed_genesis : genesis.keyed = .genesis :=
  rfl

theorem keyed_foldl_noteAncestor {t : HeaderTable} (h : t.Consistent) (ancestors : List Ancestor) :
    (ancestors.foldl noteAncestor t).keyed
      = ancestors.foldl KeyedDetector.noteAncestor t.keyed := by
  induction ancestors generalizing t with
  | nil => rfl
  | cons a rest ih =>
      exact (ih (h.observe a.observation)).trans
        (congrArg (rest.foldl KeyedDetector.noteAncestor) (h.keyed_observe a.observation))

theorem keyed_note (h : d.table.Consistent) (header : Header) (hash : HeaderHash)
    (provenance : Provenance) :
    (d.note header hash provenance).keyed = d.keyed.note header hash provenance := by
  unfold note KeyedDetector.note
  split
  · rfl
  · exact congrArg (fun table => { d.keyed with table }) (h.keyed_observe _)

theorem keyed_commit (h : d.table.Consistent) (header : Header) (hash : HeaderHash)
    (ancestors : List Ancestor) :
    (d.commit settings header hash ancestors).keyed
      = d.keyed.commit settings header hash ancestors := by
  unfold KeyedDetector.commit
  exact congrArg (fun table => { (d.commit settings header hash ancestors).keyed with table })
    (keyed_foldl_noteAncestor h _)

theorem consistent_note (h : d.table.Consistent) (header : Header) (hash : HeaderHash)
    (provenance : Provenance) : (d.note header hash provenance).table.Consistent := by
  unfold note
  split
  · exact h
  · exact h.observe _

theorem keyed_takeIn (h : d.table.Consistent) (force : Bool) (header : Header) (hash : HeaderHash)
    (provenance : Provenance) (ancestors : List Ancestor) :
    (d.takeIn settings force header hash provenance ancestors).keyed
      = d.keyed.takeIn settings force header hash provenance ancestors := by
  have hnote := keyed_note (d := { d with forced := d.forced || force }) h header hash provenance
  have hnoted := consistent_note (d := { d with forced := d.forced || force }) h header hash
    provenance
  unfold takeIn KeyedDetector.takeIn
  cases provenance.isProcessed with
  | true =>
      exact (keyed_commit hnoted header hash ancestors).trans
        (congrArg (fun k => k.commit settings header hash ancestors) hnote)
  | false => exact hnote

theorem keyed_tidy (d : Detector) : d.tidy.keyed = d.keyed.tidy := by
  unfold KeyedDetector.tidy
  refine congrArg (fun table => { d.tidy.keyed with table }) ?_
  exact (HeaderTable.keyed_dropPremature _ _).trans
    (congrArg (·.dropPremature d.final) (HeaderTable.keyed_dropBelow _ _))

theorem keyed_estimateTip (d : Detector) : d.estimateTip.keyed = d.keyed.estimateTip := by
  have hhighest : d.keyed.table.highest? = d.table.highest? := d.table.highest?_keyed
  unfold KeyedDetector.estimateTip
  rw [hhighest]
  rfl

/-- Taking in a header that has passed the gates commutes. -/
theorem keyed_accept (h : d.table.Consistent) (force : Bool) (header : Header) (hash : HeaderHash)
    (provenance : Provenance) (ancestors : List Ancestor) :
    (d.accept settings force header hash provenance ancestors).keyed
      = d.keyed.accept settings force header hash provenance ancestors := by
  unfold accept KeyedDetector.accept
  rw [keyed_estimateTip, keyed_tidy, keyed_takeIn h]

/-- So does offering one. The gates do not look at the table. -/
theorem keyed_offer (h : d.table.Consistent) (env : Surroundings) (o : Offer) :
    d.keyed.offer settings env o = (d.offer settings env o).map keyed := by
  have hgates : ∀ header provenance, d.keyed.bare.gateFault? settings env header provenance
      = d.gateFault? settings env header provenance := fun _ _ => rfl
  have hforces : ∀ header provenance, d.keyed.bare.forces settings env header provenance
      = d.forces settings env header provenance := fun _ _ => rfl
  unfold offer KeyedDetector.offer
  cases o.header with
  | none => rfl
  | some header =>
      cases o.hash with
      | none => rfl
      | some hash =>
          simp only [hgates, hforces]
          cases d.gateFault? settings env header o.provenance with
          | some rejection => rfl
          | none =>
              cases d.forces settings env header o.provenance with
              | error fault => rfl
              | ok force => exact congrArg Except.ok (keyed_accept h ..).symm

theorem keyed_rollBack (d : Detector) (nonce : UInt64) (hash : HeaderHash) :
    (d.rollBack nonce hash).keyed = d.keyed.rollBack nonce hash :=
  congrArg (fun table => { (d.rollBack nonce hash).keyed with table })
    (d.table.keyed_retract nonce hash)

theorem keyed_check (h : d.table.Consistent) :
    d.keyed.check = (d.check.1, d.check.2.keyed) := by
  have hscan : d.keyed.table.scan = (d.table.scan.1, d.table.scan.2.keyed) := h.keyed_scan
  have hforced : d.keyed.forced = d.forced := rfl
  unfold check KeyedDetector.check
  rw [hscan, hforced]
  cases d.forced <;> rfl

theorem keyed_retreatIfIdle (round : Int64) :
    d.keyed.retreatIfIdle settings round = (d.retreatIfIdle settings round).map keyed := by
  have hlast : d.keyed.lastBlockRound = d.lastBlockRound := rfl
  unfold retreatIfIdle KeyedDetector.retreatIfIdle
  rw [hlast]
  split
  · cases settings.isCheckRound round with
    | error fault => rfl
    | ok fires => cases fires <;> rfl
  · rfl

/-- Every operation commutes, and answers the same. -/
theorem Sound.step_keyed (hs : d.Sound) (event : Event) :
    d.keyed.step settings event
      = ((d.step settings event).1, (d.step settings event).2.keyed) := by
  have h := hs.table.toConsistent
  cases event with
  | offer env o =>
      simp only [step, KeyedDetector.step, keyed_offer h]
      cases d.offer settings env o with
      | ok d' => rfl
      | error refusal => cases refusal <;> rfl
  | rollBack nonce hash => exact congrArg (Prod.mk _) (d.keyed_rollBack nonce hash).symm
  | check => simp only [step, KeyedDetector.step, keyed_check h]
  | retreatIfIdle round =>
      simp only [step, KeyedDetector.step, keyed_retreatIfIdle]
      cases d.retreatIfIdle settings round <;> rfl
  | retreat => rfl
  | clearForced => rfl
  | restart => rfl
  | settleAll =>
      exact congrArg (Prod.mk _) (keyed_tidy { d with history := d.history.settleAll }).symm

/-- So does every run. -/
theorem Sound.run_keyed (hs : d.Sound) (events : List Event) :
    d.keyed.run settings events = (d.run settings events).keyed := by
  induction events generalizing d with
  | nil => rfl
  | cons event rest ih =>
      have hstep : (d.keyed.step settings event).2 = (d.step settings event).2.keyed :=
        congrArg Prod.snd (hs.step_keyed event)
      exact (congrArg (·.run settings rest) hstep).trans
        (ih ((effect_step settings d event).sound hs))

end Detector

namespace KeyedDetector

/-- The rows at the end of a run. None is empty, and all that stands in one has its
    nonce. No header stands twice in a row, at most one is processed and none is a
    proposal. No row lies below the final nonce, and no received header has gained more
    nonces than rounds since the final checkpoint. -/
theorem rows_of_run (settings : Settings) (events : List Event) :
    ∀ e ∈ (genesis.run settings events).table.rows,
      e.2 ≠ [] ∧ (∀ o ∈ e.2, o.nonce = e.1) ∧
        e.2.Pairwise (fun a b => a.hash ≠ b.hash) ∧
        e.2.Pairwise (fun a b => ¬(a.provenance = .processed ∧ b.provenance = .processed)) ∧
        (∀ o ∈ e.2, o.provenance ≠ .proposed) ∧
        (genesis.run settings events).final.nonce ≤ e.1 ∧
        ∀ o ∈ e.2, o.provenance = .received →
          signed o.nonce - signed (genesis.run settings events).final.nonce
            ≤ signed o.round - signed (genesis.run settings events).final.round := by
  rw [← Detector.keyed_genesis, Detector.sound_genesis.run_keyed events]
  rintro ⟨nonce, row⟩ he
  have hs : (Detector.genesis.run settings events).Sound := Detector.sound_genesis.run events
  rcases HeaderTable.mem_rows_keyed.mp he with ⟨hnonce, hrow⟩
  -- A listed nonce is that of an observation, and its row is what the table holds of it.
  rcases HeaderTable.mem_nonces.mp hnonce with ⟨p, hp, hpnonce⟩
  have hmem : ∀ o ∈ row, o ∈ (Detector.genesis.run settings events).table.observations ∧
      o.nonce = nonce := fun o ho => HeaderTable.mem_row.mp (hrow ▸ ho)
  refine ⟨?_, fun o ho => (hmem o ho).2, ?_, ?_, fun o ho => hs.table.unproposed o (hmem o ho).1,
    ?_, fun o ho => hs.table.timely o (hmem o ho).1⟩
  · exact hrow ▸ HeaderTable.mem_nonces_iff_ne_nil.mp hnonce
  · exact hrow ▸ hs.table.distinct nonce
  · exact hrow ▸ hs.table.single nonce
  · exact hpnonce ▸ hs.table.above p hp

/-- A processed header with a competitor beside it, and a received one above that is rolled
    back. -/
def emptiedRow : List Event :=
  [Sample.offer 1 1 1 .processed [], Sample.offer 2 2 2 .processed [],
    Sample.offer 2 9 3 .received [], Sample.offer 3 10 4 .received [],
    .rollBack 3 (Sample.hash 4)]

/-- The competitors stand in one row, and of the highest nonce there is no row left. -/
theorem rows_of_emptiedRow :
    (genesis.run .standard emptiedRow).table.nonces = [1, 2] ∧
      ∃ row, (2, row) ∈ (genesis.run .standard emptiedRow).table.rows ∧ row.length = 2 ∧
        row ≠ [] ∧ (∀ o ∈ row, o.nonce = 2) ∧ row.Pairwise (fun a b => a.hash ≠ b.hash) := by
  have hmem : (2, (genesis.run .standard emptiedRow).table.row 2) ∈
      (genesis.run .standard emptiedRow).table.rows := by decide +kernel
  have hrow := rows_of_run .standard emptiedRow _ hmem
  exact ⟨by decide +kernel, _, hmem, by decide +kernel, hrow.1, hrow.2.1, hrow.2.2.1⟩

end KeyedDetector

end HeaderChain
