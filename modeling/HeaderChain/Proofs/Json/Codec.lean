import HeaderChain.Proofs.Json.Record

/-!
# JSON Forms Read Back

Whatever is written in JSON is read as what it was, record by record.

The readers of most records judge the parts that they declare and take them in the order in
which they are written. What is shown of such a record is that each of its members stands
for the part that is declared in its place, and that each part is found under its name. Two
parts may be missing, a proof in a core and a hash in a checkpoint. Both are written as
`null` then, which is no form of a proof or of a hash.

## Theorems

* `QuorumProof.undoes`, `HeaderCore.undoes`, `ShardHeader.undoes`, `MetaHeader.undoes`,
  `Header.undoes`, `Provenance.undoes`, `Checkpoint.undoes`, `Settings.undoes`: Each reader
  undoes the form of its values.
* `json_texts_read_back`: The text of every value is read as that value.
-/

namespace HeaderChain

open Json (Undoes undoes_bool undoes_bytes undoes_int64 undoes_uint32 undoes_uint64)

theorem QuorumProof.undoes : Undoes QuorumProof.ofJson QuorumProof.toJson := by
  refine .record (fun _ => ?_) (by decide) fun proof => ?_
  · exact .cons (undoes_bytes.fills _ _) <| .cons (undoes_bytes.fills _ _) <|
      .cons (Hash.undoes.fills _ _) <| .cons (undoes_uint32.fills _ _) <|
      .cons (undoes_uint64.fills _ _) <| .cons (undoes_uint64.fills _ _) <|
      .cons (undoes_uint32.fills _ _) <| .cons (undoes_bool.fills _ _) .nil
  · refine undoes_bytes.bind_required proof.signers rfl ?_
    refine undoes_bytes.bind_required proof.signature rfl ?_
    refine Hash.undoes.bind_required proof.headerHash rfl ?_
    refine undoes_uint32.bind_required proof.epoch rfl ?_
    refine undoes_uint64.bind_required proof.nonce rfl ?_
    refine undoes_uint64.bind_required proof.round rfl ?_
    refine undoes_uint32.bind_required proof.shard rfl ?_
    exact undoes_bool.bind_required proof.startsEpoch rfl rfl

/-- A proof is an object, so it is not mistaken for `null`. -/
theorem QuorumProof.undoes_nullable :
    Undoes (Json.nullable QuorumProof.ofJson) (Json.ofOption QuorumProof.toJson) :=
  QuorumProof.undoes.nullable fun _ => nofun

theorem HeaderCore.undoes : Undoes HeaderCore.ofJson HeaderCore.toJson := by
  refine .record (fun _ => ?_) (by decide) fun core => ?_
  · exact .cons (undoes_uint64.fills _ _) <| .cons (undoes_uint64.fills _ _) <|
      .cons (undoes_uint32.fills _ _) <| .cons (Hash.undoes.fills _ _) <|
      .cons (undoes_bytes.fills _ _) <| .cons (undoes_bytes.fills _ _) <|
      .cons (undoes_bytes.fills _ _) <| .cons (undoes_bytes.fills _ _) <|
      .cons (QuorumProof.undoes_nullable.fills _ _) .nil
  · refine undoes_uint64.bind_required core.nonce rfl ?_
    refine undoes_uint64.bind_required core.round rfl ?_
    refine undoes_uint32.bind_required core.epoch rfl ?_
    refine Hash.undoes.bind_required core.prevHash rfl ?_
    refine undoes_bytes.bind_required core.prevSeed rfl ?_
    refine undoes_bytes.bind_required core.seed rfl ?_
    refine undoes_bytes.bind_required core.signers rfl ?_
    refine undoes_bytes.bind_required core.signature rfl ?_
    exact QuorumProof.undoes_nullable.bind_optional core.prevProof rfl rfl

theorem ShardHeader.undoes : Undoes ShardHeader.ofJson ShardHeader.toJson := by
  refine .record (fun _ => ?_) (by decide) fun header => ?_
  · exact .cons (undoes_uint32.fills _ _) <| .cons (HeaderCore.undoes.fills _ _) .nil
  · refine undoes_uint32.bind_required header.shard rfl ?_
    exact HeaderCore.undoes.bind_required header.core rfl rfl

theorem MetaHeader.undoes : Undoes MetaHeader.ofJson MetaHeader.toJson := by
  refine .record (fun _ => ?_) (by decide) fun header => ?_
  · exact .cons (HeaderCore.undoes.fills _ _) <| .cons (Hash.undoes.list.fills _ _) .nil
  · refine HeaderCore.undoes.bind_required header.core rfl ?_
    exact Hash.undoes.list.bind_required header.certified rfl rfl

theorem Header.undoes : Undoes Header.ofJson Header.toJson where
  written
    | .shard header => Json.written_variant "Shard" (ShardHeader.undoes.written header)
    | .metachain header => Json.written_variant "Meta" (MetaHeader.undoes.written header)
  reads
    | .shard header => by
      refine Json.readVariant_ofMembers (by decide) ?_
      rw [if_pos rfl, ShardHeader.undoes.reads]
      rfl
    | .metachain header => by
      refine Json.readVariant_ofMembers (by decide) ?_
      rw [if_neg (by decide), MetaHeader.undoes.reads]
      rfl

theorem Provenance.undoes : Undoes Provenance.ofJson Provenance.toJson where
  written p := .string p.name
  reads p := by
    cases p <;> exact Json.readVariant_string (by decide) (by decide)

theorem Checkpoint.undoes : Undoes Checkpoint.ofJson Checkpoint.toJson := by
  have hhash : Undoes (Json.nullable HeaderHash.ofJson) (Json.ofOption Hash.toJson) :=
    Hash.undoes.nullable fun _ => nofun
  refine .record (fun _ => ?_) (by decide) fun c => ?_
  · exact .cons (undoes_uint64.fills _ _) <| .cons (undoes_uint64.fills _ _) <|
      .cons (hhash.fills _ _) .nil
  · refine undoes_uint64.bind_required c.nonce rfl ?_
    refine undoes_uint64.bind_required c.round rfl ?_
    exact hhash.bind_optional c.hash rfl rfl

theorem Settings.undoes : Undoes Settings.ofJson Settings.toJson := by
  refine .record (fun _ => ?_) (by decide) fun s => ?_
  · exact .cons (undoes_int64.fills _ _) <| .cons (undoes_uint64.fills _ _) <|
      .cons (undoes_int64.fills _ _) <| .cons (undoes_int64.fills _ _) <|
      .cons (undoes_int64.fills _ _) <| .cons (undoes_int64.fills _ _) .nil
  · refine undoes_int64.bind_required s.blockFinality rfl ?_
    refine undoes_uint64.bind_required s.finalDepth rfl ?_
    refine undoes_int64.bind_required s.maxRoundsIdle rfl ?_
    refine undoes_int64.bind_required s.maxRoundsUncommitted rfl ?_
    refine undoes_int64.bind_required s.syncedLead rfl ?_
    exact undoes_int64.bind_required s.checkModulus rfl rfl

/-- The text of every value is read as that value, whatever its parts are and whether or not
    those that may be missing are there. -/
theorem json_texts_read_back :
    (∀ hash : HeaderHash, Json.readText HeaderHash.ofJson hash.toJson.render = .ok hash)
      ∧ (∀ header : Header, Json.readText Header.ofJson header.toJson.render = .ok header)
      ∧ (∀ header : ShardHeader,
        Json.readText ShardHeader.ofJson header.toJson.render = .ok header)
      ∧ (∀ header : MetaHeader, Json.readText MetaHeader.ofJson header.toJson.render = .ok header)
      ∧ (∀ core : HeaderCore, Json.readText HeaderCore.ofJson core.toJson.render = .ok core)
      ∧ (∀ proof : QuorumProof, Json.readText QuorumProof.ofJson proof.toJson.render = .ok proof)
      ∧ (∀ p : Provenance, Json.readText Provenance.ofJson p.toJson.render = .ok p)
      ∧ (∀ c : Checkpoint, Json.readText Checkpoint.ofJson c.toJson.render = .ok c)
      ∧ ∀ s : Settings, Json.readText Settings.ofJson s.toJson.render = .ok s :=
  ⟨Hash.undoes.readText, Header.undoes.readText, ShardHeader.undoes.readText,
    MetaHeader.undoes.readText, HeaderCore.undoes.readText, QuorumProof.undoes.readText,
    Provenance.undoes.readText, Checkpoint.undoes.readText, Settings.undoes.readText⟩

end HeaderChain
