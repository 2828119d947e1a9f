import HeaderChain.Proofs.ConfigValue
import HeaderChain.Proofs.Settings

/-!
# Settings of a Configuration

Which settings a configuration gives, and which configurations give none.

A setting is looked up by its name. If what is found there stands for an integer, that is
its value, and otherwise the setting has its default, no matter whether nothing was found
or something that stands for no integer. So there is always a value and never more than
one, and a configuration is refused for the values of two of its settings alone.

The depth is kept as an unsigned word. Since a negative depth is refused, the word is the
depth and not merely congruent to it.

## Main definitions

* `Configuration.Gives`: A configuration gives a setting a value.
* `Settings.Carries`: The values of settings are those that a configuration gives.

## Theorems

* `Settings.effective_eq_iff`: A setting has the value that the configuration gives it.
* `Settings.ofConfiguration_eq_ok_iff`: Which settings a configuration is read as.
* `Settings.ofConfiguration_eq_error_iff`: Which refusal it is answered with.
-/

namespace HeaderChain

/-- A configuration gives the setting of a name a value. -/
inductive Configuration.Gives (config : Configuration) (name : String) (default : Int64) :
    Int64 → Prop
  /-- What stands under the name stands for an integer. -/
  | entry {v : ConfigValue} {n : Int64} (hfound : config.lookup name = some v)
      (h : v.Denotes n) : Gives config name default n
  /-- Nothing does, so the setting has its default. -/
  | default (h : ∀ v n, config.lookup name = some v → ¬ v.Denotes n) :
      Gives config name default default

namespace Settings

variable {config : Configuration} {name : String} {default n : Int64} {s : Settings}

/-- A setting has the value that the configuration gives it. -/
theorem effective_eq_iff : effective config name default = n ↔ config.Gives name default n := by
  have hread : ∀ m, (config.lookup name).bind ConfigValue.toInt64? = some m ↔
      ∃ v, config.lookup name = some v ∧ v.Denotes m := by
    intro m
    simp only [Option.bind_eq_some_iff, ConfigValue.toInt64?_eq_some_iff]
  unfold effective
  -- A value that was read rules the default out, and without one there is nothing to read.
  cases hvalue : (config.lookup name).bind ConfigValue.toInt64? with
  | some m =>
      rcases (hread m).mp hvalue with ⟨v, hfound, hm⟩
      constructor
      · rintro rfl
        exact .entry hfound hm
      · intro h
        cases h with
        | entry hfound' hn =>
            exact Option.some.inj (hvalue.symm.trans ((hread n).mpr ⟨_, hfound', hn⟩))
        | default hnone => exact absurd hm (hnone v m hfound)
  | none =>
      constructor
      · rintro rfl
        refine .default fun v m hfound hm => ?_
        exact nomatch hvalue.symm.trans ((hread m).mpr ⟨v, hfound, hm⟩)
      · intro h
        cases h with
        | entry hfound hn => exact nomatch hvalue.symm.trans ((hread n).mpr ⟨_, hfound, hn⟩)
        | default _ => rfl

/-- The values of settings are those that a configuration gives, under these names and with
    these defaults. -/
structure Carries (config : Configuration) (s : Settings) : Prop where
  /-- How many rounds a header stays of interest. -/
  blockFinality : config.Gives "block-finality" 1 s.blockFinality
  /-- The depth, as a number and not just as a word. -/
  finalDepth : ∃ depth, config.Gives "final-checkpoint-depth" 1 depth ∧
    (s.finalDepth.toNat : ℤ) = depth.toInt
  /-- After how many rounds the tip is put back. -/
  maxRoundsIdle : config.Gives "max-rounds-without-received-block" 2 s.maxRoundsIdle
  /-- After how many rounds a fork is declared. -/
  maxRoundsUncommitted :
    config.Gives "max-rounds-without-committed-block" 10 s.maxRoundsUncommitted
  /-- The lead of a node that is synchronising. -/
  syncedLead : config.Gives "nonce-difference-when-synced" 0 s.syncedLead
  /-- The modulus of the check rounds. -/
  checkModulus : config.Gives "round-modulus-trigger" 5 s.checkModulus

/-- A word is a depth as a number if it is the same word and the depth is not negative. -/
theorem toNat_eq_toInt_iff {word : UInt64} {depth : Int64} :
    (word.toNat : ℤ) = depth.toInt ↔ ¬ depth < 0 ∧ word = depth.toUInt64 := by
  have hcast : ¬ depth < 0 → (depth.toUInt64.toNat : ℤ) = depth.toInt := by
    intro h
    have hle : 0 ≤ depth := Int64.not_lt.mp h
    rw [Int64.toNat_toUInt64_of_le hle]
    exact Int.toNat_of_nonneg (Int64.le_iff_toInt_le.mp hle)
  constructor
  · intro h
    have hnonneg : ¬ depth < 0 := by
      rw [Int64.lt_iff_toInt_lt, Int64.toInt_zero]
      omega
    refine ⟨hnonneg, UInt64.toNat_inj.mp (Int.ofNat_inj.mp ?_)⟩
    exact h.trans (hcast hnonneg).symm
  · rintro ⟨hnonneg, rfl⟩
    exact hcast hnonneg

/-- The settings that a configuration is read as are those that carry its values, provided
    that the modulus is positive. -/
theorem ofConfiguration_eq_ok_iff :
    ofConfiguration config = .ok s ↔ s.Carries config ∧ 0 < s.checkModulus := by
  constructor
  · intro h
    simp only [ofConfiguration] at h
    split at h
    · cases h
    · next hmodulus =>
      split at h
      · cases h
      · next hdepth =>
        cases h
        have hgives : ∀ name default, config.Gives name default (effective config name default) :=
          fun _ _ => effective_eq_iff.mp rfl
        exact ⟨⟨hgives _ _, ⟨_, hgives _ _, toNat_eq_toInt_iff.mpr ⟨hdepth, rfl⟩⟩, hgives _ _,
          hgives _ _, hgives _ _, hgives _ _⟩, Int64.not_le.mp hmodulus⟩
  · rintro ⟨h, hpos⟩
    -- All that is read is known, the depth by the word that the settings have for it.
    rcases h.finalDepth with ⟨depth, hdepth, hnumber⟩
    rcases toNat_eq_toInt_iff.mp hnumber with ⟨hnonneg, hword⟩
    simp only [ofConfiguration, effective_eq_iff.mpr h.blockFinality, effective_eq_iff.mpr hdepth,
      effective_eq_iff.mpr h.maxRoundsIdle, effective_eq_iff.mpr h.maxRoundsUncommitted,
      effective_eq_iff.mpr h.syncedLead, effective_eq_iff.mpr h.checkModulus, ← hword]
    rw [if_neg (Int64.not_le.mpr hpos), if_neg hnonneg]

/-- A configuration is refused for its modulus or else for its depth. -/
theorem ofConfiguration_eq_error_iff {fault : SettingsFault} :
    ofConfiguration config = .error fault ↔
      (∃ modulus, config.Gives "round-modulus-trigger" 5 modulus ∧ modulus ≤ 0 ∧
          fault = .modulusNotPositive modulus) ∨
        ∃ modulus depth, config.Gives "round-modulus-trigger" 5 modulus ∧ 0 < modulus ∧
          config.Gives "final-checkpoint-depth" 1 depth ∧ depth < 0 ∧
          fault = .depthNegative depth := by
  constructor
  · intro h
    simp only [ofConfiguration] at h
    split at h
    · next hmodulus =>
      cases h
      exact .inl ⟨_, effective_eq_iff.mp rfl, hmodulus, rfl⟩
    · next hmodulus =>
      split at h
      · next hdepth =>
        cases h
        exact .inr ⟨_, _, effective_eq_iff.mp rfl, Int64.not_le.mp hmodulus,
          effective_eq_iff.mp rfl, hdepth, rfl⟩
      · cases h
  · rintro (⟨modulus, hgiven, hmodulus, rfl⟩ |
      ⟨modulus, depth, hgiven, hmodulus, hgiven', hdepth, rfl⟩)
    · simp only [ofConfiguration, effective_eq_iff.mpr hgiven]
      rw [if_pos hmodulus]
    · simp only [ofConfiguration, effective_eq_iff.mpr hgiven, effective_eq_iff.mpr hgiven']
      rw [if_neg (Int64.not_le.mpr hmodulus), if_pos hdepth]

/-- A configuration is refused exactly if it gives a modulus that is not positive or a depth
    that is negative. -/
theorem ofConfiguration_refuses_iff :
    (∃ fault, ofConfiguration config = .error fault) ↔
      (∃ modulus, config.Gives "round-modulus-trigger" 5 modulus ∧ modulus ≤ 0) ∨
        ∃ depth, config.Gives "final-checkpoint-depth" 1 depth ∧ depth < 0 := by
  simp only [ofConfiguration_eq_error_iff]
  constructor
  · rintro ⟨_, ⟨modulus, hgiven, hmodulus, _⟩ | ⟨_, depth, _, _, hgiven, hdepth, _⟩⟩
    · exact .inl ⟨modulus, hgiven, hmodulus⟩
    · exact .inr ⟨depth, hgiven, hdepth⟩
  · intro h
    -- A modulus that is not positive is reported even if the depth is negative too.
    by_cases hmodulus : effective config "round-modulus-trigger" 5 ≤ 0
    · exact ⟨_, .inl ⟨_, effective_eq_iff.mp rfl, hmodulus, rfl⟩⟩
    · rcases h with ⟨modulus, hgiven, hnot⟩ | ⟨depth, hgiven, hdepth⟩
      · exact absurd (effective_eq_iff.mpr hgiven ▸ hnot) hmodulus
      · exact ⟨_, .inr ⟨_, depth, effective_eq_iff.mp rfl, Int64.not_le.mp hmodulus, hgiven,
          hdepth, rfl⟩⟩

/-- Without any values the settings are the standard ones. -/
example : ofConfiguration [] = .ok standard := by decide

end Settings

end HeaderChain
