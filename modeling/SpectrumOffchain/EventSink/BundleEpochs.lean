import SpectrumOffchain.Deploy
import SpectrumOffchain.EventSink.Bundles
import SpectrumOffchain.Staking.Epoch
import Mathlib.Logic.Function.Basic

/-!
# The epochs of the bundles on the ledger

The handler of bundles indexes a bundle by the first epoch it can be compounded in, which is
`epoch_num` less the epochs that its temporal tokens pay for, plus one.  It looks the program up,
and where it does not find it takes the first epoch.

The handler of programs comes after that of bundles, so that the program is not found in the
transaction that deploys it.  The first epoch is right there only for a bundle that takes part in
all epochs, which is not what the deploy tool demands; and where the program
is found, the bundle must not hold tokens for more epochs than there are (`indexesBundles_iff`).
-/

namespace SpectrumOffchain.EventSink

open Pool

/-- `ConfirmedProgramUpdateHandler::try_handle`, for one output. -/
def handleProgram (programs : PoolId → Option ProgramConfig) (bx : ErgoBox) :
    PoolId → Option ProgramConfig :=
  match Pool.tryFromBox bx with
  | some pool =>
      if (programs pool.poolId).isSome then programs
      else Function.update programs pool.poolId (some pool.conf)
  | none => programs

/-- The programs that are known from a transaction or before. -/
def handlePrograms (programs : PoolId → Option ProgramConfig) (outputs : List ErgoBox) :
    PoolId → Option ProgramConfig :=
  outputs.foldl handleProgram programs

variable {programs : PoolId → Option ProgramConfig} {outputs : List ErgoBox} {bx : ErgoBox}
  {poolId : PoolId} {conf : ProgramConfig} {bundle : StakingBundle}

theorem handleProgram_of_known (h : programs poolId = some conf) :
    handleProgram programs bx poolId = some conf := by
  unfold handleProgram
  cases Pool.tryFromBox bx with
  | none => exact h
  | some pool =>
      dsimp only
      split
      case isTrue => exact h
      case isFalse hnew =>
        have hne : poolId ≠ pool.poolId := by
          rintro rfl
          exact hnew (h ▸ rfl)
        rw [Function.update_of_ne hne]
        exact h

theorem handleProgram_of_new {pool : Pool} (hpool : Pool.tryFromBox bx = some pool)
    (h : programs pool.poolId = none) : handleProgram programs bx pool.poolId = some pool.conf := by
  unfold handleProgram
  rw [hpool]
  simp [h]

theorem handlePrograms_cons {rest : List ErgoBox} :
    handlePrograms programs (bx :: rest) = handlePrograms (handleProgram programs bx) rest :=
  rfl

/-- A program that is known stays as it is. -/
theorem handlePrograms_of_known (h : programs poolId = some conf) :
    handlePrograms programs outputs poolId = some conf := by
  unfold handlePrograms
  induction outputs generalizing programs with
  | nil => exact h
  | cons bx rest ih => exact ih (handleProgram_of_known h)

/-! ## The index of a bundle -/

/-- The bundle is indexed at the first epoch it has tokens for. -/
structure AtFirstEpoch (conf : ProgramConfig) (ib : IndexedStakingBundle) : Prop where
  lower : (ib.lowerEpochIx : ℤ) = conf.epochNum - ib.bundle.toProto.epochs + 1
  fits : ib.lowerEpochIx < 2 ^ 32
  /-- From that epoch on it has something to burn, wherever it stands in a batch. -/
  compoundable : ∀ (pool : Pool) (epochIx : ℕ) (st : Distribution),
    pool.conf.epochNum = conf.epochNum → epochIx ≤ conf.epochNum → ib.lowerEpochIx ≤ epochIx →
    pool.distributeToBundle (pool.epochsRemain epochIx) st ib.bundle ≠
      .err (.permanent (.orderPoisoned "Already compounded"))

theorem atFirstEpoch_iff {ib : IndexedStakingBundle} (hvlq : ib.bundle.vlq.amount ≠ 0) :
    AtFirstEpoch conf ib ↔
      (ib.lowerEpochIx : ℤ) = conf.epochNum - ib.bundle.toProto.epochs + 1 ∧
        ib.lowerEpochIx < 2 ^ 32 := by
  constructor
  · exact fun h => ⟨h.lower, h.fits⟩
  · rintro ⟨hlower, hfits⟩
    refine ⟨hlower, hfits, ?_⟩
    intro pool epochIx st hnum hepoch hle
    rw [ne_eq, Pool.distributeToBundle_compounded_iff hvlq, not_not, Pool.epochsRemain, hnum]
    omega

/-- The tokens of a bundle on the ledger are counted by at least one. -/
theorem vlq_ne_zero_of_tryFromBox (h : StakingBundle.tryFromBox bx = some bundle) :
    bundle.vlq.amount ≠ 0 := by
  obtain ⟨-, -, n, -, hassets⟩ := StakingBundle.of_tryFromBox h
  have hwritable := bx.writable_contents.1 bundle.vlq.asset
  have hmem : bundle.vlq.asset ∈ bx.assets := by simp [hassets]
  exact Nat.one_le_iff_ne_zero.mp (hwritable hmem).1

/-- The bundle pays for no more epochs than there are if its program is found, and for all of them
if not. -/
def FitsProgram (programs : PoolId → Option ProgramConfig) (bundle : StakingBundle)
    (conf : ProgramConfig) : Prop :=
  if (programs bundle.poolId).isSome then
    bundle.toProto.epochs ≤ conf.epochNum ∧
      (bundle.toProto.epochs = 0 → conf.epochNum < 2 ^ 32 - 1)
  else bundle.toProto.epochs = conf.epochNum

theorem createdBundle_atFirstEpoch_iff (hbundle : StakingBundle.tryFromBox bx = some bundle)
    (hknown : ∀ found, programs bundle.poolId = some found → found = conf) :
    (∃ ib, createdBundle programs bx = .ok (some ⟨bx, ib⟩) ∧ ib.bundle = bundle ∧
      AtFirstEpoch conf ib) ↔ FitsProgram programs bundle conf := by
  have hvlq := vlq_ne_zero_of_tryFromBox hbundle
  have hnum := conf.epochNum_lt
  unfold createdBundle FitsProgram
  rw [hbundle]
  dsimp only
  unfold indexBundle
  cases hprog : programs bundle.poolId with
  -- A program not known yet: the bundle starts at `initEpochIx`, whatever its amounts say.
  | none =>
      simp only [Option.isSome_none, Bool.false_eq_true, if_false, Outcome.pure_eq,
        Outcome.ok_bind, Outcome.ok.injEq, Option.some.injEq, AsBox.mk.injEq, true_and]
      constructor
      · rintro ⟨ib, rfl, -, h⟩
        have hlower := h.lower
        simp only [IndexedBundle.init, initEpochIx] at hlower
        omega
      · intro hall
        refine ⟨_, rfl, rfl, (atFirstEpoch_iff hvlq).mpr ⟨?_, ?_⟩⟩ <;>
          simp only [IndexedBundle.init, initEpochIx] <;> omega
  -- With the configuration the epoch is computed, unless the subtraction or the cast fails.
  | some found =>
      obtain rfl := hknown found hprog
      simp only [Option.isSome_some, if_true]
      constructor
      · rintro ⟨ib, hcreated, -, h⟩
        obtain ⟨ib', hnew, hib⟩ := Outcome.bind_eq_ok.mp hcreated
        cases hib
        obtain ⟨-, hle, hfits, rfl⟩ := IndexedBundle.new_eq_ok_iff.mp hnew
        have hlower := h.lower
        dsimp only at hlower
        constructor <;> omega
      · rintro ⟨hle, hlast⟩
        have hnew := (IndexedBundle.new_eq_ok (ε := Unit) hle).mpr ⟨hvlq, by omega, rfl⟩
        refine ⟨_, by rw [hnew]; rfl, rfl, (atFirstEpoch_iff hvlq).mpr ⟨?_, ?_⟩⟩
        · dsimp only
          omega
        · dsimp only
          omega

/-- The bundles of known programs among the outputs are recorded at their first epochs. -/
def IndexesBundles (programs : PoolId → Option ProgramConfig) (outputs : List ErgoBox) : Prop :=
  ∀ bx ∈ outputs, ∀ bundle, StakingBundle.tryFromBox bx = some bundle →
    ∀ conf, handlePrograms programs outputs bundle.poolId = some conf →
      ∃ ib, createdBundle programs bx = .ok (some ⟨bx, ib⟩) ∧ ib.bundle = bundle ∧
        AtFirstEpoch conf ib

/-- They are exactly if they fit their programs. -/
theorem indexesBundles_iff (programs : PoolId → Option ProgramConfig) (outputs : List ErgoBox) :
    IndexesBundles programs outputs ↔
      ∀ bx ∈ outputs, ∀ bundle, StakingBundle.tryFromBox bx = some bundle →
        ∀ conf, handlePrograms programs outputs bundle.poolId = some conf →
          FitsProgram programs bundle conf := by
  refine forall₂_congr fun bx _ => forall₂_congr fun bundle hbundle => ?_
  refine forall₂_congr fun conf hconf => ?_
  refine createdBundle_atFirstEpoch_iff hbundle fun found hfound => ?_
  exact Option.some.inj ((handlePrograms_of_known hfound).symm.trans hconf)

/-! ## The first bundle -/

namespace Sample

open Staking.Sample SpectrumOffchain.Sample

/-- The creator takes part in half of the epochs. -/
def halfInput : DeployPoolInputs := { input with numEpochsToDelegate := 5 }

def halfPool : Pool := { pool with reservesTmp := ⟨digest 4, maxValue - 500⟩ }

def halfBundle : StakingBundleProto := { bundleProto with tmp := some ⟨digest 4, 500⟩ }

def halfPoolBox : ErgoBox :=
  box fatValue poolValidator (some (poolTokens poolNft (token (digest 4) (maxValue - 500))))
    ⟨halfPool.registers, by decide, by decide⟩ 15

def halfBundleBox : ErgoBox :=
  box fatValue bundleValidator (some (bundleTokens (token (digest 4) 500)))
    halfBundle.registers 6

theorem tryFromBox_halfPoolBox : Pool.tryFromBox halfPoolBox = some halfPool := by
  have hread : halfPool.Readable := ⟨by decide, rfl, readable_pool.epochIx_lt⟩
  have hcontents : halfPoolBox.contents = halfPool.contents := rfl
  exact Pool.tryFromBox_of_contents hread hcontents (digest 13) 15

theorem tryFromBox_halfBundleBox :
    StakingBundle.tryFromBox halfBundleBox = some (halfBundle.finalize ⟨Staking.Sample.digest 6⟩) := by
  have hcontents : halfBundleBox.contents = halfBundle.contents := rfl
  exact StakingBundle.tryFromBox_of_contents hcontents (digest 13) 6

end Sample

open EventSink.Sample in
/-- The bundle is taken for one that has tokens for the first epoch. -/
theorem half_delegation_indexed_early :
    validatePool halfInput 100 = .ok () ∧
      (deployPool halfInput Staking.Sample.minted ⟨[]⟩ : Outcome Unit _) =
        .ok (halfPool, halfBundle) ∧
      ¬ IndexesBundles (fun _ => none) [halfPoolBox, halfBundleBox] := by
  refine ⟨by decide +kernel, by decide +kernel, fun h => ?_⟩
  have hpoolId : (halfBundle.finalize ⟨Staking.Sample.digest 6⟩).poolId = halfPool.poolId := rfl
  have hprogram : handleProgram (fun _ => none) halfPoolBox halfPool.poolId =
      some halfPool.conf := handleProgram_of_new tryFromBox_halfPoolBox rfl
  have hknown : handlePrograms (fun _ => none) [halfPoolBox, halfBundleBox]
      (halfBundle.finalize ⟨Staking.Sample.digest 6⟩).poolId = some halfPool.conf := by
    rw [handlePrograms_cons, hpoolId]
    exact handlePrograms_of_known hprogram
  obtain ⟨ib, hib, -, hfirst⟩ := h halfBundleBox (by simp) _ tryFromBox_halfBundleBox _ hknown
  rw [createdBundle, tryFromBox_halfBundleBox] at hib
  cases hib
  exact absurd hfirst.lower (by decide +kernel)

end SpectrumOffchain.EventSink
