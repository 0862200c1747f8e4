import SpectrumOffchain.Staking.Solvency

/-!
# The end of an epoch

Nothing in a pool says that an epoch is being compounded: `epochCompleted` infers it from
what is left of the budget, which has to leave the neighbourhood of a multiple of
`epoch_alloc` with the first batch, stay away from the next multiple until the last, and
come within `max_rounding_error` of it with the last.  The rewards decide all three, so
whether the end of the epoch is seen depends on how the stakers are divided into batches
(`Detectable`): a batch of small stakers may go unnoticed (`unnoticed_batch`).

## Strategy

The budget alone decides what is seen: strictly between two multiples of the instalment, by
more than the tolerance above the lower one, the epoch is `InProgress`
(`inProgress_of_budget`), and within the tolerance above a multiple it is `Finished`
(`finished_of_budget`).  So the budget is followed along the batches.

* `AtStart`: at the start it stands at a multiple, up to what rounding has left there, and
  the pot is the instalment of the epoch and that rest, less what is set aside for later
  epochs beyond their instalments (`drift`) and less one.
* `payout s epochsRemain done` is what the batches `done` have taken.  It never exceeds the
  pot, and rounding loses less than one unit for each bundle.
* The conditions `first`, `last` and `length` of `Detectable` are used once each: the first
  batch takes more than the rest above the multiple (`rem_lt_payout`), before the last one
  more than the tolerance is left (`maxRoundingError_le`), and after it what rounding leaves
  is within the tolerance (`allocRem_lt`).
-/

namespace SpectrumOffchain

open Transition

namespace Pool

/-- While an epoch is being compounded, deposits wait. -/
theorem applyDeposit_blocked {pool : Pool} {ctx : ExecutionContext} {remain : ℕ}
    (hcompleted : (pool.epochCompleted : Outcome PoolOperationError Bool) = .ok false)
    (hremain : (pool.numEpochsRemain ctx.height : Outcome PoolOperationError ℕ) = .ok remain)
    (hpos : 1 ≤ remain) (deposit : Deposit) (tokenDetails : TokenDetails) :
    pool.applyDeposit deposit tokenDetails ctx = .err (.temporal .liquidityMoveBlocked) := by
  have hleft : ¬ remain < 1 := by omega
  rw [applyDeposit, hremain, Outcome.ok_bind, Outcome.failIf_neg hleft, Outcome.ok_bind,
    hcompleted, Outcome.ok_bind, Outcome.failIf_pos rfl, Outcome.err_bind]

/-- So do redeems, other than those of the pool that is stuck. -/
theorem applyRedeem_blocked {pool : Pool} {redeem : Redeem} {bundle : StakingBundle}
    (hcompleted : (pool.epochCompleted : Outcome PoolOperationError Bool) = .ok false)
    (hamount : redeem.expectedLq.amount = bundle.vlq.amount) (hid : bundle.poolId ≠ stuckPoolId)
    (ctx : ExecutionContext) :
    pool.applyRedeem redeem bundle ctx = .err (.temporal .liquidityMoveBlocked) := by
  have hblocked : (pool.redeemBlocked bundle : Outcome PoolOperationError Bool) = .ok true := by
    rw [redeemBlocked, if_pos hid, hcompleted]
    rfl
  rw [applyRedeem, Outcome.failIf_neg (not_not.mpr hamount), Outcome.ok_bind, hblocked,
    Outcome.ok_bind, Outcome.failIf_pos rfl, Outcome.err_bind]

end Pool

namespace Staking

/-! ## What the budget tells -/

/-- The epoch is seen to be under way, and liquidity does not move. -/
structure InProgress (pool : Pool) (epochIx : ℕ) : Prop where
  notCompleted : (pool.epochCompleted : Outcome PoolOperationError Bool) = .ok false
  epochIx_eq : (pool.compoundingEpochIx : Outcome PoolOperationError ℕ) = .ok epochIx
  deposit_blocked : ∀ deposit tokenDetails (ctx : ExecutionContext) remain,
    (pool.numEpochsRemain ctx.height : Outcome PoolOperationError ℕ) = .ok remain → 1 ≤ remain →
    pool.applyDeposit deposit tokenDetails ctx = .err (.temporal .liquidityMoveBlocked)
  redeem_blocked : ∀ (redeem : Redeem) (bundle : StakingBundle) ctx,
    redeem.expectedLq.amount = bundle.vlq.amount → bundle.poolId ≠ Pool.stuckPoolId →
    pool.applyRedeem redeem bundle ctx = .err (.temporal .liquidityMoveBlocked)

/-- The epoch is seen to be over. -/
structure Finished (pool : Pool) (epochIx : ℕ) : Prop where
  completed : (pool.epochCompleted : Outcome PoolOperationError Bool) = .ok true
  epochIx_eq : (pool.compoundingEpochIx : Outcome PoolOperationError ℕ) = .ok (epochIx + 1)

section Budget

variable {pool : Pool} (hconf : pool.conf.RoundingErrorBounds)
  (hbudget : pool.budgetRem.amount ≤ pool.conf.programBudget.amount)
  (hexact : pool.conf.programBudget.amount < 2 ^ 53) {epochsRemain : ℕ}
include hconf hbudget hexact

/-- Strictly between two multiples of the instalment. -/
theorem inProgress_of_budget
    (hlow : pool.conf.epochAlloc * epochsRemain + pool.conf.maxRoundingError <
      pool.budgetRem.amount)
    (hhigh : pool.budgetRem.amount < pool.conf.epochAlloc * (epochsRemain + 1)) :
    InProgress pool (pool.conf.epochNum - epochsRemain) := by
  obtain ⟨hrem, hdue⟩ := (Instalments.unfinished_iff hconf.maxRoundingError_lt).mpr ⟨hlow, hhigh⟩
  have hcompleted : (pool.epochCompleted : Outcome PoolOperationError Bool) = .ok false := by
    rw [Pool.epochCompleted_eq hconf.epochNum_ne_zero, Pool.completed_eq hconf hbudget hexact,
      decide_eq_false hrem]
  refine ⟨hcompleted, ?_, ?_, ?_⟩
  · have hdue' : pool.conf.epochsDue pool.budgetRem.amount = epochsRemain + 1 := hdue
    rw [Pool.compoundingEpochIx_eq hconf hbudget hexact, hdue', Nat.add_sub_add_right]
  · intro deposit tokenDetails ctx remain hremain hpos
    exact Pool.applyDeposit_blocked hcompleted hremain hpos _ _
  · intro redeem bundle ctx hamount hid
    exact Pool.applyRedeem_blocked hcompleted hamount hid _

/-- Within the tolerance above a multiple. -/
theorem finished_of_budget (hlow : pool.conf.epochAlloc * epochsRemain ≤ pool.budgetRem.amount)
    (hhigh : pool.budgetRem.amount ≤
      pool.conf.epochAlloc * epochsRemain + pool.conf.maxRoundingError) :
    Finished pool (pool.conf.epochNum - epochsRemain) := by
  obtain ⟨hrem, hdue⟩ := (Instalments.finished_iff hconf.maxRoundingError_lt).mpr ⟨hlow, hhigh⟩
  have hdue' : pool.conf.epochsDue pool.budgetRem.amount = epochsRemain := hdue
  have hle : epochsRemain ≤ pool.conf.epochNum := hdue' ▸ hconf.epochsDue_le hbudget
  refine ⟨?_, ?_⟩
  · rw [Pool.epochCompleted_eq hconf.epochNum_ne_zero, Pool.completed_eq hconf hbudget hexact,
      decide_eq_true hrem]
  · rw [Pool.compoundingEpochIx_eq hconf hbudget hexact, hdue', Nat.sub_add_comm hle]

end Budget

/-! ## The stakers of an epoch -/

/-- A successful distribution. -/
def Call (pool : Pool) (batch : List StakingBundle) (nextPool : Pool) : Prop :=
  ∃ funding nextBundles nextFunding rewardOutputs minerOutput,
    pool.distributeRewards batch funding =
      .ok (nextPool, nextBundles, nextFunding, rewardOutputs, minerOutput)

/-- The bundle holds more than the tokens for the epochs that remain. -/
def Staker (epochsRemain : ℕ) (b : StakingBundleProto) : Prop :=
  epochsRemain * b.vlq.amount < b.tmpAmount

instance (epochsRemain : ℕ) : DecidablePred (Staker epochsRemain) :=
  fun _ => inferInstanceAs (Decidable (_ < _))

/-- A division into batches of the stakers of an epoch, none of which has been compounded. -/
structure EpochBatches (s : Staking) (epochIx : ℕ) (batches : List (List StakingBundle)) :
    Prop where
  accounting : Accounting s
  bounds : s.pool.conf.RoundingErrorBounds
  exact : s.pool.conf.programBudget.amount < 2 ^ 53
  completed : (s.pool.epochCompleted : Outcome PoolOperationError Bool) = .ok true
  epochIx_eq : (s.pool.compoundingEpochIx : Outcome PoolOperationError ℕ) = .ok epochIx
  covered : Covered (s.pool.epochsRemain epochIx) s.live
  stakers_eq : protos batches.flatten = s.live.filter (Staker (s.pool.epochsRemain epochIx))
  nonempty : ∀ batch ∈ batches, batch ≠ []

/-- By how much the part of the budget set aside for later epochs exceeds their instalments. -/
def drift (conf : ProgramConfig) (epochsRemain : ℕ) : ℕ :=
  conf.reserved epochsRemain - conf.epochAlloc * epochsRemain

/-- The divisions into batches from which the end of the epoch can be told. -/
structure Detectable (s : Staking) (epochsRemain : ℕ) (batches : List (List StakingBundle)) :
    Prop where
  left : ∀ left, (s.pool.epochsLeftToProcess : Outcome Unit ℕ) = .ok left → 1 ≤ left
  dvd : ∀ bundle ∈ batches.flatten, bundle.vlq.amount ∣ bundle.toProto.tmpAmount
  /-- The first of several batches is charged enough to be noticed. -/
  first : ∀ batch rest, batches = batch :: rest → rest ≠ [] →
    (s.pool.budgetRem.amount % s.pool.conf.epochAlloc + batch.length) *
        s.pool.actualTmp epochsRemain ≤
      s.pool.allocRem epochsRemain * Pool.charged epochsRemain batch
  /-- The last of several batches is charged enough to be missed. -/
  last : ∀ done batch, batches = done ++ [batch] → done ≠ [] →
    (s.pool.conf.maxRoundingError - drift s.pool.conf epochsRemain) *
        s.pool.actualTmp epochsRemain ≤
      s.pool.allocRem epochsRemain * Pool.charged epochsRemain batch
  /-- What rounding leaves after the last batch is within the tolerance. -/
  length : ∀ done batch, batches = done ++ [batch] →
    batch.length + drift s.pool.conf epochsRemain ≤ s.pool.conf.maxRoundingError

/-! ## The budget along the batches -/

/-- All that is in circulation for the epoch is to be charged to its stakers. -/
theorem totalCharge_stakers (epochsRemain : ℕ) (bundles : Multiset StakingBundleProto) :
    totalCharge epochsRemain (bundles.filter (Staker epochsRemain)) =
      totalCharge epochsRemain bundles := by
  induction bundles using Multiset.induction_on with
  | empty => rfl
  | cons b rest ih =>
      rw [totalCharge, totalCharge] at ih ⊢
      rw [Multiset.map_cons, Multiset.sum_cons, ← ih]
      by_cases hb : Staker epochsRemain b
      · rw [Multiset.filter_cons_of_pos _ hb, Multiset.map_cons, Multiset.sum_cons]
      · have hzero : b.charge epochsRemain = 0 := Nat.sub_eq_zero_of_le (not_lt.mp hb)
        rw [Multiset.filter_cons_of_neg _ hb, hzero, Nat.zero_add]

section EpochBatches

variable {s : Staking} {epochIx : ℕ} {batches : List (List StakingBundle)}

theorem EpochBatches.actualTmp_eq (h : EpochBatches s epochIx batches) :
    s.pool.actualTmp (s.pool.epochsRemain epochIx) =
      Pool.charged (s.pool.epochsRemain epochIx) batches.flatten := by
  rw [h.accounting.actualTmp_eq h.covered, ← totalCharge_protos, h.stakers_eq,
    totalCharge_stakers]

/-- Every batch is charged something. -/
theorem EpochBatches.charged_pos (h : EpochBatches s epochIx batches) {batch : List StakingBundle}
    (hmem : batch ∈ batches) : 0 < Pool.charged (s.pool.epochsRemain epochIx) batch := by
  obtain ⟨bundle, hbundle⟩ := List.exists_mem_of_ne_nil _ (h.nonempty batch hmem)
  have hstaker : bundle.toProto ∈ protos batches.flatten :=
    List.mem_map_of_mem (List.mem_flatten.mpr ⟨batch, hmem, hbundle⟩)
  rw [h.stakers_eq] at hstaker
  have hcharge : 0 < bundle.toProto.charge (s.pool.epochsRemain epochIx) :=
    Nat.sub_pos_of_lt (Multiset.mem_filter.mp hstaker).2
  exact hcharge.trans_le (Pool.charge_le_charged hbundle)

/-- The epoch and the budget at the start, and the pot. -/
structure AtStart (pool : Pool) (epochIx epochsRemain : ℕ) : Prop where
  epochIx_eq : epochIx = pool.conf.epochNum - epochsRemain
  rem_le : pool.budgetRem.amount % pool.conf.epochAlloc ≤ pool.conf.maxRoundingError
  budget_eq : pool.budgetRem.amount = pool.conf.epochAlloc * (epochsRemain + 1) +
    pool.budgetRem.amount % pool.conf.epochAlloc
  allocRem_eq : pool.allocRem epochsRemain + pool.conf.epochAlloc * epochsRemain +
    drift pool.conf epochsRemain + 1 = pool.budgetRem.amount

theorem EpochBatches.atStart (h : EpochBatches s epochIx batches)
    (hleft : ∀ left, (s.pool.epochsLeftToProcess : Outcome Unit ℕ) = .ok left → 1 ≤ left) :
    AtStart s.pool epochIx (s.pool.epochsRemain epochIx) := by
  have hbudget := h.accounting.budget_le
  have hsome := hleft _ (Pool.epochsLeftToProcess_eq h.bounds hbudget h.exact)
  have hdue := h.bounds.epochsDue_le hbudget
  have hcompleted := h.completed
  rw [Pool.epochCompleted_eq h.bounds.epochNum_ne_zero, Outcome.ok.injEq,
    Pool.completed_eq h.bounds hbudget h.exact, decide_eq_true_iff] at hcompleted
  have hepoch := h.epochIx_eq
  rw [Pool.compoundingEpochIx_eq h.bounds hbudget h.exact, Outcome.ok.injEq] at hepoch
  have hremain : s.pool.epochsRemain epochIx = s.pool.conf.epochNum - epochIx := rfl
  have hnext : s.pool.conf.epochsDue s.pool.budgetRem.amount =
      s.pool.epochsRemain epochIx + 1 := by omega
  have hmark := (Instalments.finished_iff h.bounds.maxRoundingError_lt).mp ⟨hcompleted, hnext⟩
  have hreserved : s.pool.conf.reserved (s.pool.epochsRemain epochIx) <
      s.pool.budgetRem.amount :=
    Instalments.reserve_lt_of_lt_due h.bounds.epochNum_pos (by omega) h.bounds.1.le
      h.bounds.epochAlloc_pos (by rw [ProgramConfig.epochsDue] at hnext; exact hnext.ge)
  have hdrift : s.pool.conf.epochAlloc * s.pool.epochsRemain epochIx ≤
      s.pool.conf.reserved (s.pool.epochsRemain epochIx) :=
    Instalments.mul_le_reserve h.bounds.epochNum_pos
  refine ⟨by omega, hcompleted, ?_, ?_⟩
  · have hquot : s.pool.budgetRem.amount / s.pool.conf.epochAlloc =
        s.pool.epochsRemain epochIx + 1 := by
      have hdue_eq := Instalments.due_eq (b := s.pool.budgetRem.amount)
        h.bounds.maxRoundingError_lt
      rw [if_pos hcompleted] at hdue_eq
      exact hdue_eq.symm.trans hnext
    rw [← hquot]
    exact (Nat.div_add_mod _ _).symm
  · rw [Pool.allocRem, drift]
    omega

/-- What the stakers of the first batches are paid. -/
def payout (s : Staking) (epochsRemain : ℕ) (done : List (List StakingBundle)) : ℕ :=
  (ProRata.payouts (s.pool.allocRem epochsRemain) (s.pool.actualTmp epochsRemain)
    (Pool.rounds epochsRemain done)).sum

theorem payout_append_le (s : Staking) (epochsRemain : ℕ) (done rest : List (List StakingBundle)) :
    payout s epochsRemain done ≤ payout s epochsRemain (done ++ rest) := by
  rw [payout, payout, Pool.rounds, Pool.rounds, List.map_append, ProRata.payouts_append,
    List.sum_append]
  exact Nat.le_add_right _ _

variable {done rest : List (List StakingBundle)} {batch : List StakingBundle}

theorem EpochBatches.charged_le (h : EpochBatches s epochIx (done ++ rest)) :
    Pool.charged (s.pool.epochsRemain epochIx) done.flatten ≤
      s.pool.actualTmp (s.pool.epochsRemain epochIx) := by
  rw [h.actualTmp_eq, List.flatten_append]
  simp [Pool.charged]

theorem EpochBatches.payout_le (h : EpochBatches s epochIx (done ++ rest)) :
    payout s (s.pool.epochsRemain epochIx) done ≤
      s.pool.allocRem (s.pool.epochsRemain epochIx) := by
  refine ProRata.sum_payouts_le ?_
  rw [Pool.sum_charges_rounds]
  exact h.charged_le

theorem EpochBatches.actualTmp_pos (h : EpochBatches s epochIx batches)
    (hmem : batch ∈ batches) : 0 < s.pool.actualTmp (s.pool.epochsRemain epochIx) := by
  obtain ⟨before, after, rfl⟩ := List.append_of_mem hmem
  have hpos := h.charged_pos hmem
  rw [h.actualTmp_eq]
  simp only [Pool.charged, List.flatten_append, List.flatten_cons, List.map_append,
    List.sum_append] at hpos ⊢
  omega

/-- The first batch takes the budget below the multiple it is at. -/
theorem EpochBatches.rem_lt_payout (h : EpochBatches s epochIx (batch :: rest))
    (hdetect : Detectable s (s.pool.epochsRemain epochIx) (batch :: rest)) (hrest : rest ≠ []) :
    s.pool.budgetRem.amount % s.pool.conf.epochAlloc <
      payout s (s.pool.epochsRemain epochIx) [batch] := by
  have hmem : batch ∈ batch :: rest := List.mem_cons_self ..
  have hfirst := hdetect.first batch rest rfl hrest
  have hT := h.actualTmp_pos hmem
  have hweights : (ProRata.weights (batch.map (Pool.claim (s.pool.epochsRemain epochIx)))).sum =
      Pool.charged (s.pool.epochsRemain epochIx) batch := by
    rw [ProRata.weights, List.map_map, Pool.charged]
    refine congrArg List.sum (List.map_congr_left fun bundle hbundle => ?_)
    exact StakingBundleProto.weight_eq_charge
      (hdetect.dvd bundle (List.mem_flatten.mpr ⟨batch, hmem, hbundle⟩)) _
  have hne : ProRata.weights (batch.map (Pool.claim (s.pool.epochsRemain epochIx))) ≠ [] := by
    have := h.nonempty batch hmem
    simpa [ProRata.weights] using this
  have hlost := ProRata.mul_sum_lt (A := s.pool.allocRem (s.pool.epochsRemain epochIx)) hT hne
  rw [hweights] at hlost
  have hlength : (ProRata.weights (batch.map
      (Pool.claim (s.pool.epochsRemain epochIx)))).length = batch.length := by
    simp [ProRata.weights]
  have hpayout : payout s (s.pool.epochsRemain epochIx) [batch] =
      ((ProRata.weights (batch.map (Pool.claim (s.pool.epochsRemain epochIx)))).map
        (ProRata.share (s.pool.allocRem (s.pool.epochsRemain epochIx))
          (s.pool.actualTmp (s.pool.epochsRemain epochIx)))).sum := by
    simp [payout, Pool.rounds, ProRata.payouts, ProRata.paid]
  rw [← hpayout, hlength] at hlost
  have := Nat.lt_of_mul_lt_mul_right (hfirst.trans_lt hlost)
  omega

/-- Before the last batch, the pot still exceeds the tolerance. -/
theorem EpochBatches.maxRoundingError_le (h : EpochBatches s epochIx (done ++ [batch]))
    (hdetect : Detectable s (s.pool.epochsRemain epochIx) (done ++ [batch])) (hdone : done ≠ []) :
    s.pool.conf.maxRoundingError + payout s (s.pool.epochsRemain epochIx) done ≤
      s.pool.allocRem (s.pool.epochsRemain epochIx) +
        drift s.pool.conf (s.pool.epochsRemain epochIx) := by
  have hmem : batch ∈ done ++ [batch] := by simp
  have hlast := hdetect.last done batch rfl hdone
  have hT := h.actualTmp_pos hmem
  have hrate := ProRata.rate_le_rate_after_rounds
    (s.pool.allocRem (s.pool.epochsRemain epochIx))
    (s.pool.actualTmp (s.pool.epochsRemain epochIx))
    (Pool.rounds (s.pool.epochsRemain epochIx) done)
  have hopen : s.pool.actualTmp (s.pool.epochsRemain epochIx) -
      ((Pool.rounds (s.pool.epochsRemain epochIx) done).map ProRata.charges).sum =
      Pool.charged (s.pool.epochsRemain epochIx) batch := by
    rw [Pool.sum_charges_rounds, h.actualTmp_eq]
    simp [Pool.charged]
  rw [hopen] at hrate
  have hpot := Nat.le_of_mul_le_mul_right (hlast.trans hrate) hT
  have hpayout := h.payout_le
  simp only [payout] at hpayout ⊢
  omega

/-- After the last batch, less than one unit for each of its bundles is left of the pot. -/
theorem EpochBatches.allocRem_lt (h : EpochBatches s epochIx (done ++ [batch]))
    (hdetect : Detectable s (s.pool.epochsRemain epochIx) (done ++ [batch])) :
    s.pool.allocRem (s.pool.epochsRemain epochIx) <
      payout s (s.pool.epochsRemain epochIx) (done ++ [batch]) + batch.length := by
  have hmem : batch ∈ done ++ [batch] := by simp
  have hweight : ∀ claim ∈ batch.map (Pool.claim (s.pool.epochsRemain epochIx)),
      claim.weight = claim.charge := by
    intro claim hclaim
    obtain ⟨bundle, hbundle, rfl⟩ := List.mem_map.mp hclaim
    exact StakingBundleProto.weight_eq_charge
      (hdetect.dvd bundle (List.mem_flatten.mpr ⟨batch, hmem, hbundle⟩)) _
  have hpos : 0 < ProRata.charges (batch.map (Pool.claim (s.pool.epochsRemain epochIx))) := by
    rw [Pool.charges_claim]
    exact h.charged_pos hmem
  have hrounds : Pool.rounds (s.pool.epochsRemain epochIx) (done ++ [batch]) =
      Pool.rounds (s.pool.epochsRemain epochIx) done ++
        [batch.map (Pool.claim (s.pool.epochsRemain epochIx))] := by
    simp [Pool.rounds]
  have hlast := ProRata.lt_sum_payouts_add_length
    (s.pool.allocRem (s.pool.epochsRemain epochIx))
    (Pool.rounds (s.pool.epochsRemain epochIx) done) hweight hpos
  rw [← hrounds, Pool.sum_charges_rounds, ← h.actualTmp_eq, List.length_map] at hlast
  exact hlast

/-! ## The epoch after some of the batches -/

/-- After some of the batches, but not all, the epoch is seen to be under way. -/
theorem EpochBatches.inProgress (h : EpochBatches s epochIx (done ++ rest))
    (hdetect : Detectable s (s.pool.epochsRemain epochIx) (done ++ rest)) (hdone : done ≠ [])
    (hrest : rest ≠ []) {nextPool : Pool} {settled : List StakingBundle}
    {rewards : List RewardOutput}
    (hrun : BatchRun (s.pool.epochsRemain epochIx) s.pool done nextPool settled rewards) :
    InProgress nextPool epochIx := by
  have hstart := h.atStart hdetect.left
  have hdivides := hrun.divides h.accounting.budget_lt h.charged_le
  have hbudget := hdivides.budget_eq
  rw [hdivides.rewards_eq] at hbudget
  change _ + payout s (s.pool.epochsRemain epochIx) done = _ at hbudget
  have hframe := hrun.frame
  -- something is paid already, more than the rounding error that was left over
  have hlow : s.pool.budgetRem.amount % s.pool.conf.epochAlloc <
      payout s (s.pool.epochsRemain epochIx) done := by
    obtain ⟨first, others, rfl⟩ := List.exists_cons_of_ne_nil hdone
    rw [List.cons_append] at h hdetect
    refine (h.rem_lt_payout hdetect (by simp [hrest])).trans_le ?_
    exact payout_append_le s _ [first] others
  -- and something is left to pay, more than the greatest rounding error
  have hhigh : s.pool.conf.maxRoundingError + payout s (s.pool.epochsRemain epochIx) done ≤
      s.pool.allocRem (s.pool.epochsRemain epochIx) +
        drift s.pool.conf (s.pool.epochsRemain epochIx) := by
    obtain ⟨others, last, rfl⟩ := List.eq_nil_or_concat rest |>.resolve_left hrest
    rw [List.concat_eq_append, ← List.append_assoc] at h hdetect
    have hlast := h.maxRoundingError_le hdetect (by simp [hdone])
    have := payout_append_le s (s.pool.epochsRemain epochIx) done others
    omega
  have hrem := hstart.budget_eq
  have halloc := hstart.allocRem_eq
  have hconf : nextPool.conf.RoundingErrorBounds := hframe.conf ▸ h.bounds
  have hle : nextPool.budgetRem.amount ≤ nextPool.conf.programBudget.amount := by
    have := h.accounting.budget_le
    rw [hframe.conf]
    omega
  have hmiddle : nextPool.conf.epochAlloc * s.pool.epochsRemain epochIx +
      nextPool.conf.maxRoundingError < nextPool.budgetRem.amount ∧
      nextPool.budgetRem.amount <
        nextPool.conf.epochAlloc * (s.pool.epochsRemain epochIx + 1) := by
    rw [hframe.conf]
    omega
  have hprogress := inProgress_of_budget hconf hle (hframe.conf ▸ h.exact) hmiddle.1 hmiddle.2
  rwa [hframe.conf, ← hstart.epochIx_eq] at hprogress

/-- After all of the batches, the epoch is seen to be over. -/
theorem EpochBatches.finished (h : EpochBatches s epochIx done)
    (hdetect : Detectable s (s.pool.epochsRemain epochIx) done) (hdone : done ≠ [])
    {nextPool : Pool} {settled : List StakingBundle} {rewards : List RewardOutput}
    (hrun : BatchRun (s.pool.epochsRemain epochIx) s.pool done nextPool settled rewards) :
    Finished nextPool epochIx := by
  have hstart := h.atStart hdetect.left
  obtain ⟨others, last, rfl⟩ := List.eq_nil_or_concat done |>.resolve_left hdone
  rw [List.concat_eq_append] at h hdetect hrun
  have hdivides := hrun.divides h.accounting.budget_lt h.actualTmp_eq.ge
  have hbudget := hdivides.budget_eq
  rw [hdivides.rewards_eq] at hbudget
  change _ + payout s (s.pool.epochsRemain epochIx) (others ++ [last]) = _ at hbudget
  have hframe := hrun.frame
  have hlost := h.allocRem_lt hdetect
  have hlength := hdetect.length others last rfl
  have hall : EpochBatches s epochIx ((others ++ [last]) ++ []) := by rwa [List.append_nil]
  have hpaid := hall.payout_le
  have halloc := hstart.allocRem_eq
  have hle : nextPool.budgetRem.amount ≤ nextPool.conf.programBudget.amount := by
    have := h.accounting.budget_le
    rw [hframe.conf]
    omega
  have hend : nextPool.conf.epochAlloc * s.pool.epochsRemain epochIx ≤
      nextPool.budgetRem.amount ∧
      nextPool.budgetRem.amount ≤ nextPool.conf.epochAlloc * s.pool.epochsRemain epochIx +
        nextPool.conf.maxRoundingError := by
    rw [hframe.conf]
    omega
  have hfinished := finished_of_budget (hframe.conf ▸ h.bounds) hle (hframe.conf ▸ h.exact)
    hend.1 hend.2
  rwa [hframe.conf, ← hstart.epochIx_eq] at hfinished

/-- A run over some of the batches stays in the epoch. -/
theorem EpochBatches.batchRun (h : EpochBatches s epochIx (done ++ rest))
    (hdetect : Detectable s (s.pool.epochsRemain epochIx) (done ++ rest)) {nextPool : Pool}
    (hrun : Run Call s.pool done nextPool) :
    ∃ settled rewards,
      BatchRun (s.pool.epochsRemain epochIx) s.pool done nextPool settled rewards := by
  induction done using List.reverseRecOn generalizing rest nextPool with
  | nil =>
      cases hrun
      exact ⟨[], [], .nil _⟩
  | append_singleton before batch ih =>
      rw [List.append_assoc] at h hdetect
      obtain ⟨midPool, hbefore, hbatch⟩ := hrun.split
      obtain ⟨settled, rewards, hmid⟩ := ih h hdetect hbefore
      have hepoch : (midPool.compoundingEpochIx : Outcome PoolOperationError ℕ) =
          .ok epochIx := by
        rcases eq_or_ne before [] with rfl | hne
        · cases hbefore
          exact h.epochIx_eq
        · exact (h.inProgress hdetect hne (by simp) hmid).epochIx_eq
      have hremain : midPool.epochsRemain epochIx = s.pool.epochsRemain epochIx := by
        rw [Pool.epochsRemain, Pool.epochsRemain, hmid.frame.conf]
      cases hbatch with
      | cons hcall hnil =>
          cases hnil
          obtain ⟨funding, nextBundles, nextFunding, rewardOutputs, minerOutput, hok⟩ := hcall
          exact ⟨_, _, hmid.append (.cons hok hepoch hremain (.nil _))⟩

/-- After every part of the batches the epoch is seen to be under way, and after all of them to be
over. -/
theorem boundary_of_batches {nextPool : Pool} (h : EpochBatches s epochIx (done ++ rest))
    (hdetect : Detectable s (s.pool.epochsRemain epochIx) (done ++ rest)) (hdone : done ≠ [])
    (hrun : Run Call s.pool done nextPool) :
    (rest ≠ [] → InProgress nextPool epochIx) ∧ (rest = [] → Finished nextPool epochIx) := by
  obtain ⟨settled, rewards, hbatches⟩ := h.batchRun hdetect hrun
  refine ⟨fun hrest => h.inProgress hdetect hdone hrest hbatches, ?_⟩
  rintro rfl
  rw [List.append_nil] at h hdetect
  exact h.finished hdetect hdone hbatches

end EpochBatches

/-! ## Two stakers in two batches -/

namespace Sample

def secondBundle : StakingBundle := { bundle with bundleKeyId := ⟨digest 11⟩ }

/-- Two bundles of the same size. -/
def pairPool : Pool :=
  { pool with
    reservesLq := ⟨digest 2, 200⟩
    reservesVlq := ⟨digest 3, maxValue - 200⟩
    reservesTmp := ⟨digest 4, maxValue - 2000⟩ }

def pair : Staking := ⟨pairPool, protos [bundle, secondBundle], 0⟩

theorem pair_batches : EpochBatches pair 1 [[bundle], [secondBundle]] where
  accounting := ⟨by decide, by decide, by decide, by decide⟩
  bounds := by decide
  exact := by decide
  completed := by decide +kernel
  epochIx_eq := by decide +kernel
  covered := by
    intro b hb
    have : ∀ b ∈ protos [bundle, secondBundle], pairPool.epochsRemain 1 * b.vlq.amount ≤
      b.tmpAmount := by decide
    exact this b hb
  stakers_eq := by decide
  nonempty := by decide

theorem pair_detectable : Detectable pair (pair.pool.epochsRemain 1) [[bundle], [secondBundle]] where
  left := by
    intro left hleft
    have : (pair.pool.epochsLeftToProcess : Outcome Unit ℕ) = .ok 10 := by decide +kernel
    obtain rfl := Outcome.ok.inj (hleft.symm.trans this)
    decide
  dvd := by decide
  first := by
    intro batch rest heq _
    obtain ⟨rfl, -⟩ := List.cons.inj heq
    decide
  last := by
    intro done batch heq _
    have hlast : batch = [secondBundle] := by
      simpa using (congrArg List.getLast? heq).symm
    rw [hlast]
    decide
  length := by
    intro done batch heq
    have hlast : batch = [secondBundle] := by
      simpa using (congrArg List.getLast? heq).symm
    rw [hlast]
    decide

/-- The pool after the first batch. -/
def pairCompounded : Pool :=
  { pairPool with
    budgetRem := ⟨digest 1, 9501⟩
    reservesTmp := ⟨digest 4, maxValue - 1900⟩
    epochIx := some 1 }

theorem distributeRewards_pair : pairPool.distributeRewards [bundle] funding =
    .ok (pairCompounded, [compoundedBundle], some ⟨⟨[]⟩, 750000⟩,
      [⟨some ⟨digest 1, 499⟩, ⟨[]⟩, minSafeBoxValue⟩], ⟨defaultMinerFeeForCompoundTx⟩) := by
  decide +kernel

end Sample

theorem boundary_of_batches_sample :
    ([[Sample.secondBundle]] ≠ [] → InProgress Sample.pairCompounded 1) ∧
      ([[Sample.secondBundle]] = [] → Finished Sample.pairCompounded 1) := by
  have hcall : Call Sample.pairPool [Sample.bundle] Sample.pairCompounded :=
    ⟨_, _, _, _, _, Sample.distributeRewards_pair⟩
  exact boundary_of_batches (s := Sample.pair) Sample.pair_batches Sample.pair_detectable (by simp)
    (.single hcall)

/-! ## A batch that goes unnoticed

The only epoch of a program is compounded in two batches, and the first is for a staker of one
unit in a million. -/

namespace Sample

def singleEpoch : ProgramConfig :=
  { conf with
    epochNum := 1
    maxRoundingError := 2
    programBudget := ⟨digest 1, 1000⟩
    epochNum_lt := one_lt_u32
    maxRoundingError_lt := by decide
    programBudget_lt := by decide }

def unequalPool : Pool :=
  { pool with
    budgetRem := ⟨digest 1, 1000⟩
    reservesLq := ⟨digest 2, 1000001⟩
    reservesVlq := ⟨digest 3, maxValue - 1000001⟩
    reservesTmp := ⟨digest 4, maxValue - 1000001⟩
    conf := singleEpoch }

def tinyBundle : StakingBundle :=
  { bundle with vlq := ⟨digest 3, 1⟩, tmp := some ⟨digest 4, 1⟩ }

def bigBundle : StakingBundle :=
  { secondBundle with vlq := ⟨digest 3, 1000000⟩, tmp := some ⟨digest 4, 1000000⟩ }

/-- The reward of the first batch is rounded down to nothing. -/
def unnoticedPool : Pool :=
  { unequalPool with
    reservesTmp := ⟨digest 4, maxValue - 1000000⟩
    epochIx := some 1 }

def lastPool : Pool :=
  { unnoticedPool with
    budgetRem := ⟨digest 1, 1⟩
    reservesTmp := ⟨digest 4, maxValue⟩ }

theorem distributeRewards_tiny : unequalPool.distributeRewards [tinyBundle] funding =
    .ok (unnoticedPool, [{ tinyBundle with tmp := none }], some ⟨⟨[]⟩, 750000⟩,
      [⟨none, ⟨[]⟩, minSafeBoxValue⟩], ⟨defaultMinerFeeForCompoundTx⟩) := by
  decide +kernel

theorem distributeRewards_big : unnoticedPool.distributeRewards [bigBundle] funding =
    .ok (lastPool, [{ bigBundle with tmp := none }], some ⟨⟨[]⟩, 750000⟩,
      [⟨some ⟨digest 1, 999⟩, ⟨[]⟩, minSafeBoxValue⟩], ⟨defaultMinerFeeForCompoundTx⟩) := by
  decide +kernel

def unequal : Staking := ⟨unequalPool, protos [tinyBundle, bigBundle], 0⟩

theorem unequal_batches : EpochBatches unequal 1 [[tinyBundle], [bigBundle]] where
  accounting := ⟨by decide, by decide, by decide, by decide⟩
  bounds := by decide
  exact := by decide
  completed := by decide +kernel
  epochIx_eq := by decide +kernel
  covered := by
    intro b hb
    have : ∀ b ∈ protos [tinyBundle, bigBundle], unequalPool.epochsRemain 1 * b.vlq.amount ≤
      b.tmpAmount := by decide
    exact this b hb
  stakers_eq := by decide
  nonempty := by decide

end Sample

/-- Both batches of the epoch are compounded, and between them it is seen to be over. -/
theorem unnoticed_batch :
    EpochBatches Sample.unequal 1 [[Sample.tinyBundle], [Sample.bigBundle]] ∧
      Run Call Sample.unequal.pool [[Sample.tinyBundle]] Sample.unnoticedPool ∧
      Run Call Sample.unnoticedPool [[Sample.bigBundle]] Sample.lastPool ∧
      (Sample.unnoticedPool.epochCompleted : Outcome PoolOperationError Bool) = .ok true := by
  have htiny : Call Sample.unequal.pool [Sample.tinyBundle] Sample.unnoticedPool :=
    ⟨_, _, _, _, _, Sample.distributeRewards_tiny⟩
  have hbig : Call Sample.unnoticedPool [Sample.bigBundle] Sample.lastPool :=
    ⟨_, _, _, _, _, Sample.distributeRewards_big⟩
  exact ⟨Sample.unequal_batches, .single htiny, .single hbig, by decide +kernel⟩

end Staking

end SpectrumOffchain
