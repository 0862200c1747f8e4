import SpectrumOffchain.Staking.Run

/-!
# An epoch in batches

The stakers of an epoch are compounded in several calls of `distribute_rewards`, each on
the state that the calls before it left (`BatchRun`).  As long as every live bundle holds
the tokens for the epochs that remain, the temporal tokens in circulation above them are
the charges of the bundles still to come, and the calls are the rounds of a division in
proportion (`BatchRun.divides`).  So what a bundle gets hardly depends on the batch it is
in, and what becomes of it not at all.

## Strategy

A bundle makes a claim on the pot: it is charged for the tokens above those for the epochs
that remain, and its share is in proportion to the part of the charge that makes whole
epochs (`Pool.claim`).  A batch is a list of claims, and what it pays are the shares of its
claims in what the batches before it have left (`ProRata.payouts`).

`BatchRun.divides` proves this by induction on the batches.  The next batch finds both the
pot and the tokens in circulation diminished by what the one before it paid and charged, and
that the pool computes just these two numbers is where the accounting is used.  The bounds
on a single share in terms of all the claims are those of the library of divisions, and
`fair_of_batches` applies them to every order and every division into batches.
-/

namespace SpectrumOffchain

open Staking

namespace Pool

/-- A bundle as a claim on the pot of the epoch. -/
def claim (epochsRemain : ℕ) (bundle : StakingBundle) : ProRata.Claim where
  weight := bundle.toProto.weight epochsRemain
  charge := bundle.toProto.charge epochsRemain
  weight_le := bundle.toProto.weight_le_charge epochsRemain

theorem charges_claim (epochsRemain : ℕ) (bundles : List StakingBundle) :
    ProRata.charges (bundles.map (claim epochsRemain)) = charged epochsRemain bundles := by
  simp [ProRata.charges, charged, claim, Function.comp_def]

/-- The batches as rounds of a division of the pot. -/
def rounds (epochsRemain : ℕ) (batches : List (List StakingBundle)) : List (List ProRata.Claim) :=
  batches.map fun batch => batch.map (claim epochsRemain)

theorem flatten_rounds (epochsRemain : ℕ) (batches : List (List StakingBundle)) :
    (rounds epochsRemain batches).flatten = batches.flatten.map (claim epochsRemain) :=
  List.map_flatten.symm

theorem sum_charges_rounds (epochsRemain : ℕ) (batches : List (List StakingBundle)) :
    ((rounds epochsRemain batches).map ProRata.charges).sum =
      charged epochsRemain batches.flatten := by
  induction batches with
  | nil => rfl
  | cons batch rest ih =>
      simp only [rounds, List.map_cons, List.sum_cons, charges_claim] at ih ⊢
      rw [ih]
      simp [charged]

variable {pool : Pool} {epochsRemain : ℕ} {bundles : List StakingBundle}

/-- Rewards are bounded by the shares, also where these would not fit into 64 bits. -/
theorem paid_le_sum_share :
    pool.paid epochsRemain bundles ≤ (ProRata.paid (pool.allocRem epochsRemain)
      (pool.actualTmp epochsRemain) (bundles.map (claim epochsRemain))).sum := by
  induction bundles with
  | nil => exact Nat.zero_le _
  | cons bundle rest ih =>
      simp only [paid, ProRata.paid, ProRata.weights, List.map_cons, List.sum_cons] at ih ⊢
      exact Nat.add_le_add (Nat.mod_le _ _) ih

/-- Bundles whose charges are in circulation are covered by the pot. -/
theorem paid_le_allocRem (hcharged : charged epochsRemain bundles ≤ pool.actualTmp epochsRemain) :
    pool.paid epochsRemain bundles ≤ pool.allocRem epochsRemain :=
  paid_le_sum_share.trans (ProRata.sum_paid_le (by rwa [charges_claim]))

/-- A budget of 64 bits has shares of 64 bits. -/
theorem rewardAmt_eq_share (hbudget : pool.budgetRem.amount < 2 ^ 64) {bundle : StakingBundle}
    (hcharge : bundle.toProto.charge epochsRemain ≤ pool.actualTmp epochsRemain) :
    pool.rewardAmt epochsRemain bundle = ProRata.share (pool.allocRem epochsRemain)
      (pool.actualTmp epochsRemain) (bundle.toProto.weight epochsRemain) := by
  refine Nat.mod_eq_of_lt ?_
  have hweight : [bundle.toProto.weight epochsRemain].sum ≤ pool.actualTmp epochsRemain := by
    simpa using (bundle.toProto.weight_le_charge epochsRemain).trans hcharge
  have hshare := ProRata.sum_share_le (A := pool.allocRem epochsRemain) hweight
  simp only [List.map_cons, List.map_nil, List.sum_cons, List.sum_nil, Nat.add_zero] at hshare
  have : pool.allocRem epochsRemain ≤ pool.budgetRem.amount := by
    rw [allocRem]
    omega
  omega

theorem charge_le_charged {bundle : StakingBundle} (hmem : bundle ∈ bundles) :
    bundle.toProto.charge epochsRemain ≤ charged epochsRemain bundles :=
  List.single_le_sum (fun _ _ => Nat.zero_le _) _ (List.mem_map_of_mem hmem)

theorem map_rewardAmt (hbudget : pool.budgetRem.amount < 2 ^ 64)
    (hcharged : charged epochsRemain bundles ≤ pool.actualTmp epochsRemain) :
    bundles.map (pool.rewardAmt epochsRemain) = ProRata.paid (pool.allocRem epochsRemain)
      (pool.actualTmp epochsRemain) (bundles.map (claim epochsRemain)) := by
  simp only [ProRata.paid, ProRata.weights, List.map_map]
  refine List.map_congr_left fun bundle hmem => ?_
  exact rewardAmt_eq_share hbudget ((charge_le_charged hmem).trans hcharged)

end Pool

/-! ## The temporal tokens in circulation -/

namespace Staking

/-- What all live bundles are to be charged. -/
def totalCharge (epochsRemain : ℕ) (bundles : Multiset StakingBundleProto) : ℕ :=
  (bundles.map (StakingBundleProto.charge epochsRemain)).sum

/-- Every bundle holds the tokens for the epochs that remain. -/
def Covered (epochsRemain : ℕ) (bundles : Multiset StakingBundleProto) : Prop :=
  ∀ b ∈ bundles, epochsRemain * b.vlq.amount ≤ b.tmpAmount

theorem totalCharge_protos (epochsRemain : ℕ) (bundles : List StakingBundle) :
    totalCharge epochsRemain (protos bundles) = Pool.charged epochsRemain bundles := by
  simp [totalCharge, protos, Pool.charged, Function.comp_def]

theorem totalCharge_add_eq {epochsRemain : ℕ} {bundles : Multiset StakingBundleProto}
    (hcovered : Covered epochsRemain bundles) :
    totalCharge epochsRemain bundles + totalVlq bundles * epochsRemain = totalTmp bundles := by
  induction bundles using Multiset.induction_on with
  | empty => simp [totalCharge, totalVlq, totalTmp]
  | cons b rest ih =>
      have hb := hcovered b (Multiset.mem_cons_self b rest)
      have hrest := ih fun b' hb' => hcovered b' (Multiset.mem_cons_of_mem hb')
      simp only [totalCharge, Multiset.map_cons, Multiset.sum_cons, totalVlq_cons,
        totalTmp_cons, StakingBundleProto.charge, Nat.add_mul, mul_comm epochsRemain] at hrest hb ⊢
      omega

/-- The tokens in circulation above those for the epochs that remain are the charges of the
live bundles. -/
theorem Accounting.actualTmp_eq {s : Staking} (h : Accounting s) {epochsRemain : ℕ}
    (hcovered : Covered epochsRemain s.live) :
    s.pool.actualTmp epochsRemain = totalCharge epochsRemain s.live := by
  have htotal := totalCharge_add_eq hcovered
  have htmp := h.tmp
  rw [Pool.actualTmp, h.lq]
  omega

theorem Accounting.charged_le {s : Staking} (h : Accounting s) {epochsRemain : ℕ}
    (hcovered : Covered epochsRemain s.live) {bundles : List StakingBundle}
    (hlive : protos bundles ≤ s.live) :
    Pool.charged epochsRemain bundles ≤ s.pool.actualTmp epochsRemain := by
  obtain ⟨rest, hrest⟩ := Multiset.le_iff_exists_add.mp hlive
  rw [h.actualTmp_eq hcovered, hrest, ← totalCharge_protos]
  simp [totalCharge]

theorem Accounting.budget_lt {s : Staking} (h : Accounting s) :
    s.pool.budgetRem.amount < 2 ^ 64 := by
  have := h.budget
  have := s.pool.conf.programBudget_lt
  omega

/-! ## Successive batches -/

/-- Successful distributions over the batches of a list, one after the other, all for the epoch
that leaves `epochsRemain`; with the bundles and the rewards they return, in order. -/
inductive BatchRun (epochsRemain : ℕ) :
    Pool → List (List StakingBundle) → Pool → List StakingBundle → List RewardOutput → Prop where
  | nil (pool : Pool) : BatchRun epochsRemain pool [] pool [] []
  | cons {pool nextPool lastPool : Pool} {batch nextBundles settled : List StakingBundle}
      {rest : List (List StakingBundle)} {funding : NonEmpty DistributionFunding}
      {nextFunding : Option DistributionFundingProto} {rewardOutputs rewards : List RewardOutput}
      {minerOutput : MinerOutput} {epochIx : ℕ}
      (hok : pool.distributeRewards batch funding =
        .ok (nextPool, nextBundles, nextFunding, rewardOutputs, minerOutput))
      (hepoch : (pool.compoundingEpochIx : Outcome PoolOperationError ℕ) = .ok epochIx)
      (hremain : pool.epochsRemain epochIx = epochsRemain)
      (hrest : BatchRun epochsRemain nextPool rest lastPool settled rewards) :
      BatchRun epochsRemain pool (batch :: rest) lastPool (nextBundles ++ settled)
        (rewardOutputs ++ rewards)

theorem BatchRun.append {epochsRemain : ℕ} {pool midPool lastPool : Pool}
    {batches batches' : List (List StakingBundle)} {settled settled' : List StakingBundle}
    {rewards rewards' : List RewardOutput}
    (hfirst : BatchRun epochsRemain pool batches midPool settled rewards)
    (hsecond : BatchRun epochsRemain midPool batches' lastPool settled' rewards') :
    BatchRun epochsRemain pool (batches ++ batches') lastPool (settled ++ settled')
      (rewards ++ rewards') := by
  induction hfirst with
  | nil => exact hsecond
  | cons hok hepoch hremain _ ih =>
      rw [List.append_assoc, List.append_assoc]
      exact .cons hok hepoch hremain (ih hsecond)

theorem BatchRun.frame {epochsRemain : ℕ} {pool lastPool : Pool}
    {batches : List (List StakingBundle)} {settled : List StakingBundle}
    {rewards : List RewardOutput}
    (hrun : BatchRun epochsRemain pool batches lastPool settled rewards) :
    Frame pool lastPool := by
  induction hrun with
  | nil pool => exact .refl pool
  | cons hok _ _ _ ih => exact (PoolStep.compound hok).frame.trans ih

/-- What successive batches do, in terms of the state before the first of them. -/
structure Divides (epochsRemain : ℕ) (pool : Pool) (batches : List (List StakingBundle))
    (lastPool : Pool) (settled : List StakingBundle) (rewards : List RewardOutput) : Prop where
  settled_eq : settled = batches.flatten.map (Pool.settle epochsRemain)
  burned : ∀ bundle ∈ batches.flatten, epochsRemain < bundle.toProto.epochs
  tmp_eq : lastPool.reservesTmp.amount =
    pool.reservesTmp.amount + Pool.charged epochsRemain batches.flatten
  budget_eq : lastPool.budgetRem.amount + (rewards.map RewardOutput.rewardAmount).sum =
    pool.budgetRem.amount
  rewards_eq : rewards.map RewardOutput.rewardAmount = ProRata.payouts
    (pool.allocRem epochsRemain) (pool.actualTmp epochsRemain) (Pool.rounds epochsRemain batches)

theorem BatchRun.divides {epochsRemain : ℕ} {pool lastPool : Pool}
    {batches : List (List StakingBundle)} {settled : List StakingBundle}
    {rewards : List RewardOutput}
    (hrun : BatchRun epochsRemain pool batches lastPool settled rewards)
    (hbudget : pool.budgetRem.amount < 2 ^ 64)
    (hcharged : Pool.charged epochsRemain batches.flatten ≤ pool.actualTmp epochsRemain) :
    Divides epochsRemain pool batches lastPool settled rewards := by
  induction hrun with
  | nil pool => exact ⟨rfl, by simp, by simp [Pool.charged], by simp, rfl⟩
  | @cons pool nextPool lastPool batch nextBundles settled rest _ _ rewardOutputs rewards _ epochIx
      hok hepoch hremain _ ih =>
      obtain ⟨ix, _, hdist⟩ := Pool.distributeRewards_ok hok
      obtain rfl : ix = epochIx := Outcome.ok.inj (hdist.epochIx_eq.symm.trans hepoch)
      subst hremain
      obtain ⟨hpaid, htmp⟩ := hdist.amounts
      obtain ⟨-, hconf, -, hlq, -⟩ := hdist.frame
      have hsplit : Pool.charged (pool.epochsRemain ix) (batch :: rest).flatten =
          Pool.charged (pool.epochsRemain ix) batch +
            Pool.charged (pool.epochsRemain ix) rest.flatten := by
        simp [Pool.charged]
      have hround : batch.map (pool.rewardAmt (pool.epochsRemain ix)) = _ :=
        Pool.map_rewardAmt hbudget (by omega)
      -- both the pot and the tokens in circulation shrink by what the batch took
      have hpot : nextPool.allocRem (pool.epochsRemain ix) =
          pool.allocRem (pool.epochsRemain ix) - pool.paid (pool.epochsRemain ix) batch := by
        rw [Pool.allocRem, Pool.allocRem, hconf]
        omega
      have htotal : nextPool.actualTmp (pool.epochsRemain ix) =
          pool.actualTmp (pool.epochsRemain ix) -
            Pool.charged (pool.epochsRemain ix) batch := by
        rw [Pool.actualTmp, Pool.actualTmp, hlq, htmp]
        omega
      have hrest := ih (by omega) (by omega)
      -- so the rest of the batches divides what the first one has left
      refine ⟨?_, ?_, ?_, ?_, ?_⟩
      · rw [hrest.settled_eq, hdist.nextBundles_eq, List.flatten_cons, List.map_append]
      · rw [List.flatten_cons]
        exact List.forall_mem_append.mpr ⟨hdist.burned, hrest.burned⟩
      · rw [hrest.tmp_eq, htmp, hsplit]
        omega
      · have := hrest.budget_eq
        rw [List.map_append, List.sum_append, hdist.sum_rewards]
        omega
      · rw [List.map_append, hrest.rewards_eq, hdist.rewardOutputs_eq, List.map_map]
        simp only [Function.comp_def, Pool.rewardAmount_rewardOutput, Pool.rounds, List.map_cons,
          ProRata.payouts, Pool.charges_claim, ← hround, hpot, htotal]
        rfl

/-! ## Fairness -/

/-- What a division of `bundles` into batches must not change, in terms of the pool before the
first of them: what becomes of the bundles and of the reserves, and up to rounding the rewards.
Each bundle gets at least its share of the pot, and all of them get no more than the pot. -/
structure Fair (epochsRemain : ℕ) (pool : Pool) (bundles : List StakingBundle)
    (batches : List (List StakingBundle)) (lastPool : Pool) (settled : List StakingBundle)
    (rewards : List RewardOutput) : Prop where
  settled_eq : settled = batches.flatten.map (Pool.settle epochsRemain)
  settled_perm : settled.Perm (bundles.map (Pool.settle epochsRemain))
  tmp_eq : lastPool.reservesTmp.amount =
    pool.reservesTmp.amount + Pool.charged epochsRemain bundles
  share_le : List.Forall₂
    (fun (bundle : StakingBundle) (reward : RewardOutput) =>
      pool.allocRem epochsRemain * bundle.vlq.amount *
          (bundle.toProto.tmpAmount / bundle.vlq.amount - epochsRemain) /
        pool.actualTmp epochsRemain ≤ reward.rewardAmount)
    batches.flatten rewards
  total_le : (rewards.map RewardOutput.rewardAmount).sum ≤ pool.allocRem epochsRemain

theorem fair_of_batches {s : Staking} {epochsRemain : ℕ} {bundles settled : List StakingBundle}
    {batches : List (List StakingBundle)} {lastPool : Pool} {rewards : List RewardOutput}
    (haccounting : Accounting s) (hcovered : Covered epochsRemain s.live)
    (hlive : protos bundles ≤ s.live) (hperm : batches.flatten.Perm bundles)
    (hrun : BatchRun epochsRemain s.pool batches lastPool settled rewards) :
    Fair epochsRemain s.pool bundles batches lastPool settled rewards := by
  have hsum : Pool.charged epochsRemain batches.flatten = Pool.charged epochsRemain bundles :=
    (hperm.map _).sum_eq
  have hcharged := hsum ▸ haccounting.charged_le hcovered hlive
  have hdivides := hrun.divides haccounting.budget_lt hcharged
  have hrounds := Pool.sum_charges_rounds epochsRemain batches ▸ hcharged
  refine ⟨hdivides.settled_eq, ?_, ?_, ?_, ?_⟩
  · rw [hdivides.settled_eq]
    exact hperm.map _
  · rw [hdivides.tmp_eq, hsum]
  · have hpos : ∀ round ∈ Pool.rounds epochsRemain batches, ∀ claim ∈ round,
        0 < claim.charge := by
      intro round hround claim hclaim
      have hmem := List.mem_flatten.mpr ⟨round, hround, hclaim⟩
      rw [Pool.flatten_rounds] at hmem
      obtain ⟨bundle, hbundle, rfl⟩ := List.mem_map.mp hmem
      exact Nat.sub_pos_of_lt (StakingBundleProto.lt_tmpAmount (hdivides.burned bundle hbundle))
    have hshares := ProRata.share_le_payout hpos hrounds
      (le_refl (s.pool.allocRem epochsRemain * s.pool.actualTmp epochsRemain))
    rw [← hdivides.rewards_eq, Pool.flatten_rounds, List.forall₂_map_left_iff,
      List.forall₂_map_right_iff] at hshares
    refine hshares.imp fun bundle reward hle => ?_
    rw [Nat.mul_assoc]
    exact hle
  · rw [hdivides.rewards_eq]
    exact ProRata.sum_payouts_le hrounds

/-- Both stakes of the sample pool, the second of them first and each in a batch of its own. -/
theorem fair_of_batches_sample :
    Fair 9 Sample.joinedPool [Sample.joined, Sample.bundle] [[Sample.bundle], [Sample.joined]]
      Sample.bothCompounded [Sample.compoundedBundle, Sample.joinedCompounded]
      [Sample.rewardOf 499 ⟨[]⟩, Sample.rewardOf 500 ⟨[7]⟩] := by
  obtain ⟨hdeposit, hfirst, hsecond, -⟩ := Sample.operations
  have haccounting : Accounting ⟨Sample.joinedPool, _, 0⟩ :=
    Sample.initial.accounting.step (.deposit hdeposit)
  have hepoch : (Sample.joinedPool.compoundingEpochIx : Outcome PoolOperationError ℕ) = .ok 1 ∧
      (Sample.halfway.compoundingEpochIx : Outcome PoolOperationError ℕ) = .ok 1 := by
    decide +kernel
  have hcovered : Covered 9 (Sample.joinedProto ::ₘ {Sample.bundleProto}) := by
    intro b hb
    obtain rfl | hb := Multiset.mem_cons.mp hb
    · decide
    · obtain rfl := Multiset.mem_singleton.mp hb
      decide
  exact fair_of_batches haccounting hcovered le_rfl (List.Perm.swap _ _ _)
    (.cons hfirst hepoch.1 rfl (.cons hsecond hepoch.2 rfl (.nil _)))

end Staking

end SpectrumOffchain
