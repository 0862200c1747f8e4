import SpectrumOffchain.Execution.Prediction
import SpectrumOffchain.Execution.Tokens

/-!
# The pointers of a compound transaction

The contract of a bundle is told by two context variables of its input which outputs of
the transaction are its successor and the reward of its redeemer.  `try_run` finds the
first bundle among the outputs by its script; the list of the outputs is chained in a
fixed order, so that this is the output behind the pool and the residual funding
(`CompoundRan.firstBundleOutIx_eq`), and the `i`-th bundle and the `i`-th reward are `i`
and `numBundles + i` outputs further on.

## Strategy

The outputs are a concatenation: the pool, the residual funding if there is one, the
bundles, the rewards, and the fee.  Positions are found by the lengths of its parts.  That
the search for the first bundle script ends at the first bundle needs that none of the
outputs before it has this script: the pool has another one, and the residual funding has
the one of the first box that was collected (`CompoundRan.prop_residual_ne`).

The context variables are signed numbers of 32 bits, and a transaction has at most 32767
outputs, so that they hold the positions (`pointsTo_bundleInput`).
-/

namespace SpectrumOffchain

/-- The successor of a bundle that keeps the temporal tokens for `epochsRemain` epochs. -/
structure StakingBundle.Succeeds (epochsRemain : ℕ) (bundle next : StakingBundle) : Prop where
  bundleKeyId_eq : next.bundleKeyId = bundle.bundleKeyId
  poolId_eq : next.poolId = bundle.poolId
  vlq_eq : next.vlq = bundle.vlq
  redeemerProp_eq : next.redeemerProp = bundle.redeemerProp
  ergValue_eq : next.ergValue = bundle.ergValue
  tmpAmount_eq : next.toProto.tmpAmount = epochsRemain * bundle.vlq.amount
  tmp_tokenId_eq : ∀ tmp', next.tmp = some tmp' →
    ∃ tmp, bundle.tmp = some tmp ∧ tmp'.tokenId = tmp.tokenId

theorem StakingBundle.succeeds_settle {epochsRemain : ℕ} {bundle : StakingBundle}
    (hlt : epochsRemain < bundle.toProto.epochs) (stateId : BundleStateId) :
    bundle.Succeeds epochsRemain ((bundle.toProto.settle epochsRemain).finalize stateId) where
  bundleKeyId_eq := rfl
  poolId_eq := rfl
  vlq_eq := rfl
  redeemerProp_eq := rfl
  ergValue_eq := rfl
  tmpAmount_eq := by
    have hpos := (Nat.zero_le _).trans_lt (StakingBundleProto.lt_tmpAmount hlt)
    rw [StakingBundle.toProto_finalize]
    exact StakingBundleProto.tmpAmount_settle hpos
  tmp_tokenId_eq := by
    intro tmp' htmp'
    obtain ⟨tmp, htmp, heq⟩ := Option.bind_eq_some_iff.mp htmp'
    split at heq
    · cases heq
    · cases heq
      exact ⟨tmp, htmp, rfl⟩

theorem poolValidator_ne_bundleValidator : poolValidator ≠ bundleValidator := by decide +kernel

/-! ## Positions -/

section ErgoLib

variable [ErgoLib]

/-- The inputs of a compound transaction, with the position at which the script of the bundles is
found among the outputs. -/
theorem Compound.inputs_of_tryRun {self : Compound} {pool : AsBox Pool}
    {bundles : List (AsBox StakingBundle)} {funding : NonEmpty (AsBox DistributionFunding)}
    {ctx : ExecutionContext} {tx : TransactionCandidate} {nextPool : Predicted (AsBox Pool)}
    {nextBundles : List (Predicted (AsBox StakingBundle))}
    {nextFunding : Option (Predicted (AsBox DistributionFunding))}
    (h : self.tryRun pool bundles funding ctx = .ok (tx, nextPool, nextBundles, nextFunding)) :
    ∃ firstBundleOutIx,
      tx.outputCandidates.toList.findIdx? (fun o => decide (o.ergoTree = bundleValidator)) =
        some firstBundleOutIx ∧
      tx.inputs.toList =
        ([pool.bx] ++ funding.toList.map AsBox.bx).map (fun bx => (bx, ContextExtension.empty)) ++
          bundles.mapIdx (bundleInput firstBundleOutIx bundles.length) := by
  simp only [tryRun, Outcome.bind_eq_ok, Outcome.mapErr_eq_ok, Outcome.unwrap_eq_ok,
    BoundedVec.fromVec_eq_some, slice_eq_ok, Outcome.pure_eq, Outcome.ok.injEq] at h
  obtain ⟨⟨_, _, _, _, _⟩, -, _, -, _, -, _, -, _, -, _, -, outputs, -, firstBundleOutIx, hfirst,
    inputs, hinputs, _, -, _, -, _, -, heq⟩ := h
  cases heq
  exact ⟨firstBundleOutIx, hfirst, hinputs⟩

section Ran

variable {pool : AsBox Pool} {bundles : List (AsBox StakingBundle)}
  {funding : NonEmpty (AsBox DistributionFunding)} {tx : TransactionCandidate}
  {nextPool : AsBox Pool} {nextBundles : List (Predicted (AsBox StakingBundle))}
  {nextFunding : Option (Predicted (AsBox DistributionFunding))}
  {settled : List StakingBundle} {residual : Option DistributionFundingProto}
  {rewards : List RewardOutput} {minerOut : MinerOutput} {epochIx total i : ℕ}
  (h : CompoundRan pool bundles funding tx nextPool nextBundles nextFunding settled residual
    rewards minerOut epochIx total)
include h

theorem CompoundRan.prop_residual_ne
    (hprop : ∀ f ∈ funding.toList, f.value.prop ≠ bundleValidator) :
    ∀ proto ∈ residual.toList, proto.prop ≠ bundleValidator := by
  intro proto hproto
  obtain ⟨-, hresidual, -⟩ | ⟨-, hresidual, -⟩ := h.applied.funding_eq
  · rw [hresidual, Option.toList_some, List.mem_singleton] at hproto
    rw [hproto]
    exact hprop funding.head List.mem_cons_self
  · rw [hresidual] at hproto
    cases hproto

/-- The script of the bundles is found behind the pool and the residual funding. -/
theorem CompoundRan.firstBundleOutIx_eq {firstBundleOutIx : ℕ}
    (hprop : ∀ f ∈ funding.toList, f.value.prop ≠ bundleValidator) (hne : bundles ≠ [])
    (hfirst : tx.outputCandidates.toList.findIdx?
      (fun o => decide (o.ergoTree = bundleValidator)) = some firstBundleOutIx) :
    firstBundleOutIx = 1 + residual.toList.length := by
  have hcontents : (tx.outputCandidates.toList.map ErgoBoxCandidate.contents).findIdx?
      (fun contents => decide (contents.ergoTree = bundleValidator)) = some firstBundleOutIx := by
    rw [List.findIdx?_map]
    exact hfirst
  have hresidual := h.prop_residual_ne hprop
  rw [h.contents_eq, h.applied.nextBundles_eq] at hcontents
  obtain ⟨first, rest, hbundles⟩ := List.exists_cons_of_ne_nil hne
  have hpool : decide (nextPool.value.contents.ergoTree = bundleValidator) = false :=
    decide_eq_false poolValidator_ne_bundleValidator
  have hbundle : ∀ bundle : StakingBundle,
      decide (bundle.toProto.contents.ergoTree = bundleValidator) = true :=
    fun _ => decide_eq_true rfl
  cases residual with
  | none =>
      simp only [hbundles, Option.toList_none, List.map_nil, List.map_cons, List.append_nil,
        List.cons_append, List.nil_append, List.findIdx?_cons, hpool, hbundle, if_true,
        Bool.false_eq_true, if_false, Option.map_some, Option.some.injEq] at hcontents
      exact hcontents.symm
  | some proto =>
      have hproto : decide (proto.contents.ergoTree = bundleValidator) = false :=
        decide_eq_false (hresidual proto List.mem_cons_self)
      simp only [hbundles, Option.toList_some, List.map_nil, List.map_cons, List.cons_append,
        List.nil_append, List.findIdx?_cons, hpool, hproto, hbundle, if_true,
        Bool.false_eq_true, if_false, Option.map_some, Option.some.injEq] at hcontents
      exact hcontents.symm

/-- The contents of the outputs behind the bundles. -/
theorem CompoundRan.getElem?_contents_reward {reward : RewardOutput}
    (hreward : rewards[i]? = some reward) :
    (tx.outputCandidates.toList.map ErgoBoxCandidate.contents)[
      1 + residual.toList.length + i + settled.length]? = some reward.contents := by
  have hlt : i < rewards.length := (List.getElem?_eq_some_iff.mp hreward).1
  have hstart : 1 + residual.toList.length + i + settled.length = ([nextPool.value.contents] ++
      residual.toList.map DistributionFundingProto.contents ++
      settled.map (fun b => b.toProto.contents)).length + i := by
    simp only [List.length_append, List.length_map, List.length_singleton]
    omega
  rw [h.contents_eq, hstart, List.append_assoc,
    List.getElem?_append_right (Nat.le_add_right ..), Nat.add_sub_cancel_left,
    List.getElem?_append_left (by simpa using hlt), List.getElem?_map, hreward]
  rfl

end Ran

/-! ## What the contracts are shown -/

/-- The context variables of an input hold the positions of two outputs. -/
def ContextExtension.PointsTo (extension : ContextExtension) (redeemerOutIx succIx : ℕ) : Prop :=
  ∃ redeemer succ : I32, extension.values = [(0, .int redeemer), (1, .int succ)] ∧
    redeemer.toInt = redeemerOutIx ∧ succ.toInt = succIx

omit [ErgoLib] in
theorem pointsTo_bundleInput {firstBundleOutIx numBundles i : ℕ} {bundle : AsBox StakingBundle}
    (hle : firstBundleOutIx + i + numBundles ≤ 32767) :
    (bundleInput firstBundleOutIx numBundles i bundle).2.PointsTo
      (firstBundleOutIx + i + numBundles) (firstBundleOutIx + i) := by
  refine ⟨_, _, rfl, ?_, ?_⟩
  · rw [BitVec.toInt_ofNat', Int.bmod_eq_of_le (by omega) (by omega)]
  · rw [BitVec.toInt_ofNat', Int.bmod_eq_of_le (by omega) (by omega)]

/-- The outputs of a transaction at the two positions are the successor of a bundle, which is the
predicted one, and the reward of its redeemer. -/
structure TransactionCandidate.Settles (tx : TransactionCandidate) (pool : Pool)
    (epochsRemain : ℕ) (bundle : StakingBundle) (next : AsBox StakingBundle)
    (redeemerOutIx succIx : ℕ) : Prop where
  bx_eq : tx.outputs[succIx]? = some next.bx
  read_eq : tx.readOutput succIx StakingBundle.tryFromBox = some next
  succeeds : bundle.Succeeds epochsRemain next.value
  rewarded : ∃ out, tx.outputs[redeemerOutIx]? = some out ∧
    out.ergoTree = ErgoLib.p2pkTree bundle.redeemerProp ∧
    out.contents = (pool.rewardOutput epochsRemain bundle).contents

section Ran

variable {pool : AsBox Pool} {bundles : List (AsBox StakingBundle)}
  {funding : NonEmpty (AsBox DistributionFunding)} {tx : TransactionCandidate}
  {nextPool : AsBox Pool} {nextBundles : List (Predicted (AsBox StakingBundle))}
  {nextFunding : Option (Predicted (AsBox DistributionFunding))}
  {settled : List StakingBundle} {residual : Option DistributionFundingProto}
  {rewards : List RewardOutput} {minerOut : MinerOutput} {epochIx total i : ℕ}
  (h : CompoundRan pool bundles funding tx nextPool nextBundles nextFunding settled residual
    rewards minerOut epochIx total)
include h

theorem CompoundRan.length_outputs :
    tx.outputCandidates.toList.length =
      1 + residual.toList.length + bundles.length + bundles.length + 1 := by
  have hlength := congrArg List.length h.contents_eq
  rw [h.applied.nextBundles_eq, h.applied.rewardOutputs_eq] at hlength
  simp only [List.length_append, List.length_map, List.length_singleton] at hlength
  omega

/-- The `i`-th bundle and the `i`-th reward behind the pool and the residual funding settle the
`i`-th bundle. -/
theorem CompoundRan.settles {bundle : AsBox StakingBundle} (hbundle : bundles[i]? = some bundle) :
    ∃ next, nextBundles[i]? = some next ∧
      tx.Settles pool.value (pool.value.epochsRemain epochIx) bundle.value next.value
        (1 + residual.toList.length + i + bundles.length)
        (1 + residual.toList.length + i) := by
  obtain ⟨hlt, hget⟩ := List.getElem?_eq_some_iff.mp hbundle
  have hburned := h.applied.burned bundle.value
    (List.mem_map_of_mem (hget ▸ List.getElem_mem hlt))
  have hsettled : settled[i]? =
      some (Pool.settle (pool.value.epochsRemain epochIx) bundle.value) := by
    rw [h.applied.nextBundles_eq, List.getElem?_map, List.getElem?_map, hbundle]
    rfl
  have hreward : rewards[i]? =
      some (pool.value.rewardOutput (pool.value.epochsRemain epochIx) bundle.value) := by
    rw [h.applied.rewardOutputs_eq, List.getElem?_map, List.getElem?_map, hbundle]
    rfl
  have hlength : settled.length = bundles.length := by
    rw [h.applied.nextBundles_eq, List.length_map, List.length_map]
  have hfunding : nextFunding.toList.length = residual.toList.length := by
    simp only [Option.length_toList, h.funding_isSome]
  obtain ⟨next, hnext⟩ : ∃ next, nextBundles[i]? = some next :=
    ⟨_, List.getElem?_eq_getElem (by rw [h.bundles_length, hlength]; exact hlt)⟩
  obtain ⟨proto, hproto, hbx, heq⟩ := h.bundles_eq i next hnext
  obtain rfl := Option.some.inj (hsettled.symm.trans hproto)
  rw [hfunding] at hbx
  refine ⟨next, hnext, hbx, readOutput_bundle hbx heq (h.getElem?_contents hsettled), ?_, ?_⟩
  · rw [heq, Pool.toProto_settle]
    exact StakingBundle.succeeds_settle hburned _
  · have hcontents := h.getElem?_contents_reward hreward
    rw [hlength] at hcontents
    obtain ⟨out, hout⟩ : ∃ out,
        tx.outputs[1 + residual.toList.length + i + bundles.length]? = some out := by
      refine ⟨_, List.getElem?_eq_getElem ?_⟩
      rw [TransactionCandidate.outputs, List.length_mapIdx, h.length_outputs]
      omega
    obtain ⟨c, hc, rfl⟩ := TransactionCandidate.exists_of_output hout hcontents
    exact ⟨_, hout, congrArg BoxContents.ergoTree hc, hc⟩

end Ran

/-- The input of every bundle points at its successor and at the reward of its redeemer, and no two
of these outputs are the same. -/
theorem Compound.pointers_of_tryRun {self : Compound} {pool : AsBox Pool}
    {bundles : List (AsBox StakingBundle)} {funding : NonEmpty (AsBox DistributionFunding)}
    {ctx : ExecutionContext} {tx : TransactionCandidate} {nextPool : Predicted (AsBox Pool)}
    {nextBundles : List (Predicted (AsBox StakingBundle))}
    {nextFunding : Option (Predicted (AsBox DistributionFunding))}
    (hprop : ∀ f ∈ funding.toList, f.value.prop ≠ bundleValidator)
    (h : self.tryRun pool bundles funding ctx = .ok (tx, nextPool, nextBundles, nextFunding)) :
    ∃ (epochIx : ℕ) (redeemerOutIx succIx : ℕ → ℕ),
      (pool.value.compoundingEpochIx : Outcome PoolOperationError ℕ) = .ok epochIx ∧
      ((List.range bundles.length).map redeemerOutIx ++
        (List.range bundles.length).map succIx).Nodup ∧
      nextBundles.length = bundles.length ∧
      ∀ (i : ℕ) (bundle : AsBox StakingBundle), bundles[i]? = some bundle →
        ∃ (extension : ContextExtension) (next : Predicted (AsBox StakingBundle)),
          tx.inputs.toList[1 + funding.toList.length + i]? = some (bundle.bx, extension) ∧
          extension.PointsTo (redeemerOutIx i) (succIx i) ∧ nextBundles[i]? = some next ∧
          tx.Settles pool.value (pool.value.epochsRemain epochIx) bundle.value next.value
            (redeemerOutIx i) (succIx i) := by
  obtain ⟨settled, residual, rewards, minerOut, epochIx, total, hran⟩ := tryRun_ok h
  obtain ⟨firstBundleOutIx, hfirst, hinputs⟩ := inputs_of_tryRun h
  refine ⟨epochIx, fun i => 1 + residual.toList.length + i + bundles.length,
    fun i => 1 + residual.toList.length + i, hran.applied.epochIx_eq, ?_, ?_, ?_⟩
  · refine List.nodup_append.mpr ⟨?_, ?_, ?_⟩
    · exact List.nodup_range.map fun i j hij => by simpa using hij
    · exact List.nodup_range.map fun i j hij => by simpa using hij
    · -- the rewards come behind all of the bundles
      intro ix hredeemer ix' hsucc
      obtain ⟨i, -, rfl⟩ := List.mem_map.mp hredeemer
      obtain ⟨j, hj, rfl⟩ := List.mem_map.mp hsucc
      have hlt := List.mem_range.mp hj
      omega
  · rw [hran.bundles_length, hran.applied.nextBundles_eq, List.length_map, List.length_map]
  · intro i bundle hbundle
    have hlt : i < bundles.length := (List.getElem?_eq_some_iff.mp hbundle).1
    have hne : bundles ≠ [] := List.ne_nil_of_length_pos (Nat.zero_lt_of_lt hlt)
    obtain rfl := hran.firstBundleOutIx_eq hprop hne hfirst
    obtain ⟨next, hnext, hsettles⟩ := hran.settles hbundle
    refine ⟨(bundleInput _ bundles.length i bundle).2, next, ?_, pointsTo_bundleInput ?_, hnext,
      hsettles⟩
    · have hstart : 1 + funding.toList.length + i = (([pool.bx] ++ funding.toList.map AsBox.bx).map
          (fun bx => (bx, ContextExtension.empty))).length + i := by
        simp only [List.length_map, List.length_append, List.length_singleton]
      rw [hinputs, hstart, List.getElem?_append_right (Nat.le_add_right ..),
        Nat.add_sub_cancel_left, List.getElem?_mapIdx, hbundle]
      rfl
    · -- there are not too many outputs for the type of the variables
      have hle := tx.outputCandidates.le_hi
      rw [hran.length_outputs] at hle
      omega

end ErgoLib

/-! ## Two bundles in one order -/

namespace Sample

open Staking.Sample

def bothBundles : List (AsBox StakingBundle) := [⟨bundleBox, bundle⟩, ⟨joinedBox, joined⟩]

def compoundBoth : Compound := ⟨⟨digest 0⟩, 1, 0, [⟨digest 5⟩, ⟨digest 10⟩]⟩

theorem compoundingEpochIx_joinedPool :
    (joinedPool.compoundingEpochIx : Outcome PoolOperationError ℕ) = .ok 1 := by decide +kernel

theorem distributeRewards_both :
    joinedPool.distributeRewards [bundle, joined] funding =
      .ok ({ joinedPool with
          budgetRem := ⟨digest 1, 9002⟩
          reservesTmp := ⟨digest 4, maxValue - 1800⟩
          epochIx := some 1 },
        [compoundedBundle, joinedCompounded], some ⟨⟨[]⟩, 500000⟩,
        [rewardOf 499 ⟨[]⟩, rewardOf 499 ⟨[7]⟩], ⟨defaultMinerFeeForCompoundTx⟩) := by
  decide +kernel

theorem exists_tryRun_both : ∃ tx nextPool nextBundles nextFunding,
    compoundBoth.tryRun ⟨joinedPoolBox, joinedPool⟩ bothBundles richFunding context =
      .ok (tx, nextPool, nextBundles, nextFunding) := by
  have hrun : ∃ result, compoundBoth.tryRun ⟨joinedPoolBox, joinedPool⟩ bothBundles richFunding
      context = .ok result := by
    refine Compound.exists_tryRun compoundBoth distributeRewards_both ?_ ?_ ?_ ?_ ?_ ?_ ?_ ?_
    · decide +kernel
    · decide +kernel
    · decide +kernel
    · decide +kernel
    · decide +kernel
    · simp [bothBundles]
    · decide
    · decide
  obtain ⟨⟨tx, nextPool, nextBundles, nextFunding⟩, hok⟩ := hrun
  exact ⟨tx, nextPool, nextBundles, nextFunding, hok⟩

end Sample

open Staking.Sample Sample in
/-- The inputs behind the pool and the funding are the two bundles, and the four outputs that they
point at are distinct. -/
theorem Compound.pointers_of_tryRun_sample : ∃ tx nextPool nextBundles nextFunding,
    compoundBoth.tryRun ⟨joinedPoolBox, joinedPool⟩ bothBundles richFunding context =
        .ok (tx, nextPool, nextBundles, nextFunding) ∧
      nextBundles.length = 2 ∧ ∃ redeemerOutIx succIx : ℕ → ℕ,
        [redeemerOutIx 0, redeemerOutIx 1, succIx 0, succIx 1].Nodup ∧
        (∃ extension next, tx.inputs.toList[2]? = some (bundleBox, extension) ∧
          extension.PointsTo (redeemerOutIx 0) (succIx 0) ∧ nextBundles[0]? = some next ∧
          tx.Settles joinedPool 9 bundle next.value (redeemerOutIx 0) (succIx 0)) ∧
        ∃ extension next, tx.inputs.toList[3]? = some (joinedBox, extension) ∧
          extension.PointsTo (redeemerOutIx 1) (succIx 1) ∧ nextBundles[1]? = some next ∧
          tx.Settles joinedPool 9 joined next.value (redeemerOutIx 1) (succIx 1) := by
  obtain ⟨tx, nextPool, nextBundles, nextFunding, hok⟩ := exists_tryRun_both
  refine ⟨tx, nextPool, nextBundles, nextFunding, hok, ?_⟩
  obtain ⟨epochIx, redeemerOutIx, succIx, hepoch, hnodup, hlength, hpoints⟩ :=
    pointers_of_tryRun (by decide +kernel) hok
  obtain rfl : 1 = epochIx := Outcome.ok.inj (compoundingEpochIx_joinedPool.symm.trans hepoch)
  exact ⟨hlength, redeemerOutIx, succIx, hnodup, hpoints 0 ⟨bundleBox, bundle⟩ rfl,
    hpoints 1 ⟨joinedBox, joined⟩ rfl⟩

end SpectrumOffchain
