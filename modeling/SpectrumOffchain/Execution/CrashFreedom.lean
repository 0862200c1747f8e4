import SpectrumOffchain.Execution.Prediction

/-!
# Orders that crash the bot

A deposit or a redeem that is refused is refused with an error, but an order that passes
the checks of the pool can still ask for more than the reserves can pay, or leave a
reserve with an amount that is no token amount, and nobody checks for that before the
subtraction and the conversion are unwrapped.  The compounding of rewards does: it
refuses to leave a budget of zero.  Here it is said exactly which orders crash the bot.

## The two conditions

An operation first checks (`AdmitsDeposit`, `AdmitsRedeem`) and then subtracts and adds
without a check.  An order that is not admitted ends in an error, whatever the reserves
are; one that is admitted returns exactly when the reserves cover it (`CoversDeposit`,
`CoversRedeem`).  The last conjunct of the cover is about writing the boxes, and it is only
reached by orders that pay for their outputs, since those that do not are refused in
between (`PaysDeposit`, `PaysRedeem`).

So the crashes of a run are found in three steps: where the operation itself crashes
(`applyDeposit_ne_crash_of_admits`, `exists_applyDeposit` and the same for a redeem), which
of its outputs cannot be written, and that what was read off a box can always be written
again (`Pool.writable_of_tryFromBox`, `StakingBundle.writable_of_tryFromBox`).
-/

namespace SpectrumOffchain

/-! ## Which orders crash -/

namespace Pool

/-- The deposit passes the checks of the pool. -/
def AdmitsDeposit (pool : Pool) (deposit : Deposit) (ctx : ExecutionContext) : Prop :=
  (pool.numEpochsRemain ctx.height : Outcome PoolOperationError ℕ) =
      .ok deposit.expectedNumEpochs ∧
    1 ≤ deposit.expectedNumEpochs ∧
    (pool.epochCompleted : Outcome PoolOperationError Bool) = .ok true

/-- The deposit pays for its outputs. -/
def PaysDeposit (deposit : Deposit) : Prop :=
  minSafeFatBoxValue + minSafeFatBoxValue + defaultMinerFee + minSafeBoxValue ≤ deposit.ergValue

/-- The reserves can pay for the deposit, and what is left of them can be written if the outputs
are paid for. -/
def CoversDeposit (pool : Pool) (deposit : Deposit) : Prop :=
  deposit.lq.amount ≤ pool.reservesVlq.amount ∧
    deposit.expectedNumEpochs * deposit.lq.amount ≤ pool.reservesTmp.amount ∧
    (PaysDeposit deposit →
      deposit.lq.amount < pool.reservesVlq.amount ∧
        deposit.expectedNumEpochs * deposit.lq.amount < pool.reservesTmp.amount ∧
        pool.reservesLq.amount + deposit.lq.amount ≤ i64Max)

/-- The redeem passes the checks of the pool. -/
def AdmitsRedeem (pool : Pool) (redeem : Redeem) (bundle : StakingBundle) : Prop :=
  redeem.expectedLq.amount = bundle.vlq.amount ∧
    (pool.redeemBlocked bundle : Outcome PoolOperationError Bool) = .ok false

/-- The redeem and the bundle pay for their outputs. -/
def PaysRedeem (redeem : Redeem) (bundle : StakingBundle) : Prop :=
  minSafeBoxValue + defaultMinerFee + minSafeBoxValue ≤ redeem.ergValue + bundle.ergValue

/-- The reserves can pay for the redeem, and what they become can be written if the outputs are paid
for. -/
def CoversRedeem (pool : Pool) (redeem : Redeem) (bundle : StakingBundle) : Prop :=
  bundle.vlq.amount ≤ pool.reservesLq.amount ∧
    (PaysRedeem redeem bundle →
      bundle.vlq.amount < pool.reservesLq.amount ∧
        pool.reservesVlq.amount + bundle.vlq.amount ≤ i64Max ∧
        pool.reservesTmp.amount + bundle.toProto.tmpAmount ≤ i64Max ∧
        redeem.ergValue + bundle.ergValue ≤ i64Max + minSafeBoxValue + defaultMinerFee)

/-! ## The operations -/

/-- A deposit that is admitted crashes when the arithmetic does. -/
theorem applyDeposit_ne_crash_of_admits {pool : Pool} {deposit : Deposit} {ctx : ExecutionContext}
    (h : pool.AdmitsDeposit deposit ctx) (tokenDetails : TokenDetails) :
    pool.applyDeposit deposit tokenDetails ctx ≠ .crash ↔
      deposit.expectedNumEpochs * deposit.lq.amount < 2 ^ 64 ∧
        pool.reservesLq.amount + deposit.lq.amount < 2 ^ 64 ∧
        deposit.lq.amount ≤ pool.reservesVlq.amount ∧
        deposit.expectedNumEpochs * deposit.lq.amount ≤ pool.reservesTmp.amount := by
  obtain ⟨hremain, hpos, hcompleted⟩ := h
  simp only [applyDeposit, hremain, hcompleted, Outcome.ok_bind,
    Outcome.failIf_neg (not_lt.mpr hpos), Outcome.failIf_neg Bool.true_eq_false.mp,
    Outcome.failIf_neg (not_not.mpr rfl), Outcome.bind_ne_crash, Outcome.checkedMul_ne_crash,
    Outcome.checkedMul_eq_ok, TypedAssetAmount.add_ne_crash, TypedAssetAmount.add_eq_ok,
    TypedAssetAmount.sub_ne_crash, TypedAssetAmount.sub_eq_ok, Outcome.pure_eq]
  constructor
  · rintro ⟨hmul, h⟩
    obtain ⟨hlq, h⟩ := h _ ⟨hmul, rfl⟩
    obtain ⟨hvlq, h⟩ := h _ ⟨hlq, rfl⟩
    obtain ⟨htmp, -⟩ := h _ ⟨hvlq, rfl⟩
    exact ⟨hmul, hlq, hvlq, htmp⟩
  · rintro ⟨hmul, hlq, hvlq, htmp⟩
    refine ⟨hmul, ?_⟩
    rintro _ ⟨-, rfl⟩
    refine ⟨hlq, ?_⟩
    rintro _ ⟨-, rfl⟩
    refine ⟨hvlq, ?_⟩
    rintro _ ⟨-, rfl⟩
    refine ⟨htmp, ?_⟩
    rintro _ ⟨-, rfl⟩
    split
    · simp
    · simp

theorem exists_applyDeposit {pool : Pool} {deposit : Deposit} {tokenDetails : TokenDetails}
    {ctx : ExecutionContext} (h : pool.AdmitsDeposit deposit ctx) (hpays : PaysDeposit deposit)
    (hok : pool.applyDeposit deposit tokenDetails ctx ≠ .crash) :
    ∃ result, pool.applyDeposit deposit tokenDetails ctx = .ok result := by
  obtain ⟨hmul, hlq, hvlq, htmp⟩ := (applyDeposit_ne_crash_of_admits h tokenDetails).mp hok
  obtain ⟨hremain, hpos, hcompleted⟩ := h
  have hremainder : minSafeBoxValue ≤ safeSub (safeSub (safeSub deposit.ergValue
      minSafeFatBoxValue) minSafeFatBoxValue) defaultMinerFee := by
    unfold PaysDeposit at hpays
    unfold safeSub
    omega
  simp only [applyDeposit, hremain, hcompleted, Outcome.ok_bind,
    Outcome.failIf_neg (not_lt.mpr hpos), Outcome.failIf_neg Bool.true_eq_false.mp,
    Outcome.failIf_neg (not_not.mpr rfl), Outcome.bind_eq_ok, Outcome.checkedMul_eq_ok,
    TypedAssetAmount.add_eq_ok, TypedAssetAmount.sub_eq_ok]
  exact ⟨_, _, ⟨hmul, rfl⟩, _, ⟨hlq, rfl⟩, _, ⟨hvlq, rfl⟩, _, ⟨htmp, rfl⟩, if_pos hremainder⟩

/-- A deposit that is not admitted is refused before any arithmetic is done. -/
theorem applyDeposit_ne_crash_of_not_admits {pool : Pool} {deposit : Deposit}
    {ctx : ExecutionContext} (h : ¬ pool.AdmitsDeposit deposit ctx)
    (hnum : pool.conf.epochNum ≠ 0) (hlen : pool.conf.epochLen ≠ 0) (tokenDetails : TokenDetails) :
    pool.applyDeposit deposit tokenDetails ctx ≠ .crash := by
  have hremain := numEpochsRemain_ne_crash (ε := PoolOperationError) ctx.height_lt hlen
  have hcompleted := epochCompleted_eq (ε := PoolOperationError) hnum
  simp only [applyDeposit, hcompleted, Outcome.bind_ne_crash]
  refine ⟨hremain, fun remain hok => ⟨Outcome.failIf_ne_crash, fun _ hpos => ?_⟩⟩
  refine ⟨by simp, fun completed hflag => ⟨Outcome.failIf_ne_crash, fun _ hopen => ?_⟩⟩
  refine ⟨hremain, fun remain' hok' => ⟨Outcome.failIf_ne_crash, fun _ hexpected => ?_⟩⟩
  rw [Outcome.failIf_eq_ok] at hpos hopen hexpected
  obtain rfl := Outcome.ok.inj (hok.symm.trans hok')
  refine absurd ⟨not_not.mp hexpected ▸ hok, ?_, ?_⟩ h
  · omega
  · rw [hcompleted, hflag]
    exact congrArg Outcome.ok (by simpa using hopen)

theorem DepositApplied.admits {pool : Pool} {deposit : Deposit} {tokenDetails : TokenDetails}
    {ctx : ExecutionContext} {nextPool : Pool} {bundle : StakingBundleProto}
    {userOutput : DepositOutput} {executorOutput : ExecutorOutput} {minerOutput : MinerOutput}
    (h : DepositApplied pool deposit tokenDetails ctx nextPool bundle userOutput executorOutput
      minerOutput) : pool.AdmitsDeposit deposit ctx :=
  ⟨h.epochs, h.epochs_pos, epochCompleted_eq_ok.mpr ⟨h.epochNum_ne, h.completed⟩⟩

/-- A redeem that is admitted crashes when the arithmetic does. -/
theorem applyRedeem_ne_crash_of_admits {pool : Pool} {redeem : Redeem} {bundle : StakingBundle}
    (h : pool.AdmitsRedeem redeem bundle) (ctx : ExecutionContext) :
    pool.applyRedeem redeem bundle ctx ≠ .crash ↔
      redeem.expectedLq.amount ≤ pool.reservesLq.amount ∧
        pool.reservesVlq.amount + bundle.vlq.amount < 2 ^ 64 ∧
        (bundle.tmp.isSome → pool.reservesTmp.amount + bundle.toProto.tmpAmount < 2 ^ 64) ∧
        redeem.ergValue + bundle.ergValue < 2 ^ 64 := by
  obtain ⟨hamount, hopen⟩ := h
  simp only [applyRedeem, hopen, Outcome.ok_bind, Outcome.failIf_neg (not_not.mpr hamount),
    Outcome.failIf_neg Bool.false_ne_true, Outcome.bind_ne_crash, Outcome.checkedAdd_ne_crash,
    Outcome.checkedAdd_eq_ok, TypedAssetAmount.add_ne_crash, TypedAssetAmount.add_eq_ok,
    TypedAssetAmount.sub_ne_crash, TypedAssetAmount.sub_eq_ok, returnTmp_ne_crash,
    returnTmp_eq_ok, Outcome.pure_eq]
  constructor
  · rintro ⟨hlq, h⟩
    obtain ⟨hvlq, h⟩ := h _ ⟨hlq, rfl⟩
    obtain ⟨htmp, h⟩ := h _ ⟨hvlq, rfl⟩
    obtain ⟨herg, -⟩ := h _ ⟨htmp, rfl⟩
    exact ⟨hlq, hvlq, htmp, herg⟩
  · rintro ⟨hlq, hvlq, htmp, herg⟩
    refine ⟨hlq, ?_⟩
    rintro _ ⟨-, rfl⟩
    refine ⟨hvlq, ?_⟩
    rintro _ ⟨-, rfl⟩
    refine ⟨htmp, ?_⟩
    rintro _ ⟨-, rfl⟩
    refine ⟨herg, ?_⟩
    rintro _ ⟨-, rfl⟩
    split
    · simp
    · simp

theorem exists_applyRedeem {pool : Pool} {redeem : Redeem} {bundle : StakingBundle}
    {ctx : ExecutionContext} (h : pool.AdmitsRedeem redeem bundle)
    (hpays : PaysRedeem redeem bundle) (hok : pool.applyRedeem redeem bundle ctx ≠ .crash) :
    ∃ result, pool.applyRedeem redeem bundle ctx = .ok result := by
  obtain ⟨hlq, hvlq, htmp, herg⟩ := (applyRedeem_ne_crash_of_admits h ctx).mp hok
  obtain ⟨hamount, hopen⟩ := h
  have hremainder : minSafeBoxValue ≤ safeSub (safeSub (redeem.ergValue + bundle.ergValue)
      minSafeBoxValue) defaultMinerFee := by
    unfold PaysRedeem at hpays
    unfold safeSub
    omega
  simp only [applyRedeem, hopen, Outcome.ok_bind, Outcome.failIf_neg (not_not.mpr hamount),
    Outcome.failIf_neg Bool.false_ne_true, Outcome.bind_eq_ok, Outcome.checkedAdd_eq_ok,
    TypedAssetAmount.add_eq_ok, TypedAssetAmount.sub_eq_ok, returnTmp_eq_ok]
  exact ⟨_, _, ⟨hlq, rfl⟩, _, ⟨hvlq, rfl⟩, _, ⟨htmp, rfl⟩, _, ⟨herg, rfl⟩, if_pos hremainder⟩

/-- A redeem that is not admitted is refused before any arithmetic is done. -/
theorem applyRedeem_ne_crash_of_not_admits {pool : Pool} {redeem : Redeem}
    {bundle : StakingBundle} (h : ¬ pool.AdmitsRedeem redeem bundle)
    (hnum : pool.conf.epochNum ≠ 0) (ctx : ExecutionContext) :
    pool.applyRedeem redeem bundle ctx ≠ .crash := by
  have hblocked : (pool.redeemBlocked bundle : Outcome PoolOperationError Bool) ≠ .crash := by
    unfold redeemBlocked
    rw [epochCompleted_eq hnum]
    split
    · simp
    · simp
  simp only [applyRedeem, Outcome.bind_ne_crash]
  refine ⟨Outcome.failIf_ne_crash, fun _ hamount => ⟨hblocked, fun blocked hok => ?_⟩⟩
  refine ⟨Outcome.failIf_ne_crash, fun _ hopen => ?_⟩
  rw [Outcome.failIf_eq_ok] at hamount hopen
  obtain rfl : blocked = false := by simpa using hopen
  exact absurd ⟨not_not.mp hamount, hok⟩ h

theorem RedeemApplied.admits {pool : Pool} {redeem : Redeem} {bundle : StakingBundle}
    {ctx : ExecutionContext} {nextPool : Pool} {userOutput : RedeemOutput}
    {executorOutput : ExecutorOutput} {minerOutput : MinerOutput}
    (h : RedeemApplied pool redeem bundle ctx nextPool userOutput executorOutput minerOutput) :
    pool.AdmitsRedeem redeem bundle := by
  refine ⟨h.amount_eq, redeemBlocked_eq_ok.mpr ?_⟩
  split_ifs with hne
  · obtain ⟨hnum, hcompleted⟩ := h.completed hne
    exact ⟨hnum, by rw [hcompleted]; rfl⟩
  · rfl

end Pool

/-! ## What is read can be written -/

theorem Pool.writable_contents_iff {pool : Pool} : pool.contents.Writable ↔
    (1 ≤ pool.budgetRem.amount ∧ pool.budgetRem.amount ≤ i64Max) ∧
      (1 ≤ pool.reservesLq.amount ∧ pool.reservesLq.amount ≤ i64Max) ∧
      (1 ≤ pool.reservesVlq.amount ∧ pool.reservesVlq.amount ≤ i64Max) ∧
      (1 ≤ pool.reservesTmp.amount ∧ pool.reservesTmp.amount ≤ i64Max) ∧
      1 ≤ pool.ergValue ∧ pool.ergValue ≤ i64Max := by
  have hnft : 1 ≤ unitValue ∧ unitValue ≤ i64Max := by decide
  simp only [BoxContents.Writable, contents, poolNft, TypedAssetAmount.asset, List.forall_mem_cons,
    hnft, and_true, true_and, and_assoc, List.not_mem_nil, false_imp_iff, implies_true]

theorem Pool.writable_of_tryFromBox {bx : ErgoBox} {pool : Pool}
    (h : Pool.tryFromBox bx = some pool) : pool.contents.Writable := by
  obtain ⟨herg, n, -, hassets⟩ := Pool.assets_of_tryFromBox h
  obtain ⟨hbox, hvalue⟩ := bx.writable_contents
  change ∀ a ∈ bx.assets, _ at hbox
  simp only [hassets, List.forall_mem_cons] at hbox
  obtain ⟨-, hbudget, hlq, hvlq, htmp, -⟩ := hbox
  rw [writable_contents_iff, herg]
  exact ⟨hbudget, hlq, hvlq, htmp, hvalue⟩

theorem StakingBundle.writable_of_tryFromBox {bx : ErgoBox} {bundle : StakingBundle}
    (h : StakingBundle.tryFromBox bx = some bundle) : bundle.toProto.contents.Writable := by
  obtain ⟨herg, n, -, hassets⟩ := StakingBundle.assets_of_tryFromBox h
  obtain ⟨hbox, hvalue⟩ := bx.writable_contents
  change ∀ a ∈ bx.assets, _ at hbox
  change 1 ≤ bx.value.toNat ∧ bx.value.toNat ≤ i64Max at hvalue
  rw [hassets] at hbox
  rw [← herg] at hvalue
  refine ⟨fun a hmem => ?_, hvalue⟩
  rcases List.mem_append.mp hmem with hmem | hmem
  · exact hbox a (List.mem_append_left _ hmem)
  · obtain rfl := List.mem_singleton.mp hmem
    show 1 ≤ bundleKeyAmount ∧ bundleKeyAmount ≤ i64Max
    decide

theorem StakingBundle.amounts_of_tryFromBox {bx : ErgoBox} {bundle : StakingBundle}
    (h : StakingBundle.tryFromBox bx = some bundle) :
    (1 ≤ bundle.vlq.amount ∧ bundle.vlq.amount ≤ i64Max) ∧
      bundle.toProto.tmpAmount ≤ i64Max ∧ bundle.ergValue ≤ i64Max := by
  obtain ⟨hassets, -, herg⟩ := writable_of_tryFromBox h
  simp only [StakingBundleProto.contents, List.forall_mem_append,
    List.forall_mem_singleton] at hassets
  obtain ⟨⟨hvlq, htmp⟩, -⟩ := hassets
  refine ⟨hvlq, ?_, herg⟩
  unfold StakingBundleProto.tmpAmount
  cases hcase : bundle.toProto.tmp with
  | none => exact Nat.zero_le _
  | some tmp =>
      rw [hcase] at htmp
      exact (htmp tmp.asset (List.mem_singleton_self _)).2

section ErgoLib

variable [ErgoLib]

theorem Deposit.amounts_of_tryFromBox {bx : ErgoBox} {deposit : Deposit}
    (h : Deposit.tryFromBox bx = some deposit) :
    (1 ≤ deposit.lq.amount ∧ deposit.lq.amount ≤ i64Max) ∧ deposit.ergValue ≤ i64Max := by
  obtain ⟨herg, hassets⟩ := assets_of_tryFromBox h
  obtain ⟨hbox, hvalue⟩ := bx.writable_contents
  change ∀ a ∈ bx.assets, _ at hbox
  rw [hassets] at hbox
  refine ⟨hbox deposit.lq.asset (List.mem_singleton_self _), ?_⟩
  rw [herg]
  exact hvalue.2

theorem Redeem.ReadFrom.ergValue_le {redeem : Redeem} {bx : ErgoBox} (h : redeem.ReadFrom bx) :
    redeem.ergValue ≤ i64Max := by
  rw [h.assets.1]
  exact bx.value.le_max

/-! ## Runs -/

/-- What an admitted deposit writes, apart from the pool. -/
theorem Pool.DepositApplied.writable {pool : Pool} {deposit : Deposit} {tokenDetails : TokenDetails}
    {ctx : ExecutionContext} {nextPool : Pool} {bundle : StakingBundleProto}
    {userOutput : DepositOutput} {executorOutput : ExecutorOutput} {minerOutput : MinerOutput}
    (h : DepositApplied pool deposit tokenDetails ctx nextPool bundle userOutput executorOutput
      minerOutput)
    (hlq : 1 ≤ deposit.lq.amount ∧ deposit.lq.amount ≤ i64Max) (herg : deposit.ergValue ≤ i64Max)
    (htmp : deposit.expectedNumEpochs * deposit.lq.amount ≤ i64Max) :
    userOutput.contents.Writable ∧ bundle.contents.Writable ∧ executorOutput.contents.Writable ∧
      minerOutput.contents.Writable := by
  have hfat : 1 ≤ minSafeFatBoxValue ∧ minSafeFatBoxValue ≤ i64Max := by decide
  have hkey : 1 ≤ bundleKeyAmountUser ∧ bundleKeyAmountUser ≤ i64Max := by decide
  have hone : 1 ≤ bundleKeyAmount ∧ bundleKeyAmount ≤ i64Max := by decide
  have hfee : 1 ≤ defaultMinerFee ∧ defaultMinerFee ≤ i64Max := by decide
  have hsafe : 1 ≤ minSafeBoxValue := by decide
  have hexecutor : executorOutput.ergValue =
      deposit.ergValue - minSafeFatBoxValue - minSafeFatBoxValue - defaultMinerFee := by
    rw [h.executorOutput_eq]
  have hle := h.erg_le
  refine ⟨?_, ?_, ?_, ?_⟩
  · rw [h.userOutput_eq]
    exact ⟨List.forall_mem_singleton.mpr hkey, hfat⟩
  · have hpos : 1 ≤ deposit.expectedNumEpochs * deposit.lq.amount :=
      Nat.mul_pos h.epochs_pos hlq.1
    rw [h.bundle_eq]
    refine ⟨?_, hfat⟩
    simp only [StakingBundleProto.contents, Option.toList_some, List.map_cons, List.map_nil,
      List.forall_mem_append, List.forall_mem_singleton]
    exact ⟨⟨hlq, hpos, htmp⟩, hone⟩
  · refine ⟨List.forall_mem_nil _, ?_⟩
    show 1 ≤ executorOutput.ergValue ∧ executorOutput.ergValue ≤ i64Max
    omega
  · rw [h.minerOutput_eq]
    exact ⟨List.forall_mem_nil _, hfee⟩

theorem Deposit.tryRun_ne_crash_iff {pool : AsBox Pool} {order : AsBox Deposit}
    (hpool : pool.value.contents.Writable) (hnum : pool.value.conf.epochNum ≠ 0)
    (hlen : pool.value.conf.epochLen ≠ 0) (horder : Deposit.tryFromBox order.bx = some order.value)
    (tokenDetails : TokenDetails) (ctx : ExecutionContext) :
    Deposit.tryRun order pool tokenDetails ctx ≠ .crash ↔
      (pool.value.AdmitsDeposit order.value ctx → pool.value.CoversDeposit order.value) := by
  obtain ⟨⟨hpos, hlq⟩, herg⟩ := Deposit.amounts_of_tryFromBox horder
  obtain ⟨hbudget, hpoolLq, hpoolVlq, hpoolTmp, hpoolErg⟩ := Pool.writable_contents_iff.mp hpool
  have hmax : i64Max < 2 ^ 63 := by decide
  rw [tryRun_ne_crash]
  constructor
  · intro ⟨happly, hwritable⟩ hadmits
    obtain ⟨-, -, hvlq, htmp⟩ :=
      (Pool.applyDeposit_ne_crash_of_admits hadmits tokenDetails).mp happly
    refine ⟨hvlq, htmp, fun hpays => ?_⟩
    obtain ⟨⟨nextPool, proto, userOut, executorOut, minerOut⟩, hok⟩ :=
      Pool.exists_applyDeposit hadmits hpays happly
    -- A box that can be written holds no more than an `i64`, which bounds the amounts before it.
    obtain ⟨hnext, -⟩ := hwritable _ _ _ _ _ hok
    have happlied := Pool.applyDeposit_ok hok
    obtain ⟨hbundleVlq, hbundleTmp⟩ := happlied.bundle_amounts
    obtain ⟨hnextLq, hnextVlq, hnextTmp⟩ := happlied.amounts
    obtain ⟨-, hwLq, hwVlq, hwTmp, -⟩ := Pool.writable_contents_iff.mp hnext
    omega
  · intro hcovers
    by_cases hadmits : pool.value.AdmitsDeposit order.value ctx
    · obtain ⟨hvlq, htmp, hkept⟩ := hcovers hadmits
      refine ⟨(Pool.applyDeposit_ne_crash_of_admits hadmits tokenDetails).mpr
        ⟨by omega, by omega, hvlq, htmp⟩, ?_⟩
      intro nextPool proto userOut executorOut minerOut hok
      have happlied := Pool.applyDeposit_ok hok
      obtain ⟨hltVlq, hltTmp, hleLq⟩ := hkept happlied.erg_le
      obtain ⟨hbundleVlq, hbundleTmp⟩ := happlied.bundle_amounts
      obtain ⟨hnextLq, hnextVlq, hnextTmp⟩ := happlied.amounts
      obtain ⟨-, -, hnextErg, hnextBudget⟩ := happlied.frame
      refine ⟨?_, happlied.writable ⟨hpos, hlq⟩ herg (by omega)⟩
      rw [Pool.writable_contents_iff, hnextErg, hnextBudget]
      refine ⟨hbudget, ⟨?_, ?_⟩, ⟨?_, ?_⟩, ⟨?_, ?_⟩, hpoolErg⟩
      all_goals omega
    · -- The guard refuses the order before any reserve is touched.
      refine ⟨Pool.applyDeposit_ne_crash_of_not_admits hadmits hnum hlen tokenDetails, ?_⟩
      intro nextPool proto userOut executorOut minerOut hok
      exact absurd (Pool.applyDeposit_ok hok).admits hadmits

theorem Pool.RedeemApplied.writable {pool : Pool} {redeem : Redeem} {bundle : StakingBundle}
    {ctx : ExecutionContext} {nextPool : Pool} {userOutput : RedeemOutput}
    {executorOutput : ExecutorOutput} {minerOutput : MinerOutput}
    (h : RedeemApplied pool redeem bundle ctx nextPool userOutput executorOutput minerOutput)
    (hvlq : 1 ≤ bundle.vlq.amount ∧ bundle.vlq.amount ≤ i64Max)
    (herg : redeem.ergValue + bundle.ergValue ≤ i64Max + minSafeBoxValue + defaultMinerFee) :
    userOutput.contents.Writable ∧ executorOutput.contents.Writable ∧
      minerOutput.contents.Writable := by
  have hsafe : 1 ≤ minSafeBoxValue ∧ minSafeBoxValue ≤ i64Max := by decide
  have hfee : 1 ≤ defaultMinerFee ∧ defaultMinerFee ≤ i64Max := by decide
  have hexecutor : executorOutput.ergValue =
      redeem.ergValue + bundle.ergValue - minSafeBoxValue - defaultMinerFee := by
    rw [h.executorOutput_eq]
  have hle := h.erg_le
  refine ⟨?_, ?_, ?_⟩
  · rw [h.userOutput_eq]
    refine ⟨List.forall_mem_singleton.mpr ?_, hsafe⟩
    show 1 ≤ redeem.expectedLq.amount ∧ redeem.expectedLq.amount ≤ i64Max
    rw [h.amount_eq]
    exact hvlq
  · refine ⟨List.forall_mem_nil _, ?_⟩
    show 1 ≤ executorOutput.ergValue ∧ executorOutput.ergValue ≤ i64Max
    omega
  · rw [h.minerOutput_eq]
    exact ⟨List.forall_mem_nil _, hfee⟩

theorem Redeem.tryRun_ne_crash_iff {pool : AsBox Pool} {order : AsBox Redeem}
    {bundle : AsBox StakingBundle} (hpool : pool.value.contents.Writable)
    (hnum : pool.value.conf.epochNum ≠ 0) (horder : order.value.ReadFrom order.bx)
    (hbundle : StakingBundle.tryFromBox bundle.bx = some bundle.value) (ctx : ExecutionContext) :
    Redeem.tryRun order pool bundle ctx ≠ .crash ↔
      (pool.value.AdmitsRedeem order.value bundle.value →
        pool.value.CoversRedeem order.value bundle.value) := by
  obtain ⟨hbundleVlq, hbundleTmp, hbundleErg⟩ := StakingBundle.amounts_of_tryFromBox hbundle
  have herg := horder.ergValue_le
  obtain ⟨hbudget, hpoolLq, hpoolVlq, hpoolTmp, hpoolErg⟩ := Pool.writable_contents_iff.mp hpool
  have hmax : i64Max < 2 ^ 63 := by decide
  have hsafe : 0 < minSafeBoxValue := by decide
  rw [tryRun_ne_crash]
  constructor
  · intro ⟨happly, hwritable⟩ hadmits
    obtain ⟨hlq, -, -, -⟩ := (Pool.applyRedeem_ne_crash_of_admits hadmits ctx).mp happly
    refine ⟨hadmits.1 ▸ hlq, fun hpays => ?_⟩
    obtain ⟨⟨nextPool, userOut, executorOut, minerOut⟩, hok⟩ :=
      Pool.exists_applyRedeem hadmits hpays happly
    -- The executor receives the rest of both boxes, so its own output is bounded as well.
    obtain ⟨hnext, -, ⟨-, -, hexecutor⟩, -⟩ := hwritable _ _ _ _ hok
    have happlied := Pool.applyRedeem_ok hok
    obtain ⟨hnextLq, hnextVlq, hnextTmp⟩ := happlied.amounts
    obtain ⟨-, hwLq, hwVlq, hwTmp, -⟩ := Pool.writable_contents_iff.mp hnext
    have hvalue : executorOut.ergValue = order.value.ergValue + bundle.value.ergValue -
        minSafeBoxValue - defaultMinerFee := by
      rw [happlied.executorOutput_eq]
    change executorOut.ergValue ≤ i64Max at hexecutor
    omega
  · intro hcovers
    by_cases hadmits : pool.value.AdmitsRedeem order.value bundle.value
    · obtain ⟨hlq, hkept⟩ := hcovers hadmits
      refine ⟨(Pool.applyRedeem_ne_crash_of_admits hadmits ctx).mpr
        ⟨hadmits.1 ▸ hlq, by omega, fun _ => by omega, by omega⟩, ?_⟩
      intro nextPool userOut executorOut minerOut hok
      have happlied := Pool.applyRedeem_ok hok
      obtain ⟨hltLq, hleVlq, hleTmp, hleErg⟩ := hkept happlied.erg_le
      obtain ⟨hnextLq, hnextVlq, hnextTmp⟩ := happlied.amounts
      obtain ⟨-, -, hnextErg, hnextBudget⟩ := happlied.frame
      refine ⟨?_, happlied.writable hbundleVlq hleErg⟩
      rw [Pool.writable_contents_iff, hnextErg, hnextBudget]
      refine ⟨hbudget, ⟨?_, ?_⟩, ⟨?_, ?_⟩, ⟨?_, ?_⟩, hpoolErg⟩
      all_goals omega
    · -- The guard refuses the order before any reserve is touched.
      refine ⟨Pool.applyRedeem_ne_crash_of_not_admits hadmits hnum ctx, ?_⟩
      intro nextPool userOut executorOut minerOut hok
      exact absurd (Pool.applyRedeem_ok hok).admits hadmits

/-- The orders on a pool that do not crash the bot are those that are refused and those that the
reserves of the pool cover. -/
structure CrashFree (pool : AsBox Pool) : Prop where
  deposit : ∀ (order : AsBox Deposit) tokenDetails ctx,
    Deposit.tryFromBox order.bx = some order.value →
    (Deposit.tryRun order pool tokenDetails ctx ≠ .crash ↔
      (pool.value.AdmitsDeposit order.value ctx → pool.value.CoversDeposit order.value))
  redeem : ∀ (order : AsBox Redeem) (bundle : AsBox StakingBundle) ctx,
    order.value.ReadFrom order.bx → StakingBundle.tryFromBox bundle.bx = some bundle.value →
    (Redeem.tryRun order pool bundle ctx ≠ .crash ↔
      (pool.value.AdmitsRedeem order.value bundle.value →
        pool.value.CoversRedeem order.value bundle.value))

/-- Of a pool read off its box. -/
theorem crashFree_of_tryFromBox {pool : AsBox Pool}
    (hpool : Pool.tryFromBox pool.bx = some pool.value) (hnum : 1 ≤ pool.value.conf.epochNum)
    (hlen : 1 ≤ pool.value.conf.epochLen) : CrashFree pool := by
  have hwritable := Pool.writable_of_tryFromBox hpool
  refine ⟨?_, ?_⟩
  · intro order tokenDetails ctx horder
    apply Deposit.tryRun_ne_crash_iff hwritable
    · omega
    · omega
    · exact horder
  · intro order bundle ctx horder hbundle
    apply Redeem.tryRun_ne_crash_iff hwritable
    · omega
    · exact horder
    · exact hbundle

end ErgoLib

open Sample in
theorem crashFree_of_tryFromBox_sample : CrashFree ⟨poolBox, Staking.Sample.pool⟩ :=
  crashFree_of_tryFromBox tryFromBox_poolBox (by decide) (by decide)

/-! ## A deposit of too many tokens -/

open Staking.Sample Sample in
/-- A deposit of as many tokens as there can be, which takes more out of the reserves than they
hold. -/
theorem greedy_deposit : ∃ (order : AsBox Deposit) (ctx : ExecutionContext),
    Pool.tryFromBox poolBox = some pool ∧ 1 ≤ pool.conf.epochNum ∧ 1 ≤ pool.conf.epochLen ∧
      pool.conf.epochNum ≤ pool.conf.programBudget.amount ∧
      Deposit.tryFromBox order.bx = some order.value ∧
      ∀ tokenDetails, Deposit.tryRun order ⟨poolBox, pool⟩ tokenDetails ctx = .crash := by
  have hcrash : ∀ tokenDetails, pool.applyDeposit (deposit (token (digest 20) maxValue))
      tokenDetails depositContext = .crash := by
    intro tokenDetails
    have hadmits : pool.AdmitsDeposit (deposit (token (digest 20) maxValue)) depositContext :=
      ⟨by decide +kernel, by decide, by decide +kernel⟩
    by_contra hne
    obtain ⟨hmul, -⟩ := (Pool.applyDeposit_ne_crash_of_admits hadmits tokenDetails).mp hne
    exact absurd hmul (by decide +kernel)
  refine ⟨⟨depositBox (token (digest 20) maxValue), deposit (token (digest 20) maxValue)⟩,
    depositContext, tryFromBox_poolBox, by decide, by decide, by decide,
    tryFromBox_depositBox _, fun tokenDetails => ?_⟩
  rw [Deposit.tryRun, hcrash]
  rfl

end SpectrumOffchain
