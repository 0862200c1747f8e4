import SpectrumOffchain.Execution.CrashFreedom
import SpectrumOffchain.Staking.Run

/-!
# Individual stakes

`Accounting` speaks of sums; here every staker is followed alone.  A `Stake` is all that
a bundle tells apart from its temporal tokens: its liquidity, the key that redeems it
and whom it belongs to.  Compounding rewrites bundles without touching their stakes, so
over a whole run the live stakes change by those deposited and those redeemed, and the
outputs that redeems pay are all of the stakes that they remove (`stakes_of_run`).

Whether a stake can be taken out again is another matter.  Between two epochs a redeem
of a live stake always passes the checks of the pool, and the reserves always cover it,
but a pool whose liquidity drops to zero cannot be written into a box: the bot builds the
transaction of every redeem except the one of the last stake, where it crashes
(`redeem_of_live`).

## Strategy

What the stakers are owed is a function of the actions of a run (`Action.staked`,
`Action.withdrawn`, `Action.due`), and what they get is what the operations return when they
are performed one after the other (`perform`, `payouts`).  `perform_of_step` says that a step
pays what is due, and both results are sums over the run.

For `redeem_of_live` the accounting turns the condition on the reserves into one on the
other stakes: the liquidity of the pool is the sum of the stakes, so it covers any one of
them, and something is left exactly if another one is not empty
(`Accounting.coversRedeem_iff`).
-/

namespace SpectrumOffchain

open Transition

/-- A bundle apart from its temporal tokens. -/
structure Stake where
  bundleKeyId : TypedAsset .bundleKey
  poolId : PoolId
  vlq : TypedAssetAmount .virtLq
  redeemerProp : SigmaProp
  ergValue : ℕ
  tokenName : String
  tokenDesc : String
  deriving DecidableEq, Repr

def StakingBundleProto.stake (b : StakingBundleProto) : Stake where
  bundleKeyId := b.bundleKeyId
  poolId := b.poolId
  vlq := b.vlq
  redeemerProp := b.redeemerProp
  ergValue := b.ergValue
  tokenName := b.tokenName
  tokenDesc := b.tokenDesc

namespace Staking

def stakes (bundles : Multiset StakingBundleProto) : Multiset Stake :=
  bundles.map StakingBundleProto.stake

@[simp] theorem stakes_cons (b : StakingBundleProto) (bundles : Multiset StakingBundleProto) :
    stakes (b ::ₘ bundles) = b.stake ::ₘ stakes bundles :=
  Multiset.map_cons _ _ _

@[simp] theorem stakes_add (bundles bundles' : Multiset StakingBundleProto) :
    stakes (bundles + bundles') = stakes bundles + stakes bundles' :=
  Multiset.map_add _ _ _

/-- Compounding leaves the stakes alone. -/
theorem stakes_settle (epochsRemain : ℕ) (bundles : List StakingBundle) :
    stakes (protos (bundles.map (Pool.settle epochsRemain))) = stakes (protos bundles) := by
  simp [stakes, protos, Function.comp_def, StakingBundleProto.stake, StakingBundleProto.settle]

/-! ## Conservation -/

/-- The stake that an action on a pool brings in: a deposit's, under the key minted for it. -/
def Action.staked (poolId : PoolId) (vlqId : TokenId) : Action → Multiset Stake
  | .deposit order tokenDetails ctx =>
      {{ bundleKeyId := ⟨ctx.mintableTokenId⟩
         poolId
         vlq := ⟨vlqId, order.lq.amount⟩
         redeemerProp := order.redeemerProp
         ergValue := minSafeFatBoxValue
         tokenName := tokenDetails.name
         tokenDesc := tokenDetails.description }}
  | .redeem _ _ _ => 0
  | .compound _ _ => 0

/-- The stake that an action takes out. -/
def Action.withdrawn : Action → Multiset Stake
  | .deposit _ _ _ => 0
  | .redeem _ bundle _ => {bundle.toProto.stake}
  | .compound _ _ => 0

/-- What is due to the one who redeems a bundle: all its liquidity, in an output guarded as the
order asks. -/
def Action.due : Action → List RedeemOutput
  | .deposit _ _ _ => []
  | .redeem order bundle _ =>
      [⟨⟨order.expectedLq.tokenId, bundle.vlq.amount⟩, order.redeemerProp, minSafeBoxValue⟩]
  | .compound _ _ => []

/-- What an operation makes of a pool, and the outputs that it pays to those who leave.  Nothing
where the operation fails. -/
def perform (pool : Pool) : Action → Option (Pool × List RedeemOutput)
  | .deposit deposit tokenDetails ctx =>
      match pool.applyDeposit deposit tokenDetails ctx with
      | .ok (nextPool, _) => some (nextPool, [])
      | _ => none
  | .redeem order bundle ctx =>
      match pool.applyRedeem order bundle ctx with
      | .ok (nextPool, userOutput, _) => some (nextPool, [userOutput])
      | _ => none
  | .compound bundles funding =>
      match pool.distributeRewards bundles funding with
      | .ok (nextPool, _) => some (nextPool, [])
      | _ => none

/-- The outputs that a sequence of operations pays to those who leave. -/
def payouts (pool : Pool) : List Action → List RedeemOutput
  | [] => []
  | action :: rest =>
      match perform pool action with
      | some (nextPool, outputs) => outputs ++ payouts nextPool rest
      | none => []

theorem stakes_step {s t : Staking} {action : Action} (hstep : Step s action t) :
    stakes t.live + action.withdrawn =
      stakes s.live + action.staked s.pool.poolId s.pool.reservesVlq.tokenId := by
  cases hstep with
  | @deposit deposit tokenDetails ctx pool bundle _ _ _ hok =>
      have happlied := Pool.applyDeposit_ok hok
      have hstake : ({bundle.stake} : Multiset Stake) =
          (Action.deposit deposit tokenDetails ctx).staked s.pool.poolId
            s.pool.reservesVlq.tokenId := by
        rw [happlied.bundle_eq]
        rfl
      rw [← hstake, stakes_cons, Action.withdrawn, add_zero, add_comm, Multiset.singleton_add]
  | redeem hlive hok =>
      rw [hlive, stakes_cons, Action.withdrawn, Action.staked, add_zero, add_comm,
        Multiset.singleton_add]
  | compound hlive hok =>
      obtain ⟨epochIx, total, hdist⟩ := Pool.distributeRewards_ok hok
      rw [hlive, hdist.nextBundles_eq, stakes_add, stakes_add, stakes_settle, Action.withdrawn,
        Action.staked]

/-- An operation that succeeds pays what is due. -/
theorem perform_of_step {pool nextPool : Pool} {action : Action}
    (hstep : PoolStep pool action nextPool) :
    perform pool action = some (nextPool, action.due) := by
  cases hstep with
  | deposit hok => simp only [perform, hok, Action.due]
  | @redeem _ order bundle ctx userOutput _ _ hok =>
      have happlied := Pool.applyRedeem_ok hok
      have hdue : [userOutput] = (Action.redeem order bundle ctx).due := by
        rw [happlied.userOutput_eq, Action.due, ← happlied.amount_eq]
      simp only [perform, hok, hdue]
  | compound hok => simp only [perform, hok, Action.due]

theorem payouts_of_run {pool lastPool : Pool} {actions : List Action}
    (hrun : Run PoolStep pool actions lastPool) :
    payouts pool actions = actions.flatMap Action.due := by
  induction hrun with
  | nil _ => rfl
  | cons hstep _ ih => rw [payouts, perform_of_step hstep, List.flatMap_cons, ← ih]

theorem PoolStep.vlqId {pool nextPool : Pool} {action : Action}
    (hstep : PoolStep pool action nextPool) :
    nextPool.reservesVlq.tokenId = pool.reservesVlq.tokenId := by
  cases hstep with
  | deposit hok => rw [(Pool.applyDeposit_ok hok).nextPool_eq]
  | redeem hok => rw [(Pool.applyRedeem_ok hok).nextPool_eq]
  | compound hok =>
      obtain ⟨_, _, hdist⟩ := Pool.distributeRewards_ok hok
      rw [hdist.nextPool_eq]

/-- Over any run, the stakes of the live bundles are those there were, with those deposited and
without those redeemed, whatever was compounded in between. -/
theorem stakes_run {s t : Staking} {actions : List Action} (hrun : Run Step s actions t) :
    stakes t.live + (actions.map Action.withdrawn).sum =
      stakes s.live +
        (actions.map (Action.staked s.pool.poolId s.pool.reservesVlq.tokenId)).sum := by
  induction hrun with
  | nil s => rfl
  | @cons s u t action rest hstep _ ih =>
      rw [hstep.pool.frame.poolId, hstep.pool.vlqId] at ih
      have hfirst := stakes_step hstep
      rw [List.map_cons, List.sum_cons, List.map_cons, List.sum_cons]
      calc stakes t.live + (action.withdrawn + (rest.map Action.withdrawn).sum)
          = stakes t.live + (rest.map Action.withdrawn).sum + action.withdrawn := by abel
        _ = stakes u.live + action.withdrawn +
              (rest.map (Action.staked s.pool.poolId s.pool.reservesVlq.tokenId)).sum := by
            rw [ih]
            abel
        _ = _ := by
            rw [hfirst, add_assoc]

/-- The stakes of a run add up, and the outputs that its operations pay to those who leave are the
ones due: each redeem pays all of the stake that it removes. -/
theorem stakes_of_run {s t : Staking} {actions : List Action} (hrun : Run Step s actions t) :
    stakes t.live + (actions.map Action.withdrawn).sum =
        stakes s.live +
          (actions.map (Action.staked s.pool.poolId s.pool.reservesVlq.tokenId)).sum ∧
      payouts s.pool actions = actions.flatMap Action.due :=
  ⟨stakes_run hrun, payouts_of_run (run_pool hrun)⟩

/-- A stake that joins and leaves again. -/
theorem stakes_of_run_sample :
    stakes {Sample.compoundedBundle.toProto} + (Sample.joinAndLeave.map Action.withdrawn).sum =
        stakes {Sample.bundleProto} +
          (Sample.joinAndLeave.map (Action.staked ⟨Sample.digest 0⟩ (Sample.digest 3))).sum ∧
      payouts Sample.pool Sample.joinAndLeave = Sample.joinAndLeave.flatMap Action.due :=
  stakes_of_run Sample.run

/-! ## Withdrawal -/

/-- A redeem of a live bundle is covered by the reserves, except that they cannot be emptied. -/
theorem Accounting.coversRedeem_iff {s : Staking} (h : Accounting s) {redeem : Redeem}
    {bundle : StakingBundle} {rest : Multiset StakingBundleProto}
    (hlive : s.live = bundle.toProto ::ₘ rest) (hpays : Pool.PaysRedeem redeem bundle)
    (herg : redeem.ergValue + bundle.ergValue ≤ i64Max + minSafeBoxValue + defaultMinerFee) :
    s.pool.CoversRedeem redeem bundle ↔ 0 < totalVlq rest := by
  obtain ⟨hvlq, hlq, htmp, -⟩ := h
  rw [hlive, totalVlq_cons] at hvlq hlq
  rw [hlive, totalTmp_cons] at htmp
  have hproto : bundle.toProto.vlq.amount = bundle.vlq.amount := rfl
  have hmax := maxValue_eq
  constructor
  · intro hcovers
    obtain ⟨hlt, -⟩ := hcovers.2 hpays
    omega
  · intro hrest
    refine ⟨by omega, fun _ => ⟨by omega, by omega, by omega, herg⟩⟩

section ErgoLib

variable [ErgoLib]

/-- In every state that a freshly deployed pool reaches, between two epochs: the redeem of a live
bundle that asks for what was staked and pays for its outputs becomes a transaction that takes
the stake out, unless there is no other liquidity in the pool; then the bot crashes. -/
theorem redeem_of_live {input : DeployPoolInputs} {s t : Staking} {actions : List Action}
    (hinit : Initial input s) (hnum : 1 ≤ input.conf.epochNum) (hrun : Run Step s actions t)
    (hcompleted : t.pool.completed = true) {pool : AsBox Pool} (hpool : pool.value = t.pool)
    (hpoolBx : Pool.tryFromBox pool.bx = some pool.value) {order : AsBox Redeem}
    (horder : order.value.ReadFrom order.bx) {bundle : AsBox StakingBundle}
    (hbundle : StakingBundle.tryFromBox bundle.bx = some bundle.value)
    {rest : Multiset StakingBundleProto} (hlive : t.live = bundle.value.toProto ::ₘ rest)
    (hamount : order.value.expectedLq.amount = bundle.value.vlq.amount)
    (hpays : Pool.PaysRedeem order.value bundle.value)
    (herg : order.value.ergValue + bundle.value.ergValue ≤
      i64Max + minSafeBoxValue + defaultMinerFee) (ctx : ExecutionContext) :
    (0 < totalVlq rest → ∃ tx nextPool,
      Redeem.tryRun order pool bundle ctx = .ok (tx, nextPool) ∧
        Step t (.redeem order.value bundle.value ctx) ⟨nextPool.value.value, rest, t.paid⟩) ∧
      (totalVlq rest = 0 → Redeem.tryRun order pool bundle ctx = .crash) := by
  have haccounting : Accounting t := hrun.invariant (fun _ _ _ h hstep => h.step hstep)
    hinit.accounting
  have hnum' : t.pool.conf.epochNum ≠ 0 := by
    obtain ⟨_, _, _, hdeploy, -⟩ := hinit
    rw [(frame_of_run (run_pool hrun)).conf, (deployPool_ok hdeploy).conf_eq]
    omega
  -- the pool is past the compounding, so that the redeem is not blocked
  have hadmits : t.pool.AdmitsRedeem order.value bundle.value := by
    refine ⟨hamount, Pool.redeemBlocked_eq_ok.mpr ?_⟩
    split_ifs with hstuck
    · exact ⟨hnum', by rw [hcompleted]; rfl⟩
    · rfl
  have hcovers := haccounting.coversRedeem_iff hlive hpays herg
  rw [← hpool] at hnum' hadmits hcovers
  -- a redeem that is admitted crashes exactly when the reserves do not cover it
  have hcrash := Redeem.tryRun_ne_crash_iff (Pool.writable_of_tryFromBox hpoolBx) hnum' horder
    hbundle ctx
  constructor
  · intro hrest
    obtain ⟨happly, hwritable⟩ :=
      Redeem.tryRun_ne_crash.mp (hcrash.mpr fun _ => hcovers.mpr hrest)
    obtain ⟨⟨next, userOut, executorOut, minerOut⟩, hok⟩ :=
      Pool.exists_applyRedeem hadmits hpays happly
    obtain ⟨hnext, huser, hexecutor, hminer⟩ := hwritable _ _ _ _ hok
    obtain ⟨⟨tx, nextPool⟩, hresult⟩ := Redeem.exists_tryRun hok hnext huser hexecutor hminer
    obtain ⟨_, _, _, hran⟩ := Redeem.tryRun_ok hresult
    refine ⟨tx, nextPool, hresult, ?_⟩
    have hsame : nextPool.value.value = next := by
      rw [hran.applied.nextPool_eq, (Pool.applyRedeem_ok hok).nextPool_eq]
    rw [hsame]
    exact .redeem hlive (hpool ▸ hok)
  · intro hrest
    by_contra hne
    have hcovered := hcovers.mp (hcrash.mp hne hadmits)
    omega

end ErgoLib

/-! ### The last stake -/

namespace LastStake

open Staking.Sample

def redeemTree : ErgoTree := ⟨[1]⟩

/-- The constants in the tree of a redeem of all that is staked in the sample pool. -/
def redeemConstants : ℕ → Option Constant
  | 5 => some (.collByte [0])
  | 8 => some (.long 0)
  | 9 => some (.collByte [3])
  | 10 => some (.collByte (digest 2).bytes)
  | 11 => some (.long 100)
  | _ => none

/-- A library that knows one order. -/
scoped instance ergoLib : ErgoLib where
  templateBytes tree := if tree = redeemTree then some redeemTemplate else none
  getConstant tree index := if tree = redeemTree then some (redeemConstants index) else none
  sigmaParseBytes bytes := some ⟨bytes⟩
  proveDlog tree := some ⟨tree.bytes⟩
  p2pkTree prop := ⟨prop.bytes⟩
  minersFeeTree := ⟨[0]⟩
  minersFeeBytes := [0]
  script address := ⟨address.bytes⟩
  txId _ := digest 12
  boxId _ _ index := digest (.ofNat index)

def keyToken : Token := SpectrumOffchain.Sample.token (digest 5) bundleKeyAmountUser

def redeemBox : ErgoBox :=
  SpectrumOffchain.Sample.box SpectrumOffchain.Sample.orderValue redeemTree (some (.one keyToken))
    .empty 22

def redeemProto : RedeemProto where
  orderId := ⟨redeemBox.boxId⟩
  redeemerProp := ⟨[3]⟩
  bundleKey := ⟨digest 5, bundleKeyAmountUser⟩
  expectedLq := ⟨digest 2, 100⟩
  maxMinerFee := 0
  ergValue := 10000000

theorem height_lt : 100 < 2 ^ 32 := by decide

def context : ExecutionContext where
  height := 100
  mintableTokenId := digest 30
  executorProp := ⟨[2]⟩
  height_lt := height_lt

def redeem : Redeem := redeemProto.finalize ⟨digest 0⟩

theorem readFrom_redeemBox : redeem.ReadFrom redeemBox :=
  ⟨redeemProto, ⟨digest 0⟩, by decide +kernel, rfl⟩

def order : AsBox Redeem := ⟨redeemBox, redeem⟩

def boxedPool : AsBox Pool := ⟨SpectrumOffchain.Sample.poolBox, Staking.Sample.pool⟩

def boxedBundle : AsBox StakingBundle := ⟨SpectrumOffchain.Sample.bundleBox, Staking.Sample.bundle⟩

theorem paysRedeem_redeem : Pool.PaysRedeem redeem Staking.Sample.bundle := by
  unfold Pool.PaysRedeem
  decide +kernel

theorem ergValue_le : redeem.ergValue + Staking.Sample.bundle.ergValue ≤
    i64Max + minSafeBoxValue + defaultMinerFee := by decide

/-! Another stake has joined. -/

def boxedJoined : AsBox Pool := ⟨SpectrumOffchain.Sample.joinedPoolBox, joinedPool⟩

theorem joinedRun : Run Step ⟨Staking.Sample.pool, {bundleProto}, 0⟩
    [.deposit joinDeposit details joinContext]
    ⟨joinedPool, joinedProto ::ₘ {bundleProto}, 0⟩ :=
  .single (.deposit operations.1)

end LastStake

open LastStake in
/-- The staker of the sample pool can leave it once another has joined, and not before. -/
theorem redeem_of_live_sample :
    (∃ tx nextPool, Redeem.tryRun order boxedJoined boxedBundle context = .ok (tx, nextPool) ∧
      Step ⟨Sample.joinedPool, Sample.joinedProto ::ₘ {Sample.bundleProto}, 0⟩
        (.redeem redeem Sample.bundle context) ⟨nextPool.value.value, {Sample.joinedProto}, 0⟩) ∧
      Redeem.tryRun order boxedPool boxedBundle context = .crash := by
  have hbundle : StakingBundle.tryFromBox boxedBundle.bx = some boxedBundle.value :=
    SpectrumOffchain.Sample.tryFromBox_bundleBox
  constructor
  · have hcompleted : Sample.joinedPool.completed = true := by decide +kernel
    have hlive : Sample.joinedProto ::ₘ ({Sample.bundleProto} : Multiset StakingBundleProto) =
        boxedBundle.value.toProto ::ₘ {Sample.joinedProto} := Multiset.cons_swap _ _ 0
    have hpool : Pool.tryFromBox boxedJoined.bx = some boxedJoined.value :=
      SpectrumOffchain.Sample.tryFromBox_joinedPoolBox
    have horder : order.value.ReadFrom order.bx := readFrom_redeemBox
    have hleaves := redeem_of_live Sample.initial (by decide) joinedRun hcompleted rfl hpool horder
      hbundle hlive rfl paysRedeem_redeem ergValue_le context
    exact hleaves.1 (by decide)
  · have hcompleted : Sample.pool.completed = true := by decide +kernel
    have hpool : Pool.tryFromBox boxedPool.bx = some boxedPool.value :=
      SpectrumOffchain.Sample.tryFromBox_poolBox
    have hlive : ({Sample.bundleProto} : Multiset StakingBundleProto) =
        boxedBundle.value.toProto ::ₘ 0 := rfl
    have hrun : Run Step _ _ _ := .nil ⟨Sample.pool, {Sample.bundleProto}, 0⟩
    have horder : order.value.ReadFrom order.bx := readFrom_redeemBox
    have hcrash := redeem_of_live Sample.initial (by decide) hrun hcompleted rfl hpool horder
      hbundle hlive rfl paysRedeem_redeem ergValue_le context
    exact hcrash.2 rfl

end Staking

end SpectrumOffchain
