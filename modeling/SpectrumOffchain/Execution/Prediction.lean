import SpectrumOffchain.Execution.RunOrder
import SpectrumOffchain.Staking.Run

/-!
# Predictions

An order that was run predicts the pool, the bundles and the funding box that its
transaction is going to create, and the bot works on with these before the transaction
is on the ledger.  They are what the parsers read off the outputs: what an entity is
written as determines it (`tryFromBox_of_contents`), and the operations keep the pool
readable.

## Strategy

For each kind of order the structure of a successful run says which box each predicted state
is in and what this box contains.  A parser reads contents, the id of the box apart, so it
remains to be said that the contents determine the state (`readOutput_pool`,
`readOutput_bundle`).  For pools this needs numbers that survive the casts; the pool that
the order is run on was read off a box and has such numbers, and the three operations do not
enlarge them (`Pool.DepositApplied.readable` and its siblings).

At the end of the module there is a pool with a bundle, once before and once after another
stake has joined, together with the boxes that they are read off.  The samples of other
modules are built on them.
-/

namespace SpectrumOffchain

/-! ## The operations keep the pool readable -/

theorem Pool.DepositApplied.readable {pool : Pool} {deposit : Deposit} {tokenDetails : TokenDetails}
    {ctx : ExecutionContext} {nextPool : Pool} {bundle : StakingBundleProto}
    {userOutput : DepositOutput} {executorOutput : ExecutorOutput} {minerOutput : MinerOutput}
    (h : DepositApplied pool deposit tokenDetails ctx nextPool bundle userOutput executorOutput
      minerOutput) (hread : pool.Readable) : nextPool.Readable := by
  rw [h.nextPool_eq]
  exact ⟨hread.maxRoundingError_lt, hread.programBudget_id, hread.epochIx_lt⟩

theorem Pool.RedeemApplied.readable {pool : Pool} {redeem : Redeem} {bundle : StakingBundle}
    {ctx : ExecutionContext} {nextPool : Pool} {userOutput : RedeemOutput}
    {executorOutput : ExecutorOutput} {minerOutput : MinerOutput}
    (h : RedeemApplied pool redeem bundle ctx nextPool userOutput executorOutput minerOutput)
    (hread : pool.Readable) : nextPool.Readable := by
  rw [h.nextPool_eq]
  exact ⟨hread.maxRoundingError_lt, hread.programBudget_id, hread.epochIx_lt⟩

/-- An accepted configuration has few enough epochs for their index to be read back. -/
theorem Pool.Distributed.readable {pool : Pool} {bundles : List StakingBundle}
    {funding : NonEmpty DistributionFunding} {nextPool : Pool} {nextBundles : List StakingBundle}
    {nextFunding : Option DistributionFundingProto} {rewardOutputs : List RewardOutput}
    {minerOutput : MinerOutput} {epochIx total : ℕ}
    (h : Distributed pool bundles funding nextPool nextBundles nextFunding rewardOutputs
      minerOutput epochIx total) (hconf : pool.conf.RoundingErrorBounds)
    (hread : pool.Readable) : nextPool.Readable := by
  obtain ⟨-, -, -, hsum⟩ := compoundingEpochIx_eq_ok.mp h.epochIx_eq
  have hnum := hconf.epochNum_lt_two_pow
  have hle : epochIx ≤ pool.conf.epochNum + 1 := hsum ▸ Nat.le_add_left ..
  rw [h.nextPool_eq]
  refine ⟨hread.maxRoundingError_lt, hread.programBudget_id, fun ix hix => ?_⟩
  obtain rfl := Option.some.inj hix
  omega

/-! ## What is predicted and what is read -/

section ErgoLib

variable [ErgoLib]

/-- What a parser reads off an output of a transaction. -/
def TransactionCandidate.readOutput {T : Type} (tx : TransactionCandidate) (index : ℕ)
    (tryFrom : ErgoBox → Option T) : Option (AsBox T) :=
  tx.outputs[index]?.bind (AsBox.tryFromBox tryFrom)

/-- An output with the contents of an entity reads as the entity, if all boxes with these contents
do. -/
theorem TransactionCandidate.readOutput_eq {T : Type} {tx : TransactionCandidate} {index : ℕ}
    {tryFrom : ErgoBox → Option T} {bx : ErgoBox} {value : T} {contents : BoxContents}
    (hbx : tx.outputs[index]? = some bx)
    (hcontents : (tx.outputCandidates.toList.map ErgoBoxCandidate.contents)[index]? =
      some contents)
    (hread : ∀ (c : ErgoBoxCandidate) txId, c.contents = contents →
      bx = c.toBox txId index → tryFrom bx = some value) :
    tx.readOutput index tryFrom = some ⟨bx, value⟩ := by
  obtain ⟨c, hc, heq⟩ := exists_of_output hbx hcontents
  rw [readOutput, hbx, Option.bind_some, AsBox.tryFromBox, hread c _ hc heq, Option.map_some]

/-- The states that the orders on a pool predict are read off the transactions they build. -/
structure Predicts (pool : AsBox Pool) (wallet : ExecutorWallet) : Prop where
  deposit : ∀ (order : AsBox Deposit) tokenDetails ctx tx (nextPool : Predicted (AsBox Pool))
    (bundle : Predicted (AsBox StakingBundle)),
    Deposit.tryRun order pool tokenDetails ctx = .ok (tx, nextPool, bundle) →
    tx.readOutput 0 Pool.tryFromBox = some nextPool.value ∧
      tx.readOutput 2 StakingBundle.tryFromBox = some bundle.value
  redeem : ∀ (order : AsBox Redeem) bundle ctx tx (nextPool : Predicted (AsBox Pool)),
    Redeem.tryRun order pool bundle ctx = .ok (tx, nextPool) →
    tx.readOutput 0 Pool.tryFromBox = some nextPool.value
  compound : ∀ (order : Compound) bundles (funding : NonEmpty (AsBox DistributionFunding)) ctx tx
    (nextPool : Predicted (AsBox Pool)) nextBundles nextFunding,
    (∀ f ∈ funding.toList, DistributionFunding.tryFromBox f.bx wallet = some f.value) →
    order.tryRun pool bundles funding ctx = .ok (tx, nextPool, nextBundles, nextFunding) →
    tx.readOutput 0 Pool.tryFromBox = some nextPool.value ∧
      nextBundles.length = bundles.length ∧
      (∀ (i : ℕ) (next : Predicted (AsBox StakingBundle)), nextBundles[i]? = some next →
        tx.readOutput (1 + nextFunding.toList.length + i) StakingBundle.tryFromBox =
          some next.value) ∧
      ∀ next : Predicted (AsBox DistributionFunding), nextFunding = some next →
        tx.readOutput 1 (DistributionFunding.tryFromBox · wallet) = some next.value

theorem readOutput_pool {tx : TransactionCandidate} {nextPool : AsBox Pool}
    (hread : nextPool.value.Readable) (hbx : tx.outputs[0]? = some nextPool.bx)
    (hcontents : (tx.outputCandidates.toList.map ErgoBoxCandidate.contents)[0]? =
      some nextPool.value.contents) :
    tx.readOutput 0 Pool.tryFromBox = some nextPool := by
  refine tx.readOutput_eq hbx hcontents fun c txId hc heq => ?_
  rw [heq]
  exact Pool.tryFromBox_of_contents hread hc txId 0

theorem readOutput_bundle {tx : TransactionCandidate} {index : ℕ} {bundle : AsBox StakingBundle}
    {proto : StakingBundleProto} (hbx : tx.outputs[index]? = some bundle.bx)
    (heq : bundle.value = proto.finalize ⟨bundle.bx.boxId⟩)
    (hcontents : (tx.outputCandidates.toList.map ErgoBoxCandidate.contents)[index]? =
      some proto.contents) :
    tx.readOutput index StakingBundle.tryFromBox = some bundle := by
  obtain ⟨bx, value⟩ := bundle
  refine tx.readOutput_eq hbx hcontents fun c txId hc hbox => ?_
  dsimp only at heq hbox
  rw [heq, hbox]
  exact StakingBundle.tryFromBox_of_contents hc txId index

/-- The contents of the outputs of a compound transaction from its first bundle on. -/
theorem CompoundRan.getElem?_contents {pool : AsBox Pool} {bundles : List (AsBox StakingBundle)}
    {funding : NonEmpty (AsBox DistributionFunding)} {tx : TransactionCandidate}
    {nextPool : AsBox Pool} {nextBundles : List (Predicted (AsBox StakingBundle))}
    {nextFunding : Option (Predicted (AsBox DistributionFunding))}
    {settled : List StakingBundle} {residual : Option DistributionFundingProto}
    {rewards : List RewardOutput} {minerOut : MinerOutput} {epochIx total i : ℕ}
    {bundle : StakingBundle}
    (h : CompoundRan pool bundles funding tx nextPool nextBundles nextFunding settled residual
      rewards minerOut epochIx total) (hbundle : settled[i]? = some bundle) :
    (tx.outputCandidates.toList.map ErgoBoxCandidate.contents)[1 + residual.toList.length + i]? =
      some bundle.toProto.contents := by
  have hlt : i < settled.length := (List.getElem?_eq_some_iff.mp hbundle).1
  have hstart : 1 + residual.toList.length = ([nextPool.value.contents] ++
      residual.toList.map DistributionFundingProto.contents).length := by
    simp [Nat.add_comm]
  rw [h.contents_eq, hstart, List.append_assoc, List.append_assoc,
    List.getElem?_append_right (Nat.le_add_right ..), Nat.add_sub_cancel_left,
    List.getElem?_append_left (by simpa using hlt), List.getElem?_map, hbundle]
  rfl

/-- For a pool read off the ledger, with a configuration that the deploy tool accepts. -/
theorem predicts_of_tryFromBox {pool : AsBox Pool} (wallet : ExecutorWallet)
    (hpool : Pool.tryFromBox pool.bx = some pool.value)
    (hconf : pool.value.conf.RoundingErrorBounds) : Predicts pool wallet := by
  have hread := Pool.readable_of_tryFromBox hpool
  refine ⟨?_, ?_, ?_⟩
  · intro order tokenDetails ctx tx nextPool bundle hok
    obtain ⟨proto, userOut, executorOut, minerOut, hran⟩ := Deposit.tryRun_ok hok
    refine ⟨readOutput_pool (hran.applied.readable hread) hran.pool_bx ?_,
      readOutput_bundle hran.bundle_bx hran.bundle_eq ?_⟩
    · rw [hran.contents_eq]
      rfl
    · rw [hran.contents_eq]
      rfl
  · intro order bundle ctx tx nextPool hok
    obtain ⟨userOut, executorOut, minerOut, hran⟩ := Redeem.tryRun_ok hok
    refine readOutput_pool (hran.applied.readable hread) hran.pool_bx ?_
    rw [hran.contents_eq]
    rfl
  · intro order bundles funding ctx tx nextPool nextBundles nextFunding hwallet hok
    obtain ⟨settled, residual, rewards, minerOut, epochIx, total, hran⟩ := Compound.tryRun_ok hok
    have hlength : nextFunding.toList.length = residual.toList.length := by
      simp only [Option.length_toList, hran.funding_isSome]
    refine ⟨?_, ?_, ?_, ?_⟩
    · refine readOutput_pool (hran.applied.readable hconf hread) hran.pool_bx ?_
      rw [hran.contents_eq]
      rfl
    · rw [hran.bundles_length, hran.applied.nextBundles_eq, List.length_map, List.length_map]
    · -- the bundles come after the pool and the residual funding
      intro i next hnext
      obtain ⟨bundle, hbundle, hbx, heq⟩ := hran.bundles_eq i next hnext
      refine readOutput_bundle hbx heq ?_
      rw [hlength]
      exact hran.getElem?_contents hbundle
    · intro next hnext
      obtain ⟨proto, rfl, hbx, heq⟩ := hran.funding_eq next hnext
      obtain ⟨⟨bx, value⟩⟩ := next
      -- the residual funding goes back to the guard of the first funding box
      have hprop : proto.prop = wallet.ergoTree := by
        have hhead := hwallet funding.head (List.mem_cons_self ..)
        unfold DistributionFunding.tryFromBox at hhead
        split at hhead
        case isFalse => cases hhead
        case isTrue htree =>
          obtain ⟨-, hresidual, -⟩ | ⟨-, hresidual, -⟩ := hran.applied.funding_eq
          · cases hresidual
            show funding.head.value.prop = _
            rw [← Option.some.inj hhead]
            exact htree
          · cases hresidual
      have hcontents : (tx.outputCandidates.toList.map ErgoBoxCandidate.contents)[1]? =
          some proto.contents := by
        rw [hran.contents_eq]
        rfl
      refine tx.readOutput_eq hbx hcontents fun c txId hc hbox => ?_
      dsimp only at heq hbox
      rw [heq, hbox]
      exact DistributionFunding.tryFromBox_of_contents hc hprop txId 1

end ErgoLib

/-! ## A sample pool on the ledger -/

namespace Sample

open Staking.Sample

def depositTree : ErgoTree := ⟨[1]⟩

/-- The constants in the tree of a deposit. -/
def depositConstants : ℕ → Option Constant
  | 1 => some (.collByte (digest 0).bytes)
  | 2 => some (.collByte [])
  | 12 => some (.collByte (digest 9).bytes)
  | 16 => some (.int 10)
  | 20 => some (.collByte [0])
  | 23 => some (.long 0)
  | _ => none

/-- A library that knows one order, and in which the only miner is at the address `0`. -/
scoped instance ergoLib : ErgoLib where
  templateBytes tree := if tree = depositTree then some depositTemplate else none
  getConstant tree index := if tree = depositTree then some (depositConstants index) else none
  sigmaParseBytes bytes := some ⟨bytes⟩
  proveDlog tree := some ⟨tree.bytes⟩
  p2pkTree prop := ⟨prop.bytes⟩
  minersFeeTree := ⟨[0]⟩
  minersFeeBytes := [0]
  script address := ⟨address.bytes⟩
  txId _ := digest 12
  boxId _ _ index := digest (.ofNat index)

def token (id : Digest32) (amount : ℕ) (hpos : 1 ≤ amount := by decide +kernel)
    (hle : amount ≤ i64Max := by decide +kernel) : Token :=
  ⟨id, amount, hpos, hle⟩

/-- A box with the registers of the sample pool or bundle. -/
def box (value : BoxValue) (ergoTree : ErgoTree) (tokens : Option BoxTokens)
    (registers : NonMandatoryRegisters) (index : ℕ) : ErgoBox :=
  ErgoBoxCandidate.toBox ⟨value, ergoTree, tokens, registers, 100⟩ (digest 13) index

def fatValue : BoxValue := ⟨minSafeFatBoxValue, by decide, by decide⟩

def poolNft : Token := token (digest 0) 1

def poolTmp : Token := token (digest 4) (maxValue - 1000)

def poolTokens (nft tmp : Token) : BoxTokens :=
  ⟨[nft, token (digest 1) 10000, token (digest 2) 100, token (digest 3) (maxValue - 100), tmp],
    by simp, by simp⟩

def poolBox : ErgoBox :=
  box fatValue poolValidator (some (poolTokens poolNft poolTmp))
    ⟨pool.registers, by decide, by decide⟩ 15

theorem readable_pool : pool.Readable := ⟨by decide, rfl, nofun⟩

theorem tryFromBox_poolBox : Pool.tryFromBox poolBox = some pool :=
  Pool.tryFromBox_of_contents (c := poolBox.toErgoBoxCandidate) readable_pool rfl (digest 13) 15

def bundleKey : Token := token (digest 5) 1

def bundleTokens (tmp : Token) : BoxTokens :=
  ⟨[token (digest 3) 100, tmp, bundleKey], by simp, by simp⟩

def bundleBox : ErgoBox :=
  box fatValue bundleValidator (some (bundleTokens (token (digest 4) 1000)))
    bundleProto.registers 6

theorem tryFromBox_bundleBox : StakingBundle.tryFromBox bundleBox = some bundle := by
  have hcontents : bundleBox.contents = bundleProto.contents := rfl
  exact StakingBundle.tryFromBox_of_contents hcontents (digest 13) 6

/-! The pool and the second bundle after another stake has joined. -/

theorem budget_pos : 1 ≤ 10000 := by decide

theorem budget_le : 10000 ≤ i64Max := by decide

theorem joinedLq_pos : 1 ≤ 200 := by decide

theorem joinedLq_le : 200 ≤ i64Max := by decide

theorem joinedVlq_pos : 1 ≤ maxValue - 200 := by decide

theorem joinedVlq_le : maxValue - 200 ≤ i64Max := Nat.sub_le _ _

theorem joinedTmp_pos : 1 ≤ maxValue - 2000 := by decide

theorem joinedTmp_le : maxValue - 2000 ≤ i64Max := Nat.sub_le _ _

def joinedPoolTokens : BoxTokens :=
  ⟨[poolNft, ⟨digest 1, 10000, budget_pos, budget_le⟩,
      ⟨digest 2, 200, joinedLq_pos, joinedLq_le⟩,
      ⟨digest 3, maxValue - 200, joinedVlq_pos, joinedVlq_le⟩,
      ⟨digest 4, maxValue - 2000, joinedTmp_pos, joinedTmp_le⟩], by simp, by simp⟩

def joinedPoolBox : ErgoBox :=
  box fatValue poolValidator (some joinedPoolTokens) ⟨joinedPool.registers, by decide, by decide⟩ 16

theorem readable_joinedPool : joinedPool.Readable := ⟨by decide, rfl, nofun⟩

theorem tryFromBox_joinedPoolBox : Pool.tryFromBox joinedPoolBox = some joinedPool :=
  Pool.tryFromBox_of_contents (c := joinedPoolBox.toErgoBoxCandidate) readable_joinedPool rfl
    (digest 13) 16

def joinedTokens : BoxTokens :=
  ⟨[token (digest 3) 100, token (digest 4) 1000, { bundleKey with tokenId := digest 10 }],
    by simp, by simp⟩

def joinedBox : ErgoBox := box fatValue bundleValidator (some joinedTokens) joinedProto.registers 11

def compound : Compound := ⟨⟨digest 0⟩, 1, 0, [⟨digest 5⟩]⟩

/-- The context of the first compounding. -/
def context : ExecutionContext where
  height := 210
  mintableTokenId := poolBox.boxId
  executorProp := ⟨[2]⟩

def orderValue : BoxValue := ⟨10000000, by decide, by decide⟩

/-- A deposit of any token, for the sample pool. -/
def depositBox (lq : Token) : ErgoBox := box orderValue depositTree (some (.one lq)) .empty 21

def deposit (lq : Token) : Deposit where
  orderId := ⟨digest 21⟩
  poolId := ⟨digest 0⟩
  redeemerProp := ⟨[]⟩
  bundlePropHash := digest 9
  maxMinerFee := 0
  lq := .fromToken lq
  ergValue := 10000000
  expectedNumEpochs := 10

/-- The context of a deposit before the program starts. -/
def depositContext : ExecutionContext where
  height := 100
  mintableTokenId := poolBox.boxId
  executorProp := ⟨[2]⟩

theorem tryFromBox_depositBox (lq : Token) :
    Deposit.tryFromBox (depositBox lq) = some (deposit lq) := by
  unfold Deposit.tryFromBox
  refine Option.bind_eq_some_iff.mpr ⟨.one lq, rfl, ?_⟩
  refine Option.bind_eq_some_iff.mpr ⟨depositTemplate, if_pos rfl, ?_⟩
  rw [if_pos ⟨rfl, rfl⟩]
  rfl

end Sample

open Sample in
theorem predicts_of_tryFromBox_sample :
    Predicts ⟨poolBox, Staking.Sample.pool⟩ ⟨⟨[2]⟩⟩ :=
  predicts_of_tryFromBox ⟨⟨[2]⟩⟩ tryFromBox_poolBox (by decide)

end SpectrumOffchain
