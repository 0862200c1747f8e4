import SpectrumOffchain.Backlog.Service
import SpectrumOffchain.Execution.RunOrder
import SpectrumOffchain.Executor.Invalidation
import SpectrumOffchain.Resolver.BundleRepo

/-!
# Executing the next order

`OrderExecutor::try_execute_next` takes an order from the backlog, runs it against the pool
it is for, signs and submits the transaction, and tells the backlog and the repositories
what came of it.  What it asks of them, of the prover and of the node are the functions of
`Services`; what it tells them is a list of `Command`s, in their order.  A crash is a
panic of the executor.

## Correspondence

The parts of the call are in the order of the source: `runOrder` is the evaluation of the
order with the bundles and the funding it needs, `submit` what follows on a transaction,
`handleSubmitError` and `handleInvalidation` the answer to a rejection, `handleMissingPool`
the case of a pool that is not resolved, and `execute` puts them together.  The commands are
applied to the backlog at the end (`Command.apply`); what they do to the repositories of
pools and bundles is said where these are modelled.
-/

namespace SpectrumOffchain

open Resolver

/-! ## Orders -/

/-- The hash function of the order ids of compound orders. -/
class Blake2b where
  /-- `blake2b256_hash`. -/
  blake2b256Hash : Bytes → Digest32

namespace Blake2b.Sample

theorem length_hash : (List.replicate 32 (14 : UInt8)).length = 32 := List.length_replicate

/-- One hash for everything. -/
scoped instance blake2b : Blake2b := ⟨fun _ => ⟨List.replicate 32 14, length_hash⟩⟩

end Blake2b.Sample

/-- `n.to_be_bytes()` of a `u32`. -/
def toBeBytes (n : ℕ) : Bytes :=
  [.ofNat (n / 2 ^ 24), .ofNat (n / 2 ^ 16), .ofNat (n / 2 ^ 8), .ofNat n]

def Compound.orderId [Blake2b] (self : Compound) : OrderId :=
  ⟨Blake2b.blake2b256Hash
    (self.stakers.flatMap (fun bid => bid.tokenId.bytes) ++ toBeBytes self.epochIx)⟩

inductive Order where
  | deposit (order : AsBox Deposit)
  | redeem (order : AsBox Redeem)
  | compound (order : Compound)
  deriving DecidableEq, Repr

namespace Order

instance [Blake2b] : OnChainOrder Order OrderId where
  getSelfRef
    | deposit order => order.value.orderId
    | redeem order => order.value.orderId
    | compound order => order.orderId

def getEntityRef : Order → PoolId
  | deposit order => order.value.poolId
  | redeem order => order.value.poolId
  | compound order => order.poolId

/-- `ord.get::<Vec<BundleId>>()`. -/
def bundleIds : Order → List BundleId
  | redeem order => [⟨order.value.bundleKey.tokenId⟩]
  | compound order => order.stakers
  | deposit _ => []

/-- `COMPOUND_BASE_WEIGHT`. -/
def compoundBaseWeight : ℕ := 1000000000000

/-- The weight of a compound order is computed in 64 bits. -/
instance : Weighted Order where
  weight
    | deposit order => order.value.ergValue
    | redeem order => order.value.ergValue
    | compound order => order.epochIx * order.queueIx * compoundBaseWeight % 2 ^ 64

end Order

structure PoolStateId where
  boxId : BoxId
  deriving DecidableEq, Repr

instance : OnChainEntity (AsBox Pool) PoolId PoolStateId where
  getSelfRef self := self.value.poolId
  getSelfStateRef self := ⟨self.bx.boxId⟩

/-! ## The services -/

/-- A signed transaction, by the ids of the boxes it spends. -/
structure Transaction where
  inputs : List BoxId
  deriving DecidableEq, Repr

namespace Executor

/-- What the executor is answered. -/
structure Services where
  /-- `resolve_entity_state`, on the repository of pools. -/
  resolvePool : PoolId → Option (AsBox Pool)
  resolveBundle : BundleId → Option (AsBox StakingBundle)
  /-- `FundingRepo::collect`. -/
  collect : ℕ → Option (NonEmpty (AsBox DistributionFunding))
  /-- `get_token_details`, of the pool, the reward token and the liquidity token. -/
  getTokenDetails : PoolId → TokenId → TokenId → TokenDetails
  /-- The height that `make_context` takes from its cache or from the network. -/
  contextHeight : Fin (2 ^ 32)
  executorProp : ErgoTree
  sign : TransactionCandidate → Option Transaction
  /-- The error of the node, if it rejects the transaction. -/
  submitTx : Transaction → Option String
  boxInUtxo : BoxId → Bool
  getHeight : ℕ
  now : ℤ

def Services.makeContext (svc : Services) (firstInputId : BoxId) : ExecutionContext where
  height := svc.contextHeight.val
  mintableTokenId := firstInputId
  executorProp := svc.executorProp
  height_lt := svc.contextHeight.isLt

/-- A write to the backlog or to a repository. -/
inductive Command where
  | suspend (ord : Order)
  | checkLater (ord : Backlog.ProgressingOrder Order)
  | remove (orderId : OrderId)
  | invalidatePool (sid : PoolStateId) (eid : PoolId)
  | putPredictedPool (traced : Traced (AsBox Pool))
  | invalidateBundle (stateId : BundleStateId)
  | putPredictedBundle (traced : Traced (AsBox IndexedStakingBundle))
  | removeFunding (fundingId : FundingId)
  | putPredictedFunding (funding : AsBox DistributionFunding)

/-! ## The run of an order -/

/-- What a successful run of an order leaves. -/
structure Evaluated where
  tx : TransactionCandidate
  nextPool : AsBox Pool
  nextBundles : List (AsBox StakingBundle)
  residualFunding : Option (AsBox DistributionFunding)
  orderType : OrderType

/-- An error of a run is a value to the executor. -/
def attempt {O α : Type} (f : O → Order) :
    Outcome (RunOrderError O) α → Outcome Empty (Except (RunOrderError Order) α)
  | .ok a => .ok (.ok a)
  | .err e => .ok (.error (e.map f))
  | .crash => .crash

variable [ErgoLib]

/-- The run of a compound order on the funding collected for its minimal value, or none if
there is no such funding. -/
def runCompound (svc : Services) (compound : Compound) (minValue : Outcome Empty ℕ)
    (pool : AsBox Pool) (bundles : List (AsBox StakingBundle)) (ctx : ExecutionContext) :
    Outcome Empty (Option (Except (RunOrderError Order) Evaluated)) := do
  let target ← minValue
  match svc.collect target with
  | some funding => do
      let res ← attempt .compound (compound.tryRun pool bundles funding ctx)
      pure (some (res.map fun (tx, nextPool, nextBundles, residualFunding) =>
        ⟨tx, nextPool.value, nextBundles.map (·.value), residualFunding.map (·.value),
          .compound (funding.map (·.bx.boxId))⟩))
  | none => pure none

/-- `run_result`, or none where the executor gives up before it has one. -/
def runOrder (svc : Services) (ord : Order) (pool : AsBox Pool)
    (bundles : List (AsBox StakingBundle)) (ctx : ExecutionContext) :
    Outcome Empty (Option (Except (RunOrderError Order) Evaluated)) :=
  match ord, bundles.head? with
  | .deposit deposit, _ => do
      let tokenDetails := svc.getTokenDetails pool.value.poolId pool.value.budgetRem.tokenId
        deposit.value.lq.tokenId
      let res ← attempt .deposit (Deposit.tryRun deposit pool tokenDetails ctx)
      pure (some (res.map fun (tx, nextPool, bundle) =>
        ⟨tx, nextPool.value, [bundle.value], none, .deposit⟩))
  | .redeem redeem, some bundle => do
      let res ← attempt .redeem (Redeem.tryRun redeem pool bundle ctx)
      pure (some (res.map fun (tx, nextPool) => ⟨tx, nextPool.value, [], none, .redeem⟩))
  | .compound compound, some _ =>
      runCompound svc compound compound.estimatedMinValue pool bundles ctx
  | .compound _, none => pure (some (.error (.fatal "No bundles found for Compound" ord)))
  | .redeem _, none => pure none

omit [ErgoLib] in
/-- `tx.inputs.get(ix).unwrap().box_id`. -/
def inputId (tx : Transaction) (ix : ℕ) : Outcome Empty BoxId := .unwrap tx.inputs[ix]?

variable [Blake2b]

/-- What is done about an input that was missing. -/
def handleInvalidation (ord : Order) (pool : AsBox Pool) (tx : Transaction) :
    Invalidation → Outcome Empty (List Command)
  | .pool =>
      pure [.invalidatePool (getSelfStateRef pool) (OnChainEntity.getSelfRef pool), .suspend ord]
  | .funding missingFundingIxs => do
      let missing ← missingFundingIxs.mapM (inputId tx)
      pure (missing.map (fun boxId => .removeFunding ⟨boxId⟩) ++ [.suspend ord])
  | .order => pure [.remove (OnChainOrder.getSelfRef ord)]
  | .stakingBundles bundlesIx => do
      let missing ← bundlesIx.mapM (inputId tx)
      pure (missing.map fun boxId => .invalidateBundle ⟨boxId⟩)

/-- What is done about a transaction that the node rejects. -/
def handleSubmitError (svc : Services) (ord : Order) (pool : AsBox Pool) (tx : Transaction)
    (orderType : OrderType) : NodeSubmitTxError → Outcome Empty (List Command)
  | .missingInputs missingIndices => do
      let commands ← (generateInvalidations orderType missingIndices).mapM
        (handleInvalidation ord pool tx)
      pure commands.flatten
  | .doubleSpend => pure [.suspend ord]
  | .scriptsOfInputsDontPassVerification =>
      let pools := if svc.boxInUtxo pool.bx.boxId then []
        else [.invalidatePool (getSelfStateRef pool) (OnChainEntity.getSelfRef pool)]
      let fundings := match orderType with
        | .compound inputFundingBoxIds =>
            (inputFundingBoxIds.toList.filter fun boxId => !svc.boxInUtxo boxId).map
              fun boxId => .removeFunding ⟨boxId⟩
        | _ => []
      pure (pools ++ fundings)
  | .unhandled => pure []

/-- The predictions of the bundles, each linked to the bundle at its position. -/
def predictBundles (conf : ProgramConfig) :
    List (AsBox StakingBundle) → List (AsBox StakingBundle) → Outcome Empty (List Command)
  | [], _ => pure []
  | nextBundle :: nextBundles, bundles => do
      let indexed ← IndexedBundle.new nextBundle.value conf
      let rest ← predictBundles conf nextBundles bundles.tail
      pure (.putPredictedBundle ⟨⟨nextBundle.bx, indexed⟩, bundles.head?.map getSelfStateRef⟩ ::
        rest)

/-- What is done about an order that was run. -/
def submit (svc : Services) (ord : Order) (pool : AsBox Pool) (bundles : List (AsBox StakingBundle))
    (run : Evaluated) : Outcome Empty (List Command) :=
  match svc.sign run.tx with
  | some tx =>
      match svc.submitTx tx with
      | some err => do
          let nodeError ← parseErr err
          handleSubmitError svc ord pool tx run.orderType nodeError
      | none => do
          let predictions ← predictBundles pool.value.conf run.nextBundles bundles
          -- Return order to backlog to check for settlement.
          pure ([.checkLater ⟨ord, svc.now⟩,
              .putPredictedPool ⟨run.nextPool, some (getSelfStateRef pool)⟩] ++
            run.residualFunding.toList.map .putPredictedFunding ++ predictions)
  | none => pure []

/-- What is done about an order whose pool is not known. -/
def handleMissingPool (svc : Services) (ord : Order) : List Command :=
  let handleBox (bx : ErgoBox) : List Command :=
    if svc.getHeight - bx.creationHeight > 10 then [.remove (OnChainOrder.getSelfRef ord)]
    else [.suspend ord]
  match ord with
  | .deposit order => handleBox order.bx
  | .redeem order => handleBox order.bx
  | .compound _ => [.remove (OnChainOrder.getSelfRef ord)]

/-- The commands for an order, and whether the attempt succeeded. -/
def execute (svc : Services) (ord : Order) : Outcome Empty (Bool × List Command) :=
  match svc.resolvePool ord.getEntityRef with
  | some pool => do
      let bundles := ord.bundleIds.filterMap svc.resolveBundle
      let ctx := svc.makeContext pool.bx.boxId
      let runResult ← runOrder svc ord pool bundles ctx
      match runResult with
      | some (.ok run) => do
          let commands ← submit svc ord pool bundles run
          pure (true, commands)
      | some (.error (.nonFatal _ ord)) => pure (true, [.suspend ord])
      | some (.error (.fatal _ ord)) => pure (true, [.remove (OnChainOrder.getSelfRef ord)])
      | none => pure (false, [])
  | none => pure (false, handleMissingPool svc ord)

/-- The backlog after a command. -/
def Command.apply (s : Backlog.BacklogService Order) : Command → Backlog.BacklogService Order
  | suspend ord => (s.suspend ord).1
  | checkLater ord => (s.checkLater ord).1
  | remove orderId => s.remove orderId
  | _ => s

/-- `try_execute_next`: whether it returned `Ok`, the backlog, and the commands. -/
def tryExecuteNext (s : Backlog.BacklogService Order) (env : Backlog.BacklogService.PopEnv)
    (svc : Services) : Outcome Empty (Bool × Backlog.BacklogService Order × List Command) :=
  match s.tryPop env with
  | (s, some ord) => do
      let (res, commands) ← execute svc ord
      pure (res, commands.foldl Command.apply s, commands)
  | (s, none) => pure (false, s, [])

end Executor

end SpectrumOffchain
