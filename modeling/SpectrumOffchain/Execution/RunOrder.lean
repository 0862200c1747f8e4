import SpectrumOffchain.Data.Operations
import SpectrumOffchain.Data.Codec

/-!
# Running orders

`RunOrder::try_run` of the three kinds of orders: apply the operation to the pool, write
its outputs into boxes, and predict the states that the transaction is going to create.
The position of every output is fixed: the pool comes first, and in a compound
transaction the funding box, if there is one, comes before the bundles.

## What later modules use

No later proof unfolds `try_run`.

* `DepositRan`, `RedeemRan` and `CompoundRan` say all that a successful run fixes: the
  operation that was applied, the boxes spent, the contents of the outputs in their order,
  and the states predicted, each with the position of its box.
* `order_of_tryRun_eq_err`: an error hands back the order that was run.  Apart from the
  operation on the pool nothing returns an error, the rest unwraps.
* `exists_tryRun`: a transaction is returned when the operation succeeds and all that it
  returns can be written (`BoxContents.Writable`); for a deposit and a redeem
  `tryRun_ne_crash` turns this into an equivalence.  A compound order has two more ways to
  crash, the number of its inputs and the position of its first bundle, so its lengths are
  followed through the chain of outputs (`exists_candidates`, `exists_bundleOuts`).
-/

namespace SpectrumOffchain

/-- What an order that could not be run ends in; only after a fatal error is it dropped. -/
inductive RunOrderError (O : Type) where
  | fatal (message : String) (order : O)
  | nonFatal (message : String) (order : O)
  deriving DecidableEq, Repr

namespace RunOrderError

variable {O O₂ : Type}

def map (f : O → O₂) : RunOrderError O → RunOrderError O₂
  | fatal message order => .fatal message (f order)
  | nonFatal message order => .nonFatal message (f order)

/-- The order that could not be run. -/
def order : RunOrderError O → O
  | fatal _ order => order
  | nonFatal _ order => order

@[simp] theorem order_map (f : O → O₂) (e : RunOrderError O) : (e.map f).order = f e.order := by
  cases e <;> rfl

end RunOrderError

def PoolOperationError.toRunOrderError {O : Type} (order : O) :
    PoolOperationError → RunOrderError O
  | permanent e => .fatal e.text order
  | temporal e => .nonFatal e.text order

/-- `&xs[start..start + len]`. -/
def slice {ε α : Type} (xs : List α) (start len : ℕ) : Outcome ε (List α) :=
  if start + len ≤ xs.length then pure ((xs.drop start).take len) else .crash

theorem slice_eq_ok {ε α : Type} {xs out : List α} {start len : ℕ} :
    (slice xs start len : Outcome ε _) = .ok out ↔
      start + len ≤ xs.length ∧ (xs.drop start).take len = out := by
  unfold slice
  split_ifs with h <;> simp [h]

theorem unfailing_slice {ε α : Type} (xs : List α) (start len : ℕ) :
    Outcome.Unfailing (slice xs start len : Outcome ε _) := by
  intro e
  unfold slice
  split_ifs <;> simp

/-- The input of the `i`-th of `numBundles` bundles, which are output from `firstBundleOutIx` on:
the contract is told where its successor and the output of its redeemer are. -/
def bundleInput (firstBundleOutIx numBundles i : ℕ) (bundle : AsBox StakingBundle) :
    ErgoBox × ContextExtension :=
  let succIx := firstBundleOutIx + i
  let redeemerOutIx := succIx + numBundles
  (bundle.bx, ⟨[(0, .int (.ofNat 32 redeemerOutIx)), (1, .int (.ofNat 32 succIx))]⟩)

theorem map_fst_bundleInput (firstBundleOutIx numBundles : ℕ)
    (bundles : List (AsBox StakingBundle)) :
    (bundles.mapIdx (bundleInput firstBundleOutIx numBundles)).map Prod.fst =
      bundles.map AsBox.bx := by
  refine List.ext_getElem? fun i => ?_
  simp only [List.getElem?_map, List.getElem?_mapIdx, Option.map_map]
  rfl

variable [ErgoLib]

def Deposit.tryRun (self : AsBox Deposit) (pool : AsBox Pool) (tokenDetails : TokenDetails)
    (ctx : ExecutionContext) :
    Outcome (RunOrderError (AsBox Deposit))
      (TransactionCandidate × Predicted (AsBox Pool) × Predicted (AsBox StakingBundle)) := do
  let (nextPool, bundleProto, userOut, executorOut, minerOut) ←
    (pool.value.applyDeposit self.value tokenDetails ctx).mapErr (·.toRunOrderError self)
  let inputs ← .unwrap (BoundedVec.fromVec
    ([pool.bx, self.bx].map fun bx => (bx, ContextExtension.empty)))
  let poolCandidate ← nextPool.intoCandidate ctx.height
  let userCandidate ← userOut.intoCandidate ctx.height
  let bundleCandidate ← bundleProto.intoCandidate ctx.height
  let executorCandidate ← executorOut.intoCandidate ctx.height
  let minerCandidate ← minerOut.intoCandidate ctx.height
  let outputs ← .unwrap (BoundedVec.fromVec
    [poolCandidate, userCandidate, bundleCandidate, executorCandidate, minerCandidate])
  let tx : TransactionCandidate := ⟨inputs, outputs⟩
  let poolBox ← .unwrap tx.outputs[0]?
  let bundleBox ← .unwrap tx.outputs[2]?
  let bundle := bundleProto.finalize ⟨bundleBox.boxId⟩
  pure (tx, ⟨⟨poolBox, nextPool⟩⟩, ⟨⟨bundleBox, bundle⟩⟩)

def Redeem.tryRun (self : AsBox Redeem) (pool : AsBox Pool) (bundle : AsBox StakingBundle)
    (ctx : ExecutionContext) :
    Outcome (RunOrderError (AsBox Redeem)) (TransactionCandidate × Predicted (AsBox Pool)) := do
  let (nextPool, userOut, executorOut, minerOut) ←
    (pool.value.applyRedeem self.value bundle.value ctx).mapErr (·.toRunOrderError self)
  let inputs ← .unwrap (BoundedVec.fromVec
    ([pool.bx, bundle.bx, self.bx].map fun bx => (bx, ContextExtension.empty)))
  let poolCandidate ← nextPool.intoCandidate ctx.height
  let userCandidate ← userOut.intoCandidate ctx.height
  let executorCandidate ← executorOut.intoCandidate ctx.height
  let minerCandidate ← minerOut.intoCandidate ctx.height
  let outputs ← .unwrap (BoundedVec.fromVec
    [poolCandidate, userCandidate, executorCandidate, minerCandidate])
  let tx : TransactionCandidate := ⟨inputs, outputs⟩
  let poolBox ← .unwrap tx.outputs[0]?
  pure (tx, ⟨⟨poolBox, nextPool⟩⟩)

def Compound.tryRun (self : Compound) (pool : AsBox Pool) (bundles : List (AsBox StakingBundle))
    (funding : NonEmpty (AsBox DistributionFunding)) (ctx : ExecutionContext) :
    Outcome (RunOrderError Compound)
      (TransactionCandidate × Predicted (AsBox Pool) × List (Predicted (AsBox StakingBundle)) ×
        Option (Predicted (AsBox DistributionFunding))) := do
  let (nextPool, nextBundles, nextFunding, rewards, minerOut) ←
    (pool.value.distributeRewards (bundles.map AsBox.value) (funding.map AsBox.value)).mapErr
      (·.toRunOrderError self)
  let poolCandidate ← nextPool.intoCandidate ctx.height
  let fundingCandidates ← nextFunding.toList.mapM fun nf => nf.intoCandidate ctx.height
  let bundleCandidates ← nextBundles.mapM fun b => b.intoCandidate ctx.height
  let rewardCandidates ← rewards.mapM fun r => r.intoCandidate ctx.height
  let minerCandidate ← minerOut.intoCandidate ctx.height
  let outputs ← .unwrap (BoundedVec.fromVec
    ([poolCandidate] ++ fundingCandidates ++ bundleCandidates ++ rewardCandidates ++
      [minerCandidate]))
  let firstBundleOutIx ← .unwrap
    (outputs.toList.findIdx? fun o => decide (o.ergoTree = bundleValidator))
  let inputs ← .unwrap (BoundedVec.fromVec
    (([pool.bx] ++ funding.toList.map AsBox.bx).map (fun bx => (bx, ContextExtension.empty)) ++
      bundles.mapIdx (bundleInput firstBundleOutIx bundles.length)))
  let tx : TransactionCandidate := ⟨inputs, outputs⟩
  let poolBox ← .unwrap tx.outputs[0]?
  let bunInitIx := if nextFunding.isSome then 2 else 1
  let bundleOuts ← slice tx.outputs bunInitIx nextBundles.length
  let bundlesAsBox := (nextBundles.zip bundleOuts).map fun (bn, out) =>
    Predicted.mk ⟨out, { bn with stateId := ⟨out.boxId⟩ }⟩
  let nextFundingAsBox ← nextFunding.traverse fun nf => do
    let out ← .unwrap tx.outputs[1]?
    pure (Predicted.mk ⟨out, nf.finalize ⟨out.boxId⟩⟩)
  pure (tx, ⟨⟨poolBox, nextPool⟩⟩, bundlesAsBox, nextFundingAsBox)

/-! ## What a successful run returns -/

/-- An output of a transaction is the box of the candidate at its position. -/
theorem TransactionCandidate.exists_of_output {tx : TransactionCandidate} {index : ℕ}
    {bx : ErgoBox} {contents : BoxContents} (h : tx.outputs[index]? = some bx)
    (hcontents : (tx.outputCandidates.toList.map ErgoBoxCandidate.contents)[index]? =
      some contents) :
    ∃ c : ErgoBoxCandidate, c.contents = contents ∧ bx = c.toBox (ErgoLib.txId tx) index := by
  rw [TransactionCandidate.getElem?_outputs, Option.map_eq_some_iff] at h
  obtain ⟨c, hc, rfl⟩ := h
  rw [List.getElem?_map, hc, Option.map_some, Option.some.injEq] at hcontents
  exact ⟨c, hcontents, rfl⟩

/-- The transaction of a deposit, and what it predicts. -/
structure DepositRan (order : AsBox Deposit) (pool : AsBox Pool) (tokenDetails : TokenDetails)
    (ctx : ExecutionContext) (tx : TransactionCandidate) (nextPool : AsBox Pool)
    (bundle : AsBox StakingBundle) (proto : StakingBundleProto) (userOut : DepositOutput)
    (executorOut : ExecutorOutput) (minerOut : MinerOutput) : Prop where
  applied : Pool.DepositApplied pool.value order.value tokenDetails ctx nextPool.value proto userOut
    executorOut minerOut
  inputs_eq : tx.inputs.toList.map Prod.fst = [pool.bx, order.bx]
  contents_eq : tx.outputCandidates.toList.map ErgoBoxCandidate.contents =
    [nextPool.value.contents, userOut.contents, proto.contents, executorOut.contents,
      minerOut.contents]
  pool_bx : tx.outputs[0]? = some nextPool.bx
  bundle_bx : tx.outputs[2]? = some bundle.bx
  bundle_eq : bundle.value = proto.finalize ⟨bundle.bx.boxId⟩

theorem Deposit.tryRun_ok {self : AsBox Deposit} {pool : AsBox Pool} {tokenDetails : TokenDetails}
    {ctx : ExecutionContext} {tx : TransactionCandidate} {nextPool : Predicted (AsBox Pool)}
    {bundle : Predicted (AsBox StakingBundle)}
    (h : Deposit.tryRun self pool tokenDetails ctx = .ok (tx, nextPool, bundle)) :
    ∃ proto userOut executorOut minerOut, DepositRan self pool tokenDetails ctx tx nextPool.value
      bundle.value proto userOut executorOut minerOut := by
  simp only [tryRun, Outcome.bind_eq_ok, Outcome.mapErr_eq_ok, Outcome.unwrap_eq_ok,
    BoundedVec.fromVec_eq_some, Outcome.pure_eq, Outcome.ok.injEq] at h
  obtain ⟨⟨next, proto, userOut, executorOut, minerOut⟩, hok, inputs, hinputs, c₀, h₀, c₁, h₁, c₂,
    h₂, c₃, h₃, c₄, h₄, outputs, houtputs, poolBox, hpool, bundleBox, hbundle, heq⟩ := h
  cases heq
  refine ⟨proto, userOut, executorOut, minerOut, Pool.applyDeposit_ok hok, ?_, ?_, hpool, hbundle,
    rfl⟩
  · simp [hinputs]
  · simp [houtputs, Pool.intoCandidate_ok h₀, DepositOutput.intoCandidate_ok h₁,
      StakingBundleProto.intoCandidate_ok h₂, ExecutorOutput.intoCandidate_ok h₃,
      MinerOutput.intoCandidate_ok h₄]

/-- The transaction of a redeem, and what it predicts. -/
structure RedeemRan (order : AsBox Redeem) (pool : AsBox Pool) (bundle : AsBox StakingBundle)
    (ctx : ExecutionContext) (tx : TransactionCandidate) (nextPool : AsBox Pool)
    (userOut : RedeemOutput) (executorOut : ExecutorOutput) (minerOut : MinerOutput) : Prop where
  applied : Pool.RedeemApplied pool.value order.value bundle.value ctx nextPool.value userOut
    executorOut minerOut
  inputs_eq : tx.inputs.toList.map Prod.fst = [pool.bx, bundle.bx, order.bx]
  contents_eq : tx.outputCandidates.toList.map ErgoBoxCandidate.contents =
    [nextPool.value.contents, userOut.contents, executorOut.contents, minerOut.contents]
  pool_bx : tx.outputs[0]? = some nextPool.bx

theorem Redeem.tryRun_ok {self : AsBox Redeem} {pool : AsBox Pool} {bundle : AsBox StakingBundle}
    {ctx : ExecutionContext} {tx : TransactionCandidate} {nextPool : Predicted (AsBox Pool)}
    (h : Redeem.tryRun self pool bundle ctx = .ok (tx, nextPool)) :
    ∃ userOut executorOut minerOut,
      RedeemRan self pool bundle ctx tx nextPool.value userOut executorOut minerOut := by
  simp only [tryRun, Outcome.bind_eq_ok, Outcome.mapErr_eq_ok, Outcome.unwrap_eq_ok,
    BoundedVec.fromVec_eq_some, Outcome.pure_eq, Outcome.ok.injEq] at h
  obtain ⟨⟨next, userOut, executorOut, minerOut⟩, hok, inputs, hinputs, c₀, h₀, c₁, h₁, c₂, h₂,
    c₃, h₃, outputs, houtputs, poolBox, hpool, heq⟩ := h
  cases heq
  refine ⟨userOut, executorOut, minerOut, Pool.applyRedeem_ok hok, ?_, ?_, hpool⟩
  · simp [hinputs]
  · simp [houtputs, Pool.intoCandidate_ok h₀, RedeemOutput.intoCandidate_ok h₁,
      ExecutorOutput.intoCandidate_ok h₂, MinerOutput.intoCandidate_ok h₃]

/-- The transaction of a compound order, and what it predicts.  The bundles are output after the
pool and the funding box, if there is one. -/
structure CompoundRan (pool : AsBox Pool) (bundles : List (AsBox StakingBundle))
    (funding : NonEmpty (AsBox DistributionFunding)) (tx : TransactionCandidate)
    (nextPool : AsBox Pool) (nextBundles : List (Predicted (AsBox StakingBundle)))
    (nextFunding : Option (Predicted (AsBox DistributionFunding)))
    (settled : List StakingBundle) (residual : Option DistributionFundingProto)
    (rewards : List RewardOutput) (minerOut : MinerOutput) (epochIx total : ℕ) : Prop where
  applied : Pool.Distributed pool.value (bundles.map AsBox.value) (funding.map AsBox.value)
    nextPool.value settled residual rewards minerOut epochIx total
  inputs_eq : tx.inputs.toList.map Prod.fst =
    [pool.bx] ++ funding.toList.map AsBox.bx ++ bundles.map AsBox.bx
  contents_eq : tx.outputCandidates.toList.map ErgoBoxCandidate.contents =
    [nextPool.value.contents] ++ residual.toList.map DistributionFundingProto.contents ++
      settled.map (fun b => b.toProto.contents) ++ rewards.map RewardOutput.contents ++
      [minerOut.contents]
  pool_bx : tx.outputs[0]? = some nextPool.bx
  bundles_length : nextBundles.length = settled.length
  bundles_eq : ∀ (i : ℕ) (next : Predicted (AsBox StakingBundle)), nextBundles[i]? = some next →
    ∃ bundle, settled[i]? = some bundle ∧
      tx.outputs[1 + nextFunding.toList.length + i]? = some next.value.bx ∧
      next.value.value = bundle.toProto.finalize ⟨next.value.bx.boxId⟩
  funding_isSome : nextFunding.isSome = residual.isSome
  funding_eq : ∀ next, nextFunding = some next → ∃ proto, residual = some proto ∧
    tx.outputs[1]? = some next.value.bx ∧ next.value.value = proto.finalize ⟨next.value.bx.boxId⟩

theorem Compound.tryRun_ok {self : Compound} {pool : AsBox Pool}
    {bundles : List (AsBox StakingBundle)} {funding : NonEmpty (AsBox DistributionFunding)}
    {ctx : ExecutionContext} {tx : TransactionCandidate} {nextPool : Predicted (AsBox Pool)}
    {nextBundles : List (Predicted (AsBox StakingBundle))}
    {nextFunding : Option (Predicted (AsBox DistributionFunding))}
    (h : self.tryRun pool bundles funding ctx = .ok (tx, nextPool, nextBundles, nextFunding)) :
    ∃ settled residual rewards minerOut epochIx total, CompoundRan pool bundles funding tx
      nextPool.value nextBundles nextFunding settled residual rewards minerOut epochIx total := by
  simp only [tryRun, Outcome.bind_eq_ok, Outcome.mapErr_eq_ok, Outcome.unwrap_eq_ok,
    BoundedVec.fromVec_eq_some, slice_eq_ok, Outcome.pure_eq, Outcome.ok.injEq] at h
  obtain ⟨⟨next, settled, residual, rewards, minerOut⟩, hok, c₀, h₀, cs₁, h₁, cs₂, h₂, cs₃, h₃, c₄,
    h₄, outputs, houtputs, firstBundleOutIx, -, inputs, hinputs, poolBox, hpool, bundleOuts,
    ⟨hslice, hbundleOuts⟩, fundingOut, hfunding, heq⟩ := h
  cases heq
  obtain ⟨epochIx, total, hdist⟩ := Pool.distributeRewards_ok hok
  obtain ⟨hisSome, hfunding⟩ := Outcome.traverse_eq_ok hfunding
  -- the bundles are cut out behind the residual funding
  have hstart : (if residual.isSome = true then 2 else 1) = 1 + nextFunding.toList.length := by
    rw [← hisSome]
    cases nextFunding <;> rfl
  rw [hstart] at hslice hbundleOuts
  dsimp only at hslice hbundleOuts
  have hlength : bundleOuts.length = settled.length := by
    rw [← hbundleOuts, List.length_take, List.length_drop]
    omega
  refine ⟨settled, residual, rewards, minerOut, epochIx, total, hdist, ?_, ?_, hpool, ?_, ?_,
    hisSome, ?_⟩
  · simp only [hinputs, List.map_append, List.map_map, map_fst_bundleInput]
    simp [Function.comp_def]
  · simp only [houtputs, List.map_append, List.map_cons, List.map_nil, Pool.intoCandidate_ok h₀,
      Outcome.map_of_mapM_eq_ok (fun _ _ => DistributionFundingProto.intoCandidate_ok) h₁,
      Outcome.map_of_mapM_eq_ok (fun _ _ => StakingBundleProto.intoCandidate_ok) h₂,
      Outcome.map_of_mapM_eq_ok (fun _ _ => RewardOutput.intoCandidate_ok) h₃,
      MinerOutput.intoCandidate_ok h₄]
  · simp [hlength]
  · intro i next hnext
    rw [List.getElem?_map, Option.map_eq_some_iff] at hnext
    obtain ⟨⟨bundle, out⟩, hzip, rfl⟩ := hnext
    obtain ⟨hbundle, hout⟩ := List.getElem?_zip_eq_some.mp hzip
    refine ⟨bundle, hbundle, ?_, rfl⟩
    have hlt : i < settled.length := (List.getElem?_eq_some_iff.mp hbundle).1
    rw [← hbundleOuts, List.getElem?_take, if_pos hlt, List.getElem?_drop] at hout
    exact hout
  · intro next hnext
    obtain ⟨proto, rfl, hproto⟩ := hfunding next hnext
    simp only [Outcome.bind_eq_ok, Outcome.unwrap_eq_ok, Outcome.ok.injEq] at hproto
    obtain ⟨out, hout, rfl⟩ := hproto
    exact ⟨proto, rfl, hout, rfl⟩

/-! ## When a run fails

The steps after the operation unwrap, so each of them is `Unfailing`: it returns or it crashes,
but has no error of its own to report. -/

omit [ErgoLib] in
@[simp] theorem order_toRunOrderError {O : Type} (order : O) (e : PoolOperationError) :
    (e.toRunOrderError order).order = order := by
  cases e <;> rfl

omit [ErgoLib] in
/-- Where only the operation on the pool can fail, the error is about the order itself. -/
theorem order_of_mapErr_bind_eq_err {O α β : Type} {order : O}
    {applied : Outcome PoolOperationError α} {f : α → Outcome (RunOrderError O) β}
    {e : RunOrderError O} (hf : ∀ a, Outcome.Unfailing (f a))
    (h : (applied.mapErr (·.toRunOrderError order) >>= f) = .err e) : e.order = order := by
  rcases Outcome.bind_eq_err.mp h with h | ⟨a, -, h⟩
  · obtain ⟨e', -, rfl⟩ := Outcome.mapErr_eq_err.mp h
    exact order_toRunOrderError order e'
  · exact absurd h (hf a e)

theorem Deposit.order_of_tryRun_eq_err {self : AsBox Deposit} {pool : AsBox Pool}
    {tokenDetails : TokenDetails} {ctx : ExecutionContext} {e : RunOrderError (AsBox Deposit)}
    (h : Deposit.tryRun self pool tokenDetails ctx = .err e) : e.order = self := by
  refine order_of_mapErr_bind_eq_err (fun _ => ?_) h
  refine Outcome.unfailing_bind (Outcome.unfailing_unwrap _) fun _ => ?_
  refine Outcome.unfailing_bind (Pool.unfailing_intoCandidate _ _) fun _ => ?_
  refine Outcome.unfailing_bind (DepositOutput.unfailing_intoCandidate _ _) fun _ => ?_
  refine Outcome.unfailing_bind (StakingBundleProto.unfailing_intoCandidate _ _) fun _ => ?_
  refine Outcome.unfailing_bind (unfailing_plainCandidate _ _ _ _) fun _ => ?_
  refine Outcome.unfailing_bind (unfailing_plainCandidate _ _ _ _) fun _ => ?_
  refine Outcome.unfailing_bind (Outcome.unfailing_unwrap _) fun _ => ?_
  refine Outcome.unfailing_bind (Outcome.unfailing_unwrap _) fun _ => ?_
  refine Outcome.unfailing_bind (Outcome.unfailing_unwrap _) fun _ => ?_
  exact Outcome.unfailing_pure _

theorem Redeem.order_of_tryRun_eq_err {self : AsBox Redeem} {pool : AsBox Pool}
    {bundle : AsBox StakingBundle} {ctx : ExecutionContext} {e : RunOrderError (AsBox Redeem)}
    (h : Redeem.tryRun self pool bundle ctx = .err e) : e.order = self := by
  refine order_of_mapErr_bind_eq_err (fun _ => ?_) h
  refine Outcome.unfailing_bind (Outcome.unfailing_unwrap _) fun _ => ?_
  refine Outcome.unfailing_bind (Pool.unfailing_intoCandidate _ _) fun _ => ?_
  refine Outcome.unfailing_bind (RedeemOutput.unfailing_intoCandidate _ _) fun _ => ?_
  refine Outcome.unfailing_bind (unfailing_plainCandidate _ _ _ _) fun _ => ?_
  refine Outcome.unfailing_bind (unfailing_plainCandidate _ _ _ _) fun _ => ?_
  refine Outcome.unfailing_bind (Outcome.unfailing_unwrap _) fun _ => ?_
  refine Outcome.unfailing_bind (Outcome.unfailing_unwrap _) fun _ => ?_
  exact Outcome.unfailing_pure _

theorem Compound.order_of_tryRun_eq_err {self : Compound} {pool : AsBox Pool}
    {bundles : List (AsBox StakingBundle)} {funding : NonEmpty (AsBox DistributionFunding)}
    {ctx : ExecutionContext} {e : RunOrderError Compound}
    (h : self.tryRun pool bundles funding ctx = .err e) : e.order = self := by
  refine order_of_mapErr_bind_eq_err (fun _ => ?_) h
  refine Outcome.unfailing_bind (Pool.unfailing_intoCandidate _ _) fun _ => ?_
  refine Outcome.unfailing_bind
    (Outcome.unfailing_mapM (fun _ => unfailing_plainCandidate _ _ _ _) _) fun _ => ?_
  refine Outcome.unfailing_bind
    (Outcome.unfailing_mapM (fun _ => StakingBundleProto.unfailing_intoCandidate _ _) _)
    fun _ => ?_
  refine Outcome.unfailing_bind
    (Outcome.unfailing_mapM (fun _ => RewardOutput.unfailing_intoCandidate _ _) _) fun _ => ?_
  refine Outcome.unfailing_bind (unfailing_plainCandidate _ _ _ _) fun _ => ?_
  refine Outcome.unfailing_bind (Outcome.unfailing_unwrap _) fun _ => ?_
  refine Outcome.unfailing_bind (Outcome.unfailing_unwrap _) fun _ => ?_
  refine Outcome.unfailing_bind (Outcome.unfailing_unwrap _) fun _ => ?_
  refine Outcome.unfailing_bind (Outcome.unfailing_unwrap _) fun _ => ?_
  refine Outcome.unfailing_bind (unfailing_slice _ _ _) fun _ => ?_
  refine Outcome.unfailing_bind (Outcome.unfailing_traverse (fun _ => ?_) _) fun _ => ?_
  · exact Outcome.unfailing_bind (Outcome.unfailing_unwrap _) fun _ => Outcome.unfailing_pure _
  · exact Outcome.unfailing_pure _

/-! ## When a run returns -/

theorem Deposit.exists_tryRun {self : AsBox Deposit} {pool : AsBox Pool}
    {tokenDetails : TokenDetails} {ctx : ExecutionContext} {nextPool : Pool}
    {proto : StakingBundleProto} {userOut : DepositOutput} {executorOut : ExecutorOutput}
    {minerOut : MinerOutput}
    (hok : pool.value.applyDeposit self.value tokenDetails ctx =
      .ok (nextPool, proto, userOut, executorOut, minerOut))
    (hpool : nextPool.contents.Writable) (huser : userOut.contents.Writable)
    (hbundle : proto.contents.Writable) (hexecutor : executorOut.contents.Writable)
    (hminer : minerOut.contents.Writable) :
    ∃ result, Deposit.tryRun self pool tokenDetails ctx = .ok result := by
  obtain ⟨inputs, hinputs⟩ : ∃ inputs : TxIoVec (ErgoBox × ContextExtension),
      BoundedVec.fromVec ([pool.bx, self.bx].map fun bx => (bx, ContextExtension.empty)) =
        some inputs := exists_boundedVec (by simp)
  obtain ⟨c₀, h₀⟩ : ∃ c, (nextPool.intoCandidate ctx.height :
      Outcome (RunOrderError (AsBox Deposit)) _) = .ok c := Pool.exists_intoCandidate.mpr hpool
  obtain ⟨c₁, h₁⟩ : ∃ c, (userOut.intoCandidate ctx.height :
      Outcome (RunOrderError (AsBox Deposit)) _) = .ok c :=
    DepositOutput.exists_intoCandidate.mpr huser
  obtain ⟨c₂, h₂⟩ : ∃ c, (proto.intoCandidate ctx.height :
      Outcome (RunOrderError (AsBox Deposit)) _) = .ok c :=
    StakingBundleProto.exists_intoCandidate.mpr hbundle
  obtain ⟨c₃, h₃⟩ : ∃ c, (executorOut.intoCandidate ctx.height :
      Outcome (RunOrderError (AsBox Deposit)) _) = .ok c := exists_plainCandidate.mpr hexecutor.2
  obtain ⟨c₄, h₄⟩ : ∃ c, (minerOut.intoCandidate ctx.height :
      Outcome (RunOrderError (AsBox Deposit)) _) = .ok c := exists_plainCandidate.mpr hminer.2
  obtain ⟨outputs, houtputs⟩ : ∃ outputs : TxIoVec ErgoBoxCandidate,
      BoundedVec.fromVec [c₀, c₁, c₂, c₃, c₄] = some outputs := exists_boundedVec (by simp)
  have hlist := BoundedVec.fromVec_eq_some.mp houtputs
  obtain ⟨poolBox, hpoolBox⟩ : ∃ bx,
      (TransactionCandidate.outputs ⟨inputs, outputs⟩)[0]? = some bx := by
    simp [TransactionCandidate.outputs, hlist]
  obtain ⟨bundleBox, hbundleBox⟩ : ∃ bx,
      (TransactionCandidate.outputs ⟨inputs, outputs⟩)[2]? = some bx := by
    simp [TransactionCandidate.outputs, hlist]
  simp only [tryRun, hok, Outcome.mapErr, Outcome.ok_bind, hinputs, h₀, h₁, h₂, h₃, h₄, houtputs,
    Outcome.unwrap, hpoolBox, hbundleBox]
  exact ⟨_, rfl⟩

/-- A deposit crashes where its application does, or where one of its outputs cannot be written. -/
theorem Deposit.tryRun_ne_crash {self : AsBox Deposit} {pool : AsBox Pool}
    {tokenDetails : TokenDetails} {ctx : ExecutionContext} :
    Deposit.tryRun self pool tokenDetails ctx ≠ .crash ↔
      pool.value.applyDeposit self.value tokenDetails ctx ≠ .crash ∧
        ∀ nextPool proto userOut executorOut minerOut,
          pool.value.applyDeposit self.value tokenDetails ctx =
              .ok (nextPool, proto, userOut, executorOut, minerOut) →
            nextPool.contents.Writable ∧ userOut.contents.Writable ∧ proto.contents.Writable ∧
              executorOut.contents.Writable ∧ minerOut.contents.Writable := by
  constructor
  · intro h
    rw [tryRun, Outcome.bind_ne_crash, Outcome.mapErr_ne_crash] at h
    obtain ⟨happly, h⟩ := h
    refine ⟨happly, fun nextPool proto userOut executorOut minerOut hok => ?_⟩
    have h := h _ (Outcome.mapErr_eq_ok.mpr hok)
    obtain ⟨inputs, -, h⟩ := (Outcome.unfailing_unwrap _).bind_ne_crash.mp h
    obtain ⟨c₀, h₀, h⟩ := (Pool.unfailing_intoCandidate _ _).bind_ne_crash.mp h
    obtain ⟨c₁, h₁, h⟩ := (DepositOutput.unfailing_intoCandidate _ _).bind_ne_crash.mp h
    obtain ⟨c₂, h₂, h⟩ := (StakingBundleProto.unfailing_intoCandidate _ _).bind_ne_crash.mp h
    obtain ⟨c₃, h₃, h⟩ := (unfailing_plainCandidate _ _ _ _).bind_ne_crash.mp h
    obtain ⟨c₄, h₄, -⟩ := (unfailing_plainCandidate _ _ _ _).bind_ne_crash.mp h
    exact ⟨Pool.exists_intoCandidate.mp ⟨c₀, h₀⟩, DepositOutput.exists_intoCandidate.mp ⟨c₁, h₁⟩,
      StakingBundleProto.exists_intoCandidate.mp ⟨c₂, h₂⟩,
      ExecutorOutput.intoCandidate_ok h₃ ▸ c₃.writable_contents,
      MinerOutput.intoCandidate_ok h₄ ▸ c₄.writable_contents⟩
  · intro ⟨happly, hwritable⟩
    cases hok : pool.value.applyDeposit self.value tokenDetails ctx with
    | crash => exact absurd hok happly
    | err e => simp [tryRun, hok, Outcome.mapErr]
    | ok result =>
        obtain ⟨nextPool, proto, userOut, executorOut, minerOut⟩ := result
        obtain ⟨hpool, huser, hbundle, hexecutor, hminer⟩ := hwritable _ _ _ _ _ hok
        obtain ⟨result, hresult⟩ := exists_tryRun hok hpool huser hbundle hexecutor hminer
        simp [hresult]

theorem Redeem.exists_tryRun {self : AsBox Redeem} {pool : AsBox Pool}
    {bundle : AsBox StakingBundle} {ctx : ExecutionContext} {nextPool : Pool}
    {userOut : RedeemOutput} {executorOut : ExecutorOutput} {minerOut : MinerOutput}
    (hok : pool.value.applyRedeem self.value bundle.value ctx =
      .ok (nextPool, userOut, executorOut, minerOut))
    (hpool : nextPool.contents.Writable) (huser : userOut.contents.Writable)
    (hexecutor : executorOut.contents.Writable) (hminer : minerOut.contents.Writable) :
    ∃ result, Redeem.tryRun self pool bundle ctx = .ok result := by
  obtain ⟨inputs, hinputs⟩ : ∃ inputs : TxIoVec (ErgoBox × ContextExtension),
      BoundedVec.fromVec ([pool.bx, bundle.bx, self.bx].map fun bx =>
        (bx, ContextExtension.empty)) = some inputs := exists_boundedVec (by simp)
  obtain ⟨c₀, h₀⟩ : ∃ c, (nextPool.intoCandidate ctx.height :
      Outcome (RunOrderError (AsBox Redeem)) _) = .ok c := Pool.exists_intoCandidate.mpr hpool
  obtain ⟨c₁, h₁⟩ : ∃ c, (userOut.intoCandidate ctx.height :
      Outcome (RunOrderError (AsBox Redeem)) _) = .ok c :=
    RedeemOutput.exists_intoCandidate.mpr huser
  obtain ⟨c₂, h₂⟩ : ∃ c, (executorOut.intoCandidate ctx.height :
      Outcome (RunOrderError (AsBox Redeem)) _) = .ok c := exists_plainCandidate.mpr hexecutor.2
  obtain ⟨c₃, h₃⟩ : ∃ c, (minerOut.intoCandidate ctx.height :
      Outcome (RunOrderError (AsBox Redeem)) _) = .ok c := exists_plainCandidate.mpr hminer.2
  obtain ⟨outputs, houtputs⟩ : ∃ outputs : TxIoVec ErgoBoxCandidate,
      BoundedVec.fromVec [c₀, c₁, c₂, c₃] = some outputs := exists_boundedVec (by simp)
  have hlist := BoundedVec.fromVec_eq_some.mp houtputs
  obtain ⟨poolBox, hpoolBox⟩ : ∃ bx,
      (TransactionCandidate.outputs ⟨inputs, outputs⟩)[0]? = some bx := by
    simp [TransactionCandidate.outputs, hlist]
  simp only [tryRun, hok, Outcome.mapErr, Outcome.ok_bind, hinputs, h₀, h₁, h₂, h₃, houtputs,
    Outcome.unwrap, hpoolBox]
  exact ⟨_, rfl⟩

theorem Redeem.tryRun_ne_crash {self : AsBox Redeem} {pool : AsBox Pool}
    {bundle : AsBox StakingBundle} {ctx : ExecutionContext} :
    Redeem.tryRun self pool bundle ctx ≠ .crash ↔
      pool.value.applyRedeem self.value bundle.value ctx ≠ .crash ∧
        ∀ nextPool userOut executorOut minerOut,
          pool.value.applyRedeem self.value bundle.value ctx =
              .ok (nextPool, userOut, executorOut, minerOut) →
            nextPool.contents.Writable ∧ userOut.contents.Writable ∧
              executorOut.contents.Writable ∧ minerOut.contents.Writable := by
  constructor
  · intro h
    rw [tryRun, Outcome.bind_ne_crash, Outcome.mapErr_ne_crash] at h
    obtain ⟨happly, h⟩ := h
    refine ⟨happly, fun nextPool userOut executorOut minerOut hok => ?_⟩
    have h := h _ (Outcome.mapErr_eq_ok.mpr hok)
    obtain ⟨inputs, -, h⟩ := (Outcome.unfailing_unwrap _).bind_ne_crash.mp h
    obtain ⟨c₀, h₀, h⟩ := (Pool.unfailing_intoCandidate _ _).bind_ne_crash.mp h
    obtain ⟨c₁, h₁, h⟩ := (RedeemOutput.unfailing_intoCandidate _ _).bind_ne_crash.mp h
    obtain ⟨c₂, h₂, h⟩ := (unfailing_plainCandidate _ _ _ _).bind_ne_crash.mp h
    obtain ⟨c₃, h₃, -⟩ := (unfailing_plainCandidate _ _ _ _).bind_ne_crash.mp h
    exact ⟨Pool.exists_intoCandidate.mp ⟨c₀, h₀⟩, RedeemOutput.exists_intoCandidate.mp ⟨c₁, h₁⟩,
      ExecutorOutput.intoCandidate_ok h₂ ▸ c₂.writable_contents,
      MinerOutput.intoCandidate_ok h₃ ▸ c₃.writable_contents⟩
  · intro ⟨happly, hwritable⟩
    cases hok : pool.value.applyRedeem self.value bundle.value ctx with
    | crash => exact absurd hok happly
    | err e => simp [tryRun, hok, Outcome.mapErr]
    | ok result =>
        obtain ⟨nextPool, userOut, executorOut, minerOut⟩ := result
        obtain ⟨hpool, huser, hexecutor, hminer⟩ := hwritable _ _ _ _ hok
        obtain ⟨result, hresult⟩ := exists_tryRun hok hpool huser hexecutor hminer
        simp [hresult]

section Compound

variable {settled : List StakingBundle} {residual : Option DistributionFundingProto}
  {rewards : List RewardOutput} {minerOut : MinerOutput} {next : Pool}

omit [ErgoLib] in
/-- A distribution returns a successor and a reward for every bundle. -/
theorem Pool.length_of_distributeRewards {pool : Pool} {bundles : List StakingBundle}
    {funding : NonEmpty DistributionFunding}
    (hok : pool.distributeRewards bundles funding = .ok (next, settled, residual, rewards, minerOut)) :
    settled.length = bundles.length ∧ rewards.length = bundles.length := by
  obtain ⟨epochIx, total, hdist⟩ := Pool.distributeRewards_ok hok
  constructor
  · rw [hdist.nextBundles_eq, List.length_map]
  · rw [hdist.rewardOutputs_eq, List.length_map]

/-- Outputs that can be written have candidates. -/
theorem Compound.exists_candidates (hpool : next.contents.Writable)
    (hresidual : ∀ nf ∈ residual.toList, nf.contents.Writable)
    (hsettled : ∀ b ∈ settled, b.toProto.contents.Writable)
    (hrewards : ∀ r ∈ rewards, r.contents.Writable) (hminer : minerOut.contents.Writable)
    (height : ℕ) : ∃ poolOut fundingOuts bundleOuts rewardOuts feeOut,
      (next.intoCandidate height : Outcome (RunOrderError Compound) _) = .ok poolOut ∧
      (residual.toList.mapM fun nf => (nf.intoCandidate height :
        Outcome (RunOrderError Compound) _)) = .ok fundingOuts ∧
      (settled.mapM fun b => (b.intoCandidate height : Outcome (RunOrderError Compound) _)) =
        .ok bundleOuts ∧
      (rewards.mapM fun r => (r.intoCandidate height : Outcome (RunOrderError Compound) _)) =
        .ok rewardOuts ∧
      (minerOut.intoCandidate height : Outcome (RunOrderError Compound) _) = .ok feeOut := by
  obtain ⟨poolOut, hpoolOut⟩ := Pool.exists_intoCandidate.mpr hpool
  obtain ⟨fundingOuts, hfundingOuts⟩ := Outcome.exists_mapM_eq_ok fun nf hnf =>
    exists_plainCandidate.mpr (hresidual nf hnf).2
  obtain ⟨bundleOuts, hbundleOuts⟩ := Outcome.exists_mapM_eq_ok fun b hb =>
    StakingBundleProto.exists_intoCandidate.mpr (hsettled b hb)
  obtain ⟨rewardOuts, hrewardOuts⟩ := Outcome.exists_mapM_eq_ok fun r hr =>
    RewardOutput.exists_intoCandidate.mpr (hrewards r hr)
  obtain ⟨feeOut, hfeeOut⟩ := exists_plainCandidate.mpr hminer.2
  exact ⟨poolOut, fundingOuts, bundleOuts, rewardOuts, feeOut, hpoolOut, hfundingOuts,
    hbundleOuts, hrewardOuts, hfeeOut⟩

omit [ErgoLib] in
/-- Among outputs with the successor of some bundle, a first bundle is found. -/
theorem Compound.exists_firstBundleOutIx {height : ℕ} {bundleOuts outputs : List ErgoBoxCandidate}
    (hbundles : (settled.mapM fun b => (b.intoCandidate height :
      Outcome (RunOrderError Compound) _)) = .ok bundleOuts)
    (hne : settled ≠ []) (hsub : ∀ c ∈ bundleOuts, c ∈ outputs) :
    ∃ ix, outputs.findIdx? (fun o => decide (o.ergoTree = bundleValidator)) = some ix := by
  have hpos : 0 < bundleOuts.length := by
    rw [Outcome.length_of_mapM_eq_ok hbundles]
    exact List.length_pos_iff.mpr hne
  obtain ⟨c, hc⟩ := List.exists_mem_of_length_pos hpos
  have hcontents := List.mem_map_of_mem (f := ErgoBoxCandidate.contents) hc
  rw [Outcome.map_of_mapM_eq_ok (fun _ _ => StakingBundleProto.intoCandidate_ok) hbundles]
    at hcontents
  obtain ⟨bundle, -, heq⟩ := List.mem_map.mp hcontents
  have htree : c.ergoTree = bundleValidator := (congrArg BoxContents.ergoTree heq).symm
  exact ⟨_, List.findIdx?_eq_some_of_exists ⟨c, hsub c hc, decide_eq_true htree⟩⟩

omit [ErgoLib] in
/-- The bundles are behind the pool and the residual funding. -/
theorem Compound.exists_bundleOuts {outputs : List ErgoBox} {numBundles : ℕ}
    (h : 1 + residual.toList.length + numBundles ≤ outputs.length) : ∃ bundleOuts,
    (slice outputs (if residual.isSome then 2 else 1) numBundles :
      Outcome (RunOrderError Compound) _) = .ok bundleOuts := by
  have hstart : (if residual.isSome = true then 2 else 1) = 1 + residual.toList.length := by
    cases residual <;> rfl
  exact ⟨_, slice_eq_ok.mpr ⟨hstart ▸ h, rfl⟩⟩

/-- A distribution whose outputs can be written, into not too many boxes, becomes a transaction. -/
theorem Compound.exists_tryRun (self : Compound) {pool : AsBox Pool}
    {bundles : List (AsBox StakingBundle)} {funding : NonEmpty (AsBox DistributionFunding)}
    {ctx : ExecutionContext}
    (hok : pool.value.distributeRewards (bundles.map AsBox.value) (funding.map AsBox.value) =
      .ok (next, settled, residual, rewards, minerOut))
    (hpool : next.contents.Writable) (hresidual : ∀ nf ∈ residual.toList, nf.contents.Writable)
    (hsettled : ∀ b ∈ settled, b.toProto.contents.Writable)
    (hrewards : ∀ r ∈ rewards, r.contents.Writable) (hminer : minerOut.contents.Writable)
    (hne : bundles ≠ []) (hfunding : funding.toList.length ≤ 10000)
    (hbundles : bundles.length ≤ 10000) :
    ∃ result, self.tryRun pool bundles funding ctx = .ok result := by
  obtain ⟨c₀, cs₁, cs₂, cs₃, c₄, h₀, h₁, h₂, h₃, h₄⟩ :=
    exists_candidates hpool hresidual hsettled hrewards hminer ctx.height
  obtain ⟨hbundleOuts, hrewardOuts⟩ := Pool.length_of_distributeRewards hok
  rw [List.length_map] at hbundleOuts hrewardOuts
  have hfundingOuts : residual.toList.length ≤ 1 := by
    cases residual <;> simp
  have hlen₁ := Outcome.length_of_mapM_eq_ok h₁
  have hlen₂ := Outcome.length_of_mapM_eq_ok h₂
  have hlen₃ := Outcome.length_of_mapM_eq_ok h₃
  obtain ⟨outputs, houtputs⟩ : ∃ outputs : TxIoVec ErgoBoxCandidate,
      BoundedVec.fromVec ([c₀] ++ cs₁ ++ cs₂ ++ cs₃ ++ [c₄]) = some outputs := by
    apply exists_boundedVec
    simp only [List.length_append, List.length_singleton]
    omega
  have hlist := BoundedVec.fromVec_eq_some.mp houtputs
  -- the first bundle is found where it was put, or earlier
  obtain ⟨firstBundleOutIx, hfirst⟩ : ∃ ix, outputs.toList.findIdx? (fun o =>
      decide (o.ergoTree = bundleValidator)) = some ix := by
    apply exists_firstBundleOutIx h₂
    · have hpos := List.length_pos_iff.mpr hne
      exact List.ne_nil_of_length_pos (by omega)
    · intro c hc
      rw [hlist]
      simp [hc]
  obtain ⟨inputs, hinputs⟩ : ∃ inputs : TxIoVec (ErgoBox × ContextExtension),
      BoundedVec.fromVec (([pool.bx] ++ funding.toList.map AsBox.bx).map
          (fun bx => (bx, ContextExtension.empty)) ++
        bundles.mapIdx (bundleInput firstBundleOutIx bundles.length)) = some inputs := by
    apply exists_boundedVec
    simp only [List.length_append, List.length_singleton, List.length_map, List.length_mapIdx]
    omega
  have hlength : (TransactionCandidate.outputs ⟨inputs, outputs⟩).length =
      1 + residual.toList.length + settled.length + rewards.length + 1 := by
    rw [TransactionCandidate.outputs, List.length_mapIdx, hlist]
    simp only [List.length_append, List.length_singleton]
    omega
  obtain ⟨poolBox, hpoolBox⟩ : ∃ bx, (TransactionCandidate.outputs ⟨inputs, outputs⟩)[0]? = some bx :=
    ⟨_, List.getElem?_eq_getElem (by omega)⟩
  obtain ⟨bundleOuts, hslice⟩ : ∃ bundleOuts,
      (slice (TransactionCandidate.outputs ⟨inputs, outputs⟩)
        (if residual.isSome then 2 else 1) settled.length :
          Outcome (RunOrderError Compound) _) = .ok bundleOuts := by
    apply exists_bundleOuts
    omega
  simp only [tryRun, hok, Outcome.mapErr, Outcome.ok_bind, h₀, h₁, h₂, h₃, h₄, houtputs,
    Outcome.unwrap, hfirst, hinputs, hpoolBox, hslice]
  cases residual with
  | none => exact ⟨_, rfl⟩
  | some proto =>
      obtain ⟨out, hout⟩ : ∃ bx, (TransactionCandidate.outputs ⟨inputs, outputs⟩)[1]? = some bx :=
        ⟨_, List.getElem?_eq_getElem (by rw [hlength]; simp)⟩
      rw [hout]
      exact ⟨_, rfl⟩

end Compound

end SpectrumOffchain
