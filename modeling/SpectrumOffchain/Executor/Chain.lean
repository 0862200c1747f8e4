import SpectrumOffchain.Executor.Custody
import SpectrumOffchain.Resolver.Chained
import SpectrumOffchain.Staking.Run

/-!
# Chains of transactions

The executor does not wait for the ledger.  A transaction that the node accepts leaves a
predicted pool, the next order of the pool is run against this one, and so the node is given
one transaction on top of the other, while orders of other pools come in between and the
ledger confirms what was accepted earlier.

`execute` decides on a transaction and on what is written to the repository of pools
together; here only the latter is followed (`pools_of_execute`).  As long as no pool is
invalidated, and the ledger confirms nothing else of a pool than what the bot has
predicted, the accepted transactions of the pool are a chain: each spends the box that the one
before it has created, and applies its operation to the pool in that box (`linked_of_run`).

## Strategy

* A transaction on a pool.  Whatever the order, the transaction spends the box of the pool
  first, creates the next one first, and applies one of the three operations
  (`Continues`, `continues_of_runOrder`).
* The repository of pools.  Of the commands that `execute` returns only a few are about
  pools.  `passive_*` show that every branch which does not accept leaves the pools alone
  or invalidates one, and `pools_of_execute` that the accepting branch predicts the next
  pool.
* Linked transactions.  `Linked start log` is the chain, newest transaction first.  Its
  pools are the start and what the transactions create, so the boxes spent are exactly the
  pools below the top (`map_spent_of_linked`) and the pool makes a run of its own
  operations (`run_of_linked`).
* The bot.  The invariant puts two descriptions of the repository next to each other: the
  lineage of states, which says where resolution ends, and the log, which says which boxes
  these states are in.  A confirmation does not move the tip, an accepted transaction
  extends it, and orders of other pools touch neither.
-/

namespace SpectrumOffchain.Executor

open Resolver Transition

/-! ## A transaction on a pool -/

section Continues

variable [ErgoLib]

/-- The transaction takes the pool from one box to the next by one of its operations. -/
structure Continues (pool : AsBox Pool) (run : Evaluated) : Prop where
  spends : (run.tx.inputs.toList.map Prod.fst).head? = some pool.bx
  creates : run.tx.outputs[0]? = some run.nextPool.bx
  step : ∃ action, Staking.PoolStep pool.value action run.nextPool.value

theorem Continues.poolId_eq {pool : AsBox Pool} {run : Evaluated} (h : Continues pool run) :
    run.nextPool.value.poolId = pool.value.poolId := by
  obtain ⟨action, hstep⟩ := h.step
  exact hstep.frame.poolId

theorem Deposit.poolStep_of_tryRun {order : AsBox Deposit} {pool : AsBox Pool}
    {tokenDetails : TokenDetails} {ctx : ExecutionContext} {tx : TransactionCandidate}
    {nextPool : Predicted (AsBox Pool)} {bundle : Predicted (AsBox StakingBundle)}
    (h : Deposit.tryRun order pool tokenDetails ctx = .ok (tx, nextPool, bundle)) :
    ∃ action, Staking.PoolStep pool.value action nextPool.value.value := by
  simp only [Deposit.tryRun, Outcome.bind_eq_ok, Outcome.mapErr_eq_ok, Outcome.pure_eq,
    Outcome.ok.injEq] at h
  obtain ⟨⟨next, proto, userOut, executorOut, minerOut⟩, hok, _, -, _, -, _, -, _, -, _, -, _, -,
    _, -, _, -, _, -, heq⟩ := h
  cases heq
  exact ⟨_, .deposit hok⟩

theorem Redeem.poolStep_of_tryRun {order : AsBox Redeem} {pool : AsBox Pool}
    {bundle : AsBox StakingBundle} {ctx : ExecutionContext} {tx : TransactionCandidate}
    {nextPool : Predicted (AsBox Pool)}
    (h : Redeem.tryRun order pool bundle ctx = .ok (tx, nextPool)) :
    ∃ action, Staking.PoolStep pool.value action nextPool.value.value := by
  simp only [Redeem.tryRun, Outcome.bind_eq_ok, Outcome.mapErr_eq_ok, Outcome.pure_eq,
    Outcome.ok.injEq] at h
  obtain ⟨⟨next, userOut, executorOut, minerOut⟩, hok, _, -, _, -, _, -, _, -, _, -, _, -, _, -,
    heq⟩ := h
  cases heq
  exact ⟨_, .redeem hok⟩

theorem Compound.poolStep_of_tryRun {order : Compound} {pool : AsBox Pool}
    {bundles : List (AsBox StakingBundle)} {funding : NonEmpty (AsBox DistributionFunding)}
    {ctx : ExecutionContext} {tx : TransactionCandidate} {nextPool : Predicted (AsBox Pool)}
    {nextBundles : List (Predicted (AsBox StakingBundle))}
    {nextFunding : Option (Predicted (AsBox DistributionFunding))}
    (h : order.tryRun pool bundles funding ctx = .ok (tx, nextPool, nextBundles, nextFunding)) :
    ∃ action, Staking.PoolStep pool.value action nextPool.value.value := by
  simp only [Compound.tryRun, Outcome.bind_eq_ok, Outcome.mapErr_eq_ok, Outcome.pure_eq,
    Outcome.ok.injEq] at h
  obtain ⟨⟨next, settled, residual, rewards, minerOut⟩, hok, _, -, _, -, _, -, _, -, _, -, _, -, _,
    -, _, -, _, -, _, -, _, -, heq⟩ := h
  cases heq
  exact ⟨_, .compound hok⟩

theorem continues_of_runCompound {svc : Services} {order : Compound} {minValue : Outcome Empty ℕ}
    {pool : AsBox Pool} {bundles : List (AsBox StakingBundle)} {ctx : ExecutionContext}
    {run : Evaluated} (h : runCompound svc order minValue pool bundles ctx = .ok (some (.ok run))) :
    Continues pool run := by
  unfold runCompound at h
  obtain ⟨target, -, hrest⟩ := Outcome.bind_eq_ok.mp h
  split at hrest
  · obtain ⟨res, hres, heq⟩ := Outcome.bind_eq_ok.mp hrest
    rcases attempt_eq_ok.mp hres with
      ⟨⟨tx, nextPool, nextBundles, residual⟩, hrun, rfl⟩ | ⟨e, -, rfl⟩
    · cases heq
      obtain ⟨_, _, _, _, _, _, hran⟩ := Compound.tryRun_ok hrun
      exact ⟨by simp [hran.inputs_eq], hran.pool_bx, Compound.poolStep_of_tryRun hrun⟩
    · cases heq
  · cases hrest

theorem continues_of_runOrder {svc : Services} {ord : Order} {pool : AsBox Pool}
    {bundles : List (AsBox StakingBundle)} {ctx : ExecutionContext} {run : Evaluated}
    (h : runOrder svc ord pool bundles ctx = .ok (some (.ok run))) : Continues pool run := by
  unfold runOrder at h
  split at h
  · obtain ⟨res, hres, heq⟩ := Outcome.bind_eq_ok.mp h
    rcases attempt_eq_ok.mp hres with ⟨⟨tx, nextPool, bundle⟩, hrun, rfl⟩ | ⟨e, -, rfl⟩
    · cases heq
      obtain ⟨_, _, _, _, hran⟩ := Deposit.tryRun_ok hrun
      exact ⟨by simp [hran.inputs_eq], hran.pool_bx, Deposit.poolStep_of_tryRun hrun⟩
    · cases heq
  · obtain ⟨res, hres, heq⟩ := Outcome.bind_eq_ok.mp h
    rcases attempt_eq_ok.mp hres with ⟨⟨tx, nextPool⟩, hrun, rfl⟩ | ⟨e, -, rfl⟩
    · cases heq
      obtain ⟨_, _, _, hran⟩ := Redeem.tryRun_ok hrun
      exact ⟨by simp [hran.inputs_eq], hran.pool_bx, Redeem.poolStep_of_tryRun hrun⟩
    · cases heq
  · exact continues_of_runCompound h
  · cases h
  · cases h

end Continues

/-! ## The repository of pools -/

/-- The repository of pools after a command. -/
def Command.applyPools (repo : EntityRepo (AsBox Pool)) : Command → EntityRepo (AsBox Pool)
  | invalidatePool sid eid => repo.invalidate sid eid
  | putPredictedPool traced => repo.putPredicted traced
  | _ => repo

/-- The command leaves the pools alone. -/
def Command.SparesPools : Command → Prop
  | invalidatePool _ _ => False
  | putPredictedPool _ => False
  | _ => True

/-- The command invalidates a pool. -/
def Command.InvalidatesPool : Command → Prop
  | invalidatePool _ _ => True
  | _ => False

theorem foldl_applyPools {commands : List Command} (repo : EntityRepo (AsBox Pool))
    (h : ∀ command ∈ commands, command.SparesPools) :
    commands.foldl Command.applyPools repo = repo := by
  induction commands with
  | nil => rfl
  | cons command rest ih =>
      obtain ⟨hspares, hrest⟩ := List.forall_mem_cons.mp h
      have hsame : command.applyPools repo = repo := by
        cases command <;> first | rfl | exact hspares.elim
      rw [List.foldl_cons, hsame]
      exact ih hrest

/-- The commands after a rejection. -/
def Passive (commands : List Command) : Prop :=
  ∀ command ∈ commands, command.SparesPools ∨ command.InvalidatesPool

theorem Passive.spares {commands : List Command} (h : Passive commands)
    (hkeeps : ∀ command ∈ commands, ¬ command.InvalidatesPool) :
    ∀ command ∈ commands, command.SparesPools :=
  fun command hmem => (h command hmem).resolve_right (hkeeps command hmem)

theorem spares_predictBundles {conf : ProgramConfig}
    {nextBundles bundles : List (AsBox StakingBundle)} {commands : List Command}
    (h : predictBundles conf nextBundles bundles = .ok commands) :
    ∀ command ∈ commands, command.SparesPools := by
  induction nextBundles generalizing bundles commands with
  | nil =>
      cases h
      exact fun command hmem => absurd hmem List.not_mem_nil
  | cons nextBundle nextBundles ih =>
      obtain ⟨indexed, -, h⟩ := Outcome.bind_eq_ok.mp h
      obtain ⟨rest, hrest, heq⟩ := Outcome.bind_eq_ok.mp h
      cases heq
      exact List.forall_mem_cons.mpr ⟨trivial, ih hrest⟩

section ErgoLib

variable [Blake2b]

theorem passive_handleInvalidation {ord : Order} {pool : AsBox Pool} {tx : Transaction}
    {invalidation : Invalidation} {commands : List Command}
    (h : handleInvalidation ord pool tx invalidation = .ok commands) : Passive commands := by
  cases invalidation with
  | pool =>
      cases h
      simp [Passive, Command.SparesPools, Command.InvalidatesPool]
  | funding missingFundingIxs =>
      obtain ⟨missing, -, heq⟩ := Outcome.bind_eq_ok.mp h
      cases heq
      simp [Passive, Command.SparesPools, or_imp, forall_and]
  | order =>
      cases h
      simp [Passive, Command.SparesPools]
  | stakingBundles bundlesIx =>
      obtain ⟨missing, -, heq⟩ := Outcome.bind_eq_ok.mp h
      cases heq
      simp [Passive, Command.SparesPools]

theorem passive_handleSubmitError {svc : Services} {ord : Order} {pool : AsBox Pool}
    {tx : Transaction} {orderType : OrderType} {nodeError : NodeSubmitTxError}
    {commands : List Command}
    (h : handleSubmitError svc ord pool tx orderType nodeError = .ok commands) :
    Passive commands := by
  cases nodeError with
  | missingInputs missingIndices =>
      obtain ⟨parts, hparts, heq⟩ := Outcome.bind_eq_ok.mp h
      cases heq
      intro command hmem
      obtain ⟨part, hpart, hmem⟩ := List.mem_flatten.mp hmem
      obtain ⟨invalidation, -, hcommands⟩ := (Outcome.mem_of_mapM_eq_ok hparts).1 part hpart
      exact passive_handleInvalidation hcommands command hmem
  | doubleSpend =>
      cases h
      simp [Passive, Command.SparesPools]
  | unhandled =>
      cases h
      simp [Passive]
  | scriptsOfInputsDontPassVerification =>
      cases h
      intro command hmem
      rcases List.mem_append.mp hmem with hmem | hmem
      · split at hmem
        · cases hmem
        · obtain rfl := List.mem_singleton.mp hmem
          exact .inr trivial
      · split at hmem
        · obtain ⟨boxId, -, rfl⟩ := List.mem_map.mp hmem
          exact .inl trivial
        · cases hmem

theorem passive_handleMissingPool (svc : Services) (ord : Order) :
    Passive (handleMissingPool svc ord) := by
  unfold handleMissingPool
  cases ord with
  | compound order => simp [Passive, Command.SparesPools]
  | _ =>
      dsimp only
      split <;> simp [Passive, Command.SparesPools]

variable [ErgoLib]

/-- The pool and the run, if the node accepts the transaction of the run. -/
def Services.accepts (svc : Services) (pool : AsBox Pool) (run : Evaluated) :
    Option (AsBox Pool × Evaluated) :=
  (svc.sign run.tx).bind fun tx => if svc.submitTx tx = none then some (pool, run) else none

/-- The transaction of the order that the node accepts, if there is one, with the pool it is
made on. -/
def accepted (svc : Services) (ord : Order) : Option (AsBox Pool × Evaluated) :=
  (svc.resolvePool ord.getEntityRef).bind fun pool =>
    match runOrder svc ord pool (ord.bundleIds.filterMap svc.resolveBundle)
        (svc.makeContext pool.bx.boxId) with
    | .ok (some (.ok run)) => svc.accepts pool run
    | _ => none

variable {svc : Services} {ord : Order} {pool : AsBox Pool} {run : Evaluated}

omit [Blake2b] in
theorem continues_of_accepted (h : accepted svc ord = some (pool, run)) :
    svc.resolvePool ord.getEntityRef = some pool ∧ Continues pool run := by
  obtain ⟨pool', hpool, h⟩ := Option.bind_eq_some_iff.mp h
  split at h
  · next run' hrun =>
      obtain ⟨tx, -, h⟩ := Option.bind_eq_some_iff.mp h
      split at h
      · cases h
        exact ⟨hpool, continues_of_runOrder hrun⟩
      · cases h
  · cases h

/-- The pools after the transaction of an order. -/
def predictNext (repo : EntityRepo (AsBox Pool)) :
    Option (AsBox Pool × Evaluated) → EntityRepo (AsBox Pool)
  | some (pool, run) => repo.putPredicted ⟨run.nextPool, some (getSelfStateRef pool)⟩
  | none => repo

omit [ErgoLib] in
theorem pools_of_submit {bundles : List (AsBox StakingBundle)} {commands : List Command}
    (h : submit svc ord pool bundles run = .ok commands)
    (hkeeps : ∀ command ∈ commands, ¬ command.InvalidatesPool) (repo : EntityRepo (AsBox Pool)) :
    commands.foldl Command.applyPools repo = predictNext repo (svc.accepts pool run) := by
  unfold submit at h
  unfold Services.accepts
  cases hsign : svc.sign run.tx with
  | none =>
      rw [hsign] at h
      cases h
      rfl
  | some tx =>
      rw [hsign] at h
      dsimp only at h
      cases hsubmit : svc.submitTx tx with
      | none =>
          rw [hsubmit] at h
          obtain ⟨predictions, hpredictions, heq⟩ := Outcome.bind_eq_ok.mp h
          cases heq
          simp only [List.cons_append, List.nil_append, List.foldl_cons, List.foldl_append,
            Option.bind_some, hsubmit, if_true]
          rw [foldl_applyPools _ (spares_predictBundles hpredictions), foldl_applyPools]
          · rfl
          · intro command hmem
            obtain ⟨funding, -, rfl⟩ := List.mem_map.mp hmem
            trivial
      | some err =>
          rw [hsubmit] at h
          obtain ⟨nodeError, -, h⟩ := Outcome.bind_eq_ok.mp h
          rw [foldl_applyPools repo ((passive_handleSubmitError h).spares hkeeps)]
          simp [hsubmit, predictNext]

/-- Where no pool is invalidated, an order leaves in the repository what its accepted transaction
makes of the pool, and nothing else. -/
theorem pools_of_execute {res : Bool} {commands : List Command}
    (h : execute svc ord = .ok (res, commands))
    (hkeeps : ∀ command ∈ commands, ¬ command.InvalidatesPool) (repo : EntityRepo (AsBox Pool)) :
    commands.foldl Command.applyPools repo = predictNext repo (accepted svc ord) := by
  unfold execute at h
  unfold accepted
  cases hpool : svc.resolvePool ord.getEntityRef with
  | none =>
      rw [hpool] at h
      cases h
      exact foldl_applyPools repo ((passive_handleMissingPool svc ord).spares hkeeps)
  | some pool =>
      rw [hpool] at h
      obtain ⟨result, hrun, h⟩ := Outcome.bind_eq_ok.mp h
      rw [Option.bind_some, hrun]
      rcases result with - | (e | run)
      · cases h
        rfl
      · cases e <;> cases h <;> rfl
      · obtain ⟨commands', hsubmit, heq⟩ := Outcome.bind_eq_ok.mp h
        cases heq
        exact pools_of_submit hsubmit hkeeps repo

/-! ## Linked transactions -/

section Linked

omit [Blake2b]

/-- The pool that the latest of some transactions creates. -/
def tip (start : AsBox Pool) : List Evaluated → AsBox Pool
  | [] => start
  | run :: _ => run.nextPool

/-- Each of the transactions, the latest first, is made on the pool that the one before it
creates. -/
def Linked (start : AsBox Pool) : List Evaluated → Prop
  | [] => True
  | run :: earlier => Continues (tip start earlier) run ∧ Linked start earlier

/-- The pools before and between the transactions, and after the latest. -/
def pools (start : AsBox Pool) (log : List Evaluated) : List (AsBox Pool) :=
  log.map Evaluated.nextPool ++ [start]

/-- The box of a pool that the transaction spends. -/
def spent (run : Evaluated) : Option ErgoBox := (run.tx.inputs.toList.map Prod.fst).head?

variable {start : AsBox Pool} {log : List Evaluated}

omit [ErgoLib] in
theorem pools_eq_cons : pools start log = tip start log :: (pools start log).tail := by
  cases log <;> rfl

theorem map_spent_of_linked (h : Linked start log) :
    log.map spent = (pools start log).tail.map fun pool => some pool.bx := by
  induction log with
  | nil => rfl
  | cons run earlier ih =>
      obtain ⟨hcontinues, hlinked⟩ := h
      show spent run :: earlier.map spent = (pools start earlier).map _
      rw [ih hlinked, pools_eq_cons, List.map_cons, spent, hcontinues.spends]
      rfl

/-- The pool goes from one box to the next by its own operations. -/
theorem run_of_linked (h : Linked start log) :
    ∃ actions, Run Staking.PoolStep start.value actions (tip start log).value := by
  induction log with
  | nil => exact ⟨[], .nil _⟩
  | cons run earlier ih =>
      obtain ⟨hcontinues, hlinked⟩ := h
      obtain ⟨actions, hrun⟩ := ih hlinked
      obtain ⟨action, hstep⟩ := hcontinues.step
      exact ⟨actions ++ [action], hrun.append (.single hstep)⟩

end Linked

/-! ## The bot -/

/-- The repository of pools, what has been put into it, and the transactions that the node has
accepted, the latest first. -/
structure Bot where
  repo : EntityRepo (AsBox Pool)
  put : List (AsBox Pool)
  log : List Evaluated

/-- An order is executed, or the ledger confirms a pool. -/
inductive BotEvent where
  | execute (svc : Services) (ord : Order)
  | confirm (pool : AsBox Pool)

namespace Bot

/-- The pool is confirmed in the box it starts in. -/
def start (pool : AsBox Pool) : Bot := ⟨EntityRepo.empty.putConfirmed pool, [pool], []⟩

/-- The accepted transactions of a pool. -/
def logOf (s : Bot) (pid : PoolId) : List Evaluated :=
  s.log.filter fun run => run.nextPool.value.poolId = pid

/-- The executor resolves the pool of an order in the repository as it is.  The id of a box
is a hash of the box: a predicted box has an id of its own, and what the ledger confirms under a
known id is known. -/
def Step (s : Bot) : BotEvent → Bot → Prop
  | .execute svc ord, s' => ∃ rounds res commands,
      resolveEntityState s.repo ord.getEntityRef rounds = some (svc.resolvePool ord.getEntityRef) ∧
      execute svc ord = .ok (res, commands) ∧
      (∀ pool run, accepted svc ord = some (pool, run) →
        ¬ Known s.put (getSelfStateRef run.nextPool)) ∧
      s' = ⟨commands.foldl Command.applyPools s.repo,
        ((accepted svc ord).map fun made => made.2.nextPool).toList ++ s.put,
        ((accepted svc ord).map Prod.snd).toList ++ s.log⟩
  | .confirm pool, s' =>
      (∀ known ∈ s.put, known.bx.boxId = pool.bx.boxId → known = pool) ∧
      s' = ⟨s.repo.putConfirmed pool, pool :: s.put, s.log⟩

/-- No pool is invalidated, and of the pool that is followed the ledger confirms only what
has been predicted. -/
def Undisturbed (start : AsBox Pool) (s : Bot) : BotEvent → Prop
  | .execute svc ord => ∀ res commands, execute svc ord = .ok (res, commands) →
      ∀ command ∈ commands, ¬ command.InvalidatesPool
  | .confirm pool => pool.value.poolId = start.value.poolId →
      pool ∈ pools start (s.logOf start.value.poolId)

/-! ### What the steps keep -/

/-- The pools are told apart by the ids of their boxes. -/
def Identified (known : List (AsBox Pool)) : Prop :=
  ∀ a ∈ known, ∀ b ∈ known, a.bx.boxId = b.bx.boxId → a = b

/-- What is recorded for a pool id is a pool with this id. -/
def Named (known : List (AsBox Pool)) (store : Store PoolId PoolStateId) : Prop :=
  ∀ eid sid, store.get eid = some sid →
    ∃ pool ∈ known, getSelfStateRef pool = sid ∧ pool.value.poolId = eid

section Records

omit [Blake2b] [ErgoLib]

variable {known : List (AsBox Pool)} {store : Store PoolId PoolStateId} {pool : AsBox Pool}

theorem Identified.cons (h : Identified known)
    (hpool : ∀ other ∈ known, other.bx.boxId = pool.bx.boxId → other = pool) :
    Identified (pool :: known) := by
  intro a ha b hb hid
  rcases List.mem_cons.mp ha with rfl | hknown
  · rcases List.mem_cons.mp hb with rfl | hknown
    · rfl
    · exact (hpool b hknown hid.symm).symm
  · rcases List.mem_cons.mp hb with rfl | hknown'
    · exact hpool a hknown hid
    · exact h a hknown b hknown' hid

theorem Named.cons (h : Named known store) : Named (pool :: known) store := by
  intro eid sid hget
  obtain ⟨other, hmem, hnamed⟩ := h eid sid hget
  exact ⟨other, List.mem_cons_of_mem _ hmem, hnamed⟩

theorem Named.insert (h : Named known store) :
    Named (pool :: known) (store.put pool.value.poolId (getSelfStateRef pool)) :=
  Store.forall_get_put ⟨pool, List.mem_cons_self, rfl, rfl⟩ h.cons

end Records

/-- The repository belongs to a lineage in which the pools of the log are the chain. -/
structure Invariant (p : AsBox Pool) (s : Bot) (lineage : Lineage PoolId PoolStateId) : Prop where
  chained : (⟨s.repo, s.put, lineage⟩ : Chained _ _).Invariant (entityResolver (AsBox Pool))
    (fun repo => repo.lastUnconfirmed = .empty) p.value.poolId
  straight : Chained.Straight p.value.poolId lineage
  chain_eq : lineage.chain p.value.poolId =
    (pools p (s.logOf p.value.poolId)).map getSelfStateRef
  identified : Identified s.put
  newest_named : Named s.put lineage.newest
  confirmed_named : Named s.put lineage.confirmed
  recorded : ∀ pool ∈ pools p (s.logOf p.value.poolId), pool ∈ s.put
  nodup : ((pools p (s.logOf p.value.poolId)).map getSelfStateRef).Nodup
  linked : Linked p (s.logOf p.value.poolId)

variable {p : AsBox Pool} {s s' : Bot} {lineage : Lineage PoolId PoolStateId}

omit [Blake2b] in
theorem invariant_start (p : AsBox Pool) :
    (start p).Invariant p (Chained.start (entityResolver (AsBox Pool)) p).lineage where
  chained := Chained.invariant_start lawful_entityResolver p
  straight := (Chained.straight_start _ p).1
  chain_eq := (Chained.straight_start _ p).2
  identified := by
    intro a ha b hb _
    rw [List.mem_singleton.mp ha, List.mem_singleton.mp hb]
  newest_named := fun _ _ hget => by cases hget
  confirmed_named := Named.insert (fun _ _ hget => by cases hget)
  recorded := fun _ hmem => hmem
  nodup := List.nodup_singleton _
  linked := trivial

omit [Blake2b] in
/-- What a pool id is resolved to has been put, and has this id. -/
theorem Invariant.of_resolve (h : s.Invariant p lineage) {eid : PoolId} {rounds : ℕ}
    {pool : AsBox Pool} (hresolve : resolveEntityState s.repo eid rounds = some (some pool)) :
    pool ∈ s.put ∧ pool.value.poolId = eid ∧
      lineage.resolved eid = some (getSelfStateRef pool) := by
  obtain ⟨-, hresolved⟩ :=
    resolved_of_resolve lawful_entityResolver h.chained.clean h.chained.tracks hresolve
  obtain ⟨confirmed, hconfirmed, hout⟩ := Option.map_eq_some_iff.mp hresolved
  obtain ⟨state, hmem, -, enough, hall⟩ :=
    resolve_of_tracks lawful_entityResolver h.chained.clean h.chained.tracks hconfirmed
  have hmore := resolveEntityState_mono hresolve (le_max_left rounds enough)
  have hsame : some (some pool) = some (some state) :=
    hmore.symm.trans (hall _ (le_max_right rounds enough))
  cases hsame
  obtain ⟨named, hnamed, hsid, heid⟩ : ∃ named ∈ s.put,
      getSelfStateRef named = getSelfStateRef pool ∧ named.value.poolId = eid := by
    cases hnewest : lineage.newest.get eid with
    | none =>
        rw [hnewest, Option.getD_none, ite_self] at hout
        exact h.confirmed_named eid _ (hout ▸ hconfirmed)
    | some newest =>
        rw [hnewest, Option.getD_some] at hout
        split at hout
        · exact h.newest_named eid _ (hout ▸ hnewest)
        · exact h.confirmed_named eid _ (hout ▸ hconfirmed)
  have heq : named = pool := h.identified _ hnamed _ hmem (congrArg PoolStateId.boxId hsid)
  exact ⟨hmem, heq ▸ heid, hresolved⟩

omit [Blake2b] in
/-- The pool that is followed is resolved to its tip. -/
theorem Invariant.eq_tip (h : s.Invariant p lineage) {rounds : ℕ} {pool : AsBox Pool}
    (hresolve : resolveEntityState s.repo p.value.poolId rounds = some (some pool)) :
    pool = tip p (s.logOf p.value.poolId) := by
  obtain ⟨hput, -, hresolved⟩ := h.of_resolve hresolve
  have hhead : (lineage.chain p.value.poolId).head? = some (getSelfStateRef pool) := by
    rw [Lineage.chain_of_resolved h.straight.valid hresolved]
    exact Links.head?_ancestry _ _
  rw [h.chain_eq, pools_eq_cons] at hhead
  have htip : tip p (s.logOf p.value.poolId) ∈ s.put :=
    h.recorded _ (by rw [pools_eq_cons]; exact List.mem_cons_self)
  exact (h.identified _ htip _ hput (congrArg PoolStateId.boxId (Option.some.inj hhead))).symm

omit [Blake2b] in
/-- An accepted transaction of the pool that is followed is made on its tip. -/
theorem Invariant.execute (h : s.Invariant p lineage) {rounds : ℕ} {pid : PoolId}
    {pool : AsBox Pool} {run : Evaluated}
    (hresolve : resolveEntityState s.repo pid rounds = some (some pool))
    (hcontinues : Continues pool run) (hfresh : ¬ Known s.put (getSelfStateRef run.nextPool)) :
    Invariant p ⟨predictNext s.repo (some (pool, run)), run.nextPool :: s.put, run :: s.log⟩
      (lineage.predict run.nextPool.value.poolId (getSelfStateRef run.nextPool)
        (getSelfStateRef pool)) := by
  obtain ⟨-, hpid, -⟩ := h.of_resolve hresolve
  have hnextPid : run.nextPool.value.poolId = pid := hcontinues.poolId_eq.trans hpid
  have hstep : Chained.Step (entityResolver (AsBox Pool)) ⟨s.repo, s.put, lineage⟩
      (.execute run.nextPool)
      (Chained.predict (entityResolver _) ⟨s.repo, s.put, lineage⟩ run.nextPool pool) := by
    refine ⟨hfresh, rounds, pool, ?_, rfl⟩
    show resolveEntityState s.repo run.nextPool.value.poolId rounds = _
    rw [hnextPid, hresolve]
  obtain ⟨hstraight, hchain⟩ := Chained.straight_step lawful_entityResolver h.chained h.straight
    ⟨hstep, trivial⟩
  have hchained := Chained.invariant_step lawful_entityResolver h.chained hstep
  have hidentified : Identified (run.nextPool :: s.put) := h.identified.cons
    fun known hknown hid => absurd ⟨known, hknown, congrArg PoolStateId.mk hid⟩ hfresh
  -- an order of another pool leaves the chain alone
  by_cases heid : run.nextPool.value.poolId = p.value.poolId
  · have hlog : (⟨predictNext s.repo (some (pool, run)), run.nextPool :: s.put,
        run :: s.log⟩ : Bot).logOf p.value.poolId = run :: s.logOf p.value.poolId :=
      List.filter_cons_of_pos (decide_eq_true heid)
    have htip : pool = tip p (s.logOf p.value.poolId) := by
      rw [← hnextPid, heid] at hresolve
      exact h.eq_tip hresolve
    refine ⟨hchained, hstraight, ?_, hidentified, h.newest_named.insert, h.confirmed_named.cons,
      ?_, ?_, ?_⟩
    · rw [hlog]
      show _ = getSelfStateRef run.nextPool :: (pools p (s.logOf _)).map _
      rw [← h.chain_eq]
      exact hchain.trans (congrArg (· ++ _) (if_pos heid))
    · rw [hlog]
      exact List.forall_mem_cons.mpr
        ⟨List.mem_cons_self, fun known hknown => List.mem_cons_of_mem _ (h.recorded known hknown)⟩
    · rw [hlog]
      refine List.nodup_cons.mpr ⟨fun hmem => hfresh ?_, h.nodup⟩
      obtain ⟨known, hknown, hid⟩ := List.mem_map.mp hmem
      exact ⟨known, h.recorded known hknown, hid⟩
    · rw [hlog]
      exact ⟨htip ▸ hcontinues, h.linked⟩
  · have hlog : (⟨predictNext s.repo (some (pool, run)), run.nextPool :: s.put,
        run :: s.log⟩ : Bot).logOf p.value.poolId = s.logOf p.value.poolId :=
      List.filter_cons_of_neg (by simpa using heid)
    refine ⟨hchained, hstraight, ?_, hidentified, h.newest_named.insert, h.confirmed_named.cons,
      ?_, ?_, ?_⟩
    · rw [hlog, ← h.chain_eq]
      exact hchain.trans (congrArg (· ++ _) (if_neg heid))
    · rw [hlog]
      exact fun known hknown => List.mem_cons_of_mem _ (h.recorded known hknown)
    · rw [hlog]
      exact h.nodup
    · rw [hlog]
      exact h.linked

omit [Blake2b] in
/-- What is confirmed of the pool that is followed is on its chain. -/
theorem Invariant.confirm (h : s.Invariant p lineage) {pool : AsBox Pool}
    (hknown : ∀ known ∈ s.put, known.bx.boxId = pool.bx.boxId → known = pool)
    (hchain : pool.value.poolId = p.value.poolId → pool ∈ pools p (s.logOf p.value.poolId)) :
    Invariant p ⟨s.repo.putConfirmed pool, pool :: s.put, s.log⟩
      (lineage.confirm pool.value.poolId (getSelfStateRef pool)) := by
  have hstep : Chained.Step (entityResolver (AsBox Pool)) ⟨s.repo, s.put, lineage⟩
      (.confirm pool) (Chained.confirm (entityResolver _) ⟨s.repo, s.put, lineage⟩ pool) := rfl
  have honchain : Chained.OnChain p.value.poolId ⟨s.repo, s.put, lineage⟩ (.confirm pool) := by
    intro heid
    show getSelfStateRef pool ∈ lineage.chain p.value.poolId
    rw [h.chain_eq]
    exact List.mem_map_of_mem (hchain heid)
  obtain ⟨hstraight, hsame⟩ := Chained.straight_step lawful_entityResolver h.chained h.straight
    ⟨hstep, honchain⟩
  refine ⟨Chained.invariant_step lawful_entityResolver h.chained hstep, hstraight,
    hsame.trans h.chain_eq, h.identified.cons hknown, h.newest_named.cons, h.confirmed_named.insert,
    fun known hmem => List.mem_cons_of_mem _ (h.recorded known hmem), h.nodup, h.linked⟩

theorem invariant_step {event : BotEvent} (h : ∃ lineage, s.Invariant p lineage)
    (hstep : restrict Step (Undisturbed p) s event s') : ∃ lineage, s'.Invariant p lineage := by
  obtain ⟨lineage, h⟩ := h
  obtain ⟨hstep, hundisturbed⟩ := hstep
  cases event with
  | execute svc ord =>
      obtain ⟨rounds, res, commands, hresolve, hexecute, hfresh, rfl⟩ := hstep
      rw [pools_of_execute hexecute (hundisturbed res commands hexecute)]
      cases haccepted : accepted svc ord with
      | none => exact ⟨lineage, h⟩
      | some made =>
          obtain ⟨pool, run⟩ := made
          obtain ⟨hpool, hcontinues⟩ := continues_of_accepted haccepted
          rw [hpool] at hresolve
          exact ⟨_, h.execute hresolve hcontinues (hfresh pool run haccepted)⟩
  | confirm pool =>
      obtain ⟨hknown, rfl⟩ := hstep
      exact ⟨_, h.confirm hknown hundisturbed⟩

/-- The accepted transactions of the pool `p` are linked, no box of the pool is spent twice, and
the pool is where they have taken it. -/
structure OneChain (p : AsBox Pool) (s : Bot) : Prop where
  linked : Linked p (s.logOf p.value.poolId)
  spent_once : ((s.logOf p.value.poolId).map spent).Nodup
  steps : ∃ actions, Run Staking.PoolStep p.value actions (tip p (s.logOf p.value.poolId)).value
  resolves : ∃ enough, ∀ rounds ≥ enough, resolveEntityState s.repo p.value.poolId rounds =
    some (some (tip p (s.logOf p.value.poolId)))

/-- The accepted transactions of a pool are one chain, no box of it is spent twice, the pool goes
along it by its own operations, and the next order of the pool is run on its tip. -/
theorem linked_of_run {events : List BotEvent}
    (hrun : Run (restrict Step (Undisturbed p)) (start p) events s) : s.OneChain p := by
  obtain ⟨lineage, h⟩ := Run.invariant (I := fun s => ∃ lineage, s.Invariant p lineage)
    (fun _ _ _ h hstep => invariant_step h hstep) hrun ⟨_, invariant_start p⟩
  refine ⟨h.linked, ?_, run_of_linked h.linked, ?_⟩
  · rw [map_spent_of_linked h.linked]
    have htail := h.nodup
    rw [pools_eq_cons, List.map_cons] at htail
    have hids : (((pools p (s.logOf p.value.poolId)).tail.map AsBox.bx).map fun bx =>
        PoolStateId.mk bx.boxId).Nodup := by
      rw [List.map_map]
      exact (List.nodup_cons.mp htail).2
    have hboxes := (List.Nodup.of_map _ hids).map (Option.some_injective ErgoBox)
    rw [List.map_map] at hboxes
    exact hboxes
  · obtain ⟨sid, hconfirmed⟩ := h.chained.confirmed
    obtain ⟨state, -, -, enough, hall⟩ :=
      resolve_of_tracks lawful_entityResolver h.chained.clean h.chained.tracks hconfirmed
    refine ⟨enough, fun rounds hle => ?_⟩
    rw [← h.eq_tip (hall rounds hle)]
    exact hall rounds hle

end Bot

end ErgoLib

/-! ## Two deposits on top of each other -/

namespace Chain.Sample

open Staking.Sample SpectrumOffchain.Sample Executor.Sample Blake2b.Sample

/-- The library of the sample, but the ids of outputs depend on what the transaction spends. -/
scoped instance (priority := high) chainLib : ErgoLib :=
  { ergoLib with
    txId := fun tx =>
      digest ((tx.inputs.toList.map Prod.fst).head?.elim 0 fun bx => bx.boxId.bytes.headD 0 + 16)
    boxId := fun _ txId index => digest (txId.bytes.headD 0 + .ofNat index) }

/-- The context of a transaction on a pool in the box with an id. -/
def contextAt (byte : UInt8) : ExecutionContext :=
  { depositContext with mintableTokenId := digest byte }

theorem makeContext_eq {p : AsBox Pool} {byte : UInt8} (hbox : p.bx.boxId = digest byte) :
    (services (some p) none).makeContext p.bx.boxId = contextAt byte := by
  rw [hbox]
  rfl

/-- The transaction of a deposit creates the next pool in a box of its own. -/
theorem exists_nextPool {p : AsBox Pool} {o : AsBox Deposit} {byte : UInt8} {next : Pool}
    {proto : StakingBundleProto} {userOut : DepositOutput} {executorOut : ExecutorOutput}
    {minerOut : MinerOutput} (hbox : p.bx.boxId = digest byte)
    (hok : p.value.applyDeposit o.value ⟨"", ""⟩ (contextAt byte) =
      .ok (next, proto, userOut, executorOut, minerOut))
    (hnext : next.contents.Writable) (huser : userOut.contents.Writable)
    (hproto : proto.contents.Writable) (hexecutor : executorOut.contents.Writable)
    (hminer : minerOut.contents.Writable) :
    ∃ (tx : TransactionCandidate) (nextPool : Predicted (AsBox Pool))
      (bundle : Predicted (AsBox StakingBundle)),
      Deposit.tryRun o p ⟨"", ""⟩ (contextAt byte) = .ok (tx, nextPool, bundle) ∧
        nextPool.value.value = next ∧ nextPool.value.bx.boxId = digest (byte + 16) ∧
        bundle.value.value = proto.finalize ⟨bundle.value.bx.boxId⟩ := by
  obtain ⟨⟨tx, nextPool, bundle⟩, hrun⟩ :=
    Deposit.exists_tryRun hok hnext huser hproto hexecutor hminer
  obtain ⟨proto', userOut', executorOut', minerOut', hran⟩ := Deposit.tryRun_ok hrun
  have happlied := Pool.applyDeposit_ok hok
  refine ⟨tx, nextPool, bundle, hrun, hran.applied.nextPool_eq.trans happlied.nextPool_eq.symm, ?_,
    ?_⟩
  · have hcontents : (tx.outputCandidates.toList.map ErgoBoxCandidate.contents)[0]? =
        some nextPool.value.value.contents := by
      rw [hran.contents_eq]
      rfl
    obtain ⟨c, -, hbx⟩ := TransactionCandidate.exists_of_output hran.pool_bx hcontents
    have htx : ErgoLib.txId tx = digest (byte + 16) := by
      show digest ((tx.inputs.toList.map Prod.fst).head?.elim 0 _) = _
      rw [hran.inputs_eq, List.head?_cons, Option.elim_some, hbox]
      rfl
    rw [hbx]
    show ErgoLib.boxId c (ErgoLib.txId tx) 0 = _
    rw [htx]
    show digest (byte + 16 + 0) = _
    rw [UInt8.add_zero]
  · rw [hran.bundle_eq, hran.applied.bundle_eq, happlied.bundle_eq]

/-- The node accepts the transaction of a deposit that leaves a bundle for the index. -/
theorem exists_accepted {p : AsBox Pool} {o : AsBox Deposit} {byte : UInt8} {next : Pool}
    {proto : StakingBundleProto} {userOut : DepositOutput} {executorOut : ExecutorOutput}
    {minerOut : MinerOutput} {lowerEpochIx : ℕ} (hbox : p.bx.boxId = digest byte)
    (hok : p.value.applyDeposit o.value ⟨"", ""⟩ (contextAt byte) =
      .ok (next, proto, userOut, executorOut, minerOut))
    (hnext : next.contents.Writable) (huser : userOut.contents.Writable)
    (hproto : proto.contents.Writable) (hexecutor : executorOut.contents.Writable)
    (hminer : minerOut.contents.Writable)
    (hindexed : ∀ sid, (IndexedBundle.new (proto.finalize sid) p.value.conf : Outcome Empty _) =
      .ok ⟨proto.finalize sid, lowerEpochIx⟩) :
    ∃ run commands, execute (services (some p) none) (.deposit o) = .ok (true, commands) ∧
      (∀ command ∈ commands, ¬ command.InvalidatesPool) ∧
      accepted (services (some p) none) (.deposit o) = some (p, run) ∧
      run.nextPool.bx.boxId = digest (byte + 16) ∧ run.nextPool.value = next := by
  obtain ⟨tx, nextPool, bundle, hrun, hvalue, hid, hbundle⟩ :=
    exists_nextPool hbox hok hnext huser hproto hexecutor hminer
  have hrunOrder : runOrder (services (some p) none) (.deposit o) p []
      ((services (some p) none).makeContext p.bx.boxId) =
        .ok (some (.ok ⟨tx, nextPool.value, [bundle.value], none, .deposit⟩)) := by
    -- No bundle is resolved, so the run is the deposit of the builder on the given pool.
    rw [makeContext_eq hbox]
    show (attempt Order.deposit (Deposit.tryRun o p ⟨"", ""⟩ (contextAt byte)) >>= _) = _
    rw [hrun]
    rfl
  -- The one new bundle is predicted under the epoch it is indexed by.
  have hpredictions : predictBundles p.value.conf [bundle.value] [] =
      .ok [.putPredictedBundle ⟨⟨bundle.value.bx, ⟨bundle.value.value, lowerEpochIx⟩⟩, none⟩] := by
    unfold predictBundles
    rw [hbundle, hindexed]
    rfl
  -- The node accepts, hence the order is kept for a later check of its settlement.
  have hsubmit : submit (services (some p) none) (.deposit o) p []
      ⟨tx, nextPool.value, [bundle.value], none, .deposit⟩ =
      .ok [.checkLater ⟨.deposit o, 1⟩, .putPredictedPool ⟨nextPool.value, some ⟨p.bx.boxId⟩⟩,
        .putPredictedBundle ⟨⟨bundle.value.bx, ⟨bundle.value.value, lowerEpochIx⟩⟩, none⟩] := by
    show (predictBundles p.value.conf [bundle.value] [] >>= _) = _
    rw [hpredictions]
    rfl
  have hexecute : execute (services (some p) none) (.deposit o) = .ok (true,
      [.checkLater ⟨.deposit o, 1⟩, .putPredictedPool ⟨nextPool.value, some ⟨p.bx.boxId⟩⟩,
        .putPredictedBundle ⟨⟨bundle.value.bx, ⟨bundle.value.value, lowerEpochIx⟩⟩, none⟩]) := by
    show (runOrder _ (.deposit o) p [] ((services (some p) none).makeContext p.bx.boxId) >>= _) = _
    rw [hrunOrder, Outcome.ok_bind]
    dsimp only
    show (submit _ (.deposit o) p [] _ >>= _) = _
    rw [hsubmit]
    rfl
  refine ⟨⟨tx, nextPool.value, [bundle.value], none, .deposit⟩, _, hexecute, ?_, ?_, hid, hvalue⟩
  · simp [Command.InvalidatesPool]
  · show (match runOrder _ (.deposit o) p [] ((services (some p) none).makeContext p.bx.boxId) with
      | .ok (some (.ok run)) => Services.accepts _ p run
      | _ => none) = _
    rw [hrunOrder]
    rfl

/-- The step of the bot when a deposit is accepted. -/
theorem step_accepted (start : AsBox Pool) {p : AsBox Pool} {o : AsBox Deposit} {run : Evaluated}
    {commands : List Command} {s : Bot} {rounds : ℕ}
    (hexecute : execute (services (some p) none) (.deposit o) = .ok (true, commands))
    (hkeeps : ∀ command ∈ commands, ¬ command.InvalidatesPool)
    (haccepted : accepted (services (some p) none) (.deposit o) = some (p, run))
    (hresolve : resolveEntityState s.repo o.value.poolId rounds = some (some p))
    (hfresh : ∀ known ∈ s.put, known.bx.boxId ≠ run.nextPool.bx.boxId) :
    ∃ s', restrict Bot.Step (Bot.Undisturbed start) s
        (.execute (services (some p) none) (.deposit o)) s' ∧
      s'.put = run.nextPool :: s.put ∧ s'.log = run :: s.log := by
  refine ⟨_, ⟨⟨rounds, true, commands, hresolve, hexecute, ?_, rfl⟩, ?_⟩, ?_, ?_⟩
  · intro made run' h
    cases haccepted.symm.trans h
    rintro ⟨known, hknown, hid⟩
    exact hfresh known hknown (congrArg PoolStateId.boxId hid)
  · intro res commands' h
    cases hexecute.symm.trans h
    exact hkeeps
  · rw [haccepted]
    rfl
  · rw [haccepted]
    rfl

/-- The pool after some deposits of twelve tokens each. -/
def poolAfter (deposits : ℕ) : Pool :=
  { pool with
    reservesLq := ⟨digest 2, 100 + 12 * deposits⟩
    reservesVlq := ⟨digest 3, maxValue - 100 - 12 * deposits⟩
    reservesTmp := ⟨digest 4, maxValue - 1000 - 120 * deposits⟩ }

def depositProto (byte : UInt8) : StakingBundleProto :=
  ⟨⟨digest byte⟩, ⟨digest 0⟩, ⟨digest 3, 12⟩, some ⟨digest 4, 120⟩, ⟨[]⟩, minSafeFatBoxValue, "", ""⟩

/-- Another deposit of as many tokens. -/
def laterDeposit : AsBox Deposit :=
  ⟨box orderValue depositTree (some (.one ownLq)) .empty 22,
    { deposit ownLq with orderId := ⟨digest 22⟩ }⟩

theorem epochs_depositProto (byte : UInt8) : (depositProto byte).epochs = 10 := by
  show (120 : ℕ) / 12 = 10
  decide

theorem indexed_depositProto (byte : UInt8) (sid : BundleStateId) :
    (IndexedBundle.new ((depositProto byte).finalize sid) pool.conf : Outcome Empty _) =
      .ok ⟨(depositProto byte).finalize sid, 1⟩ := by
  have hepochs : ((depositProto byte).finalize sid).toProto.epochs = 10 := by
    rw [StakingBundle.toProto_finalize]
    exact epochs_depositProto byte
  refine IndexedBundle.new_eq_ok_iff.mpr ?_
  rw [hepochs]
  refine ⟨?_, by decide, by decide, rfl⟩
  show (12 : ℕ) ≠ 0
  decide

theorem applyDeposit_first :
    pool.applyDeposit (deposit ownLq) ⟨"", ""⟩ (contextAt 15) =
      .ok (poolAfter 1, depositProto 15,
        ⟨⟨digest 15, bundleKeyAmountUser⟩, ⟨[]⟩, minSafeFatBoxValue, "", ""⟩, ⟨⟨[2]⟩, 7956000⟩,
        ⟨defaultMinerFee⟩) := by
  decide +kernel

theorem applyDeposit_second :
    (poolAfter 1).applyDeposit laterDeposit.value ⟨"", ""⟩ (contextAt 31) =
      .ok (poolAfter 2, depositProto 31,
        ⟨⟨digest 31, bundleKeyAmountUser⟩, ⟨[]⟩, minSafeFatBoxValue, "", ""⟩, ⟨⟨[2]⟩, 7956000⟩,
        ⟨defaultMinerFee⟩) := by
  decide +kernel

theorem exists_first : ∃ run commands,
    execute (services (some ⟨poolBox, pool⟩) none) order = .ok (true, commands) ∧
      (∀ command ∈ commands, ¬ command.InvalidatesPool) ∧
      accepted (services (some ⟨poolBox, pool⟩) none) order = some (⟨poolBox, pool⟩, run) ∧
      run.nextPool.bx.boxId = digest 31 ∧ run.nextPool.value = poolAfter 1 := by
  refine exists_accepted (p := ⟨poolBox, pool⟩) rfl applyDeposit_first ?_ ?_ ?_ ?_ ?_
    (indexed_depositProto 15)
  · decide +kernel
  · decide +kernel
  · decide +kernel
  · decide +kernel
  · decide +kernel

theorem exists_second {p : AsBox Pool} (hbox : p.bx.boxId = digest 31)
    (hvalue : p.value = poolAfter 1) : ∃ run commands,
    execute (services (some p) none) (.deposit laterDeposit) = .ok (true, commands) ∧
      (∀ command ∈ commands, ¬ command.InvalidatesPool) ∧
      accepted (services (some p) none) (.deposit laterDeposit) = some (p, run) ∧
      run.nextPool.bx.boxId = digest 47 ∧ run.nextPool.value = poolAfter 2 := by
  obtain ⟨bx, value⟩ := p
  cases hvalue
  refine exists_accepted hbox applyDeposit_second ?_ ?_ ?_ ?_ ?_ (indexed_depositProto 31)
  · decide +kernel
  · decide +kernel
  · decide +kernel
  · decide +kernel
  · decide +kernel

end Chain.Sample

open Executor.Sample Staking.Sample SpectrumOffchain.Sample Blake2b.Sample Chain.Sample

/-- Two deposits are accepted on top of each other, and the pool between them is confirmed. -/
theorem Bot.linked_of_run_sample : ∃ first second events s,
    Run (restrict Bot.Step (Bot.Undisturbed ⟨poolBox, pool⟩)) (Bot.start ⟨poolBox, pool⟩) events s ∧
      s.log = [second, first] ∧ first.nextPool.value = poolAfter 1 ∧
      second.nextPool.value = poolAfter 2 ∧ s.OneChain ⟨poolBox, pool⟩ := by
  obtain ⟨first, commands, hexecute, hkeeps, haccepted, hbox, hvalue⟩ := exists_first
  have hresolve : resolveEntityState (Bot.start ⟨poolBox, pool⟩).repo pool.poolId 0 =
      some (some ⟨poolBox, pool⟩) := rfl
  have hfresh : ∀ known ∈ (Bot.start ⟨poolBox, pool⟩).put,
      known.bx.boxId ≠ first.nextPool.bx.boxId := by
    intro known hknown
    rw [List.mem_singleton.mp hknown, hbox]
    decide
  obtain ⟨s, hfirst, hput, hlog⟩ :=
    step_accepted ⟨poolBox, pool⟩ hexecute hkeeps haccepted hresolve hfresh
  -- the next deposit is run on the pool that the first one leaves
  have hlogOf : s.logOf pool.poolId = [first] := by
    simp [Bot.logOf, hlog, Bot.start, hvalue, poolAfter]
  obtain ⟨enough, hresolves⟩ := (Bot.linked_of_run (.single hfirst)).resolves
  have htip := hresolves enough le_rfl
  rw [hlogOf] at htip
  obtain ⟨second, commands', hexecute', hkeeps', haccepted', hbox', hvalue'⟩ :=
    exists_second hbox hvalue
  have hfresh' : ∀ known ∈ s.put, known.bx.boxId ≠ second.nextPool.bx.boxId := by
    intro known hknown
    rw [hput] at hknown
    rw [hbox']
    rcases List.mem_cons.mp hknown with rfl | hknown
    · rw [hbox]
      decide
    · rw [List.mem_singleton.mp hknown]
      decide
  obtain ⟨t, hsecond, hput', hlog'⟩ :=
    step_accepted ⟨poolBox, pool⟩ hexecute' hkeeps' haccepted' htip hfresh'
  have hconfirm : restrict Bot.Step (Bot.Undisturbed ⟨poolBox, pool⟩) t (.confirm first.nextPool)
      ⟨t.repo.putConfirmed first.nextPool, first.nextPool :: t.put, t.log⟩ := by
    refine ⟨⟨?_, rfl⟩, fun _ => ?_⟩
    · intro known hknown hid
      rw [hput', hput] at hknown
      rcases List.mem_cons.mp hknown with rfl | hknown
      · rw [hbox, hbox'] at hid
        exact absurd hid (by decide)
      · rcases List.mem_cons.mp hknown with rfl | hknown
        · rfl
        · rw [List.mem_singleton.mp hknown, hbox] at hid
          exact absurd hid (by decide)
    · have hlogOf' : t.logOf pool.poolId = [second, first] := by
        simp [Bot.logOf, hlog', hlog, Bot.start, hvalue, hvalue', poolAfter]
      show first.nextPool ∈ pools ⟨poolBox, pool⟩ (t.logOf pool.poolId)
      rw [hlogOf']
      exact List.mem_cons_of_mem _ List.mem_cons_self
  have hrun := Run.cons hfirst (Run.cons hsecond (.single hconfirm))
  exact ⟨first, second, _, _, hrun, hlog'.trans (congrArg (second :: ·) hlog), hvalue, hvalue',
    Bot.linked_of_run hrun⟩

end SpectrumOffchain.Executor
