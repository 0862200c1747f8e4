import SpectrumOffchain.Backlog.Queues
import SpectrumOffchain.Execution.Prediction
import SpectrumOffchain.Executor.TryExecute

/-!
# What becomes of an order

An order that is popped has left its queue, and it is lost until the next restart unless
the executor gives it back or removes it.  `Abandons` lists the ways of the executor on
which it does neither: the bundle of a redeem order or the funding of a compound order is
not found, the transaction cannot be signed, or the node rejects it for a reason that
does not tell the pool, the funding or the order itself to be gone.

A `Command` is read through two lemmas: no command takes an order out of the backlog
(`retained_apply`), and one that handles the order leaves it in a queue or removes it
(`retained_of_handles`).

## Strategy

A call of `try_execute_next` is a list of commands, so that it is enough to know whether
the list has one that handles the order.  `Settles id givenUp commands` says both halves at
once: if the order is given up no command has anything to do with the backlog, and
otherwise one of them handles it.  There is a lemma of this form for each part of the call,
for the rejections (`settles_handleSubmitError`), for the submission (`settles_submit`) and
for the whole (`settles_execute`).

What the run of an order says is kept in `Tells`: nothing was there to run it on, it failed
with the order itself in the error, or it gave exactly one transaction.  The condition
`Abandons` is stated of the services that the call asks and of `try_run`, not of the
commands, and `retained_iff` compares it with what is left in the backlog.
-/

namespace SpectrumOffchain.Executor

open Backlog

section ErgoLib

variable [Blake2b]

/-- The order is queued, or has been removed from the store. -/
def Retained (s : BacklogService Order) (id : OrderId) : Prop :=
  id ∉ s.store.keys ∨ id ∈ ids s.queued

/-! ## Commands -/

/-- The command gives the order back or removes it. -/
def Command.Handles (id : OrderId) : Command → Prop
  | suspend ord => getSelfRef ord = id
  | checkLater ord => getSelfRef ord.order = id
  | remove orderId => orderId = id
  | _ => False

/-- The command is not for the backlog. -/
def Command.Silent : Command → Prop
  | suspend _ => False
  | checkLater _ => False
  | remove _ => False
  | _ => True

variable {s : BacklogService Order} {id : OrderId}

/-- A call that stores nothing and keeps what is queued keeps an order retained. -/
theorem Retained.mono {s' : BacklogService Order} (h : Retained s id)
    (hstore : ∀ orderId ∈ s'.store.keys, orderId ∈ s.store.keys)
    (hqueued : ∀ orderId ∈ ids s.queued, orderId ∈ ids s'.queued) : Retained s' id :=
  h.imp (fun hnot hmem => hnot (hstore id hmem)) (hqueued id)

theorem retained_apply (h : Retained s id) (command : Command) : Retained (command.apply s) id := by
  cases command with
  | suspend ord =>
      show Retained (s.suspend ord).1 _
      unfold BacklogService.suspend
      split
      · refine h.mono (fun _ hmem => hmem) fun orderId hmem => ?_
        rw [BacklogService.mem_ids_queued] at hmem ⊢
        exact hmem.imp_right (Or.imp_left fun hmem => mem_ids_push.mpr (Or.inr hmem))
      · exact h
  | checkLater ord =>
      show Retained (s.checkLater ord).1 _
      unfold BacklogService.checkLater
      split
      · refine h.mono (fun _ hmem => hmem) fun orderId hmem => ?_
        rw [BacklogService.mem_ids_queued] at hmem ⊢
        refine hmem.imp_right (Or.imp_right fun hmem => ?_)
        obtain ⟨wo, hmem, hid⟩ := mem_ids.mp hmem
        exact mem_ids.mpr ⟨wo, List.mem_append_left _ hmem, hid⟩
      · exact h
  | remove orderId =>
      exact h.mono (fun _ hmem => (Table.mem_keys_remove.mp hmem).1) fun _ hmem => hmem
  | _ => exact h

theorem retained_of_handles {command : Command} (h : command.Handles id) :
    Retained (command.apply s) id := by
  cases command with
  | suspend ord =>
      obtain rfl : getSelfRef ord = id := h
      show Retained (s.suspend ord).1 _
      unfold BacklogService.suspend
      split
      · exact Or.inr (BacklogService.mem_ids_queued.mpr
          (Or.inr (Or.inl (mem_ids_push.mpr (Or.inl rfl)))))
      · next hget => exact Or.inl (BacklogService.notMem_keys_of_get_eq_none hget)
  | checkLater ord =>
      obtain rfl : getSelfRef ord.order = id := h
      show Retained (s.checkLater ord).1 _
      unfold BacklogService.checkLater
      split
      · refine Or.inr (BacklogService.mem_ids_queued.mpr (Or.inr (Or.inr ?_)))
        exact mem_ids.mpr ⟨ord.toWeighted, List.mem_append_right _ List.mem_cons_self, rfl⟩
      · next hget => exact Or.inl (BacklogService.notMem_keys_of_get_eq_none hget)
  | remove orderId =>
      obtain rfl : orderId = id := h
      exact Or.inl fun hmem => (Table.mem_keys_remove.mp hmem).2 rfl
  | _ => exact h.elim

theorem retained_foldl {commands : List Command}
    (h : Retained s id ∨ ∃ command ∈ commands, command.Handles id) :
    Retained (commands.foldl Command.apply s) id := by
  induction commands generalizing s with
  | nil =>
      refine h.resolve_right ?_
      rintro ⟨command, hmem, -⟩
      cases hmem
  | cons command rest ih =>
      apply ih
      rcases h with h | ⟨command', hmem, hhandles⟩
      · exact Or.inl (retained_apply h command)
      · rcases List.mem_cons.mp hmem with rfl | hmem
        · exact Or.inl (retained_of_handles hhandles)
        · exact Or.inr ⟨command', hmem, hhandles⟩

theorem foldl_silent {commands : List Command} (h : ∀ command ∈ commands, command.Silent) :
    commands.foldl Command.apply s = s := by
  induction commands generalizing s with
  | nil => rfl
  | cons command rest ih =>
      obtain ⟨hsilent, hrest⟩ := List.forall_mem_cons.mp h
      have hsame : command.apply s = s := by
        cases command <;> first | rfl | exact hsilent.elim
      rw [List.foldl_cons, hsame]
      exact ih hrest

/-! ## Rejections -/

/-- What the node says of the transaction of the order leads to no call of the backlog. -/
def Ignored : Order → NodeSubmitTxError → Prop
  | _, .unhandled => True
  | _, .scriptsOfInputsDontPassVerification => True
  | _, .doubleSpend => False
  | .deposit _, .missingInputs missingIndices => 0 ∉ missingIndices ∧ 1 ∉ missingIndices
  | .redeem _, .missingInputs missingIndices => 0 ∉ missingIndices ∧ 2 ∉ missingIndices
  | .compound _, .missingInputs _ => False

/-- The type of the order, with whatever funding a compound order has. -/
def HasType : Order → OrderType → Prop
  | .deposit _, .deposit => True
  | .redeem _, .redeem => True
  | .compound _, .compound _ => True
  | _, _ => False

/-- A list of commands that does what it has to for the order unless it is given up. -/
def Settles (id : OrderId) (givenUp : Prop) (commands : List Command) : Prop :=
  (givenUp → ∀ command ∈ commands, command.Silent) ∧
    (¬ givenUp → ∃ command ∈ commands, command.Handles id)

theorem settles_handleInvalidation {ord : Order} {pool : AsBox Pool} {tx : Transaction}
    {invalidation : Invalidation} {commands : List Command}
    (h : handleInvalidation ord pool tx invalidation = .ok commands) :
    Settles (getSelfRef ord) (∃ bundlesIx, invalidation = .stakingBundles bundlesIx) commands := by
  have hother : ∀ {i : Invalidation}, (∀ bundlesIx, i ≠ .stakingBundles bundlesIx) →
      (∃ command ∈ commands, command.Handles (getSelfRef ord)) →
      Settles (getSelfRef ord) (∃ bundlesIx, i = .stakingBundles bundlesIx) commands := by
    intro i hi hhandles
    exact ⟨fun ⟨bundlesIx, heq⟩ => absurd heq (hi bundlesIx), fun _ => hhandles⟩
  cases invalidation with
  | pool =>
      cases h
      exact hother (fun _ heq => by cases heq)
        ⟨_, List.mem_cons_of_mem _ List.mem_cons_self, rfl⟩
  | funding missingFundingIxs =>
      obtain ⟨missing, -, heq⟩ := Outcome.bind_eq_ok.mp h
      cases heq
      exact hother (fun _ heq => by cases heq)
        ⟨_, List.mem_append_right _ List.mem_cons_self, rfl⟩
  | order =>
      cases h
      exact hother (fun _ heq => by cases heq) ⟨_, List.mem_cons_self, rfl⟩
  | stakingBundles bundlesIx =>
      obtain ⟨missing, -, heq⟩ := Outcome.bind_eq_ok.mp h
      cases heq
      refine ⟨fun _ command hmem => ?_, fun hnot => absurd ⟨bundlesIx, rfl⟩ hnot⟩
      obtain ⟨boxId, -, rfl⟩ := List.mem_map.mp hmem
      trivial

omit [Blake2b] in
/-- Missing inputs are ignored exactly if they call for invalidations of bundles only. -/
theorem ignored_missingInputs_iff {ord : Order} {orderType : OrderType}
    (htype : HasType ord orderType) (missingIndices : List I32) :
    Ignored ord (.missingInputs missingIndices) ↔
      ∀ invalidation ∈ generateInvalidations orderType missingIndices,
        ∃ bundlesIx, invalidation = .stakingBundles bundlesIx := by
  unfold generateInvalidations
  cases ord with
  | deposit order =>
      cases orderType with
      | deposit => by_cases h₀ : 0#32 ∈ missingIndices <;> by_cases h₁ : 1#32 ∈ missingIndices <;>
          simp [Ignored, h₀, h₁]
      | _ => exact htype.elim
  | redeem order =>
      cases orderType with
      | redeem => by_cases h₀ : 0#32 ∈ missingIndices <;> by_cases h₁ : 1#32 ∈ missingIndices <;>
          by_cases h₂ : 2#32 ∈ missingIndices <;> simp [Ignored, h₀, h₁, h₂]
      | _ => exact htype.elim
  | compound order =>
      cases orderType with
      | compound inputFundingBoxIds =>
          -- the funding is always looked at
          refine iff_of_false id fun h => ?_
          obtain ⟨bundlesIx, heq⟩ := h _ (List.mem_append_right _ List.mem_cons_self)
          cases heq
      | _ => exact htype.elim

theorem settles_handleSubmitError {svc : Services} {ord : Order} {pool : AsBox Pool}
    {tx : Transaction} {orderType : OrderType} {nodeError : NodeSubmitTxError}
    {commands : List Command} (htype : HasType ord orderType)
    (h : handleSubmitError svc ord pool tx orderType nodeError = .ok commands) :
    Settles (getSelfRef ord) (Ignored ord nodeError) commands := by
  cases nodeError with
  | missingInputs missingIndices =>
      obtain ⟨parts, hparts, heq⟩ := Outcome.bind_eq_ok.mp h
      cases heq
      obtain ⟨hresults, hitems⟩ := Outcome.mem_of_mapM_eq_ok hparts
      -- the order is left alone exactly when only bundles are missing
      rw [ignored_missingInputs_iff htype]
      constructor
      · intro hall command hmem
        obtain ⟨part, hpart, hmem⟩ := List.mem_flatten.mp hmem
        obtain ⟨invalidation, hinvalidation, hcommands⟩ := hresults part hpart
        exact (settles_handleInvalidation hcommands).1 (hall _ hinvalidation) command hmem
      · intro hsome
        obtain ⟨invalidation, hinvalidation, hnot⟩ :
            ∃ invalidation ∈ generateInvalidations orderType missingIndices,
              ¬ ∃ bundlesIx, invalidation = .stakingBundles bundlesIx := by
          simpa only [not_forall, exists_prop] using hsome
        obtain ⟨part, hpart, hcommands⟩ := hitems invalidation hinvalidation
        obtain ⟨command, hmem, hhandles⟩ := (settles_handleInvalidation hcommands).2 hnot
        exact ⟨command, List.mem_flatten.mpr ⟨part, hpart, hmem⟩, hhandles⟩
  | doubleSpend =>
      cases h
      exact ⟨fun hignored => by cases ord <;> exact hignored.elim,
        fun _ => ⟨_, List.mem_cons_self, rfl⟩⟩
  | unhandled =>
      cases h
      refine ⟨fun _ command hmem => absurd hmem List.not_mem_nil, fun hnot => ?_⟩
      cases ord <;> exact absurd trivial hnot
  | scriptsOfInputsDontPassVerification =>
      cases h
      refine ⟨fun _ command hmem => ?_, fun hnot => by cases ord <;> exact absurd trivial hnot⟩
      rcases List.mem_append.mp hmem with hmem | hmem
      · split at hmem
        · cases hmem
        · obtain rfl := List.mem_singleton.mp hmem
          trivial
      · split at hmem
        · obtain ⟨boxId, -, rfl⟩ := List.mem_map.mp hmem
          trivial
        · cases hmem

/-! ## Runs -/

variable [ErgoLib]

/-- What the order needs besides its pool is not found. -/
def Starved (svc : Services) (bundles : List (AsBox StakingBundle)) : Order → Prop
  | .deposit _ => False
  | .redeem _ => bundles = []
  | .compound order => bundles ≠ [] ∧ ∃ target,
      (order.estimatedMinValue : Outcome Empty ℕ) = .ok target ∧ svc.collect target = none

/-- The run of the order on what is found gives the transaction. -/
def Yields (svc : Services) (pool : AsBox Pool) (bundles : List (AsBox StakingBundle))
    (ctx : ExecutionContext) (tx : TransactionCandidate) : Order → Prop
  | .deposit order => ∃ next, Deposit.tryRun order pool
      (svc.getTokenDetails pool.value.poolId pool.value.budgetRem.tokenId order.value.lq.tokenId)
      ctx = .ok (tx, next)
  | .redeem order => ∃ bundle next, bundles.head? = some bundle ∧
      Redeem.tryRun order pool bundle ctx = .ok (tx, next)
  | .compound order => bundles ≠ [] ∧ ∃ target funding next,
      (order.estimatedMinValue : Outcome Empty ℕ) = .ok target ∧
        svc.collect target = some funding ∧ order.tryRun pool bundles funding ctx = .ok (tx, next)

/-- What the result of a run tells of the order. -/
def Tells (svc : Services) (pool : AsBox Pool) (bundles : List (AsBox StakingBundle))
    (ctx : ExecutionContext) (ord : Order) :
    Option (Except (RunOrderError Order) Evaluated) → Prop
  | none => Starved svc bundles ord
  | some (.error e) =>
      ¬ Starved svc bundles ord ∧ (∀ tx, ¬ Yields svc pool bundles ctx tx ord) ∧ e.order = ord
  | some (.ok run) => ¬ Starved svc bundles ord ∧
      (∀ tx, Yields svc pool bundles ctx tx ord ↔ tx = run.tx) ∧ HasType ord run.orderType

omit [Blake2b] [ErgoLib] in
theorem attempt_eq_ok {O α : Type} {f : O → Order} {x : Outcome (RunOrderError O) α}
    {res : Except (RunOrderError Order) α} :
    attempt f x = .ok res ↔
      (∃ a, x = .ok a ∧ res = .ok a) ∨ ∃ e, x = .err e ∧ res = .error (e.map f) := by
  cases x <;> simp [attempt, eq_comm]

omit [Blake2b] in
theorem tells_of_runCompound {svc : Services} {pool : AsBox Pool}
    {bundles : List (AsBox StakingBundle)} {ctx : ExecutionContext} {order : Compound}
    {minValue : Outcome Empty ℕ} {result : Option (Except (RunOrderError Order) Evaluated)}
    (hmin : order.estimatedMinValue = minValue) (hne : bundles ≠ [])
    (h : runCompound svc order minValue pool bundles ctx = .ok result) :
    Tells svc pool bundles ctx (.compound order) result := by
  unfold runCompound at h
  obtain ⟨target, htarget, hrest⟩ := Outcome.bind_eq_ok.mp h
  rw [htarget] at hmin
  split at hrest
  · next funding hfunding =>
      obtain ⟨res, hres, heq⟩ := Outcome.bind_eq_ok.mp hrest
      cases heq
      have hfed : ¬ Starved svc bundles (.compound order) := by
        simp [Starved, hmin, hfunding]
      rcases attempt_eq_ok.mp hres with
        ⟨⟨tx, nextPool, nextBundles, residual⟩, hrun, rfl⟩ | ⟨e, hrun, rfl⟩
      · refine ⟨hfed, fun tx' => ?_, trivial⟩
        simp [Yields, hne, hmin, hfunding, hrun, eq_comm]
      · refine ⟨hfed, fun tx' => ?_, ?_⟩
        · simp [Yields, hmin, hfunding, hrun]
        · rw [RunOrderError.order_map, Compound.order_of_tryRun_eq_err hrun]
  · next hfunding =>
      cases hrest
      exact ⟨hne, target, hmin, hfunding⟩

omit [Blake2b] in
theorem tells_of_runOrder {svc : Services} {pool : AsBox Pool}
    {bundles : List (AsBox StakingBundle)} {ctx : ExecutionContext} {ord : Order}
    {result : Option (Except (RunOrderError Order) Evaluated)}
    (h : runOrder svc ord pool bundles ctx = .ok result) :
    Tells svc pool bundles ctx ord result := by
  unfold runOrder at h
  split at h
  · obtain ⟨res, hres, heq⟩ := Outcome.bind_eq_ok.mp h
    cases heq
    rcases attempt_eq_ok.mp hres with ⟨⟨tx, nextPool, bundle⟩, hrun, rfl⟩ | ⟨e, hrun, rfl⟩
    · refine ⟨id, fun tx' => ?_, trivial⟩
      simp [Yields, hrun, eq_comm]
    · refine ⟨id, fun tx' => ?_, ?_⟩
      · simp [Yields, hrun]
      · rw [RunOrderError.order_map, Deposit.order_of_tryRun_eq_err hrun]
  · next order bundle hhead =>
      have hne : bundles ≠ [] := by
        rintro rfl
        cases hhead
      obtain ⟨res, hres, heq⟩ := Outcome.bind_eq_ok.mp h
      cases heq
      rcases attempt_eq_ok.mp hres with ⟨⟨tx, nextPool⟩, hrun, rfl⟩ | ⟨e, hrun, rfl⟩
      · refine ⟨hne, fun tx' => ?_, trivial⟩
        simp [Yields, hhead, hrun, eq_comm]
      · refine ⟨hne, fun tx' => ?_, ?_⟩
        · simp [Yields, hhead, hrun]
        · rw [RunOrderError.order_map, Redeem.order_of_tryRun_eq_err hrun]
  · next order bundle hhead =>
      have hne : bundles ≠ [] := by
        rintro rfl
        cases hhead
      exact tells_of_runCompound rfl hne h
  · next order hhead =>
      cases h
      have hnil : bundles = [] := List.head?_eq_none_iff.mp hhead
      exact ⟨fun hstarved => hstarved.1 hnil, fun _ hyields => hyields.1 hnil, rfl⟩
  · next order hhead =>
      cases h
      exact List.head?_eq_none_iff.mp hhead

/-! ## The whole call -/

/-- The transaction is not signed, or it is rejected and the rejection is ignored. -/
def Refused (svc : Services) (ord : Order) (candidate : TransactionCandidate) : Prop :=
  svc.sign candidate = none ∨ ∃ tx err nodeError, svc.sign candidate = some tx ∧
    svc.submitTx tx = some err ∧ (parseErr err : Outcome Empty _) = .ok nodeError ∧
      Ignored ord nodeError

/-- The executor neither gives the order back nor removes it. -/
def Abandons (svc : Services) (ord : Order) : Prop :=
  ∃ pool, svc.resolvePool ord.getEntityRef = some pool ∧
    (Starved svc (ord.bundleIds.filterMap svc.resolveBundle) ord ∨
      ∃ candidate, Yields svc pool (ord.bundleIds.filterMap svc.resolveBundle)
        (svc.makeContext pool.bx.boxId) candidate ord ∧ Refused svc ord candidate)

variable {svc : Services} {ord : Order}

section Refusals

omit [Blake2b] [ErgoLib]

variable {candidate : TransactionCandidate} {tx : Transaction}

theorem not_refused_of_submitTx_eq_none (hsign : svc.sign candidate = some tx)
    (hsubmit : svc.submitTx tx = none) : ¬ Refused svc ord candidate := by
  rintro (hnone | ⟨tx', err, nodeError, hsign', hsubmit', -⟩)
  · rw [hsign] at hnone
    cases hnone
  · rw [hsign] at hsign'
    cases hsign'
    rw [hsubmit] at hsubmit'
    cases hsubmit'

theorem refused_iff_ignored {err : String} {nodeError : NodeSubmitTxError}
    (hsign : svc.sign candidate = some tx) (hsubmit : svc.submitTx tx = some err)
    (hparse : (parseErr err : Outcome Empty _) = .ok nodeError) :
    Refused svc ord candidate ↔ Ignored ord nodeError := by
  constructor
  · rintro (hnone | ⟨tx', err', nodeError', hsign', hsubmit', hparse', hignored⟩)
    · rw [hsign] at hnone
      cases hnone
    · rw [hsign] at hsign'
      cases hsign'
      rw [hsubmit] at hsubmit'
      cases hsubmit'
      rw [hparse] at hparse'
      cases hparse'
      exact hignored
  · intro hignored
    exact Or.inr ⟨tx, err, nodeError, hsign, hsubmit, hparse, hignored⟩

end Refusals

omit [Blake2b] in
theorem abandons_iff {pool : AsBox Pool} (hpool : svc.resolvePool ord.getEntityRef = some pool) :
    Abandons svc ord ↔ Starved svc (ord.bundleIds.filterMap svc.resolveBundle) ord ∨
      ∃ candidate, Yields svc pool (ord.bundleIds.filterMap svc.resolveBundle)
        (svc.makeContext pool.bx.boxId) candidate ord ∧ Refused svc ord candidate := by
  constructor
  · rintro ⟨pool', hpool', h⟩
    rw [hpool] at hpool'
    cases hpool'
    exact h
  · exact fun h => ⟨pool, hpool, h⟩

omit [ErgoLib] in
theorem settles_submit {pool : AsBox Pool} {bundles : List (AsBox StakingBundle)}
    {run : Evaluated} {commands : List Command} (htype : HasType ord run.orderType)
    (h : submit svc ord pool bundles run = .ok commands) :
    Settles (getSelfRef ord) (Refused svc ord run.tx) commands := by
  unfold submit at h
  cases hsign : svc.sign run.tx with
  | none =>
      rw [hsign] at h
      cases h
      exact ⟨fun _ command hmem => absurd hmem List.not_mem_nil,
        fun hnot => absurd (Or.inl hsign) hnot⟩
  | some tx =>
      rw [hsign] at h
      dsimp only at h
      cases hsubmit : svc.submitTx tx with
      | none =>
          rw [hsubmit] at h
          obtain ⟨predictions, -, heq⟩ := Outcome.bind_eq_ok.mp h
          cases heq
          exact ⟨fun hrefused => absurd hrefused (not_refused_of_submitTx_eq_none hsign hsubmit),
            fun _ => ⟨.checkLater ⟨ord, svc.now⟩, by simp, rfl⟩⟩
      | some err =>
          rw [hsubmit] at h
          obtain ⟨nodeError, hparse, h⟩ := Outcome.bind_eq_ok.mp h
          rw [refused_iff_ignored hsign hsubmit hparse]
          exact settles_handleSubmitError htype h

omit [ErgoLib] in
theorem handles_handleMissingPool (svc : Services) (ord : Order) :
    ∃ command ∈ handleMissingPool svc ord, command.Handles (getSelfRef ord) := by
  unfold handleMissingPool
  cases ord with
  | compound order => exact ⟨_, List.mem_cons_self, rfl⟩
  | _ =>
      dsimp only
      split <;> exact ⟨_, List.mem_cons_self, rfl⟩

/-- The commands leave the backlog as it is if the order is abandoned, and one of them is
for the order otherwise. -/
theorem settles_execute {res : Bool} {commands : List Command}
    (h : execute svc ord = .ok (res, commands)) :
    Settles (getSelfRef ord) (Abandons svc ord) commands := by
  unfold execute at h
  cases hpool : svc.resolvePool ord.getEntityRef with
  | none =>
      rw [hpool] at h
      cases h
      refine ⟨?_, fun _ => handles_handleMissingPool svc ord⟩
      rintro ⟨pool, hsome, -⟩
      rw [hpool] at hsome
      cases hsome
  | some pool =>
      rw [hpool] at h
      obtain ⟨result, hrun, h⟩ := Outcome.bind_eq_ok.mp h
      have htells := tells_of_runOrder hrun
      rw [abandons_iff hpool]
      -- In turn: the order is starved, the builder has failed, a transaction has been built.
      rcases result with - | (e | run)
      · cases h
        exact ⟨fun _ command hmem => absurd hmem List.not_mem_nil,
          fun hnot => absurd (Or.inl htells) hnot⟩
      · obtain ⟨hfed, hnone, horder⟩ := htells
        constructor
        · rintro (hstarved | ⟨candidate, hyields, -⟩)
          · exact absurd hstarved hfed
          · exact absurd hyields (hnone candidate)
        · intro _
          cases e <;> cases h <;> exact ⟨_, List.mem_cons_self, congrArg getSelfRef horder⟩
      · obtain ⟨hfed, hyields, htype⟩ := htells
        obtain ⟨commands', hsubmit, heq⟩ := Outcome.bind_eq_ok.mp h
        cases heq
        have hrefused : (Starved svc (ord.bundleIds.filterMap svc.resolveBundle) ord ∨
            ∃ candidate, Yields svc pool (ord.bundleIds.filterMap svc.resolveBundle)
              (svc.makeContext pool.bx.boxId) candidate ord ∧ Refused svc ord candidate) ↔
            Refused svc ord run.tx := by
          simp only [hyields, hfed, false_or, exists_eq_left]
        rw [hrefused]
        exact settles_submit htype hsubmit

/-- An order that was handed out is queued again or removed, if it is not abandoned and is
not queued still; an abandoned order stays stored and is in no queue. -/
theorem retained_iff {s s₁ s' : BacklogService Order} {env : BacklogService.PopEnv} {res : Bool}
    {commands : List Command} (hpop : s.tryPop env = (s₁, some ord))
    (h : tryExecuteNext s env svc = .ok (res, s', commands)) :
    Retained s' (getSelfRef ord) ↔ ¬ Abandons svc ord ∨ getSelfRef ord ∈ ids s₁.queued := by
  unfold tryExecuteNext at h
  rw [hpop] at h
  obtain ⟨⟨res', commands'⟩, hexecute, heq⟩ := Outcome.bind_eq_ok.mp h
  cases heq
  obtain ⟨hsilent, hhandles⟩ := settles_execute hexecute
  have hstored : getSelfRef ord ∈ s₁.store.keys := BacklogService.stored_of_tryPop hpop
  by_cases habandons : Abandons svc ord
  · rw [foldl_silent (hsilent habandons), Retained]
    simp [habandons, hstored]
  · exact iff_of_true (retained_foldl (Or.inr (hhandles habandons))) (Or.inl habandons)

end ErgoLib

/-! ## A rejected deposit -/

namespace Sample

open Staking.Sample SpectrumOffchain.Sample Blake2b.Sample

/-- The liquidity of the sample pool. -/
def ownLq : Token := token (digest 2) 12

def order : Order := .deposit ⟨depositBox ownLq, deposit ownLq⟩

/-- A backlog that has just been started with the deposit. -/
def backlog : BacklogService Order := .new (Table.empty.put ⟨order, 0⟩) Backlog.Sample.conf

/-- The services for a pool, with a node that has the answer to every transaction. -/
def services (pool : Option (AsBox Pool)) (answer : Option String) : Services where
  resolvePool _ := pool
  resolveBundle _ := none
  collect _ := none
  getTokenDetails _ _ _ := ⟨"", ""⟩
  contextHeight := 100
  executorProp := ⟨[2]⟩
  sign candidate := some ⟨candidate.inputs.toList.map fun input => input.1.boxId⟩
  submitTx _ := answer
  boxInUtxo _ := true
  getHeight := 100
  now := 1

theorem exists_run : ∃ result, Deposit.tryRun ⟨depositBox ownLq, deposit ownLq⟩ ⟨poolBox, pool⟩
    ⟨"", ""⟩ depositContext = .ok result := by
  have hok : pool.applyDeposit (deposit ownLq) ⟨"", ""⟩ depositContext = .ok
      ({ pool with
          reservesLq := ⟨digest 2, 112⟩
          reservesVlq := ⟨digest 3, maxValue - 112⟩
          reservesTmp := ⟨digest 4, maxValue - 1120⟩ },
        ⟨⟨digest 15⟩, ⟨digest 0⟩, ⟨digest 3, 12⟩, some ⟨digest 4, 120⟩, ⟨[]⟩, minSafeFatBoxValue,
          "", ""⟩,
        ⟨⟨digest 15, bundleKeyAmountUser⟩, ⟨[]⟩, minSafeFatBoxValue, "", ""⟩,
        ⟨⟨[2]⟩, 7956000⟩, ⟨defaultMinerFee⟩) := by
    decide +kernel
  refine Deposit.exists_tryRun hok ?_ ?_ ?_ ?_ ?_
  · decide +kernel
  · decide +kernel
  · decide +kernel
  · decide +kernel
  · decide +kernel

/-- The backlog when the deposit has been handed out. -/
def popped : BacklogService Order := (backlog.tryPop (Backlog.Sample.env 1)).1

theorem tryPop_backlog : backlog.tryPop (Backlog.Sample.env 1) = (popped, some order) := by
  have hstate : (backlog.tryPop (Backlog.Sample.env 1)).1 = popped := by rw [popped]
  have hres : (backlog.tryPop (Backlog.Sample.env 1)).2 = some order := rfl
  exact Prod.ext hstate hres

theorem queued_popped : popped.queued = [] := by
  have hempty : popped.queued.isEmpty := by decide +kernel
  exact List.isEmpty_iff.mp hempty

/-- A rejection that the executor does not know leaves no command. -/
theorem execute_timeout :
    execute (services (some ⟨poolBox, pool⟩) (some "timeout")) order = .ok (true, []) := by
  obtain ⟨⟨tx, nextPool, bundle⟩, hrun⟩ := exists_run
  have hrunOrder : runOrder (services (some ⟨poolBox, pool⟩) (some "timeout")) order
      ⟨poolBox, pool⟩ [] depositContext =
      .ok (some (.ok ⟨tx, nextPool.value, [bundle.value], none, .deposit⟩)) := by
    show (attempt Order.deposit (Deposit.tryRun ⟨depositBox ownLq, deposit ownLq⟩
      ⟨poolBox, pool⟩ ⟨"", ""⟩ depositContext) >>= _) = _
    rw [hrun]
    rfl
  have hparse : (parseErr "timeout" : Outcome Empty NodeSubmitTxError) = .ok .unhandled := by
    decide
  have hsubmit : submit (services (some ⟨poolBox, pool⟩) (some "timeout")) order ⟨poolBox, pool⟩ []
      ⟨tx, nextPool.value, [bundle.value], none, .deposit⟩ = .ok [] := by
    show ((parseErr "timeout" : Outcome Empty NodeSubmitTxError) >>= _) = _
    rw [hparse]
    rfl
  show (runOrder _ order ⟨poolBox, pool⟩ [] depositContext >>= _) = _
  rw [hrunOrder, Outcome.ok_bind]
  dsimp only
  show (submit _ order ⟨poolBox, pool⟩ [] _ >>= _) = _
  rw [hsubmit]
  rfl

end Sample

open Executor.Sample Staking.Sample SpectrumOffchain.Sample Blake2b.Sample

/-- The pool of the deposit is not known, and the deposit is suspended. -/
theorem retained_iff_sample : ∃ s', tryExecuteNext backlog (Backlog.Sample.env 1)
      (services none none) = .ok (false, s', [.suspend order]) ∧
    (Retained s' (getSelfRef order) ↔
      ¬ Abandons (services none none) order ∨ getSelfRef order ∈ ids popped.queued) := by
  have hcall : tryExecuteNext backlog (Backlog.Sample.env 1) (services none none) =
      .ok (false, [Command.suspend order].foldl Command.apply popped, [.suspend order]) := by
    unfold tryExecuteNext
    rw [tryPop_backlog]
    rfl
  exact ⟨_, hcall, retained_iff tryPop_backlog hcall⟩

/-- The node answers that it timed out, and the deposit stays in the store and is in no queue. -/
theorem deposit_lost : ∃ s', tryExecuteNext backlog (Backlog.Sample.env 1)
      (services (some ⟨poolBox, pool⟩) (some "timeout")) = .ok (true, s', []) ∧
    (backlog.tryPop (Backlog.Sample.env 1)).2 = some order ∧
    ¬ Retained s' (getSelfRef order) := by
  refine ⟨popped, ?_, by rw [tryPop_backlog], ?_⟩
  · unfold tryExecuteNext
    rw [tryPop_backlog]
    dsimp only
    rw [execute_timeout]
    rfl
  · rintro (hstored | hqueued)
    · exact hstored (BacklogService.stored_of_tryPop tryPop_backlog)
    · rw [queued_popped] at hqueued
      cases hqueued

end SpectrumOffchain.Executor
