import SpectrumOffchain.Execution.RunOrder
import SpectrumOffchain.Executor.TryExecute

/-!
# Missing inputs

The node names the inputs that are missing by their indices.  What they are is decided when the
order is run, where the inputs are put together (`TxInput`), and again in
`generate_invalidations`, which only knows the type of the order and the number of funding boxes.

The two agree: every missing index is looked after by one invalidation, of the kind of the box at
that index, and nothing else is invalidated (`invalidations_follow`).

## Strategy

For each kind of order the list of invalidations is a sum of parts, one for each kind of
input, that are there or not.  How many of them are for an index is counted part by part
(`countP_part`, `countP_single`), and the sum is one if the index is missing and zero if not
(`AboutMissing.of_countP`): that is both that none is forgotten and that none is there twice.

The indices come as signed numbers.  Those that the node can mean are those of inputs
(`Within`), so that the casts and comparisons of the code read them as they are
(`ofNat_mem_iff`, `lt_of_within`).
-/

namespace SpectrumOffchain.Executor

/-- An input of a transaction, and what it was put there for. -/
inductive TxInput where
  | pool (state : AsBox Pool)
  | funding (state : AsBox DistributionFunding)
  | bundle (state : AsBox StakingBundle)
  | order (bx : ErgoBox)

namespace TxInput

def bx : TxInput → ErgoBox
  | pool state => state.bx
  | funding state => state.bx
  | bundle state => state.bx
  | order bx => bx

def isPool : TxInput → Bool
  | pool _ => true
  | _ => false

def isOrder : TxInput → Bool
  | order _ => true
  | _ => false

end TxInput

/-! ## What an invalidation is about -/

/-- The indices that an invalidation is for.  The pool and the order are not named by an index, but
are the first of their kind. -/
def indicesOf (layout : List TxInput) : Invalidation → List ℕ
  | .pool => (layout.findIdx? TxInput.isPool).toList
  | .order => (layout.findIdx? TxInput.isOrder).toList
  | .funding missingFundingIxs => missingFundingIxs
  | .stakingBundles bundlesIx => bundlesIx

@[simp] theorem indicesOf_funding (layout : List TxInput) (missingFundingIxs : List ℕ) :
    indicesOf layout (.funding missingFundingIxs) = missingFundingIxs := rfl

/-- The invalidation is for inputs of this kind. -/
def IsFor : Invalidation → TxInput → Prop
  | .pool, .pool _ => True
  | .order, .order _ => True
  | .funding _, .funding _ => True
  | .stakingBundles _, .bundle _ => True
  | _, _ => False

/-- The indices are those of inputs. -/
def Within (layout : List TxInput) (missingIndices : List I32) : Prop :=
  ∀ ix ∈ missingIndices, ix.msb = false ∧ ix.toNat < layout.length

/-- The invalidations are about the missing inputs and no others. -/
structure AboutMissing (layout : List TxInput) (missingIndices : List I32)
    (invalidations : List Invalidation) : Prop where
  once : ∀ ix ∈ missingIndices,
    (invalidations.countP fun inv => asUsize ix ∈ indicesOf layout inv) = 1
  missing : ∀ inv ∈ invalidations, ∀ ix ∈ indicesOf layout inv,
    ix ∈ missingIndices.map asUsize
  kind : ∀ inv ∈ invalidations, ∀ ix ∈ indicesOf layout inv,
    ∃ input, layout[ix]? = some input ∧ IsFor inv input

/-! ## Indices -/

section Indices

variable {layout : List TxInput} {missingIndices : List I32}

theorem asUsize_eq_toNat {ix : I32} (h : ix.msb = false) : asUsize ix = ix.toNat := by
  rw [asUsize, BitVec.signExtend_eq_setWidth_of_msb_false h, BitVec.toNat_setWidth]
  omega

/-- `missing_indices.contains(&(ix as i32))`. -/
theorem ofNat_mem_iff (hwithin : Within layout missingIndices) {ix : ℕ} (hix : ix < 2 ^ 31) :
    BitVec.ofNat 32 ix ∈ missingIndices ↔ ix ∈ missingIndices.map asUsize := by
  have htoNat : (BitVec.ofNat 32 ix).toNat = ix := by
    rw [BitVec.toNat_ofNat]
    omega
  rw [List.mem_map]
  constructor
  · intro hmem
    exact ⟨_, hmem, (asUsize_eq_toNat (hwithin _ hmem).1).trans htoNat⟩
  · rintro ⟨m, hmem, rfl⟩
    rw [asUsize_eq_toNat (hwithin m hmem).1, BitVec.ofNat_toNat, BitVec.setWidth_eq]
    exact hmem

theorem lt_of_within (hwithin : Within layout missingIndices) {ix : ℕ}
    (h : ix ∈ missingIndices.map asUsize) : ix < layout.length := by
  obtain ⟨m, hmem, rfl⟩ := List.mem_map.mp h
  obtain ⟨hmsb, hlt⟩ := hwithin m hmem
  rwa [asUsize_eq_toNat hmsb]

end Indices

/-! ## Every index is looked after once -/

section Once

variable {layout : List TxInput} {missingIndices : List I32}

/-- An invalidation that is only there under a condition. -/
theorem countP_part (c : Prop) [Decidable c] (inv : Invalidation) (ix : ℕ) :
    ((if c then [inv] else []).countP fun inv => ix ∈ indicesOf layout inv) =
      if c ∧ ix ∈ indicesOf layout inv then 1 else 0 := by
  by_cases hc : c <;> by_cases hix : ix ∈ indicesOf layout inv <;> simp [hc, hix]

theorem AboutMissing.of_countP {invalidations : List Invalidation}
    (hcount : ∀ ix, (invalidations.countP fun inv => ix ∈ indicesOf layout inv) =
      if ix ∈ missingIndices.map asUsize then 1 else 0)
    (hkind : ∀ inv ∈ invalidations, ∀ ix ∈ indicesOf layout inv, ix ∈ missingIndices.map asUsize →
      ∃ input, layout[ix]? = some input ∧ IsFor inv input) :
    AboutMissing layout missingIndices invalidations := by
  have hmissing : ∀ inv ∈ invalidations, ∀ ix ∈ indicesOf layout inv,
      ix ∈ missingIndices.map asUsize := by
    intro inv hinv ix hix
    have hpos : 0 < invalidations.countP fun inv => ix ∈ indicesOf layout inv :=
      List.countP_pos_iff.mpr ⟨inv, hinv, decide_eq_true hix⟩
    by_contra hnot
    rw [hcount, if_neg hnot] at hpos
    exact lt_irrefl 0 hpos
  refine ⟨?_, hmissing, ?_⟩
  · intro ix hix
    rw [hcount, if_pos (List.mem_map_of_mem hix)]
  · exact fun inv hinv ix hix => hkind inv hinv ix hix (hmissing inv hinv ix hix)

/-- A part of the invalidations that is there exactly if one index is missing. -/
theorem countP_single {k ix : ℕ} {inv : Invalidation} (hinv : indicesOf layout inv = [k])
    {m : I32} (hm : m ∈ missingIndices ↔ k ∈ missingIndices.map asUsize) :
    ((if m ∈ missingIndices then [inv] else []).countP fun inv => ix ∈ indicesOf layout inv) =
      if ix = k ∧ ix ∈ missingIndices.map asUsize then 1 else 0 := by
  simp only [countP_part, hinv, List.mem_singleton, hm]
  by_cases hix : ix = k
  · subst hix
    simp only [and_true, true_and]
  · simp only [hix, and_false, false_and]

theorem aboutMissing_deposit {pool : AsBox Pool} {bx : ErgoBox}
    (hwithin : Within [.pool pool, .order bx] missingIndices) :
    AboutMissing [.pool pool, .order bx] missingIndices
      (generateInvalidations .deposit missingIndices) := by
  have h₀ : (0 : I32) ∈ missingIndices ↔ 0 ∈ missingIndices.map asUsize :=
    ofNat_mem_iff hwithin (by norm_num)
  have h₁ : (1 : I32) ∈ missingIndices ↔ 1 ∈ missingIndices.map asUsize :=
    ofNat_mem_iff hwithin (by norm_num)
  refine .of_countP ?_ ?_
  · intro ix
    have hlt : ix ∈ missingIndices.map asUsize → ix < 2 := lt_of_within hwithin
    rw [generateInvalidations, List.countP_append, countP_single (k := 0) rfl h₀,
      countP_single (k := 1) rfl h₁]
    by_cases hmem : ix ∈ missingIndices.map asUsize
    · simp only [hmem, and_true, if_true]
      have := hlt hmem
      split_ifs <;> omega
    · simp only [hmem, and_false, if_false]
  · intro inv hinv ix hix _
    simp only [generateInvalidations, List.mem_append, List.mem_ite_nil_right,
      List.mem_singleton] at hinv
    obtain ⟨-, rfl⟩ | ⟨-, rfl⟩ := hinv
    · obtain rfl := List.mem_singleton.mp hix
      exact ⟨_, rfl, trivial⟩
    · obtain rfl := List.mem_singleton.mp hix
      exact ⟨_, rfl, trivial⟩

theorem aboutMissing_redeem {pool : AsBox Pool} {bundle : AsBox StakingBundle} {bx : ErgoBox}
    (hwithin : Within [.pool pool, .bundle bundle, .order bx] missingIndices) :
    AboutMissing [.pool pool, .bundle bundle, .order bx] missingIndices
      (generateInvalidations .redeem missingIndices) := by
  have h₀ : (0 : I32) ∈ missingIndices ↔ 0 ∈ missingIndices.map asUsize :=
    ofNat_mem_iff hwithin (by norm_num)
  have h₁ : (1 : I32) ∈ missingIndices ↔ 1 ∈ missingIndices.map asUsize :=
    ofNat_mem_iff hwithin (by norm_num)
  have h₂ : (2 : I32) ∈ missingIndices ↔ 2 ∈ missingIndices.map asUsize :=
    ofNat_mem_iff hwithin (by norm_num)
  refine .of_countP ?_ ?_
  · intro ix
    have hlt : ix ∈ missingIndices.map asUsize → ix < 3 := lt_of_within hwithin
    rw [generateInvalidations, List.countP_append, countP_single (k := 0) rfl h₀,
      List.countP_append, countP_single (k := 1) rfl h₁, countP_single (k := 2) rfl h₂]
    by_cases hmem : ix ∈ missingIndices.map asUsize
    · simp only [hmem, and_true, if_true]
      have := hlt hmem
      split_ifs <;> omega
    · simp only [hmem, and_false, if_false]
  · intro inv hinv ix hix _
    simp only [generateInvalidations, List.mem_append, List.mem_ite_nil_right,
      List.mem_singleton] at hinv
    obtain ⟨-, rfl⟩ | ⟨-, rfl⟩ | ⟨-, rfl⟩ := hinv
    all_goals
      obtain rfl := List.mem_singleton.mp hix
      exact ⟨_, rfl, trivial⟩

/-- The inputs of a compound transaction. -/
def compoundLayout (pool : AsBox Pool) (bundles : List (AsBox StakingBundle))
    (funding : NonEmpty (AsBox DistributionFunding)) : List TxInput :=
  .pool pool :: (funding.toList.map TxInput.funding ++ bundles.map TxInput.bundle)

section Compound

variable {pool : AsBox Pool} {bundles : List (AsBox StakingBundle)}
  {funding : NonEmpty (AsBox DistributionFunding)}

theorem getElem?_compoundLayout_funding {ix : ℕ} (hpos : 1 ≤ ix)
    (hle : ix ≤ funding.toList.length) : ∃ state,
      (compoundLayout pool bundles funding)[ix]? = some (.funding state) := by
  obtain ⟨i, rfl⟩ := Nat.exists_eq_add_of_le' hpos
  have hi : i < funding.toList.length := hle
  refine ⟨funding.toList[i], ?_⟩
  rw [compoundLayout, List.getElem?_cons_succ, List.getElem?_append_left (by simpa using hi),
    List.getElem?_map, List.getElem?_eq_getElem hi]
  rfl

theorem getElem?_compoundLayout_bundle {ix : ℕ} (hlt : funding.toList.length < ix)
    (hlen : ix < (compoundLayout pool bundles funding).length) : ∃ state,
      (compoundLayout pool bundles funding)[ix]? = some (.bundle state) := by
  obtain ⟨i, rfl⟩ := Nat.exists_eq_add_of_lt hlt
  have hi : i < bundles.length := by
    simp only [compoundLayout, List.length_cons, List.length_append, List.length_map] at hlen
    omega
  refine ⟨bundles[i], ?_⟩
  rw [compoundLayout, List.getElem?_cons_succ, List.getElem?_append_right (by simp),
    List.length_map, Nat.add_sub_cancel_left, List.getElem?_map, List.getElem?_eq_getElem hi]
  rfl

/-- The indices of the funding boxes that are missing. -/
theorem mem_missingFundingIxs {numFunding : ℕ} (ix : ℕ) (hwithin : Within layout missingIndices)
    (hsmall : numFunding < 2 ^ 31) :
    ix ∈ ((List.range numFunding).map (· + 1)).filter
        (fun ix => BitVec.ofNat 32 ix ∈ missingIndices) ↔
      (1 ≤ ix ∧ ix ≤ numFunding) ∧ ix ∈ missingIndices.map asUsize := by
  rw [List.mem_filter, decide_eq_true_eq, List.mem_map]
  constructor
  · rintro ⟨⟨i, hi, rfl⟩, hmem⟩
    have hi := List.mem_range.mp hi
    exact ⟨⟨by omega, hi⟩, (ofNat_mem_iff hwithin (by omega)).mp hmem⟩
  · rintro ⟨⟨hpos, hle⟩, hmem⟩
    refine ⟨⟨ix - 1, List.mem_range.mpr (by omega), by omega⟩, ?_⟩
    exact (ofNat_mem_iff hwithin (by omega)).mpr hmem

theorem countP_bundles {bundlesIx : List ℕ} {ix : ℕ} :
    ((if bundlesIx.isEmpty then [] else [Invalidation.stakingBundles bundlesIx]).countP
      fun inv => ix ∈ indicesOf layout inv) = if ix ∈ bundlesIx then 1 else 0 := by
  cases bundlesIx with
  | nil => simp
  | cons => simp [indicesOf]

theorem aboutMissing_compound
    (hwithin : Within (compoundLayout pool bundles funding) missingIndices)
    (hsmall : (compoundLayout pool bundles funding).length < 2 ^ 31) :
    AboutMissing (compoundLayout pool bundles funding) missingIndices
      (generateInvalidations (.compound (funding.map (·.bx.boxId))) missingIndices) := by
  have h₀ : (0 : I32) ∈ missingIndices ↔ 0 ∈ missingIndices.map asUsize :=
    ofNat_mem_iff hwithin (by norm_num)
  have hnum : (funding.map (·.bx.boxId)).toList.length = funding.toList.length := by simp
  have hfew : funding.toList.length < 2 ^ 31 := by
    simp only [compoundLayout, List.length_cons, List.length_append, List.length_map] at hsmall
    omega
  have hfunding : ∀ ix, _ := fun ix => mem_missingFundingIxs ix hwithin hfew
  have hpool : indicesOf (compoundLayout pool bundles funding) .pool = [0] := rfl
  refine .of_countP ?_ ?_
  · intro ix
    simp only [generateInvalidations, hnum, List.countP_append, List.countP_cons,
      countP_single hpool h₀, countP_bundles, indicesOf_funding, hfunding, List.mem_filter,
      decide_eq_true_eq]
    by_cases hmem : ix ∈ missingIndices.map asUsize
    · simp only [hmem, and_true, true_and, if_true]
      split_ifs <;> omega
    · simp only [hmem, and_false, false_and, if_false]
  · intro inv hinv ix hix hmem
    have hlen := lt_of_within hwithin hmem
    simp only [generateInvalidations, hnum, List.mem_append, List.mem_ite_nil_right,
      List.mem_ite_nil_left, List.mem_cons, List.not_mem_nil, or_false] at hinv
    obtain ⟨-, rfl⟩ | rfl | ⟨-, rfl⟩ := hinv
    · obtain rfl := List.mem_singleton.mp hix
      exact ⟨_, rfl, trivial⟩
    · obtain ⟨⟨hpos, hle⟩, -⟩ := (hfunding ix).mp hix
      obtain ⟨state, hstate⟩ := getElem?_compoundLayout_funding hpos hle
      exact ⟨_, hstate, trivial⟩
    · have hlt := of_decide_eq_true (List.mem_filter.mp hix).2
      obtain ⟨state, hstate⟩ := getElem?_compoundLayout_bundle hlt hlen
      exact ⟨_, hstate, trivial⟩

end Compound

end Once

/-! ## What the executor does -/

section Executor

variable [ErgoLib] [Blake2b]

/-- The inputs of a transaction, and the invalidations for any of them that may be missing. -/
structure FollowsLayout (orderType : OrderType) (tx : TransactionCandidate)
    (layout : List TxInput) : Prop where
  inputs : tx.inputs.toList.map Prod.fst = layout.map TxInput.bx
  aboutMissing : ∀ missingIndices, Within layout missingIndices →
    AboutMissing layout missingIndices (generateInvalidations orderType missingIndices)
  /-- The executor finds the inputs of the signed transaction that it has to forget. -/
  handled : ∀ missingIndices, Within layout missingIndices → ∀ ord pool (signed : Transaction),
    signed.inputs = tx.inputs.toList.map (·.1.boxId) →
    ∃ commands, (generateInvalidations orderType missingIndices).mapM
      (handleInvalidation ord pool signed) = .ok commands

omit [ErgoLib] [Blake2b] in
theorem exists_inputIds {signed : Transaction} {indices : List ℕ}
    (h : ∀ ix ∈ indices, ix < signed.inputs.length) :
    ∃ boxIds, indices.mapM (inputId signed) = .ok boxIds :=
  Outcome.exists_mapM_eq_ok fun ix hix =>
    ⟨_, Outcome.unwrap_eq_ok.mpr (List.getElem?_eq_getElem (h ix hix))⟩

omit [ErgoLib] in
theorem exists_handleInvalidation {ord : Order} {pool : AsBox Pool} {signed : Transaction}
    {layout : List TxInput} {inv : Invalidation}
    (h : ∀ ix ∈ indicesOf layout inv, ix < signed.inputs.length) :
    ∃ commands, handleInvalidation ord pool signed inv = .ok commands := by
  cases inv with
  | pool => exact ⟨_, rfl⟩
  | order => exact ⟨_, rfl⟩
  | funding missingFundingIxs =>
      obtain ⟨boxIds, hids⟩ := exists_inputIds h
      exact ⟨_, Outcome.bind_eq_ok.mpr ⟨boxIds, hids, rfl⟩⟩
  | stakingBundles bundlesIx =>
      obtain ⟨boxIds, hids⟩ := exists_inputIds h
      exact ⟨_, Outcome.bind_eq_ok.mpr ⟨boxIds, hids, rfl⟩⟩

omit [ErgoLib] in
theorem FollowsLayout.of_aboutMissing {orderType : OrderType} {tx : TransactionCandidate}
    {layout : List TxInput} (hinputs : tx.inputs.toList.map Prod.fst = layout.map TxInput.bx)
    (habout : ∀ missingIndices, Within layout missingIndices →
      AboutMissing layout missingIndices (generateInvalidations orderType missingIndices)) :
    FollowsLayout orderType tx layout := by
  refine ⟨hinputs, habout, ?_⟩
  intro missingIndices hwithin ord pool signed hsigned
  have hlength : signed.inputs.length = layout.length := by
    have := congrArg List.length hinputs
    simpa [hsigned] using this
  have hindices : ∀ inv ∈ generateInvalidations orderType missingIndices,
      ∀ ix ∈ indicesOf layout inv, ix < signed.inputs.length := by
    intro inv hinv ix hix
    rw [hlength]
    exact lt_of_within hwithin ((habout missingIndices hwithin).missing inv hinv ix hix)
  exact Outcome.exists_mapM_eq_ok fun inv hinv => exists_handleInvalidation (hindices inv hinv)

/-- The transactions of all three kinds of orders. -/
structure InvalidationsFollow : Prop where
  deposit : ∀ order pool tokenDetails ctx tx nextPool bundle,
    Deposit.tryRun order pool tokenDetails ctx = .ok (tx, nextPool, bundle) →
    FollowsLayout .deposit tx [.pool pool, .order order.bx]
  redeem : ∀ order pool bundle ctx tx nextPool,
    Redeem.tryRun order pool bundle ctx = .ok (tx, nextPool) →
    FollowsLayout .redeem tx [.pool pool, .bundle bundle, .order order.bx]
  compound : ∀ (order : Compound) pool bundles funding ctx tx nextPool nextBundles nextFunding,
    order.tryRun pool bundles funding ctx = .ok (tx, nextPool, nextBundles, nextFunding) →
    FollowsLayout (.compound (funding.map (·.bx.boxId))) tx (compoundLayout pool bundles funding)

/-- Every missing input is invalidated as what it was put into the transaction for. -/
theorem invalidations_follow : InvalidationsFollow := by
  refine ⟨?_, ?_, ?_⟩
  · intro order pool tokenDetails ctx tx nextPool bundle hok
    obtain ⟨_, _, _, _, hran⟩ := Deposit.tryRun_ok hok
    exact .of_aboutMissing hran.inputs_eq fun _ => aboutMissing_deposit
  · intro order pool bundle ctx tx nextPool hok
    obtain ⟨_, _, _, hran⟩ := Redeem.tryRun_ok hok
    exact .of_aboutMissing hran.inputs_eq fun _ => aboutMissing_redeem
  · intro order pool bundles funding ctx tx nextPool nextBundles nextFunding hok
    obtain ⟨_, _, _, _, _, _, hran⟩ := Compound.tryRun_ok hok
    have hinputs : tx.inputs.toList.map Prod.fst =
        (compoundLayout pool bundles funding).map TxInput.bx := by
      rw [hran.inputs_eq, compoundLayout, List.map_cons, List.map_append, List.map_map,
        List.map_map]
      rfl
    refine .of_aboutMissing hinputs fun missingIndices hwithin => ?_
    have hlength := congrArg List.length hinputs
    have hle := tx.inputs.le_hi
    rw [List.length_map, List.length_map] at hlength
    exact aboutMissing_compound hwithin (by omega)

end Executor

end SpectrumOffchain.Executor
