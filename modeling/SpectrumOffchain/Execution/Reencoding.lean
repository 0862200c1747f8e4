import SpectrumOffchain.Execution.Prediction

/-!
# Reading a pool and writing it again

A pool that is read off a box and written back has the same value, script and tokens, and the
same parameters.  What the pool has no place for is not written back as it was: there is always
one pool NFT, the parameters of the program are four, and a fourth register is kept only if it is
the index of an epoch (`reencodes_of_tryFromBox`).

An operation on the pool changes the reserves, and a distribution the budget and the epoch; all
else of the box is that of the pool written back (`KeepsFrame`).

## Strategy

The box of a pool is compared field by field.  What the parser reads is in the pool and is
written from there (`Pool.written`); what it only checks, or skips, is where a difference
can arise.  `Pool.Reencodes` states what is written in terms of the old box, and
`Pool.Regular` are the boxes for which this is the old box again
(`Pool.Reencodes.preserves_iff`).

For the operations it is enough that the next pool is the old one with other amounts and
another epoch (`Pool.Moves`): the boxes of two such pools agree in all that the amounts do
not decide.
-/

namespace SpectrumOffchain

variable {ε : Type}

/-- What the parser takes for the index of an epoch. -/
def Constant.isEpochIx : Constant → Bool
  | .int x => !x.msb
  | _ => false

/-- The registers that a pool is read off. -/
structure Pool.RegistersOf (pool : Pool) (bx : ErgoBox) (conf : List I32) : Prop where
  r4 : bx.getRegister .R4 = some (.collInt conf)
  toVec : pool.conf.toVec = conf.take 4
  length : 4 ≤ conf.length
  r5 : bx.getRegister .R5 = some (.long (.ofNat 64 pool.conf.programBudget.amount))
  r6 : bx.getRegister .R6 = some (.long (.ofNat 64 pool.conf.maxRoundingError))
  r7 : pool.epochIx = (bx.getRegister .R7).bind fun reg => reg.extractInt.bind u32TryFromI32
  ergoTree : bx.ergoTree = poolValidator

theorem Constant.extractLong_eq_some {c : Constant} {x : I64} :
    c.extractLong = some x ↔ c = .long x := by
  cases c <;> simp [extractLong]

theorem Constant.extractCollInt_eq_some {c : Constant} {xs : List I32} :
    c.extractCollInt = some xs ↔ c = .collInt xs := by
  cases c <;> simp [extractCollInt]

theorem Pool.registersOf_of_tryFromBox {bx : ErgoBox} {pool : Pool}
    (h : Pool.tryFromBox bx = some pool) : ∃ conf, pool.RegistersOf bx conf := by
  unfold tryFromBox at h
  split at h
  case h_2 => cases h
  case h_1 poolNft budgetRem lq vlq tmp htokens =>
    split at h
    case isFalse => cases h
    case isTrue htree =>
      simp only [Option.bind_eq_bind, Option.bind_eq_some_iff, Constant.extractCollInt_eq_some,
        Constant.extractLong_eq_some] at h
      obtain ⟨_, hr4, conf, rfl, _, hr5, budget, rfl, _, hr6, maxRoundingError, rfl, h⟩ := h
      split at h
      case isTrue => cases h
      case isFalse =>
        split at h
        case h_2 => cases h
        case h_1 epochLen epochNum programStart redeemBlocksDelta rest =>
          cases h
          refine ⟨_, hr4, ?_, ?_, ?_, ?_, rfl, htree.symm⟩
          · simp [ProgramConfig.toVec]
          · simp
          · simpa using hr5
          · simpa using hr6

/-- The index of an epoch survives the cast to a signed integer. -/
theorem Constant.map_extractEpochIx (reg : Option Constant) :
    ((reg.bind fun c => c.extractInt.bind u32TryFromI32).map fun ix =>
      Constant.int (.ofNat 32 ix)) = reg.filter Constant.isEpochIx := by
  cases reg with
  | none => rfl
  | some c =>
      cases c with
      | int x => cases hmsb : x.msb <;> simp [extractInt, u32TryFromI32, isEpochIx, hmsb,
          Option.filter_some]
      | _ => rfl

/-! ## Writing back -/

/-- The pool NFT and the tokens of a pool box. -/
def withOneNft : List (TokenId × ℕ) → List (TokenId × ℕ)
  | nft :: rest => (nft.1, unitValue) :: rest
  | [] => []

/-- What a pool box is written back as. -/
structure Pool.Reencodes (bx : ErgoBox) (c : ErgoBoxCandidate) : Prop where
  value : c.value = bx.value
  ergoTree : c.ergoTree = bx.ergoTree
  assets : c.assets = withOneNft bx.assets
  r4 : ∃ conf, bx.getRegister .R4 = some (.collInt conf) ∧ 4 ≤ conf.length ∧
    c.getRegister .R4 = some (.collInt (conf.take 4))
  r5 : c.getRegister .R5 = bx.getRegister .R5
  r6 : c.getRegister .R6 = bx.getRegister .R6
  r7 : c.getRegister .R7 = (bx.getRegister .R7).filter Constant.isEpochIx

/-- The box is written back as it was. -/
structure Pool.Preserves (bx : ErgoBox) (c : ErgoBoxCandidate) : Prop where
  value : c.value = bx.value
  ergoTree : c.ergoTree = bx.ergoTree
  assets : c.assets = bx.assets
  r4 : c.getRegister .R4 = bx.getRegister .R4
  r5 : c.getRegister .R5 = bx.getRegister .R5
  r6 : c.getRegister .R6 = bx.getRegister .R6
  r7 : (bx.getRegister .R7).isSome → c.getRegister .R7 = bx.getRegister .R7

/-- The pool boxes that a pool has a place for all of. -/
structure Pool.Regular (bx : ErgoBox) : Prop where
  nft : ∀ nft ∈ bx.assets.head?, nft.2 = unitValue
  conf : ∀ conf, bx.getRegister .R4 = some (.collInt conf) → conf.length = 4
  epochIx : ∀ reg, bx.getRegister .R7 = some reg → reg.isEpochIx = true

theorem Pool.reencodes_of_tryFromBox {bx : ErgoBox} {pool : Pool}
    (h : Pool.tryFromBox bx = some pool) (height : ℕ) :
    ∃ c, (pool.intoCandidate height : Outcome ε _) = .ok c ∧ Pool.Reencodes bx c := by
  obtain ⟨hvalue, n, -, hassets⟩ := assets_of_tryFromBox h
  obtain ⟨conf, hregisters⟩ := registersOf_of_tryFromBox h
  have hwritable : pool.contents.Writable := by
    obtain ⟨hbox, hpos, hle⟩ := bx.writable_contents
    simp only [ErgoBoxCandidate.contents, hassets, List.forall_mem_cons] at hbox
    have hnft : 1 ≤ unitValue ∧ unitValue ≤ i64Max := by decide
    simp only [BoxContents.Writable, Pool.contents, List.forall_mem_cons, hvalue]
    exact ⟨⟨hnft, hbox.2⟩, hpos, hle⟩
  obtain ⟨c, hc⟩ := exists_intoCandidate.mpr hwritable
  refine ⟨c, hc, ?_⟩
  obtain ⟨hcvalue, hctree, hcassets, hcregisters⟩ := BoxContents.mk.inj (intoCandidate_ok hc)
  obtain ⟨hr4, hr5, hr6, hr7⟩ := getRegister_of_registers hcregisters
  refine ⟨?_, hctree.trans hregisters.ergoTree.symm, ?_,
    ⟨conf, hregisters.r4, hregisters.length, ?_⟩, ?_, ?_, ?_⟩
  · have hnew := BoxValue.new_eq_some.mpr (hcvalue.trans hvalue)
    exact Option.some.inj (hnew.symm.trans bx.value.new_toNat)
  · rw [hcassets, hassets]
    rfl
  · rw [hr4, hregisters.toVec]
  · rw [hr5, hregisters.r5]
  · rw [hr6, hregisters.r6]
  · rw [hr7, hregisters.r7, Constant.map_extractEpochIx]

theorem withOneNft_eq_self_iff {assets : List (TokenId × ℕ)} :
    withOneNft assets = assets ↔ ∀ nft ∈ assets.head?, nft.2 = unitValue := by
  cases assets with
  | nil => simp [withOneNft]
  | cons nft rest =>
      obtain ⟨id, n⟩ := nft
      simp [withOneNft, eq_comm]

/-- Nothing of a box is lost exactly if the pool has a place for all of it. -/
theorem Pool.Reencodes.preserves_iff {bx : ErgoBox} {c : ErgoBoxCandidate}
    (h : Pool.Reencodes bx c) : Pool.Preserves bx c ↔ Pool.Regular bx := by
  obtain ⟨conf, hconf, hlength, hr4⟩ := h.r4
  constructor
  · intro hpreserves
    refine ⟨?_, ?_, ?_⟩
    · exact withOneNft_eq_self_iff.mp (h.assets.symm.trans hpreserves.assets)
    · intro conf' hconf'
      have htake := hr4.symm.trans (hpreserves.r4.trans hconf)
      rw [hconf] at hconf'
      cases hconf'
      have htake : conf.take 4 = conf := by simpa using htake
      rw [List.take_eq_self_iff] at htake
      omega
    · intro reg hreg
      have hr7 := h.r7.symm.trans (hpreserves.r7 (by rw [hreg]; rfl))
      rw [hreg, Option.filter_some_eq_some] at hr7
      exact hr7
  · intro hregular
    refine ⟨h.value, h.ergoTree, ?_, ?_, h.r5, h.r6, ?_⟩
    · rw [h.assets]
      exact withOneNft_eq_self_iff.mpr hregular.nft
    · rw [hr4, hconf, List.take_of_length_le (hregular.conf conf hconf).le]
    · intro hsome
      obtain ⟨reg, hreg⟩ := Option.isSome_iff_exists.mp hsome
      rw [h.r7, hreg]
      exact Option.filter_some_pos (hregular.epochIx reg hreg)

/-! ## The next pool -/

/-- The next pool differs in the amounts and in the epoch. -/
def Pool.Moves (pool nextPool : Pool) : Prop :=
  ∃ budgetRem reservesLq reservesVlq reservesTmp epochIx, nextPool =
    { pool with
      budgetRem := ⟨pool.budgetRem.tokenId, budgetRem⟩
      reservesLq := ⟨pool.reservesLq.tokenId, reservesLq⟩
      reservesVlq := ⟨pool.reservesVlq.tokenId, reservesVlq⟩
      reservesTmp := ⟨pool.reservesTmp.tokenId, reservesTmp⟩
      epochIx }

/-- What no operation changes in the box of a pool. -/
structure KeepsFrame (c c' : ErgoBoxCandidate) : Prop where
  value : c'.value = c.value
  ergoTree : c'.ergoTree = c.ergoTree
  ids : c'.assets.map Prod.fst = c.assets.map Prod.fst
  nft : c'.assets.head? = c.assets.head?
  r4 : c'.getRegister .R4 = c.getRegister .R4
  r5 : c'.getRegister .R5 = c.getRegister .R5
  r6 : c'.getRegister .R6 = c.getRegister .R6

/-- What a pool is written as, field by field. -/
theorem Pool.written {pool : Pool} {height : ℕ} {c : ErgoBoxCandidate}
    (h : (pool.intoCandidate height : Outcome ε _) = .ok c) :
    c.value.toNat = pool.ergValue ∧ c.ergoTree = poolValidator ∧
      c.assets = [pool.poolNft.asset, pool.budgetRem.asset, pool.reservesLq.asset,
        pool.reservesVlq.asset, pool.reservesTmp.asset] ∧
      c.getRegister .R4 = some (.collInt pool.conf.toVec) ∧
      c.getRegister .R5 = some (.long (.ofNat 64 pool.conf.programBudget.amount)) ∧
      c.getRegister .R6 = some (.long (.ofNat 64 pool.conf.maxRoundingError)) ∧
      c.getRegister .R7 = pool.epochIx.map fun ix => .int (.ofNat 32 ix) := by
  obtain ⟨hvalue, htree, hassets, hregisters⟩ := BoxContents.mk.inj (intoCandidate_ok h)
  exact ⟨hvalue, htree, hassets, getRegister_of_registers hregisters⟩

theorem Pool.Moves.keepsFrame {pool nextPool : Pool} (h : pool.Moves nextPool)
    {height height' : ℕ} {c c' : ErgoBoxCandidate}
    (hc : (pool.intoCandidate height : Outcome ε _) = .ok c)
    (hc' : (nextPool.intoCandidate height' : Outcome ε _) = .ok c') : KeepsFrame c c' := by
  obtain ⟨budgetRem, reservesLq, reservesVlq, reservesTmp, epochIx, rfl⟩ := h
  obtain ⟨hvalue, htree, hassets, hr4, hr5, hr6, -⟩ := written hc
  obtain ⟨hvalue', htree', hassets', hr4', hr5', hr6', -⟩ := written hc'
  refine ⟨?_, htree'.trans htree.symm, ?_, ?_, ?_, ?_, ?_⟩
  · have hnew := BoxValue.new_eq_some.mpr (hvalue'.trans hvalue.symm)
    exact Option.some.inj (hnew.symm.trans c.value.new_toNat)
  · rw [hassets, hassets']
    rfl
  · rw [hassets, hassets']
    rfl
  · rw [hr4, hr4']
  · rw [hr5, hr5']
  · rw [hr6, hr6']

/-- The boxes of the pools that follow, next to that of the pool itself. -/
structure Pool.Successors (pool : Pool) (c : ErgoBoxCandidate) : Prop where
  deposit : ∀ deposit tokenDetails ctx nextPool outputs c',
    pool.applyDeposit deposit tokenDetails ctx = .ok (nextPool, outputs) →
    (nextPool.intoCandidate ctx.height : Outcome Unit _) = .ok c' →
    KeepsFrame c c' ∧ c'.assets[1]? = c.assets[1]? ∧ c'.getRegister .R7 = c.getRegister .R7
  redeem : ∀ redeem bundle ctx nextPool outputs c',
    pool.applyRedeem redeem bundle ctx = .ok (nextPool, outputs) →
    (nextPool.intoCandidate ctx.height : Outcome Unit _) = .ok c' →
    KeepsFrame c c' ∧ c'.assets[1]? = c.assets[1]? ∧ c'.getRegister .R7 = c.getRegister .R7
  /-- A distribution leaves the two kinds of liquidity alone. -/
  distribute : ∀ bundles funding height nextPool outputs c',
    pool.distributeRewards bundles funding = .ok (nextPool, outputs) →
    (nextPool.intoCandidate height : Outcome Unit _) = .ok c' →
    KeepsFrame c c' ∧ c'.assets[2]? = c.assets[2]? ∧ c'.assets[3]? = c.assets[3]?

theorem Pool.successors_of_ok {pool : Pool} {height : ℕ} {c : ErgoBoxCandidate}
    (hc : (pool.intoCandidate height : Outcome Unit _) = .ok c) : pool.Successors c := by
  obtain ⟨-, -, hassets, -, -, -, hr7⟩ := written hc
  refine ⟨?_, ?_, ?_⟩
  · intro deposit tokenDetails ctx nextPool outputs c' hok hc'
    obtain ⟨bundle, userOutput, executorOutput, minerOutput⟩ := outputs
    have hnext := (applyDeposit_ok hok).nextPool_eq
    have hmoves : pool.Moves nextPool := ⟨pool.budgetRem.amount, _, _, _, pool.epochIx, hnext⟩
    obtain ⟨-, -, hassets', -, -, -, hr7'⟩ := written hc'
    refine ⟨hmoves.keepsFrame hc hc', ?_, ?_⟩
    · rw [hassets, hassets', hnext]
      rfl
    · rw [hr7, hr7', hnext]
  · intro redeem bundle ctx nextPool outputs c' hok hc'
    obtain ⟨userOutput, executorOutput, minerOutput⟩ := outputs
    have hnext := (applyRedeem_ok hok).nextPool_eq
    have hmoves : pool.Moves nextPool := ⟨pool.budgetRem.amount, _, _, _, pool.epochIx, hnext⟩
    obtain ⟨-, -, hassets', -, -, -, hr7'⟩ := written hc'
    refine ⟨hmoves.keepsFrame hc hc', ?_, ?_⟩
    · rw [hassets, hassets', hnext]
      rfl
    · rw [hr7, hr7', hnext]
  · intro bundles funding height nextPool outputs c' hok hc'
    obtain ⟨nextBundles, nextFunding, rewardOutputs, minerOutput⟩ := outputs
    obtain ⟨epochIx, total, hdistributed⟩ := distributeRewards_ok hok
    have hnext := hdistributed.nextPool_eq
    have hmoves : pool.Moves nextPool :=
      ⟨_, pool.reservesLq.amount, pool.reservesVlq.amount, _, some epochIx, hnext⟩
    obtain ⟨-, -, hassets', -, -, -, -⟩ := written hc'
    refine ⟨hmoves.keepsFrame hc hc', ?_, ?_⟩
    · rw [hassets, hassets', hnext]
      rfl
    · rw [hassets, hassets', hnext]
      rfl

/-- A pool box is written back as far as the pool has a place for it, and the boxes of the next
pools differ from that one in what the operation is about. -/
theorem Pool.reencoded {bx : ErgoBox} {pool : Pool} (h : Pool.tryFromBox bx = some pool)
    (height : ℕ) : ∃ c, (pool.intoCandidate height : Outcome Unit _) = .ok c ∧
      Pool.Reencodes bx c ∧ (Pool.Preserves bx c ↔ Pool.Regular bx) ∧ pool.Successors c := by
  obtain ⟨c, hc, hreencodes⟩ := reencodes_of_tryFromBox h height
  exact ⟨c, hc, hreencodes, hreencodes.preserves_iff, successors_of_ok hc⟩

namespace Sample

open Staking.Sample

/-- The sample pool in a box with two pool NFTs, five parameters and a negative epoch. -/
def oddBox : ErgoBox :=
  box fatValue poolValidator (some (poolTokens (token (digest 0) 2) poolTmp))
    ⟨[.collInt (pool.conf.toVec ++ [0]), .long (.ofNat 64 pool.conf.programBudget.amount),
      .long (.ofNat 64 pool.conf.maxRoundingError), .int (-1)], by decide, by decide⟩ 15

theorem tryFromBox_oddBox : Pool.tryFromBox oddBox = some pool := by
  unfold Pool.tryFromBox
  exact (if_pos rfl).trans rfl

end Sample

open Sample in
theorem reencoded_sample : ∃ c, (Staking.Sample.pool.intoCandidate 210 : Outcome Unit _) = .ok c ∧
    Pool.Reencodes poolBox c ∧ (Pool.Preserves poolBox c ↔ Pool.Regular poolBox) ∧
      Staking.Sample.pool.Successors c :=
  Pool.reencoded tryFromBox_poolBox 210

open Sample in
/-- Nothing of what makes the box odd is written back. -/
theorem odd_box_is_straightened : Pool.tryFromBox oddBox = some Staking.Sample.pool ∧
    ∃ c, (Staking.Sample.pool.intoCandidate 210 : Outcome Unit _) = .ok c ∧
      c.assets ≠ oddBox.assets ∧ c.getRegister .R4 ≠ oddBox.getRegister .R4 ∧
      c.getRegister .R7 ≠ oddBox.getRegister .R7 ∧ ¬ Pool.Preserves oddBox c := by
  obtain ⟨c, hc, -⟩ := Pool.reencodes_of_tryFromBox (ε := Unit) tryFromBox_oddBox 210
  obtain ⟨-, -, hassets, hr4, -, -, hr7⟩ := Pool.written hc
  have hne : c.assets ≠ oddBox.assets := by
    intro h
    have hnft := congrArg List.head? (hassets.symm.trans h)
    have hamount : unitValue = 2 := congrArg Prod.snd (Option.some.inj hnft)
    exact absurd hamount (by decide)
  refine ⟨tryFromBox_oddBox, c, hc, hne, ?_, ?_, fun h => hne h.assets⟩
  · intro h
    have hconf := Option.some.inj (hr4.symm.trans h)
    have hlength : 4 = 5 := congrArg List.length (Constant.collInt.inj hconf)
    omega
  · intro h
    cases hr7.symm.trans h

end SpectrumOffchain
