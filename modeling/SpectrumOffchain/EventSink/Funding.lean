import SpectrumOffchain.Data.Codec
import SpectrumOffchain.EventSink.Events
import SpectrumOffchain.Funding.Repo

/-!
# The intake of funding boxes

`ConfirmedFundingHadler` watches the ledger for boxes of the wallet.  Whether an input was
one of them it asks a Bloom filter over the index of the repository, which may also say so
of a box that is not there.  `funding_update_stream` writes the updates to the repository.
-/

namespace SpectrumOffchain

open Funding

inductive FundingUpdate where
  | fundingCreated (funding : AsBox DistributionFunding)
  | fundingEliminated (fid : FundingId)
  deriving DecidableEq, Repr

/-- `may_exist`, a false positive version of `exists()`. -/
abbrev FundingFilter :=
  MayExist fun (repo : FundingRepo) (fid : FundingId) => (repo.index.get fid).isSome

section Handler

variable [ErgoLib]

/-- The boxes of the wallet. -/
def walletBoxes (wallet : ExecutorWallet) (outputs : List ErgoBox) :
    List (AsBox DistributionFunding) :=
  outputs.filterMap fun bx => (DistributionFunding.tryFromBox bx wallet).map (AsBox.mk bx)

/-- `ConfirmedFundingHadler::try_handle`, up to what it returns: the updates it feeds into its
topic. -/
def handleFundingEvent (mayExist : FundingId → Bool) (wallet : ExecutorWallet) :
    LedgerTxEvent LedgerTx → List FundingUpdate
  | .appliedTx tx _ =>
      ((tx.inputs.map FundingId.mk).filter mayExist).map .fundingEliminated ++
        (walletBoxes wallet tx.outputs).map .fundingCreated
  | .unappliedTx tx =>
      (walletBoxes wallet tx.outputs).map fun funding => .fundingEliminated funding.value.id

theorem DistributionFunding.id_of_tryFromBox {bx : ErgoBox} {wallet : ExecutorWallet}
    {funding : DistributionFunding} (h : tryFromBox bx wallet = some funding) :
    funding.id = ⟨bx.boxId⟩ := by
  unfold tryFromBox at h
  split at h
  · cases h
    rfl
  · cases h

theorem mem_walletBoxes {wallet : ExecutorWallet} {outputs : List ErgoBox}
    {funding : AsBox DistributionFunding} :
    funding ∈ walletBoxes wallet outputs ↔
      funding.bx ∈ outputs ∧ DistributionFunding.tryFromBox funding.bx wallet = some funding.value := by
  rw [walletBoxes, List.mem_filterMap]
  constructor
  · rintro ⟨bx, hbx, heq⟩
    obtain ⟨value, hvalue, rfl⟩ := Option.map_eq_some_iff.mp heq
    exact ⟨hbx, hvalue⟩
  · rintro ⟨hbx, hvalue⟩
    exact ⟨funding.bx, hbx, Option.map_eq_some_iff.mpr ⟨funding.value, hvalue, rfl⟩⟩

theorem sublist_walletBoxes (wallet : ExecutorWallet) (outputs : List ErgoBox) :
    ((walletBoxes wallet outputs).map AsBox.bx).Sublist outputs := by
  induction outputs with
  | nil => exact .slnil
  | cons bx outputs ih =>
      unfold walletBoxes
      rw [List.filterMap_cons]
      cases DistributionFunding.tryFromBox bx wallet with
      | none => exact ih.cons bx
      | some funding => exact ih.cons_cons bx

/-- The boxes of the wallet among the outputs of a transaction have different ids. -/
theorem nodup_walletBoxes (wallet : ExecutorWallet) (tx : LedgerTx) :
    ((walletBoxes wallet tx.outputs).map fun funding => funding.value.id).Nodup := by
  have hid : (walletBoxes wallet tx.outputs).map (fun funding => funding.value.id) =
      (((walletBoxes wallet tx.outputs).map AsBox.bx).map ErgoBox.boxId).map FundingId.mk := by
    rw [List.map_map, List.map_map]
    refine List.map_congr_left fun funding hmem => ?_
    exact DistributionFunding.id_of_tryFromBox (mem_walletBoxes.mp hmem).2
  rw [hid]
  refine List.Nodup.map (fun a b h => (FundingId.mk.inj h)) ?_
  exact tx.distinct.sublist ((sublist_walletBoxes wallet tx.outputs).map ErgoBox.boxId)

end Handler

/-- An item of `funding_update_stream`. -/
def fundingStep (repo : FundingRepo) : FundingUpdate → FundingRepo
  | .fundingCreated funding => repo.putConfirmed funding
  | .fundingEliminated fid => repo.removeFunding fid

/-- The ids of the boxes with a record. -/
def storedFunding (repo : FundingRepo) : Set FundingId := repo.owners FundingRecord.id

/-! ## What the updates leave -/

section Updates

variable {repo : FundingRepo} {fid : FundingId}

theorem mem_storedFunding_put {funding : AsBox DistributionFunding} :
    fid ∈ storedFunding (repo.putConfirmed funding) ↔
      fid = funding.value.id ∨ fid ∈ storedFunding repo := by
  have hput : storedFunding (repo.putConfirmed funding) =
      insert funding.value.id (storedFunding repo) :=
    Indexed.owners_write fun _ _ => FundingRecord.id_of_key
  rw [hput, Set.mem_insert_iff]

theorem mem_storedFunding_remove (hsound : repo.Sound FundingRecord.id) {fid' : FundingId} :
    fid ∈ storedFunding (repo.removeFunding fid') ↔ fid ∈ storedFunding repo ∧ fid ≠ fid' := by
  have hremove : storedFunding (repo.removeFunding fid') = storedFunding repo \ {fid'} :=
    Indexed.owners_remove hsound fid'
  rw [hremove]
  rfl

theorem sound_eliminate (hsound : repo.Sound FundingRecord.id) (fids : List FundingId) :
    ((fids.map FundingUpdate.fundingEliminated).foldl fundingStep repo).Sound FundingRecord.id := by
  induction fids generalizing repo with
  | nil => exact hsound
  | cons fid fids ih => exact ih (Indexed.sound_remove hsound fid)

theorem mem_storedFunding_eliminate (hsound : repo.Sound FundingRecord.id)
    (fids : List FundingId) :
    fid ∈ storedFunding ((fids.map FundingUpdate.fundingEliminated).foldl fundingStep repo) ↔
      fid ∈ storedFunding repo ∧ fid ∉ fids := by
  induction fids generalizing repo with
  | nil => simp
  | cons fid' fids ih =>
      refine (ih (Indexed.sound_remove hsound fid')).trans ?_
      have hremove : fid ∈ storedFunding (repo.remove fid') ↔
          fid ∈ storedFunding repo ∧ fid ≠ fid' := mem_storedFunding_remove hsound
      rw [hremove, List.mem_cons, not_or, and_assoc]

theorem mem_storedFunding_create (created : List (AsBox DistributionFunding)) :
    fid ∈ storedFunding ((created.map FundingUpdate.fundingCreated).foldl fundingStep repo) ↔
      fid ∈ storedFunding repo ∨ ∃ funding ∈ created, funding.value.id = fid := by
  induction created generalizing repo with
  | nil => simp
  | cons funding created ih =>
      refine ih.trans ?_
      simp only [fundingStep, mem_storedFunding_put, List.mem_cons, exists_eq_or_imp,
        eq_comm (a := fid)]
      tauto

/-- Boxes that are not stored can be put. -/
theorem sound_create (hsound : repo.Sound FundingRecord.id)
    {created : List (AsBox DistributionFunding)}
    (hnodup : (created.map fun funding => funding.value.id).Nodup)
    (hfresh : ∀ funding ∈ created, funding.value.id ∉ storedFunding repo) :
    ((created.map FundingUpdate.fundingCreated).foldl fundingStep repo).Sound
      FundingRecord.id := by
  induction created generalizing repo with
  | nil => exact hsound
  | cons funding created ih =>
      rw [List.map_cons, List.nodup_cons] at hnodup
      have hfits : repo.Fits FundingRecord.id ⟨confirmedPriority, funding⟩ :=
        Indexed.fits_of_notMem_owners hsound (hfresh funding List.mem_cons_self)
      have hput : (repo.putConfirmed funding).Sound FundingRecord.id :=
        (Indexed.sound_write_iff (fun _ _ => FundingRecord.id_of_key) hsound).mpr hfits
      refine ih hput hnodup.2 fun other hother hmem => ?_
      rcases mem_storedFunding_put.mp hmem with hid | hmem
      · refine hnodup.1 ?_
        rw [← hid]
        exact List.mem_map_of_mem hother
      · exact hfresh other (List.mem_cons_of_mem funding hother) hmem

end Updates

end SpectrumOffchain
