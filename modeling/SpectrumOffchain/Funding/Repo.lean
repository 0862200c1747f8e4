import SpectrumOffchain.Domain
import SpectrumOffchain.Data.Order
import SpectrumOffchain.Lib.Bincode
import SpectrumOffchain.Lib.Indexed
import SpectrumOffchain.Lib.Outcome
import SpectrumOffchain.Lib.Transition
import Mathlib.Data.List.Sort

/-!
# The funding repository

`FundingRepoRocksDB` keeps the boxes that pay for compounding under keys of a priority,
the negated value and the id, so that iterating over them takes confirmed boxes first,
then predicted ones, and last those that were already selected.  The index leads from the
id of a box to its key.

A box moves through the priorities while it lives: it is predicted as the residual of a
compounding, confirmed when the ledger shows it, selected when it is collected, and
removed when it is spent.  Selecting a box replaces its record.  The two puts only write,
so a box that is confirmed after it was predicted or selected has two records from then
on, of which the index knows one (`index_broken`).  The store is sound exactly as long as
no box is put that has a record under another key (`consistent_iff_fits`).

## Strategy

Of the operations only the puts can break the store (`sound_exec_iff`): a selection replaces
the record at its own key and a removal follows the index.  The other two parts of
`Consistent` follow from soundness.  A box is collected once because it has one record, and a
box that was removed is not collected because a record only comes in by a put
(`absent_of_run`).  So a run through consistent states is a run of fitting calls, step by step.
-/

namespace SpectrumOffchain.Funding

def confirmedPriority : ℕ := 0

def predictedPriority : ℕ := 5

def selectedPriority : ℕ := 10

/-- The key of a record, behind the prefix for funding. -/
structure FundingKey where
  seqNum : ℕ
  negValue : ℕ
  id : FundingId
  deriving DecidableEq, Repr

/-- `funding_key`.  The value of a box is at most `MAX_VALUE`. -/
def fundingKey (seqNum value : ℕ) (id : FundingId) : FundingKey := ⟨seqNum, maxValue - value, id⟩

/-- What the database sorts by. -/
def FundingKey.bytes (key : FundingKey) : Bytes :=
  Bincode.uint 8 key.seqNum ++ Bincode.uint 8 key.negValue ++ key.id.boxId.bytes

structure FundingRecord where
  seqNum : ℕ
  box : AsBox DistributionFunding
  deriving DecidableEq, Repr

namespace FundingRecord

def id (r : FundingRecord) : FundingId := r.box.value.id

def key (r : FundingRecord) : FundingKey := fundingKey r.seqNum r.box.value.ergValue r.id

theorem id_of_key {r r' : FundingRecord} (h : r.key = r'.key) : r.id = r'.id :=
  congrArg FundingKey.id h

/-- The record of a box that was collected. -/
def selected (r : FundingRecord) : FundingRecord := { r with seqNum := selectedPriority }

@[simp] theorem id_selected (r : FundingRecord) : r.selected.id = r.id := rfl

end FundingRecord

abbrev FundingRepo := Indexed FundingId FundingRecord.key

namespace FundingRepo

/-- The records in the order in which the database iterates over them. -/
def sorted (repo : FundingRepo) : List FundingRecord :=
  repo.records.entries.insertionSort fun r r' => r.key.bytes ≤ r'.key.bytes

/-- Replace the record of a box by one with the lowest priority. -/
def select (repo : FundingRepo) (r : FundingRecord) : FundingRepo :=
  repo.replace FundingRecord.id r.key r.selected

/-- The loop of `collect`, over the records of the snapshot that are left.  It returns the sum of
the boxes taken, and the boxes. -/
def collectFrom (target : ℕ) :
    List FundingRecord → FundingRepo → ℕ → List (AsBox DistributionFunding) →
      FundingRepo × Outcome Unit (ℕ × List (AsBox DistributionFunding))
  | [], repo, acc, funds => (repo, .ok (acc, funds))
  | r :: rest, repo, acc, funds =>
      if target ≤ acc then (repo, .ok (acc, funds))
      else
        match (Outcome.checkedAdd 64 acc r.box.value.ergValue : Outcome Unit ℕ) with
        | .ok acc => collectFrom target rest (repo.select r) acc (funds ++ [r.box])
        | .err e => (repo, .err e)
        | .crash => (repo, .crash)

/-- `collect`; a target of zero is reached by no boxes at all, which is a crash. -/
def collect (repo : FundingRepo) (target : ℕ) :
    FundingRepo × Outcome Unit (NonEmpty (AsBox DistributionFunding)) :=
  let (repo, res) := collectFrom target repo.sorted repo 0 []
  (repo, res >>= fun (acc, funds) =>
    if target ≤ acc then
      match funds with
      | head :: tail => .ok ⟨head, tail⟩
      | [] => .crash
    else .err ())

def putConfirmed (repo : FundingRepo) (df : AsBox DistributionFunding) : FundingRepo :=
  repo.write FundingRecord.id ⟨confirmedPriority, df⟩

def putPredicted (repo : FundingRepo) (df : AsBox DistributionFunding) : FundingRepo :=
  repo.write FundingRecord.id ⟨predictedPriority, df⟩

/-- `remove`. -/
def removeFunding (repo : FundingRepo) (fid : FundingId) : FundingRepo := repo.remove fid

/-! ## What `collect` takes -/

/-- The loop takes the boxes of the first records, and selects these. -/
theorem collectFrom_eq_ok {target acc total : ℕ} {rs : List FundingRecord}
    {repo repo' : FundingRepo} {funds taken : List (AsBox DistributionFunding)}
    (h : collectFrom target rs repo acc funds = (repo', .ok (total, taken))) :
    ∃ first rest, rs = first ++ rest ∧ taken = funds ++ first.map FundingRecord.box := by
  induction rs generalizing repo acc funds with
  | nil =>
      cases h
      exact ⟨[], [], rfl, by simp⟩
  | cons r rs ih =>
      unfold collectFrom at h
      split at h
      · cases h
        exact ⟨[], r :: rs, rfl, by simp⟩
      · split at h
        · obtain ⟨first, rest, rfl, rfl⟩ := ih h
          exact ⟨r :: first, rest, rfl, by simp⟩
        · cases h
        · cases h

theorem perm_sorted (repo : FundingRepo) : repo.sorted.Perm repo.records.entries :=
  List.perm_insertionSort _ _

theorem nodup_ids_sorted (repo : FundingRepo) (hsound : repo.Sound FundingRecord.id) :
    (repo.sorted.map FundingRecord.id).Nodup :=
  (repo.perm_sorted.map FundingRecord.id).nodup_iff.mpr hsound.nodup_owners

/-- The boxes that are returned are those of different records. -/
theorem collect_eq_ok {repo : FundingRepo} {target : ℕ} {boxes : NonEmpty (AsBox DistributionFunding)}
    (h : (repo.collect target).2 = .ok boxes) :
    ∃ first : List FundingRecord, first.Sublist repo.sorted ∧
      boxes.toList = first.map FundingRecord.box := by
  unfold collect at h
  cases hfrom : collectFrom target repo.sorted repo 0 [] with
  | mk repo' res =>
      rw [hfrom] at h
      obtain ⟨⟨total, taken⟩, rfl, h⟩ := Outcome.bind_eq_ok.mp h
      obtain ⟨first, rest, hsorted, rfl⟩ := collectFrom_eq_ok hfrom
      refine ⟨first, hsorted ▸ List.sublist_append_left first rest, ?_⟩
      rw [← List.nil_append (first.map FundingRecord.box)]
      change (if target ≤ total then _ else _) = _ at h
      split at h
      · split at h
        case h_1 head tail heq =>
          cases h
          exact heq.symm
        case h_2 => cases h
      · cases h

/-- The ids of the boxes that were collected. -/
def ids (boxes : NonEmpty (AsBox DistributionFunding)) : List FundingId :=
  boxes.toList.map fun df => df.value.id

theorem nodup_ids_of_collect {repo : FundingRepo} {target : ℕ}
    {boxes : NonEmpty (AsBox DistributionFunding)} (hsound : repo.Sound FundingRecord.id)
    (h : (repo.collect target).2 = .ok boxes) : (ids boxes).Nodup := by
  obtain ⟨first, hsub, hboxes⟩ := collect_eq_ok h
  have hids : ids boxes = first.map FundingRecord.id := by
    rw [ids, hboxes, List.map_map]
    rfl
  rw [hids]
  exact (repo.nodup_ids_sorted hsound).sublist (hsub.map FundingRecord.id)

/-- Only boxes with a record are collected. -/
theorem exists_record_of_collect {repo : FundingRepo} {target : ℕ}
    {boxes : NonEmpty (AsBox DistributionFunding)} {fid : FundingId}
    (h : (repo.collect target).2 = .ok boxes) (hmem : fid ∈ ids boxes) :
    ∃ r ∈ repo.records.entries, r.id = fid := by
  obtain ⟨first, hsub, hboxes⟩ := collect_eq_ok h
  rw [ids, hboxes, List.map_map] at hmem
  obtain ⟨r, hr, rfl⟩ := List.mem_map.mp hmem
  exact ⟨r, repo.perm_sorted.subset (hsub.subset hr), rfl⟩

/-! ## What the operations leave -/

/-- Selecting a record leaves those of other boxes. -/
theorem mem_select {repo : FundingRepo} {r r' : FundingRecord} (hne : r'.id ≠ r.id)
    (hmem : r' ∈ repo.records.entries) : r' ∈ (repo.select r).records.entries := by
  refine Indexed.mem_replace.mpr (.inr ⟨hmem, ?_, ?_⟩)
  · intro heq
    exact hne ((FundingRecord.id_of_key heq).trans r.id_selected)
  · intro heq
    exact hne (FundingRecord.id_of_key heq)

theorem sound_collectFrom {target acc : ℕ} {rs : List FundingRecord} {repo : FundingRepo}
    {funds : List (AsBox DistributionFunding)} (hsound : repo.Sound FundingRecord.id)
    (hrs : ∀ r ∈ rs, r ∈ repo.records.entries) (hnodup : (rs.map FundingRecord.id).Nodup) :
    (collectFrom target rs repo acc funds).1.Sound FundingRecord.id := by
  induction rs generalizing repo acc funds with
  | nil => exact hsound
  | cons r rs ih =>
      rw [List.map_cons, List.nodup_cons] at hnodup
      have hselect : (repo.select r).Sound FundingRecord.id :=
        Indexed.sound_replace (fun _ _ => FundingRecord.id_of_key) hsound
          (hrs r List.mem_cons_self) r.id_selected
      have hrest : ∀ r' ∈ rs, r' ∈ (repo.select r).records.entries := by
        intro r' hr'
        refine mem_select ?_ (hrs r' (List.mem_cons_of_mem r hr'))
        intro heq
        exact hnodup.1 (heq ▸ List.mem_map_of_mem hr')
      unfold collectFrom
      split
      · exact hsound
      · split
        · exact ih hselect hrest hnodup.2
        · exact hsound
        · exact hsound

theorem sound_collect {repo : FundingRepo} (hsound : repo.Sound FundingRecord.id) (target : ℕ) :
    (repo.collect target).1.Sound FundingRecord.id := by
  refine sound_collectFrom hsound ?_ (repo.nodup_ids_sorted hsound)
  intro r hr
  exact repo.perm_sorted.subset hr

/-- Collecting does not bring back a box. -/
theorem absent_collectFrom {target acc : ℕ} {rs : List FundingRecord} {repo : FundingRepo}
    {funds : List (AsBox DistributionFunding)} {fid : FundingId}
    (habsent : ∀ r ∈ repo.records.entries, r.id ≠ fid) (hrs : ∀ r ∈ rs, r.id ≠ fid) :
    ∀ r ∈ (collectFrom target rs repo acc funds).1.records.entries, r.id ≠ fid := by
  induction rs generalizing repo acc funds with
  | nil => exact habsent
  | cons r rs ih =>
      have hselect : ∀ r' ∈ (repo.select r).records.entries, r'.id ≠ fid := by
        intro r' hr'
        rcases Indexed.mem_replace.mp hr' with rfl | ⟨hr', -⟩
        · exact hrs r List.mem_cons_self
        · exact habsent r' hr'
      have hrest : ∀ r' ∈ rs, r'.id ≠ fid := fun r' hr' => hrs r' (List.mem_cons_of_mem r hr')
      unfold collectFrom
      split
      · exact habsent
      · split
        · exact ih hselect hrest
        · exact habsent
        · exact habsent

end FundingRepo

/-! ## Runs -/

/-- A call to the repository that changes it. -/
inductive FundingCall where
  | putConfirmed (df : AsBox DistributionFunding)
  | putPredicted (df : AsBox DistributionFunding)
  | collect (target : ℕ)
  | remove (fid : FundingId)
  deriving DecidableEq, Repr

namespace FundingCall

def exec (repo : FundingRepo) : FundingCall → FundingRepo
  | putConfirmed df => repo.putConfirmed df
  | putPredicted df => repo.putPredicted df
  | collect target => (repo.collect target).1
  | remove fid => repo.removeFunding fid

/-- The record that a put writes. -/
def written : FundingCall → Option FundingRecord
  | putConfirmed df => some ⟨confirmedPriority, df⟩
  | putPredicted df => some ⟨predictedPriority, df⟩
  | collect _ => none
  | remove _ => none

end FundingCall

namespace FundingRepo

def Step (repo : FundingRepo) (call : FundingCall) (repo' : FundingRepo) : Prop :=
  repo' = call.exec repo

/-- A box that is put has no record under another key. -/
def FitsPut (repo : FundingRepo) (call : FundingCall) : Prop :=
  ∀ r, call.written = some r → repo.Fits FundingRecord.id r

/-- Every box has one record at most, which the index knows; no box is collected twice; and a box
that was removed is not collected until it is put again. -/
structure Consistent (repo : FundingRepo) : Prop where
  sound : repo.Sound FundingRecord.id
  collected : ∀ target boxes, (repo.collect target).2 = .ok boxes → (ids boxes).Nodup
  removed : ∀ fid calls repo', Transition.Run Step (repo.removeFunding fid) calls repo' →
    (∀ call ∈ calls, ∀ r, call.written = some r → r.id ≠ fid) →
    ∀ target boxes, (repo'.collect target).2 = .ok boxes → fid ∉ ids boxes

/-- A box without a record has none until it is put. -/
theorem absent_of_run {calls : List FundingCall} {repo repo' : FundingRepo} {fid : FundingId}
    (hrun : Transition.Run Step repo calls repo')
    (hcalls : ∀ call ∈ calls, ∀ r, call.written = some r → r.id ≠ fid)
    (habsent : ∀ r ∈ repo.records.entries, r.id ≠ fid) :
    ∀ r ∈ repo'.records.entries, r.id ≠ fid := by
  induction hrun with
  | nil => exact habsent
  | @cons repo next _ call rest hstep _ ih =>
      refine ih (fun c hc => hcalls c (List.mem_cons_of_mem call hc)) ?_
      have hwritten := hcalls call List.mem_cons_self
      rw [hstep]
      intro r hr
      cases call with
      | putConfirmed df =>
          rcases Indexed.mem_write.mp hr with rfl | ⟨hr, -⟩
          · exact hwritten _ rfl
          · exact habsent r hr
      | putPredicted df =>
          rcases Indexed.mem_write.mp hr with rfl | ⟨hr, -⟩
          · exact hwritten _ rfl
          · exact habsent r hr
      | collect target =>
          refine absent_collectFrom habsent ?_ r hr
          intro r' hr'
          exact habsent r' (repo.perm_sorted.subset hr')
      | remove fid' => exact habsent r (Indexed.mem_entries_remove.mp hr).1

theorem consistent_iff_sound {repo : FundingRepo} :
    repo.Consistent ↔ repo.Sound FundingRecord.id := by
  constructor
  · intro h
    exact h.sound
  · intro h
    refine ⟨h, fun target boxes => nodup_ids_of_collect h, ?_⟩
    intro fid calls repo' hrun hcalls target boxes hboxes hmem
    obtain ⟨r, hr, hid⟩ := exists_record_of_collect hboxes hmem
    have habsent : ∀ r ∈ (repo.removeFunding fid).records.entries, r.id ≠ fid :=
      fun r hr => Indexed.owner_ne_of_mem_remove h hr
    exact absent_of_run hrun hcalls habsent r hr hid

/-- Of the calls only the puts can break the store. -/
theorem sound_exec_iff {repo : FundingRepo} (h : repo.Sound FundingRecord.id)
    (call : FundingCall) : (call.exec repo).Sound FundingRecord.id ↔ repo.FitsPut call := by
  have hkey : ∀ r r' : FundingRecord, r.key = r'.key → r.id = r'.id :=
    fun _ _ => FundingRecord.id_of_key
  cases call with
  | putConfirmed df =>
      refine (Indexed.sound_write_iff hkey h).trans ?_
      simp [FitsPut, FundingCall.written]
  | putPredicted df =>
      refine (Indexed.sound_write_iff hkey h).trans ?_
      simp [FitsPut, FundingCall.written]
  | collect target =>
      refine iff_of_true (sound_collect h target) ?_
      intro r hr
      cases hr
  | remove fid =>
      refine iff_of_true (Indexed.sound_remove h fid) ?_
      intro r hr
      cases hr

/-- The store stays consistent exactly in the runs in which no box is put that has a record under
another key. -/
theorem consistent_iff_fits {calls : List FundingCall} {repo : FundingRepo} :
    Transition.Run (Transition.into Step Consistent) .empty calls repo ↔
      Transition.Run (Transition.restrict Step FitsPut) .empty calls repo := by
  refine Transition.Run.into_iff_restrict ?_ (consistent_iff_sound.mpr Indexed.sound_empty)
  intro repo call repo' hrepo hstep
  rw [hstep, consistent_iff_sound]
  exact sound_exec_iff hrepo.sound call

end FundingRepo

/-! ## A residual that is confirmed -/

namespace Sample

theorem length_boxId (n : UInt8) : (List.replicate 32 n).length = 32 := List.length_replicate

def boxId (n : UInt8) : BoxId := ⟨List.replicate 32 n, length_boxId n⟩

/-- A box of the wallet with `value`. -/
def residual : AsBox DistributionFunding where
  bx :=
    { value := BoxValue.safeUserMin, ergoTree := ⟨[2]⟩, tokens := none,
      additionalRegisters := .empty, creationHeight := 0, transactionId := boxId 30, index := 1,
      boxId := boxId 31 }
  value := ⟨⟨boxId 31⟩, ⟨[2]⟩, 1000000⟩

/-- The store after the residual was predicted, and then confirmed. -/
def confirmedAgain : FundingRepo :=
  (FundingRepo.putPredicted .empty residual).putConfirmed residual

end Sample

open Sample in
/-- A residual that was predicted and then confirmed is collected twice, and once more after it was
spent. -/
theorem index_broken :
    Transition.Run FundingRepo.Step .empty [.putPredicted residual, .putConfirmed residual]
        confirmedAgain ∧
      ¬ confirmedAgain.Consistent ∧
      (confirmedAgain.collect 2000000).2 = .ok ⟨residual, [residual]⟩ ∧
      ((confirmedAgain.removeFunding residual.value.id).collect 1000000).2 =
        .ok ⟨residual, []⟩ := by
  have htwice : (confirmedAgain.collect 2000000).2 = .ok ⟨residual, [residual]⟩ := by
    decide +kernel
  refine ⟨.cons rfl (.single rfl), ?_, htwice, by decide +kernel⟩
  intro h
  have hnodup := h.collected _ _ htwice
  revert hnodup
  decide

end SpectrumOffchain.Funding
