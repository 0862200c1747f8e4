import SpectrumOffchain.Binary
import SpectrumOffchain.Funding.Collect
import SpectrumOffchain.Lib.Database

/-!
# The database of the funding

`FundingRepoRocksDB` keeps the records and the index of the funding repository in one database of
bytes: a record is the box in the form that is stored, under a key of a prefix, the
priority, the negated value and the id, and an index entry is the key of a record.

* A key of a record and one of an index entry begin with different strings, and keys of
  different records are different (`StorageKey.bytes_injective`).
* The range of the prefix has the records in the order in which the repository has them
  (`Represents.scan_records`), whichever ids their boxes have.
* The loop of `collect` reads the range as it was when the loop began, and writes to the database in
  each round; what it takes and what it leaves is what it takes and leaves in the repository
  (`Represents.collectFrom`).

So the answers of the database after any calls are those of the repository
(`answers_of_calls`).

## Strategy

The order of the records by their keys is an order of lists of bytes, and the keys of the
database are these bytes under a common prefix, with ids written as strings of digits.  The
digits are in the order of the bytes that they stand for, so the order is kept
(`record_bytes_le_iff`).  `KeysFit` says that every key has parts of the right width, which is
what makes distinct keys distinct as bytes.
-/

namespace SpectrumOffchain.Funding

open Serialize (serialize)

/-! ## Records on bytes -/

/-- `db_models::DistributionFunding`; a tree is its bytes. -/
def DistributionFunding.write (self : DistributionFunding) : Bytes :=
  serialize self.id ++ Bincode.blob self.prop.bytes ++ Bincode.uint 8 self.ergValue

def DistributionFunding.take (bytes : Bytes) : Option (DistributionFunding × Bytes) := do
  let (id, bytes) ← takeId bytes
  let (prop, bytes) ← Bincode.takeBlob bytes
  let (ergValue, bytes) ← Bincode.takeUint 8 bytes
  some (⟨⟨id⟩, ⟨prop⟩, ergValue⟩, bytes)

abbrev FundingRepoRocksDB := Database UInt8 Bytes

namespace FundingRepoRocksDB

def fundingKeyPrefix : String := "funding"

def fundingKeyIndexPrefix : String := "funding_index"

/-- `funding_key`, on bytes. -/
def fundingKey (pfx : String) (seqNum value : ℕ) (id : FundingId) : Bytes :=
  Bincode.str pfx ++ Bincode.uint 8 seqNum ++ Bincode.uint 8 (maxValue - value) ++ serialize id

section SigmaBox

variable [SigmaBox]

def serializeFunding (df : AsBox DistributionFunding) : Bytes :=
  df.serialize DistributionFunding.write

def deserializeFunding (bytes : Bytes) : Outcome Unit (AsBox DistributionFunding) :=
  AsBox.deserialize DistributionFunding.take bytes

/-- The two puts, with their priorities. -/
def put (db : FundingRepoRocksDB) (seqNum : ℕ) (df : AsBox DistributionFunding) :
    FundingRepoRocksDB :=
  let key := fundingKey fundingKeyPrefix seqNum df.value.ergValue df.value.id
  let db := db.write key (serializeFunding df)
  db.write (prefixedKey fundingKeyIndexPrefix df.value.id) key

def putConfirmed (db : FundingRepoRocksDB) (df : AsBox DistributionFunding) :
    FundingRepoRocksDB :=
  db.put confirmedPriority df

def putPredicted (db : FundingRepoRocksDB) (df : AsBox DistributionFunding) :
    FundingRepoRocksDB :=
  db.put predictedPriority df

/-- Whether the index has an entry, which is what `may_exist` cannot deny. -/
def hasIndex (db : FundingRepoRocksDB) (fid : FundingId) : Bool :=
  (db.read (prefixedKey fundingKeyIndexPrefix fid)).isSome

/-- `remove`. -/
def removeFunding (db : FundingRepoRocksDB) (fid : FundingId) : FundingRepoRocksDB :=
  match db.read (prefixedKey fundingKeyIndexPrefix fid) with
  | some key =>
      let db := db.delete (prefixedKey fundingKeyIndexPrefix fid)
      db.delete key
  | none => db

/-- The transaction in each round of `collect`. -/
def select (db : FundingRepoRocksDB) (key bytes : Bytes) (df : AsBox DistributionFunding) :
    FundingRepoRocksDB :=
  let newKey := fundingKey fundingKeyPrefix selectedPriority df.value.ergValue df.value.id
  let db := db.delete key
  let db := db.write newKey bytes
  db.write (prefixedKey fundingKeyIndexPrefix df.value.id) newKey

/-- The loop of `collect`, over the entries of the snapshot that are left. -/
def collectFrom (target : ℕ) :
    List (Bytes × Bytes) → FundingRepoRocksDB → ℕ → List (AsBox DistributionFunding) →
      FundingRepoRocksDB × Outcome Unit (ℕ × List (AsBox DistributionFunding))
  | [], db, acc, funds => (db, .ok (acc, funds))
  | (key, bytes) :: rest, db, acc, funds =>
      if target ≤ acc then (db, .ok (acc, funds))
      else
        match deserializeFunding bytes with
        | .ok df =>
            match (Outcome.checkedAdd 64 acc df.value.ergValue : Outcome Unit ℕ) with
            | .ok acc => collectFrom target rest (db.select key bytes df) acc (funds ++ [df])
            | .err e => (db, .err e)
            | .crash => (db, .crash)
        | .err _ => collectFrom target rest db acc funds
        | .crash => (db, .crash)

def collect (db : FundingRepoRocksDB) (target : ℕ) :
    FundingRepoRocksDB × Outcome Unit (NonEmpty (AsBox DistributionFunding)) :=
  let (db, res) := collectFrom target (db.scan (Bincode.str fundingKeyPrefix)) db 0 []
  (db, res >>= fun (acc, funds) =>
    if target ≤ acc then
      match funds with
      | head :: tail => .ok ⟨head, tail⟩
      | [] => .crash
    else .err ())

def exec (db : FundingRepoRocksDB) : FundingCall → FundingRepoRocksDB
  | .putConfirmed df => db.putConfirmed df
  | .putPredicted df => db.putPredicted df
  | .collect target => (db.collect target).1
  | .remove fid => db.removeFunding fid

/-- A box that can be stored and read back: the library reads it, and its sizes and its value are
numbers of 64 bits. -/
structure Storable (df : AsBox DistributionFunding) : Prop where
  bx : AsBox.ReadBack df.bx
  prop_lt : df.value.prop.bytes.length < 2 ^ 64
  ergValue_le : df.value.ergValue ≤ maxValue

theorem deserialize_serializeFunding {df : AsBox DistributionFunding} (h : Storable df) :
    deserializeFunding (serializeFunding df) = .ok df := by
  refine AsBox.deserialize_serialize h.bx ?_
  have hergValue : df.value.ergValue < 256 ^ 8 := Nat.lt_of_le_of_lt h.ergValue_le (by decide)
  show DistributionFunding.take (serializeId df.value.id.boxId ++ _ ++ _) = _
  have htail : Bincode.takeUint 8 (Bincode.uint 8 df.value.ergValue) =
      some (df.value.ergValue, []) := by
    rw [← List.append_nil (Bincode.uint 8 df.value.ergValue), Bincode.takeUint_append hergValue]
  rw [List.append_assoc, DistributionFunding.take, takeId_append]
  simp [Bincode.takeBlob_append h.prop_lt, htail]

end SigmaBox

end FundingRepoRocksDB

open FundingRepoRocksDB (fundingKeyPrefix fundingKeyIndexPrefix serializeFunding Storable)

/-! ## Keys -/

/-- The numbers in a key are of 64 bits. -/
structure FundingKey.Fits (key : FundingKey) : Prop where
  seqNum : key.seqNum < 2 ^ 64
  negValue : key.negValue < 2 ^ 64

theorem fits_fundingKey {seqNum : ℕ} (h : seqNum < 2 ^ 64) (value : ℕ) (id : FundingId) :
    (fundingKey seqNum value id).Fits :=
  ⟨h, Nat.lt_of_le_of_lt (Nat.sub_le _ _) (by decide)⟩

/-- A record that can be stored. -/
structure FundingRecord.Fits [SigmaBox] (r : FundingRecord) : Prop where
  key : r.key.Fits
  box : Storable r.box

theorem FundingRecord.Fits.selected [SigmaBox] {r : FundingRecord} (h : r.Fits) :
    r.selected.Fits := by
  refine ⟨fits_fundingKey ?_ _ _, h.box⟩
  show selectedPriority < 2 ^ 64
  decide

/-- The key of an entry. -/
inductive StorageKey where
  | record (key : FundingKey)
  | index (id : FundingId)
  deriving DecidableEq, Repr

namespace StorageKey

def pfx : StorageKey → String
  | record _ => fundingKeyPrefix
  | index _ => fundingKeyIndexPrefix

def Fits : StorageKey → Prop
  | record key => key.Fits
  | index _ => True

def bytes : StorageKey → Bytes
  | record key => Bincode.str fundingKeyPrefix ++ Bincode.uint 8 key.seqNum ++
      Bincode.uint 8 key.negValue ++ serialize key.id
  | index id => prefixedKey fundingKeyIndexPrefix id

/-- A key is in the range of the records if it is the key of one. -/
theorem pfx_prefix_iff {key : StorageKey} :
    Bincode.str fundingKeyPrefix <+: key.bytes ↔ key.pfx = fundingKeyPrefix := by
  cases key with
  | record key =>
      refine iff_of_true ?_ rfl
      rw [bytes, List.append_assoc, List.append_assoc]
      exact List.prefix_append _ _
  | index id =>
      refine (Bincode.str_prefix_iff (by decide) (by decide)).trans ?_
      exact eq_comm

theorem record_bytes_injective {key key' : FundingKey} (hkey : key.Fits) (hkey' : key'.Fits)
    (h : (record key).bytes = (record key').bytes) : key = key' := by
  simp only [bytes, List.append_assoc] at h
  obtain ⟨hseq, hrest⟩ := List.append_inj (List.append_cancel_left h) (by simp)
  obtain ⟨hneg, hid⟩ := List.append_inj hrest (by simp)
  obtain ⟨seqNum, negValue, id⟩ := key
  cases Bincode.uint_injective hkey.seqNum hkey'.seqNum hseq
  cases Bincode.uint_injective hkey.negValue hkey'.negValue hneg
  cases Deserialize.serialize_injective hid
  rfl

/-- Distinct keys are distinct as bytes. -/
theorem bytes_injective (key key' : StorageKey) (hkey : key.Fits) (hkey' : key'.Fits)
    (h : key.bytes = key'.bytes) : key = key' := by
  have hpfx : key.pfx = fundingKeyPrefix ↔ key'.pfx = fundingKeyPrefix := by
    rw [← pfx_prefix_iff, ← pfx_prefix_iff, h]
  have hindex : fundingKeyIndexPrefix ≠ fundingKeyPrefix := by
    simp [fundingKeyPrefix, fundingKeyIndexPrefix]
  cases key with
  | record key =>
      cases key' with
      | record key' => exact congrArg record (record_bytes_injective hkey hkey' h)
      | index id' => exact absurd (hpfx.mp rfl) hindex
  | index id =>
      cases key' with
      | record key' => exact absurd (hpfx.mpr rfl) hindex
      | index id' =>
          exact congrArg index (Deserialize.serialize_injective (List.append_cancel_left h))

/-- The keys of the records are in the order in which the repository has them. -/
theorem record_bytes_le_iff {key key' : FundingKey} :
    (record key).bytes ≤ (record key').bytes ↔ key.bytes ≤ key'.bytes := by
  have hid : serialize key'.id < serialize key.id ↔ key'.id.boxId.bytes < key.id.boxId.bytes := by
    rw [← List.not_le, ← List.not_le, not_iff_not]
    exact serializeId_le_iff
  rw [← List.not_lt, ← List.not_lt, not_iff_not]
  simp only [bytes, FundingKey.bytes, List.append_assoc]
  rw [Bincode.append_lt_append_iff rfl, Bincode.append_lt_append_iff (by simp),
    Bincode.append_lt_append_iff (by simp), Bincode.append_lt_append_iff (by simp),
    Bincode.append_lt_append_iff (by simp), hid]
  simp [List.lt_irrefl]

end StorageKey

/-! ## What the database represents -/

section Lookup

variable [SigmaBox]

namespace FundingRepo

/-- What the repository has under a key, in bytes. -/
def lookup (repo : FundingRepo) : StorageKey → Option Bytes
  | .record key => (repo.records.get key).map fun r => serializeFunding r.box
  | .index id => (repo.index.get id).map fun key => (StorageKey.record key).bytes

variable (repo : FundingRepo) (r : FundingRecord)

theorem lookup_write : lookup (repo.write FundingRecord.id r) =
    Function.update (Function.update repo.lookup (.record r.key) (some (serializeFunding r.box)))
      (.index r.id) (some (StorageKey.record r.key).bytes) := by
  funext key
  cases key with
  | record key =>
      simp only [Function.update_apply, lookup, Indexed.write, Table.get_put,
        StorageKey.record.injEq, reduceCtorEq, if_false]
      split_ifs <;> rfl
  | index id => simp [Function.update_apply, lookup, Indexed.write, Store.map_get_put]

theorem lookup_replace (old : FundingKey) : lookup (repo.replace FundingRecord.id old r) =
    Function.update (Function.update (Function.update repo.lookup
      (.record old) none)
      (.record r.key) (some (serializeFunding r.box)))
      (.index r.id) (some (StorageKey.record r.key).bytes) := by
  funext key
  cases key with
  | record key =>
      simp only [Function.update_apply, lookup, Indexed.replace, Table.get_put, Table.get_remove,
        StorageKey.record.injEq, reduceCtorEq, if_false]
      split_ifs <;> rfl
  | index id => simp [Function.update_apply, lookup, Indexed.replace, Store.map_get_put]

theorem lookup_removeFunding {fid : FundingId} {old : FundingKey}
    (hget : repo.index.get fid = some old) : (repo.removeFunding fid).lookup =
      Function.update (Function.update repo.lookup (.index fid) none) (.record old) none := by
  funext key
  unfold removeFunding Indexed.remove
  rw [hget]
  cases key with
  | record key =>
      simp only [Function.update_apply, lookup, Table.get_remove, StorageKey.record.injEq,
        reduceCtorEq, if_false]
      split_ifs <;> rfl
  | index id => simp [Function.update_apply, lookup, Store.map_get_delete]

/-- The records of the repository can be stored, and the keys in its index are of 64 bits. -/
structure KeysFit (repo : FundingRepo) : Prop where
  records : ∀ r ∈ repo.records.entries, r.Fits
  index : ∀ id key, repo.index.get id = some key → key.Fits

variable {repo r}

theorem KeysFit.write (h : repo.KeysFit) (hr : r.Fits) :
    KeysFit (repo.write FundingRecord.id r) where
  records := by
    intro r' hmem
    rcases Indexed.mem_write.mp hmem with rfl | ⟨hmem, -⟩
    · exact hr
    · exact h.records r' hmem
  index := Store.forall_get_put hr.key h.index

theorem KeysFit.replace (h : repo.KeysFit) (hr : r.Fits) (old : FundingKey) :
    KeysFit (repo.replace FundingRecord.id old r) where
  records := by
    intro r' hmem
    rcases Indexed.mem_replace.mp hmem with rfl | ⟨hmem, -⟩
    · exact hr
    · exact h.records r' hmem
  index := Store.forall_get_put hr.key h.index

theorem KeysFit.removeFunding (h : repo.KeysFit) (fid : FundingId) :
    (repo.removeFunding fid).KeysFit where
  records := fun r hmem => h.records r (Indexed.mem_entries_remove.mp hmem).1
  index := by
    intro id key hget
    have hget' : (if id = fid then none else repo.index.get id) = some key :=
      Indexed.get_index_remove.symm.trans hget
    split at hget'
    · cases hget'
    · exact h.index id key hget'

end FundingRepo

end Lookup

namespace FundingRepoRocksDB

section Represents

variable [SigmaBox]

/-- Under each key the database has what the repository has, and it has no other keys. -/
structure Represents (repo : FundingRepo) (db : FundingRepoRocksDB) : Prop where
  encodes : Database.Encodes StorageKey.bytes StorageKey.Fits repo.lookup db
  keyed : ∀ bytes ∈ db.keys, ∃ key : StorageKey, key.Fits ∧ key.bytes = bytes
  fits : repo.KeysFit

theorem represents_empty : Represents .empty .empty where
  encodes := by
    intro key _
    cases key <;> rfl
  keyed _ hmem := absurd hmem List.not_mem_nil
  fits := ⟨fun _ hmem => absurd hmem List.not_mem_nil, fun _ _ hget => by cases hget⟩

variable {repo : FundingRepo} {db : FundingRepoRocksDB} {r : FundingRecord}

theorem Represents.put (h : Represents repo db) {seqNum : ℕ} (hr : seqNum < 2 ^ 64)
    {df : AsBox DistributionFunding} (hdf : Storable df) :
    Represents (repo.write FundingRecord.id ⟨seqNum, df⟩) (db.put seqNum df) where
  encodes := by
    rw [FundingRepo.lookup_write]
    have hrecord := h.encodes.write StorageKey.bytes_injective
      (.record (FundingRecord.key ⟨seqNum, df⟩)) (fits_fundingKey hr _ _) (serializeFunding df)
    exact hrecord.write StorageKey.bytes_injective (.index df.value.id) trivial _
  keyed bytes hmem := by
    rcases Table.mem_keys_put.mp hmem with rfl | hmem
    · exact ⟨.index df.value.id, trivial, rfl⟩
    · rcases Table.mem_keys_put.mp hmem with rfl | hmem
      · exact ⟨.record (FundingRecord.key ⟨seqNum, df⟩), fits_fundingKey hr _ _, rfl⟩
      · exact h.keyed bytes hmem
  fits := h.fits.write ⟨fits_fundingKey hr _ _, hdf⟩

theorem Represents.select (h : Represents repo db) (hr : r.Fits) :
    Represents (repo.select r) (db.select (StorageKey.record r.key).bytes (serializeFunding r.box) r.box)
    where
  encodes := by
    rw [FundingRepo.select, FundingRepo.lookup_replace]
    have hdelete := h.encodes.delete StorageKey.bytes_injective (.record r.key) hr.key
    have hrecord := hdelete.write StorageKey.bytes_injective (.record r.selected.key)
      hr.selected.key (serializeFunding r.selected.box)
    exact hrecord.write StorageKey.bytes_injective (.index r.selected.id) trivial _
  keyed bytes hmem := by
    rcases Table.mem_keys_put.mp hmem with rfl | hmem
    · exact ⟨.index r.id, trivial, rfl⟩
    · rcases Table.mem_keys_put.mp hmem with rfl | hmem
      · exact ⟨.record r.selected.key, hr.selected.key, rfl⟩
      · exact h.keyed bytes (Table.mem_keys_remove.mp hmem).1
  fits := h.fits.replace hr.selected r.key

theorem Represents.removeFunding (h : Represents repo db) (fid : FundingId) :
    Represents (repo.removeFunding fid) (db.removeFunding fid) := by
  have hread : db.read (prefixedKey fundingKeyIndexPrefix fid) =
      (repo.index.get fid).map fun key => (StorageKey.record key).bytes :=
    h.encodes (.index fid) trivial
  unfold FundingRepoRocksDB.removeFunding
  rw [hread]
  cases hget : repo.index.get fid with
  | none =>
      have hsame : repo.removeFunding fid = repo := by
        unfold FundingRepo.removeFunding Indexed.remove
        rw [hget]
      rw [hsame]
      exact h
  | some key =>
      refine ⟨?_, ?_, h.fits.removeFunding fid⟩
      · rw [repo.lookup_removeFunding hget]
        have hindex := h.encodes.delete StorageKey.bytes_injective (.index fid) trivial
        exact hindex.delete StorageKey.bytes_injective (.record key) (h.fits.index fid key hget)
      · intro bytes hmem
        exact h.keyed bytes (Table.mem_keys_remove.mp (Table.mem_keys_remove.mp hmem).1).1

/-- The range of the records has them in the order in which the repository has them. -/
theorem Represents.scan_records (h : Represents repo db) :
    db.scan (Bincode.str fundingKeyPrefix) =
      repo.sorted.map fun r => ((StorageKey.record r.key).bytes, serializeFunding r.box) := by
  refine Database.scan_eq_map ?_ ?_ ?_
  · -- Keys are compared as bytes, hence the sorted records are in the order of the scan.
    have : Std.Total fun r r' : FundingRecord => r.key.bytes ≤ r'.key.bytes :=
      ⟨fun r r' => List.le_total r.key.bytes r'.key.bytes⟩
    have : IsTrans FundingRecord fun r r' => r.key.bytes ≤ r'.key.bytes :=
      ⟨fun _ _ _ h h' => List.le_trans h h'⟩
    refine List.Pairwise.imp ?_ (List.pairwise_insertionSort _ _)
    exact fun hle => StorageKey.record_bytes_le_iff.mpr hle
  · -- Two records never share a key, so no entry is seen twice.
    refine List.Nodup.map_on ?_ (repo.perm_sorted.nodup_iff.mpr repo.records.distinct.of_map)
    intro r hr r' hr' heq
    have hmem := repo.perm_sorted.subset hr
    have hmem' := repo.perm_sorted.subset hr'
    have hkey := StorageKey.record_bytes_injective (h.fits.records r hmem).key
      (h.fits.records r' hmem').key (congrArg Prod.fst heq)
    exact List.inj_on_of_nodup_map repo.records.distinct hmem hmem' hkey
  · intro entry
    rw [Database.mem_scan, List.mem_map]
    constructor
    · rintro ⟨hentry, hprefix⟩
      obtain ⟨key, hkey, hbytes⟩ := h.keyed entry.1 (List.mem_map_of_mem hentry)
      have hlookup : repo.lookup key = some entry.2 := by
        rw [← h.encodes key hkey, hbytes]
        exact Database.read_eq_some.mpr hentry
      rw [← hbytes, StorageKey.pfx_prefix_iff] at hprefix
      cases key with
      | record key =>
          obtain ⟨r, hget, hvalue⟩ := Option.map_eq_some_iff.mp hlookup
          obtain ⟨hstored, rfl⟩ := Table.get_eq_some.mp hget
          exact ⟨r, repo.perm_sorted.mem_iff.mpr hstored, Prod.ext hbytes hvalue⟩
      -- The prefixes of the two columns differ, so an index entry is not in the scan.
      | index id => simp [StorageKey.pfx, fundingKeyPrefix, fundingKeyIndexPrefix] at hprefix
    · rintro ⟨r, hr, rfl⟩
      have hstored := repo.perm_sorted.subset hr
      have hprefix : Bincode.str fundingKeyPrefix <+: (StorageKey.record r.key).bytes :=
        StorageKey.pfx_prefix_iff.mpr rfl
      refine ⟨Database.read_eq_some.mp ?_, hprefix⟩
      rw [h.encodes (.record r.key) (h.fits.records r hstored).key, FundingRepo.lookup,
        Table.get_eq_some.mpr ⟨hstored, rfl⟩, Option.map_some]

/-! ### Collecting -/

/-- The loop on bytes takes what the loop over the records takes, and leaves what it leaves. -/
theorem Represents.collectFrom (h : Represents repo db) (target : ℕ) {rs : List FundingRecord}
    (hrs : ∀ r ∈ rs, r.Fits) (acc : ℕ) (funds : List (AsBox DistributionFunding)) :
    Represents (FundingRepo.collectFrom target rs repo acc funds).1
      (FundingRepoRocksDB.collectFrom target
        (rs.map fun r => ((StorageKey.record r.key).bytes, serializeFunding r.box)) db acc funds).1 ∧
    (FundingRepoRocksDB.collectFrom target
        (rs.map fun r => ((StorageKey.record r.key).bytes, serializeFunding r.box)) db acc funds).2 =
      (FundingRepo.collectFrom target rs repo acc funds).2 := by
  induction rs generalizing repo db acc funds with
  | nil => exact ⟨h, rfl⟩
  | cons r rs ih =>
      obtain ⟨hr, hrest⟩ := List.forall_mem_cons.mp hrs
      rw [List.map_cons, FundingRepo.collectFrom, FundingRepoRocksDB.collectFrom]
      split
      · exact ⟨h, rfl⟩
      · rw [deserialize_serializeFunding hr.box]
        dsimp only
        cases (Outcome.checkedAdd 64 acc r.box.value.ergValue : Outcome Unit ℕ) with
        | ok acc => exact ih (h.select hr) hrest acc (funds ++ [r.box])
        | err e => exact ⟨h, rfl⟩
        | crash => exact ⟨h, rfl⟩

theorem Represents.collect (h : Represents repo db) (target : ℕ) :
    Represents (repo.collect target).1 (db.collect target).1 ∧
      (db.collect target).2 = (repo.collect target).2 := by
  have hfits : ∀ r ∈ repo.sorted, r.Fits :=
    fun r hr => h.fits.records r (repo.perm_sorted.subset hr)
  obtain ⟨hrepresents, hres⟩ := h.collectFrom target hfits 0 []
  rw [← h.scan_records] at hrepresents hres
  refine ⟨hrepresents, ?_⟩
  unfold FundingRepoRocksDB.collect FundingRepo.collect
  exact congrArg (· >>= _) hres

/-! ### Runs -/

/-- The box that a call puts can be stored. -/
def StoresOnly : FundingCall → Prop
  | .putConfirmed df => Storable df
  | .putPredicted df => Storable df
  | .collect _ => True
  | .remove _ => True

theorem Represents.exec (h : Represents repo db) {call : FundingCall} (hcall : StoresOnly call) :
    Represents (call.exec repo) (db.exec call) := by
  cases call with
  | putConfirmed df =>
      have hpriority : confirmedPriority < 2 ^ 64 := by decide
      exact h.put hpriority hcall
  | putPredicted df =>
      have hpriority : predictedPriority < 2 ^ 64 := by decide
      exact h.put hpriority hcall
  | collect target => exact (h.collect target).1
  | remove fid => exact h.removeFunding fid

theorem Represents.foldl (h : Represents repo db) {calls : List FundingCall}
    (hcalls : ∀ call ∈ calls, StoresOnly call) :
    Represents (calls.foldl FundingCall.exec repo) (calls.foldl FundingRepoRocksDB.exec db) := by
  induction calls generalizing repo db with
  | nil => exact h
  | cons call rest ih =>
      obtain ⟨hcall, hrest⟩ := List.forall_mem_cons.mp hcalls
      exact ih (h.exec hcall) hrest

/-- After any calls on an empty database that put boxes which can be stored, `collect` returns what
it returns on the repository after these calls, and the index knows the boxes that it knows
there. -/
theorem answers_of_calls {calls : List FundingCall} (hcalls : ∀ call ∈ calls, StoresOnly call) :
    (∀ target, ((calls.foldl FundingRepoRocksDB.exec .empty).collect target).2 =
      ((calls.foldl FundingCall.exec .empty).collect target).2) ∧
    ∀ fid, (calls.foldl FundingRepoRocksDB.exec .empty).hasIndex fid =
      ((calls.foldl FundingCall.exec .empty).index.get fid).isSome := by
  have h := represents_empty.foldl hcalls
  refine ⟨fun target => (h.collect target).2, fun fid => ?_⟩
  have hread := h.encodes (.index fid) trivial
  change Database.read _ (prefixedKey fundingKeyIndexPrefix fid) = _ at hread
  rw [hasIndex, hread]
  exact Option.isSome_map

end Represents

/-! ### Two boxes of the wallet -/

namespace WalletSample

open Funding.Sample

/-- A library that knows two boxes, by their ids. -/
scoped instance : SigmaBox where
  sigmaSerializeBytes bx := bx.boxId.bytes
  sigmaParseBytes bytes :=
    if bytes = (funding 0 1000000).bx.boxId.bytes then some (funding 0 1000000).bx
    else some (funding 2 4000000).bx

def calls : List FundingCall :=
  [.putConfirmed (funding 0 1000000), .putPredicted (funding 2 4000000), .collect 4000000]

theorem storesOnly_calls : ∀ call ∈ calls, StoresOnly call := by
  have hfirst : Storable (funding 0 1000000) := ⟨⟨by decide, by decide⟩, by decide, by decide⟩
  have hsecond : Storable (funding 2 4000000) := ⟨⟨by decide, by decide⟩, by decide, by decide⟩
  intro call hcall
  simp only [calls, List.mem_cons, List.not_mem_nil, or_false] at hcall
  rcases hcall with rfl | rfl | rfl
  · exact hfirst
  · exact hsecond
  · trivial

end WalletSample

open WalletSample in
theorem answers_of_calls_sample :
    (∀ target, ((calls.foldl FundingRepoRocksDB.exec .empty).collect target).2 =
      ((calls.foldl FundingCall.exec .empty).collect target).2) ∧
    ∀ fid, (calls.foldl FundingRepoRocksDB.exec .empty).hasIndex fid =
      ((calls.foldl FundingCall.exec .empty).index.get fid).isSome :=
  answers_of_calls storesOnly_calls

end FundingRepoRocksDB

end SpectrumOffchain.Funding
