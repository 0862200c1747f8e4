import SpectrumOffchain.Domain
import SpectrumOffchain.Lib.Bincode
import SpectrumOffchain.Lib.Hex

/-!
# Keys of the databases

`binary.rs`: a key is a prefix, written as a string, and what `bincode` makes of an id.  Pool ids
and bundle ids are written as arrays of 32 bytes, without their length.  All other ids are digests
of the library, which writes them as strings of hexadecimal digits; the order of these strings is
the order of the bytes (`serializeId_le_iff`).
-/

namespace SpectrumOffchain

/-- What `bincode::serialize` makes of a value. -/
class Serialize (T : Type) where
  serialize : T → Bytes

/-- By way of `PoolIdBytes`. -/
instance : Serialize PoolId := ⟨fun self => self.tokenId.bytes⟩

/-- By way of `BundleIdBytes`. -/
instance : Serialize BundleId := ⟨fun self => self.tokenId.bytes⟩

def prefixedKey {T : Type} [Serialize T] (pfx : String) (id : T) : Bytes :=
  Bincode.str pfx ++ Serialize.serialize id

def rawPrefixedKey (pfx : String) (bytes : Bytes) : Bytes := Bincode.str pfx ++ bytes

/-- The 32 bytes of an array; what comes after them is ignored. -/
def Digest32.deserialize (bytes : Bytes) : Option Digest32 := Digest32.tryFrom (bytes.take 32)

def PoolId.deserialize (bytes : Bytes) : Option PoolId :=
  (Digest32.deserialize bytes).map PoolId.mk

def BundleId.deserialize (bytes : Bytes) : Option BundleId :=
  (Digest32.deserialize bytes).map BundleId.mk

theorem takeUint_u32 {n : ℕ} (h : n < 2 ^ 32) (rest : Bytes) :
    Bincode.takeUint 4 (Bincode.uint 4 n ++ rest) = some (n, rest) := Bincode.takeUint_append h rest

/-- `bincode::deserialize::<u32>`. -/
def deserializeU32 (bytes : Bytes) : Option ℕ := (Bincode.takeUint 4 bytes).map Prod.fst

theorem deserializeU32_uint {n : ℕ} (h : n < 2 ^ 32) :
    deserializeU32 (Bincode.uint 4 n) = some n := by
  rw [deserializeU32, ← List.append_nil (Bincode.uint 4 n), takeUint_u32 h]
  rfl

theorem Digest32.deserialize_append (digest : Digest32) (rest : Bytes) :
    Digest32.deserialize (digest.bytes ++ rest) = some digest := by
  rw [deserialize, List.take_left' digest.length_eq, tryFrom, dif_pos digest.length_eq]

theorem Digest32.deserialize_bytes (digest : Digest32) :
    Digest32.deserialize digest.bytes = some digest := by
  rw [← List.append_nil digest.bytes, deserialize_append]

theorem PoolId.deserialize_serialize (poolId : PoolId) :
    PoolId.deserialize (Serialize.serialize poolId) = some poolId :=
  Option.map_eq_some_iff.mpr ⟨_, poolId.tokenId.deserialize_bytes, rfl⟩

theorem BundleId.deserialize_serialize (bundleId : BundleId) :
    BundleId.deserialize (Serialize.serialize bundleId) = some bundleId :=
  Option.map_eq_some_iff.mpr ⟨_, bundleId.tokenId.deserialize_bytes, rfl⟩

theorem PoolId.serialize_injective :
    Function.Injective (Serialize.serialize : PoolId → Bytes) := by
  intro poolId poolId' h
  have hread := congrArg PoolId.deserialize h
  rw [deserialize_serialize, deserialize_serialize] at hread
  exact Option.some.inj hread

theorem BundleId.serialize_injective :
    Function.Injective (Serialize.serialize : BundleId → Bytes) := by
  intro bundleId bundleId' h
  have hread := congrArg BundleId.deserialize h
  rw [deserialize_serialize, deserialize_serialize] at hread
  exact Option.some.inj hread

@[simp] theorem length_serialize_poolId (poolId : PoolId) :
    (Serialize.serialize poolId).length = 32 := poolId.tokenId.length_eq

@[simp] theorem length_serialize_bundleId (bundleId : BundleId) :
    (Serialize.serialize bundleId).length = 32 := bundleId.tokenId.length_eq

/-! ## Ids of the library -/

/-- `bincode::serialize` of an id, which is the string of its digits. -/
def serializeId (id : Digest32) : Bytes := Bincode.blob (Hex.encode id.bytes)

def takeId (bytes : Bytes) : Option (Digest32 × Bytes) := do
  let (text, rest) ← Bincode.takeBlob bytes
  let digits ← Hex.decode text
  let id ← Digest32.tryFrom digits
  some (id, rest)

def deserializeId (bytes : Bytes) : Option Digest32 := (takeId bytes).map Prod.fst

theorem length_hex (id : Digest32) : (Hex.encode id.bytes).length = 64 := by
  rw [Hex.length_encode, id.length_eq]

@[simp] theorem length_serializeId (id : Digest32) : (serializeId id).length = 72 := by
  rw [serializeId, Bincode.blob, List.length_append, Bincode.length_uint, length_hex]

theorem takeId_append (id : Digest32) (rest : Bytes) :
    takeId (serializeId id ++ rest) = some (id, rest) := by
  have hsize : (Hex.encode id.bytes).length < 2 ^ 64 := by
    rw [length_hex]
    decide
  have hid : Digest32.tryFrom id.bytes = some id := dif_pos id.length_eq
  rw [takeId, serializeId, Bincode.takeBlob_append hsize]
  simp [Hex.decode_encode, hid]

theorem deserializeId_serializeId (id : Digest32) : deserializeId (serializeId id) = some id := by
  rw [deserializeId, ← List.append_nil (serializeId id), takeId_append]
  rfl

theorem serializeId_injective : Function.Injective serializeId := by
  intro id id' h
  have hread := congrArg deserializeId h
  rw [deserializeId_serializeId, deserializeId_serializeId] at hread
  exact Option.some.inj hread

/-- The digits of an id are ordered as its bytes are. -/
theorem serializeId_le_iff {id id' : Digest32} :
    serializeId id ≤ serializeId id' ↔ id.bytes ≤ id'.bytes := by
  have hlength : Bincode.uint 8 (Hex.encode id'.bytes).length =
      Bincode.uint 8 (Hex.encode id.bytes).length := by
    rw [length_hex, length_hex]
  rw [← List.not_lt, ← List.not_lt, not_iff_not, serializeId, serializeId, Bincode.blob,
    Bincode.blob, hlength, Bincode.append_lt_append_iff rfl, Hex.encode_lt_encode_iff]
  simp [List.lt_irrefl]

/-! ## Values that are read back -/

/-- A type whose values are read back from what `bincode` makes of them. -/
class Deserialize (T : Type) extends Serialize T where
  deserialize : Bytes → Option T
  deserialize_serialize : ∀ a : T, deserialize (serialize a) = some a

instance : Deserialize PoolId where
  deserialize := PoolId.deserialize
  deserialize_serialize := PoolId.deserialize_serialize

instance : Deserialize BundleId where
  deserialize := BundleId.deserialize
  deserialize_serialize := BundleId.deserialize_serialize

instance : Deserialize FundingId where
  serialize := fun self => serializeId self.boxId
  deserialize := fun bytes => (deserializeId bytes).map FundingId.mk
  deserialize_serialize := fun self => by rw [deserializeId_serializeId, Option.map_some]

instance : Deserialize BundleStateId where
  serialize := fun self => serializeId self.boxId
  deserialize := fun bytes => (deserializeId bytes).map BundleStateId.mk
  deserialize_serialize := fun self => by rw [deserializeId_serializeId, Option.map_some]

theorem Deserialize.serialize_injective {T : Type} [Deserialize T] :
    Function.Injective (Serialize.serialize : T → Bytes) := by
  intro a b h
  have hread := congrArg (Deserialize.deserialize (T := T)) h
  rw [Deserialize.deserialize_serialize, Deserialize.deserialize_serialize] at hread
  exact Option.some.inj hread

/-! ## Boxes with what is read off them -/

/-- `SigmaSerializable` of boxes, which the library has. -/
class SigmaBox where
  sigmaSerializeBytes : ErgoBox → Bytes
  sigmaParseBytes : Bytes → Option ErgoBox

namespace AsBox

variable [SigmaBox] {T : Type}

/-- The box in the bytes of the library, and the value behind them. -/
def serialize (write : T → Bytes) (self : AsBox T) : Bytes :=
  Bincode.blob (SigmaBox.sigmaSerializeBytes self.bx) ++ write self.value

/-- Both fields are read before the library is asked for the box; if it does not know the bytes,
the visitor panics. -/
def deserialize (take : Bytes → Option (T × Bytes)) (bytes : Bytes) : Outcome Unit (AsBox T) :=
  match (Bincode.takeBlob bytes).bind fun (field, rest) => (take rest).map (field, ·.1) with
  | some (field, value) =>
      match SigmaBox.sigmaParseBytes field with
      | some bx => .ok ⟨bx, value⟩
      | none => .crash
  | none => .err ()

/-- The library reads back the box that it wrote, as it does with every box of the ledger. -/
structure ReadBack (bx : ErgoBox) : Prop where
  parse_eq : SigmaBox.sigmaParseBytes (SigmaBox.sigmaSerializeBytes bx) = some bx
  length_lt : (SigmaBox.sigmaSerializeBytes bx).length < 2 ^ 64

theorem deserialize_serialize {write : T → Bytes} {take : Bytes → Option (T × Bytes)}
    {self : AsBox T} (hbx : ReadBack self.bx)
    (hvalue : take (write self.value) = some (self.value, [])) :
    deserialize take (self.serialize write) = .ok self := by
  rw [deserialize, serialize, Bincode.takeBlob_append hbx.length_lt]
  simp [hvalue, hbx.parse_eq]

end AsBox

end SpectrumOffchain
