import IrisMpc.Bincode.Laws

/-!
# `NetworkValue` on the wire (`next_gen_network/value.rs`)

`to_network` is `bincode::serialize`: the variant index as a `u32`, then the
payload. `Wrapping<T>` and `RingElement<T>` are newtypes and add no bytes, a
`[u8; 16]` key is its sixteen bytes, and a vector is a `u64` length and its
elements. `from_network` is `bincode::deserialize` with every error replaced by
one message.

`RingElement` and `Bit` come from `shares`, which is not among the sources:
following the spec, a ring element holds its `T` representative and the one-bit
ring holds a `bool`.
-/

namespace IrisMpc.Network

open Bincode Reader

variable {α β : Type}

/-- `std::num::Wrapping<T>`, serialized as the `T` it wraps. -/
structure Wrapping (T : Type) where
  val : T
  deriving DecidableEq, Repr

/-- Modelled from the spec: `RingElement<T>` (not among the sources), an element of `ℤ/2^k` held
as its `T` representative, a newtype on the wire. -/
structure RingElement (T : Type) where
  val : T
  deriving DecidableEq, Repr

/-- Modelled from the spec: `Bit` (not among the sources), the one-bit ring, held as a `bool`. -/
structure Bit where
  val : Bool
  deriving DecidableEq, Repr

inductive NetworkValue where
  | prfKey (key : RArray UInt8 16)
  | ring16 (x : Wrapping UInt16)
  | ring32 (x : Wrapping UInt32)
  | ringElementBit (x : RingElement Bit)
  | ringElement16 (x : RingElement UInt16)
  | ringElement32 (x : RingElement UInt32)
  | ringElement64 (x : RingElement UInt64)
  | vecRing16 (xs : RVec (RingElement UInt16))
  | vecRing32 (xs : RVec (RingElement UInt32))
  | vecRing64 (xs : RVec (RingElement UInt64))
  deriving DecidableEq, Repr

namespace NetworkValue

/-- The derived `Serialize` on bincode's serializer. -/
def write : NetworkValue → Bytes
  | prfKey key => writeU32 0 ++ writeSeq writeU8 key.toList
  | ring16 x => writeU32 1 ++ writeU16 x.val
  | ring32 x => writeU32 2 ++ writeU32 x.val
  | ringElementBit x => writeU32 3 ++ writeBool x.val.val
  | ringElement16 x => writeU32 4 ++ writeU16 x.val
  | ringElement32 x => writeU32 5 ++ writeU32 x.val
  | ringElement64 x => writeU32 6 ++ writeU64 x.val
  | vecRing16 xs => writeU32 7 ++ writeVec (fun x => writeU16 x.val) xs
  | vecRing32 xs => writeU32 8 ++ writeVec (fun x => writeU32 x.val) xs
  | vecRing64 xs => writeU32 9 ++ writeVec (fun x => writeU64 x.val) xs

/-- The payload of the variant with index `idx`; serde's derived visitor refuses any index
past the ten variants. -/
def readVariant : Nat → Reader NetworkValue
  | 0 => prfKey <$> readSeq readU8 16
  | 1 => (fun x => ring16 ⟨x⟩) <$> readU16
  | 2 => (fun x => ring32 ⟨x⟩) <$> readU32
  | 3 => (fun b => ringElementBit ⟨⟨b⟩⟩) <$> readBool
  | 4 => (fun x => ringElement16 ⟨x⟩) <$> readU16
  | 5 => (fun x => ringElement32 ⟨x⟩) <$> readU32
  | 6 => (fun x => ringElement64 ⟨x⟩) <$> readU64
  | 7 => vecRing16 <$> readVec (RingElement.mk <$> readU16)
  | 8 => vecRing32 <$> readVec (RingElement.mk <$> readU32)
  | 9 => vecRing64 <$> readVec (RingElement.mk <$> readU64)
  | idx => fail (.custom ("invalid value: integer `" ++ toString idx ++
      "`, expected variant index 0 <= i < 10"))

/-- The derived `Deserialize` on bincode's deserializer: a `u32` variant index, then the payload. -/
def read : Reader NetworkValue := do
  let idx ← readU32
  readVariant idx.toNat

/-- `NetworkValue::to_network`; `bincode::serialize` cannot fail on these types. -/
def toNetwork (v : NetworkValue) : Bytes := v.write

/-- `NetworkValue::from_network`. -/
def fromNetwork (serialized : Except String Bytes) : Except String NetworkValue := do
  let bytes ← serialized
  (Bincode.deserialize read bytes).mapError fun _ => "failed to parse value"

end NetworkValue

end IrisMpc.Network
