import IrisMpc.Hex

/-!
# `IdWrapper`: an NCCL `Id` as a hex string

`helpers/id_wrapper.rs` and `bin/nccl.rs` carry the same `IdWrapper`.
`Display` (`ToString` in `nccl.rs`) writes the 128 signed bytes of the `Id` as
hex, each cast to `u8`; `FromStr` decodes the hex, casts every byte back to
`i8` and copies the bytes into a `[i8; 128]`. `from_str` never builds its
`Err`: a malformed string reaches the `unwrap` of `hex::decode` or the length
check of `copy_from_slice`, and both panic. A panic is the outer error of the
models below, the `Result` of `from_str` the inner one.
-/

namespace IrisMpc

variable {α : Type}

/-- cudarc's `nccl::Id`, the 128 `c_char`s of an `ncclUniqueId`. -/
structure Id where
  internal : RArray Int8 128
  deriving DecidableEq

def Id.uninit (internal : RArray Int8 128) : Id := ⟨internal⟩

/-- The panics of `from_str`: `Result::unwrap` on the `Err` of `hex::decode`, and
`copy_from_slice` from a source of another length than the destination. -/
inductive Panic where
  | unwrap (err : Hex.FromHexError)
  | copyFromSlice (dstLen srcLen : Nat)
  deriving DecidableEq, Repr

/-- `<[T]>::copy_from_slice`: `dst` takes the elements of `src`, which must be as many. -/
def copyFromSlice {n : Nat} (dst : RArray α n) (src : List α) : Except Panic (RArray α n) :=
  if h : src.length = n then .ok ⟨src, h⟩ else .error (.copyFromSlice dst.toList.length src.length)

/-- `c as i8`: the same eight bits, read as signed. -/
def asI8 (c : UInt8) : Int8 := ⟨c⟩

def asU8 (c : Int8) : UInt8 := c.toUInt8

def zeroInternal : RArray Int8 128 := ⟨List.replicate 128 0, List.length_replicate 128 0⟩

/-- The body of both `IdWrapper::from_str`s. -/
def idFromStr (s : RString) : Except Panic (Except String Id) := do
  let decoded ← (Hex.decode s.bytes).mapError .unwrap
  let bytes := decoded.map asI8
  let id ← copyFromSlice zeroInternal bytes
  pure (.ok (Id.uninit id))

theorem hexCharsLower_getD_lt (i : Nat) : Hex.hexCharsLower.getD i 0 < 0x80 := by
  by_cases hi : i < 16
  · interval_cases i <;> decide
  · rw [List.getD_eq_default _ _ (by rw [Hex.hexCharsLower_length]; omega)]
    decide

theorem encode_lt (data : List UInt8) : ∀ c ∈ Hex.encode data, c < 0x80 := by
  intro c hc
  simp only [Hex.encode, List.mem_flatten, List.mem_map] at hc
  obtain ⟨_, ⟨b, -, rfl⟩, hc⟩ := hc
  simp only [Hex.byteToHex, List.mem_cons, List.not_mem_nil, or_false] at hc
  rcases hc with rfl | rfl <;> exact hexCharsLower_getD_lt _

/-- The body of `Display` and of `ToString` for `IdWrapper`. -/
def idToStr (id : Id) : RString :=
  ⟨Hex.encode (id.internal.toList.map asU8),
    by simp only [Hex.encode_length, List.length_map, id.internal.length_eq]; decide,
    runUtf8Validation_of_ascii _ (encode_lt _)⟩

namespace Helpers

structure IdWrapper where
  id : Id
  deriving DecidableEq

def IdWrapper.fromStr (s : RString) : Except Panic (Except String IdWrapper) :=
  (fun r => r.map IdWrapper.mk) <$> idFromStr s

def IdWrapper.fmt (w : IdWrapper) : RString := idToStr w.id

end Helpers

namespace Nccl

structure IdWrapper where
  id : Id
  deriving DecidableEq

def IdWrapper.fromStr (s : RString) : Except Panic (Except String IdWrapper) :=
  (fun r => r.map IdWrapper.mk) <$> idFromStr s

def IdWrapper.toString (w : IdWrapper) : RString := idToStr w.id

end Nccl

end IrisMpc
