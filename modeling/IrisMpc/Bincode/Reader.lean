import IrisMpc.RustCore

/-!
# bincode's fixed-integer format

`bincode::serialize` and `bincode::deserialize` use fixed-width little-endian
integers, a `u64` length in front of every sequence and string, a `u32` variant
index in front of every enum payload, and nothing in front of tuples, arrays
and newtypes. `deserialize` reads through a `SliceReader` and accepts trailing
bytes. A `Reader` is that deserializer: it consumes a prefix of the slice and
returns the rest. Each `read*` has its `write*`, the bytes `serialize` emits.
-/

namespace IrisMpc.Bincode

/-- `bincode::ErrorKind`, the variants a slice reader raises for the types modelled here:
`Io(UnexpectedEof)`, `InvalidUtf8Encoding`, `InvalidBoolEncoding(b)` and the `Custom(msg)` of a
`Deserialize` impl, such as a variant index out of range. -/
inductive ErrorKind where
  | unexpectedEof
  | invalidUtf8Encoding
  | invalidBoolEncoding (b : UInt8)
  | custom (msg : String)
  deriving DecidableEq, Repr

/-- The deserializer over a `SliceReader`. -/
def Reader (α : Type) : Type := Bytes → Except ErrorKind (α × Bytes)

namespace Reader

variable {α β : Type}

instance : Monad Reader where
  pure a := fun s => .ok (a, s)
  bind r f := fun s => (r s).bind fun p => f p.1 p.2

def fail (e : ErrorKind) : Reader α := fun _ => .error e

@[simp] theorem pure_apply (a : α) (s : Bytes) : (pure a : Reader α) s = .ok (a, s) := rfl

@[simp] theorem fail_apply (e : ErrorKind) (s : Bytes) : (fail e : Reader α) s = .error e := rfl

theorem bind_of_ok {r : Reader α} {s s' : Bytes} {a : α} (h : r s = .ok (a, s'))
    (f : α → Reader β) : (r >>= f) s = f a s' := by
  show (r s).bind _ = _
  rw [h]; rfl

theorem bind_of_error {r : Reader α} {s : Bytes} {e : ErrorKind} (h : r s = .error e)
    (f : α → Reader β) : (r >>= f) s = .error e := by
  show (r s).bind _ = _
  rw [h]; rfl

theorem map_of_ok {r : Reader α} {s s' : Bytes} {a : α} (h : r s = .ok (a, s')) (g : α → β) :
    (g <$> r) s = .ok (g a, s') :=
  bind_of_ok h _

end Reader

open Reader

variable {α : Type}

/-! ## Little-endian integers -/

def leNat : Bytes → Nat
  | [] => 0
  | b :: bs => b.toNat + 256 * leNat bs

/-- The `width` little-endian bytes of `x`, which keep `x % 256 ^ width`. -/
def leBytes : Nat → Nat → Bytes
  | 0, _ => []
  | w + 1, x => UInt8.ofNat x :: leBytes w (x / 256)

@[simp] theorem leBytes_length (w x : Nat) : (leBytes w x).length = w := by
  induction w generalizing x with
  | zero => rfl
  | succ w ih => simp [leBytes, ih]

theorem leNat_leBytes (w x : Nat) : leNat (leBytes w x) = x % 256 ^ w := by
  induction w generalizing x with
  | zero => simp [leBytes, leNat, Nat.mod_one]
  | succ w ih =>
    have hb : (UInt8.ofNat x).toNat = x % 256 := BitVec.toNat_ofNat x 8
    rw [leBytes, leNat, ih, hb, Nat.pow_succ', Nat.mod_mul]

/-! ## Readers -/

/-- `SliceReader::read_exact`: the next `n` bytes, or the end-of-input error. -/
def readBytes (n : Nat) : Reader (RArray UInt8 n) := fun s =>
  if h : n ≤ s.length then .ok (⟨s.take n, by simp [h]⟩, s.drop n) else .error .unexpectedEof

def readFixed (width : Nat) : Reader Nat := do
  let bytes ← readBytes width
  pure (leNat bytes.toList)

def readU8 : Reader UInt8 := UInt8.ofNat <$> readFixed 1
def readU16 : Reader UInt16 := UInt16.ofNat <$> readFixed 2
def readU32 : Reader UInt32 := UInt32.ofNat <$> readFixed 4
def readU64 : Reader UInt64 := UInt64.ofNat <$> readFixed 8

def writeU8 (x : UInt8) : Bytes := leBytes 1 x.toNat
def writeU16 (x : UInt16) : Bytes := leBytes 2 x.toNat
def writeU32 (x : UInt32) : Bytes := leBytes 4 x.toNat
def writeU64 (x : UInt64) : Bytes := leBytes 8 x.toNat

/-- `deserialize_bool`: the byte `1` is `true`, `0` is `false`, any other byte an error. -/
def readBool : Reader Bool := do
  let b ← readU8
  if b = 1 then pure true else if b = 0 then pure false else fail (.invalidBoolEncoding b)

def writeBool (b : Bool) : Bytes := writeU8 (if b then 1 else 0)

/-- `n` values in a row: the elements of an array `[T; n]`, or the body of a sequence. -/
def readSeq (r : Reader α) : (n : Nat) → Reader (RArray α n)
  | 0 => pure ⟨[], rfl⟩
  | n + 1 => do
    let a ← r
    let as ← readSeq r n
    pure ⟨a :: as.toList, by simp [as.length_eq]⟩

def writeSeq (w : α → Bytes) (xs : List α) : Bytes := (xs.map w).flatten

def readVec (r : Reader α) : Reader (RVec α) := do
  let len ← readU64
  let xs ← readSeq r len.toNat
  pure ⟨xs.toList, by rw [xs.length_eq]; exact len.toBitVec.isLt⟩

def writeVec (w : α → Bytes) (v : RVec α) : Bytes :=
  writeU64 (UInt64.ofNat v.toList.length) ++ writeSeq w v.toList

/-- `String`: a `u64` length, the bytes, and the check of `String::from_utf8`. -/
def readString : Reader RString := do
  let len ← readU64
  let bytes ← readBytes len.toNat
  if h : runUtf8Validation bytes.toList then
    pure ⟨bytes.toList, by rw [bytes.length_eq]; exact len.toBitVec.isLt, h⟩
  else fail .invalidUtf8Encoding

def writeString (s : RString) : Bytes := writeU64 (UInt64.ofNat s.bytes.length) ++ s.bytes

/-- `bincode::deserialize`: the value at the front of the slice; trailing bytes are allowed. -/
def deserialize (r : Reader α) (bytes : Bytes) : Except ErrorKind α := (·.1) <$> r bytes

@[simp] theorem writeU64_length (x : UInt64) : (writeU64 x).length = 8 := leBytes_length 8 _

@[simp] theorem writeString_length (s : RString) : (writeString s).length = 8 + s.bytes.length := by
  simp [writeString]

@[simp] theorem writeSeq_nil (w : α → Bytes) : writeSeq w [] = [] := rfl

@[simp] theorem writeSeq_cons (w : α → Bytes) (a : α) (xs : List α) :
    writeSeq w (a :: xs) = w a ++ writeSeq w xs := rfl

theorem writeSeq_length (w : α → Bytes) (xs : List α) :
    (writeSeq w xs).length = (xs.map fun a => (w a).length).sum := by
  induction xs with
  | nil => rfl
  | cons a xs ih => simp [ih]

end IrisMpc.Bincode
