import IrisMpc.RustCore

/-!
# The `hex` crate's `encode` and `decode`

`encode` writes every byte as two lowercase digits, high nibble first.
`decode` refuses an odd length, then reads the digits pairwise, of either case,
and stops at the first character that is not a digit. Lowercase digits make
the two inverse: `decode_encode`, and `encode_decode` on lowercase input.
-/

namespace IrisMpc.Hex

/-- `FromHexError`, as far as `decode` returns it. -/
inductive FromHexError where
  | invalidHexCharacter (c : Char) (index : Nat)
  | oddLength
  deriving DecidableEq, Repr

/-- `HEX_CHARS_LOWER`, the bytes of `"0123456789abcdef"`. -/
def hexCharsLower : List UInt8 :=
  [0x30, 0x31, 0x32, 0x33, 0x34, 0x35, 0x36, 0x37, 0x38, 0x39, 0x61, 0x62, 0x63, 0x64, 0x65, 0x66]

/-- The two digits `BytesToHexChars` yields for `byte`: `table[byte >> 4]`, then
`table[byte & 0x0F]`. -/
def byteToHex (table : List UInt8) (byte : UInt8) : List UInt8 :=
  [table.getD (byte >>> 4).toNat 0, table.getD (byte &&& 0x0F).toNat 0]

/-- `hex::encode`. -/
def encode (data : List UInt8) : List UInt8 := (data.map (byteToHex hexCharsLower)).flatten

/-- `val`: the value of one digit, of either case; `idx` places the error. -/
def val (c : UInt8) (idx : Nat) : Except FromHexError UInt8 :=
  if 0x41 ≤ c ∧ c ≤ 0x46 then .ok (c - 0x41 + 10)
  else if 0x61 ≤ c ∧ c ≤ 0x66 then .ok (c - 0x61 + 10)
  else if 0x30 ≤ c ∧ c ≤ 0x39 then .ok (c - 0x30)
  else .error (.invalidHexCharacter (Char.ofNat c.toNat) idx)

/-- `hex.chunks(2).enumerate().map(...)` collected into a `Result`, from pair `i` on. A lone last
digit cannot occur: `decode` has refused odd lengths. -/
def decodePairs : List UInt8 → Nat → Except FromHexError (List UInt8)
  | hi :: lo :: rest, i => do
    let h ← val hi (2 * i)
    let l ← val lo (2 * i + 1)
    let tail ← decodePairs rest (i + 1)
    pure ((h <<< 4 ||| l) :: tail)
  | _, _ => pure []

/-- `hex::decode`. -/
def decode (data : List UInt8) : Except FromHexError (List UInt8) :=
  if data.length % 2 ≠ 0 then .error .oddLength else decodePairs data 0

/-- A digit `val` accepts. -/
def IsHexDigit (c : UInt8) : Prop :=
  (0x30 ≤ c ∧ c ≤ 0x39) ∨ (0x41 ≤ c ∧ c ≤ 0x46) ∨ (0x61 ≤ c ∧ c ≤ 0x66)

instance (c : UInt8) : Decidable (IsHexDigit c) := inferInstanceAs (Decidable (_ ∨ _))

/-! ## Nibbles -/

theorem toNat_shiftRight_four (b : UInt8) : (b >>> 4).toNat = b.toNat / 16 := by
  show (b.toBitVec >>> (UInt8.mod 4 8).toBitVec).toNat = _
  rw [BitVec.ushiftRight_eq', BitVec.toNat_ushiftRight, Nat.shiftRight_eq_div_pow]
  rfl

theorem toNat_and_fifteen (b : UInt8) : (b &&& 0x0F).toNat = b.toNat % 16 := by
  show (b.toBitVec &&& (15 : UInt8).toBitVec).toNat = _
  rw [BitVec.toNat_and]
  exact Nat.and_pow_two_sub_one_eq_mod b.toNat 4

theorem toNat_nibbles {h l : UInt8} (hh : h.toNat < 16) (hl : l.toNat < 16) :
    (h <<< 4 ||| l).toNat = 16 * h.toNat + l.toNat := by
  show ((h.toBitVec <<< (UInt8.mod 4 8).toBitVec) ||| l.toBitVec).toNat = _
  rw [BitVec.toNat_or, BitVec.shiftLeft_eq', BitVec.toNat_shiftLeft]
  change (h.toNat <<< 4 % 2 ^ 8) ||| l.toNat = _
  rw [Nat.shiftLeft_eq, Nat.mod_eq_of_lt (by omega), Nat.mul_comm,
    ← Nat.mul_add_lt_is_or (by omega : l.toNat < 2 ^ 4)]

/-- Every lowercase digit is read back as its position in the table. -/
theorem val_hexCharsLower {i : Nat} (hi : i < 16) (idx : Nat) :
    val (hexCharsLower.getD i 0) idx = .ok (UInt8.ofNat i) := by
  interval_cases i <;> rfl

theorem hexCharsLower_length : hexCharsLower.length = 16 := rfl

theorem mem_hexCharsLower {c : UInt8} (h : c ∈ hexCharsLower) :
    ∃ j < 16, hexCharsLower.getD j 0 = c := by
  obtain ⟨j, hj, rfl⟩ := List.mem_iff_getElem.mp h
  exact ⟨j, hj, List.getD_eq_getElem _ _ hj⟩

theorem byteToHex_nibbles {j k : Nat} (hj : j < 16) (hk : k < 16) :
    byteToHex hexCharsLower (UInt8.ofNat j <<< 4 ||| UInt8.ofNat k) =
      [hexCharsLower.getD j 0, hexCharsLower.getD k 0] := by
  have hj' : (UInt8.ofNat j).toNat = j := UInt8.toNat_ofNat_of_lt (by show j < 256; omega)
  have hk' : (UInt8.ofNat k).toNat = k := UInt8.toNat_ofNat_of_lt (by show k < 256; omega)
  have hb : (UInt8.ofNat j <<< 4 ||| UInt8.ofNat k).toNat = 16 * j + k := by
    rw [toNat_nibbles (by rw [hj']; exact hj) (by rw [hk']; exact hk), hj', hk']
  rw [byteToHex, toNat_shiftRight_four, toNat_and_fifteen, hb,
    show (16 * j + k) / 16 = j by omega, show (16 * j + k) % 16 = k by omega]

theorem byteToHex_eq (b : UInt8) : byteToHex hexCharsLower b =
    [hexCharsLower.getD (b.toNat / 16) 0, hexCharsLower.getD (b.toNat % 16) 0] := by
  rw [byteToHex, toNat_shiftRight_four, toNat_and_fifteen]

theorem nibbles_toNat (b : UInt8) :
    (UInt8.ofNat (b.toNat / 16) <<< 4 ||| UInt8.ofNat (b.toNat % 16)) = b := by
  have hb := b.toNat_lt
  have hhi : (UInt8.ofNat (b.toNat / 16)).toNat = b.toNat / 16 :=
    UInt8.toNat_ofNat_of_lt (by simp only [UInt8.size]; omega)
  have hlo : (UInt8.ofNat (b.toNat % 16)).toNat = b.toNat % 16 :=
    UInt8.toNat_ofNat_of_lt (by simp only [UInt8.size]; omega)
  apply UInt8.toNat.inj
  rw [toNat_nibbles (by omega) (by omega), hhi, hlo]
  omega

@[simp] theorem encode_nil : encode [] = [] := rfl

theorem encode_cons (b : UInt8) (bs : List UInt8) :
    encode (b :: bs) = byteToHex hexCharsLower b ++ encode bs := rfl

@[simp] theorem encode_length (data : List UInt8) : (encode data).length = 2 * data.length := by
  induction data with
  | nil => rfl
  | cons b bs ih => rw [encode_cons, List.length_append, ih, byteToHex]; simp; omega

theorem decodePairs_cons (hi lo : UInt8) (rest : List UInt8) (i : Nat) :
    decodePairs (hi :: lo :: rest) i =
      (val hi (2 * i)).bind fun h => (val lo (2 * i + 1)).bind fun l =>
        (decodePairs rest (i + 1)).bind fun tail => .ok ((h <<< 4 ||| l) :: tail) := rfl

/-! ## Round trips -/

theorem decodePairs_encode (data : List UInt8) (i : Nat) :
    decodePairs (encode data) i = .ok data := by
  induction data generalizing i with
  | nil => rfl
  | cons b bs ih =>
    have hb := b.toNat_lt
    rw [encode_cons, byteToHex_eq, List.cons_append, List.cons_append, List.nil_append,
      decodePairs_cons, val_hexCharsLower (by omega), val_hexCharsLower (by omega), ih]
    show Except.ok ((UInt8.ofNat (b.toNat / 16) <<< 4 ||| UInt8.ofNat (b.toNat % 16)) :: bs) = _
    rw [nibbles_toNat]

theorem decode_encode (data : List UInt8) : decode (encode data) = .ok data := by
  rw [decode, if_neg (by rw [encode_length]; omega), decodePairs_encode]

/-- Lowercase digits decode to the bytes that encode back to them. -/
theorem decodePairs_lower : ∀ (s : List UInt8) (i : Nat), s.length % 2 = 0 →
    (∀ c ∈ s, c ∈ hexCharsLower) → ∃ bytes, decodePairs s i = .ok bytes ∧ encode bytes = s
  | [], _, _, _ => ⟨[], rfl, rfl⟩
  | [_], _, h, _ => absurd h (by simp)
  | hi :: lo :: rest, i, hlen, hmem => by
    obtain ⟨j, hj, rfl⟩ := mem_hexCharsLower (hmem hi (by simp))
    obtain ⟨k, hk, rfl⟩ := mem_hexCharsLower (hmem lo (by simp))
    obtain ⟨tail, htail, henc⟩ := decodePairs_lower rest (i + 1)
      (by simp only [List.length_cons] at hlen; omega) fun c hc => hmem c (by simp [hc])
    refine ⟨(UInt8.ofNat j <<< 4 ||| UInt8.ofNat k) :: tail, ?_, ?_⟩
    · rw [decodePairs_cons, val_hexCharsLower hj, val_hexCharsLower hk, htail]
      rfl
    · rw [encode_cons, byteToHex_nibbles hj hk, henc]
      rfl

/-! ## What `decode` accepts -/

theorem val_ok_iff (c : UInt8) (idx : Nat) : (∃ v, val c idx = .ok v) ↔ IsHexDigit c := by
  unfold val IsHexDigit
  split_ifs <;> simp_all

theorem decodePairs_ok_iff : ∀ (s : List UInt8) (i : Nat), s.length % 2 = 0 →
    ((∃ bytes, decodePairs s i = .ok bytes) ↔ ∀ c ∈ s, IsHexDigit c)
  | [], _, _ => ⟨fun _ c hc => absurd hc (List.not_mem_nil c), fun _ => ⟨[], rfl⟩⟩
  | [_], _, h => absurd h (by simp)
  | hi :: lo :: rest, i, hlen => by
    have ih := decodePairs_ok_iff rest (i + 1) (by simp only [List.length_cons] at hlen; omega)
    rw [decodePairs_cons]
    simp only [List.mem_cons, forall_eq_or_imp, ← ih, ← val_ok_iff hi (2 * i),
      ← val_ok_iff lo (2 * i + 1)]
    cases val hi (2 * i) <;> cases val lo (2 * i + 1) <;> cases decodePairs rest (i + 1) <;>
      simp [Except.bind]

theorem decodePairs_length : ∀ (s : List UInt8) (i : Nat) (bytes : List UInt8),
    s.length % 2 = 0 → decodePairs s i = .ok bytes → 2 * bytes.length = s.length
  | [], _, _, _, h => by cases h; rfl
  | [_], _, _, h, _ => absurd h (by simp)
  | hi :: lo :: rest, i, bytes, hlen, h => by
    rw [decodePairs_cons] at h
    cases hh : val hi (2 * i) <;> cases hl : val lo (2 * i + 1) <;>
      cases ht : decodePairs rest (i + 1) <;>
      simp only [hh, hl, ht, Except.bind, reduceCtorEq, Except.ok.injEq] at h
    subst h
    have := decodePairs_length rest (i + 1) _ (by simp only [List.length_cons] at hlen; omega) ht
    simp only [List.length_cons]
    omega

theorem decode_ok_iff (s : List UInt8) :
    (∃ bytes, decode s = .ok bytes) ↔ s.length % 2 = 0 ∧ ∀ c ∈ s, IsHexDigit c := by
  rw [decode]
  by_cases h : s.length % 2 = 0
  · rw [if_neg (not_not.mpr h), decodePairs_ok_iff s 0 h]
    exact ⟨fun hs => ⟨h, hs⟩, fun hs => hs.2⟩
  · simp [h]

theorem decode_length {s bytes : List UInt8} (h : decode s = .ok bytes) :
    2 * bytes.length = s.length := by
  rw [decode] at h
  split at h
  · cases h
  · rename_i hodd
    exact decodePairs_length s 0 bytes (not_not.mp hodd) h

end IrisMpc.Hex
