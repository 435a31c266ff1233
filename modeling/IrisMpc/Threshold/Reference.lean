import Mathlib.Data.List.Zip
import IrisMpc.RustCore

/-!
# The plaintext reference of the threshold test (`tests/threshold.rs`)

`real_result_msb` computes, for every pair of a code dot product `c` and a
mask dot product `m`, the bit 31 of `r = (m * A - (c << 16)) mod 2^32`, and
packs the bits 64 to a word, device slice by device slice. With `c` read as
a signed 16-bit number, as `sample_code_dots` encodes it, that bit is set
exactly when `m * A < c * 2^16`, as long as both dot products stay below
`2^14` in size (`msbBit_iff`). Bit `j` of a packed word is the `j`-th bit
(`packWord_testBit`). Because a device slice holds a multiple of 64 bits, the
packing does not depend on the number of devices
(`packWithDevicePadding_eq`), and `n` slices give `n * CHUNK_SIZE` words, the
length `open` asserts for its result (`realResultMsb_length`).

The arithmetic wraps, as in a build without overflow checks; with them,
`u16::MAX - x + 1` at `x = 0` and `m * A - (c << 16)` whenever it is
negative panic. `A` is computed from `MATCH_THRESHOLD_RATIO`, which is not
among the sources, and is a parameter here.
-/

namespace IrisMpc.Threshold

/-- `INPUTS_PER_GPU_SIZE`. -/
def inputsPerGpuSize : Nat := 12507136

/-- `CHUNK_SIZE`, the number of packed words per device. -/
def chunkSize : Nat := inputsPerGpuSize / 64

/-- `B_BITS`. -/
def bBits : UInt64 := 16

/-- One element of `sample_code_dots`: the drawn magnitude `x`, negated when `neg` is drawn. -/
def sampleCodeDot (x : UInt16) (neg : Bool) : UInt16 :=
  if neg then 65535 - x + 1 else x

/-- `sample_code_dots` on its draws: a magnitude and a sign for every element. -/
def sampleCodeDots (draws : List (UInt16 × Bool)) : List UInt16 :=
  draws.map fun d => sampleCodeDot d.1 d.2

/-- The body of the loop of `real_result_msb` for one pair `(c, m)`. -/
def msbBit (a : UInt64) (c m : UInt16) : Bool :=
  let mod_ : UInt64 := 1 <<< (16 + bBits)
  let r := (m.toUInt64 * a - (c.toUInt64 <<< bBits)) % mod_
  (r >>> (bBits + 16 - 1)) &&& 1 == 1

/-- The word the inner loop of `pack_with_device_padding` builds from up to 64 bits. -/
def packWord (bits : List Bool) : UInt64 :=
  bits.enum.foldl (fun r (i, bit) => r ||| (if bit then 1 else 0) <<< UInt64.ofNat i) 0

/-- `pack_with_device_padding`; `none` is the failed `assert!` on the length. -/
def packWithDevicePadding (bits : List Bool) : Option (List UInt64) :=
  if bits.length % inputsPerGpuSize = 0 then
    some ((chunksExact inputsPerGpuSize bits).flatMap fun devices =>
      (chunks 64 devices).map packWord)
  else none

/-- `real_result_msb`, over `code_input.zip(mask_input)`; `none` is a failed assertion. -/
def realResultMsb (a : UInt64) (codeInput maskInput : List UInt16) : Option (List UInt64) :=
  if codeInput.length = maskInput.length then
    packWithDevicePadding (List.zipWith (msbBit a) codeInput maskInput)
  else none

/-- A `u16` read as a signed 16-bit number. -/
def signed16 (c : UInt16) : Int :=
  if c.toNat < 2 ^ 15 then c.toNat else c.toNat - 2 ^ 16

/-! ## The bit of one pair -/

@[simp] theorem toNat_toUInt64 (c : UInt16) : c.toUInt64.toNat = c.toNat := rfl

theorem toNat_shiftLeft_bBits (c : UInt16) :
    (c.toUInt64 <<< bBits).toNat = c.toNat * 2 ^ 16 := by
  have hc : c.toNat < 2 ^ 16 := c.toBitVec.isLt
  show (c.toUInt64.toBitVec <<< (16 : Nat)).toNat = _
  rw [BitVec.toNat_shiftLeft, Nat.shiftLeft_eq]
  exact Nat.mod_eq_of_lt (by show c.toNat * 2 ^ 16 < 2 ^ 64; omega)

theorem bit31_eq (r : UInt64) :
    ((r >>> (bBits + 16 - 1)) &&& 1 == 1) = decide (r.toNat / 2 ^ 31 % 2 = 1) := by
  have hbit : ((r >>> (bBits + 16 - 1)) &&& 1).toNat = r.toNat / 2 ^ 31 % 2 := by
    show ((r.toBitVec >>> (31 : Nat)) &&& 1#64).toNat = _
    rw [BitVec.toNat_and, BitVec.toNat_ushiftRight, Nat.shiftRight_eq_div_pow]
    exact Nat.and_one_is_mod _
  have hiff : (r >>> (bBits + 16 - 1)) &&& 1 = 1 ↔ r.toNat / 2 ^ 31 % 2 = 1 := by
    rw [← hbit]
    exact ⟨congrArg UInt64.toNat, fun h => UInt64.toNat.inj (h.trans rfl)⟩
  rw [Bool.eq_iff_iff, beq_iff_eq, decide_eq_true_eq]
  exact hiff

/-- The bit of one pair is bit 31 of `m * A - c * 2^16` modulo `2^32`. -/
theorem msbBit_eq (a : UInt64) (c m : UInt16) (ha : a.toNat < 2 ^ 16) :
    msbBit a c m =
      decide ((2 ^ 32 - c.toNat * 2 ^ 16 + m.toNat * a.toNat) % 2 ^ 32 / 2 ^ 31 % 2 = 1) := by
  have hc : c.toNat < 2 ^ 16 := c.toBitVec.isLt
  have hX : m.toNat * a.toNat < 2 ^ 32 :=
    calc m.toNat * a.toNat < 2 ^ 16 * 2 ^ 16 := Nat.mul_lt_mul'' m.toBitVec.isLt ha
      _ = 2 ^ 32 := rfl
  have hmul : (m.toUInt64 * a).toNat = m.toNat * a.toNat := by
    show (m.toUInt64.toBitVec * a.toBitVec).toNat = _
    rw [BitVec.toNat_mul]
    exact Nat.mod_eq_of_lt (by show m.toNat * a.toNat < 2 ^ 64; omega)
  have hsub : (m.toUInt64 * a - (c.toUInt64 <<< bBits)).toNat =
      (2 ^ 64 - c.toNat * 2 ^ 16 + m.toNat * a.toNat) % 2 ^ 64 := by
    show ((m.toUInt64 * a).toBitVec - (c.toUInt64 <<< bBits).toBitVec).toNat = _
    rw [BitVec.toNat_sub]
    show (2 ^ 64 - (c.toUInt64 <<< bBits).toNat + (m.toUInt64 * a).toNat) % 2 ^ 64 = _
    rw [hmul, toNat_shiftLeft_bBits]
  have hr : ((m.toUInt64 * a - (c.toUInt64 <<< bBits)) % (1 <<< (16 + bBits))).toNat =
      (2 ^ 32 - c.toNat * 2 ^ 16 + m.toNat * a.toNat) % 2 ^ 32 := by
    rw [UInt64.toNat_mod, hsub]
    show _ % 2 ^ 32 = _
    omega
  rw [msbBit, bit31_eq, hr]

/-- The reference bit is set exactly when `m * A < c * 2^16`, with `c` read as a signed number,
as long as `A < 2^16` and both dot products are at most `2^14` in size. -/
theorem msbBit_iff (a : UInt64) (c m : UInt16) (ha : a.toNat < 2 ^ 16) (hm : m.toNat ≤ 2 ^ 14)
    (hc : |signed16 c| ≤ 2 ^ 14) :
    msbBit a c m = decide ((m.toNat * a.toNat : Int) < signed16 c * 2 ^ 16) := by
  have hX : m.toNat * a.toNat < 2 ^ 30 :=
    calc m.toNat * a.toNat < 2 ^ 14 * 2 ^ 16 := Nat.mul_lt_mul_of_le_of_lt hm ha (Nat.two_pow_pos 14)
      _ = 2 ^ 30 := rfl
  have hc16 : c.toNat < 2 ^ 16 := c.toBitVec.isLt
  obtain ⟨hlo, hhi⟩ := abs_le.mp hc
  rw [msbBit_eq a c m ha, decide_eq_decide, ← Nat.cast_mul]
  generalize m.toNat * a.toNat = X at *
  by_cases hpos : c.toNat < 2 ^ 15
  · simp only [signed16, if_pos hpos] at hlo hhi ⊢; omega
  · simp only [signed16, if_neg hpos] at hlo hhi ⊢; omega

/-- `sample_code_dots` encodes a drawn magnitude of at most `2^14` and its sign so that
`signed16` reads them back. -/
theorem signed16_sampleCodeDot (x : UInt16) (neg : Bool) (hx : x.toNat ≤ 2 ^ 14) :
    signed16 (sampleCodeDot x neg) = if neg then -(x.toNat : Int) else x.toNat := by
  cases neg with
  | false =>
    rw [sampleCodeDot, if_neg Bool.false_ne_true, signed16, if_pos (by omega), if_neg Bool.false_ne_true]
  | true =>
    have hle : x ≤ 65535 := by show x.toNat ≤ 65535; omega
    have hneg : (65535 - x + 1 : UInt16).toNat = (65535 - x.toNat + 1) % 2 ^ 16 := by
      show ((65535 - x).toBitVec + (1 : UInt16).toBitVec).toNat = _
      rw [BitVec.toNat_add]
      show ((65535 - x).toNat + 1) % 2 ^ 16 = _
      rw [UInt16.toNat_sub_of_le _ _ hle]
      rfl
    rw [sampleCodeDot, if_pos rfl, if_pos rfl, signed16, hneg]
    split <;> omega

/-! ## Packing -/

theorem toNat_shiftLeft_ofNat (c : UInt64) {k : Nat} (hk : k < 64) :
    (c <<< UInt64.ofNat k).toNat = c.toNat * 2 ^ k % 2 ^ 64 := by
  have hs : (UInt64.ofNat k % 64).toNat = k := by
    rw [UInt64.toNat_mod, UInt64.toNat_ofNat_of_lt (by show k < 2 ^ 64; omega)]
    exact Nat.mod_eq_of_lt hk
  show (c.toBitVec <<< (UInt64.ofNat k % 64).toBitVec).toNat = _
  rw [BitVec.shiftLeft_eq', BitVec.toNat_shiftLeft]
  show c.toNat <<< (UInt64.ofNat k % 64).toNat % 2 ^ 64 = _
  rw [hs, Nat.shiftLeft_eq]

theorem testBit_packStep (r : UInt64) (b : Bool) {k : Nat} (hk : k < 64) (j : Nat) :
    (r ||| (if b then 1 else 0 : UInt64) <<< UInt64.ofNat k).toNat.testBit j =
      (r.toNat.testBit j || (b && decide (k = j))) := by
  have hor : (r ||| (if b then 1 else 0 : UInt64) <<< UInt64.ofNat k).toNat =
      r.toNat ||| ((if b then 1 else 0 : UInt64) <<< UInt64.ofNat k).toNat :=
    BitVec.toNat_or _ _
  have hbit : ((if b then 1 else 0 : UInt64) <<< UInt64.ofNat k).toNat = if b then 2 ^ k else 0 := by
    rw [toNat_shiftLeft_ofNat _ hk]
    cases b
    · show 0 * 2 ^ k % 2 ^ 64 = 0
      rw [Nat.zero_mul, Nat.zero_mod]
    · show 1 * 2 ^ k % 2 ^ 64 = 2 ^ k
      rw [Nat.one_mul, Nat.mod_eq_of_lt (Nat.pow_lt_pow_right (by decide) hk)]
  rw [hor, hbit, Nat.testBit_or]
  cases b
  · simp
  · simp [Nat.testBit_two_pow]

theorem testBit_foldl_enumFrom (j : Nat) : ∀ (bs : List Bool) (k : Nat) (r : UInt64),
    k + bs.length ≤ 64 →
      ((bs.enumFrom k).foldl (fun r (i, bit) => r ||| (if bit then 1 else 0) <<< UInt64.ofNat i)
        r).toNat.testBit j = (r.toNat.testBit j || (decide (k ≤ j) && bs.getD (j - k) false))
  | [], k, r, _ => by simp
  | b :: bs, k, r, h => by
    rw [List.enumFrom_cons, List.foldl_cons,
      testBit_foldl_enumFrom j bs (k + 1) _ (by simp only [List.length_cons] at h; omega),
      testBit_packStep r b (by simp only [List.length_cons] at h; omega)]
    rcases Nat.lt_trichotomy j k with hj | rfl | hj
    · simp only [show ¬ k ≤ j by omega, show ¬ k + 1 ≤ j by omega, show k ≠ j by omega,
        decide_False, Bool.and_false, Bool.false_and, Bool.or_false]
    · simp only [Nat.sub_self, le_refl, Nat.not_succ_le_self, decide_True, decide_False,
        List.getD_cons_zero, Bool.and_true, Bool.true_and, Bool.false_and, Bool.or_false]
    · obtain ⟨d, rfl⟩ : ∃ d, j = k + 1 + d := ⟨j - (k + 1), by omega⟩
      simp only [show k ≤ k + 1 + d by omega, show k + 1 ≤ k + 1 + d by omega,
        show k ≠ k + 1 + d by omega, show k + 1 + d - k = d + 1 by omega, Nat.add_sub_cancel_left,
        decide_True, decide_False, List.getD_cons_succ, Bool.and_false, Bool.or_false, Bool.true_and]

/-- Bit `j` of a packed word is the `j`-th bit packed into it. -/
theorem packWord_testBit (bits : List Bool) (h : bits.length ≤ 64) (j : Nat) :
    (packWord bits).toNat.testBit j = bits.getD j false := by
  rw [packWord, List.enum, testBit_foldl_enumFrom j bits 0 0 (by omega)]
  simp

theorem packWord_testBit_two :
    (packWord [true, false, true]).toNat.testBit 2 = [true, false, true].getD 2 false :=
  packWord_testBit [true, false, true] (by decide) 2


/-- The reference packing is the packing of the whole batch, 64 bits to a word: a device slice
holds a multiple of 64 bits, so the split over devices leaves no partial word. -/
theorem packWithDevicePadding_eq (bits : List Bool) (h : bits.length % inputsPerGpuSize = 0) :
    packWithDevicePadding bits = some ((chunks 64 bits).map packWord) := by
  have hdvd : 64 ∣ inputsPerGpuSize := ⟨195424, rfl⟩
  rw [packWithDevicePadding, if_pos h, chunksExact_of_mod_eq_zero h, ← List.map_flatMap,
    flatMap_chunks (by decide) (by decide) hdvd]

theorem realResultMsb_of_mod {a : UInt64} {codes masks : List UInt16}
    (hlen : codes.length = masks.length) (hdev : codes.length % inputsPerGpuSize = 0) :
    realResultMsb a codes masks = some ((chunks 64 (List.zipWith (msbBit a) codes masks)).map
      packWord) := by
  rw [realResultMsb, if_pos hlen, packWithDevicePadding_eq]
  rwa [List.length_zipWith, ← hlen, min_self]

/-- With `A < 2^16` and every dot product at most `2^14` in size, `real_result_msb` is the
packing of the plaintext comparisons `m * A < c * 2^16` over the whole batch. -/
theorem realResultMsb_eq (a : UInt64) (codes masks : List UInt16) (ha : a.toNat < 2 ^ 16)
    (hlen : codes.length = masks.length) (hdev : codes.length % inputsPerGpuSize = 0)
    (hc : ∀ c ∈ codes, |signed16 c| ≤ 2 ^ 14) (hm : ∀ m ∈ masks, m.toNat ≤ 2 ^ 14) :
    realResultMsb a codes masks = some ((chunks 64 (List.zipWith
      (fun c m => decide ((m.toNat * a.toNat : Int) < signed16 c * 2 ^ 16)) codes masks)).map
        packWord) := by
  have hbits : List.zipWith (msbBit a) codes masks = List.zipWith
      (fun c m => decide ((m.toNat * a.toNat : Int) < signed16 c * 2 ^ 16)) codes masks :=
    List.zipWith_congr _ _ _ _ (List.forall₂_iff_zip.mpr ⟨hlen, fun hcm =>
      msbBit_iff a _ _ ha (hm _ (List.of_mem_zip hcm).2) (hc _ (List.of_mem_zip hcm).1)⟩)
  rw [realResultMsb_of_mod hlen hdev, hbits]

/-- On `n` device slices the reference is the packing of the batch's bits, `n * CHUNK_SIZE`
words. -/
theorem realResultMsb_of_length (a : UInt64) (codes masks : List UInt16) (n : Nat)
    (hlen : codes.length = masks.length) (hdev : codes.length = n * inputsPerGpuSize) :
    realResultMsb a codes masks = some ((chunks 64 (List.zipWith (msbBit a) codes masks)).map
      packWord) ∧
    ((chunks 64 (List.zipWith (msbBit a) codes masks)).map packWord).length = n * chunkSize := by
  have hbits : (List.zipWith (msbBit a) codes masks).length = 64 * (n * chunkSize) := by
    rw [List.length_zipWith, ← hlen, min_self, hdev]
    simp only [chunkSize, inputsPerGpuSize]
    omega
  refine ⟨realResultMsb_of_mod hlen (by rw [hdev, Nat.mul_mod_left]), ?_⟩
  rw [List.length_map, length_chunks (by decide) _ _ hbits]

/-- On `n` device slices the reference has `n * CHUNK_SIZE` words, as many as `open` asserts
that it returns, so the test's `izip!` compares every word. -/
theorem realResultMsb_length (a : UInt64) (codes masks : List UInt16) (n : Nat)
    (hlen : codes.length = masks.length) (hdev : codes.length = n * inputsPerGpuSize) :
    ∃ ws, realResultMsb a codes masks = some ws ∧ ws.length = n * chunkSize :=
  ⟨_, realResultMsb_of_length a codes masks n hlen hdev⟩

/-- A batch of one repeated pair gives one repeated word per chunk. -/
theorem realResultMsb_replicate (a : UInt64) (c m : UInt16) (n : Nat) :
    realResultMsb a (List.replicate (n * inputsPerGpuSize) c)
        (List.replicate (n * inputsPerGpuSize) m) =
      some (List.replicate (n * chunkSize) (packWord (List.replicate 64 (msbBit a c m)))) := by
  have hwords : n * inputsPerGpuSize = n * chunkSize * 64 := by
    simp only [inputsPerGpuSize, chunkSize]; omega
  rw [(realResultMsb_of_length a _ _ n (by simp) (by simp)).1, List.zipWith_replicate', hwords,
    chunks_replicate (by decide), List.map_replicate]

/-- One device of the code dot product `-5` and the mask dot product `3`. -/
theorem realResultMsb_length_one_device :
    ∃ ws, realResultMsb 16384 (List.replicate inputsPerGpuSize 65531)
      (List.replicate inputsPerGpuSize 3) = some ws ∧ ws.length = 1 * chunkSize :=
  realResultMsb_length 16384 _ _ 1 (by simp) (by simp)

theorem realResultMsb_eq_one_device :
    realResultMsb 16384 (List.replicate inputsPerGpuSize 65531)
        (List.replicate inputsPerGpuSize 3) =
      some ((chunks 64 (List.zipWith (fun (c m : UInt16) =>
          decide ((m.toNat * (16384 : UInt64).toNat : Int) < signed16 c * 2 ^ 16))
          (List.replicate inputsPerGpuSize 65531) (List.replicate inputsPerGpuSize 3))).map
            packWord) :=
  realResultMsb_eq 16384 _ _ (by decide) (by simp) (by simp)
    (fun c hc => by rw [List.eq_of_mem_replicate hc]; decide)
    (fun m hm => by rw [List.eq_of_mem_replicate hm]; decide)

/-- On every batch the test samples, the reference is the exact comparison. Whatever the length
and the draws, with magnitudes of at most `2^14` (`IRIS_CODE_SIZE` bounds them), `real_result_msb`
packs, pair by pair, whether `m * A < c * 2^16` for the drawn signed code dot product `c`. -/
theorem realResultMsb_sampleCodeDots (a : UInt64) (ha : a.toNat < 2 ^ 16)
    (draws : List (UInt16 × Bool)) (masks : List UInt16) (hlen : draws.length = masks.length)
    (hdev : draws.length % inputsPerGpuSize = 0) (hx : ∀ d ∈ draws, d.1.toNat ≤ 2 ^ 14)
    (hm : ∀ m ∈ masks, m.toNat ≤ 2 ^ 14) :
    realResultMsb a (sampleCodeDots draws) masks = some ((chunks 64 (List.zipWith
      (fun d m => decide ((m.toNat * a.toNat : Int) <
        (if d.2 then -(d.1.toNat : Int) else d.1.toNat) * 2 ^ 16)) draws masks)).map packWord) := by
  have hlen' : (sampleCodeDots draws).length = draws.length := by
    rw [sampleCodeDots, List.length_map]
  have hbits : List.zipWith (msbBit a) (sampleCodeDots draws) masks = List.zipWith
      (fun d m => decide ((m.toNat * a.toNat : Int) <
        (if d.2 then -(d.1.toNat : Int) else d.1.toNat) * 2 ^ 16)) draws masks := by
    rw [sampleCodeDots, List.zipWith_map_left]
    refine List.zipWith_congr _ _ _ _ (List.forall₂_iff_zip.mpr ⟨hlen, ?_⟩)
    intro d m hdm
    have hd := hx d (List.of_mem_zip hdm).1
    have hsigned := signed16_sampleCodeDot d.1 d.2 hd
    rw [msbBit_iff a _ _ ha (hm _ (List.of_mem_zip hdm).2) (by
      rw [hsigned]; split <;> simp only [abs_neg, Nat.abs_cast] <;> exact_mod_cast hd), hsigned]
  rw [realResultMsb_of_mod (hlen'.trans hlen) (hlen' ▸ hdev), hbits]

theorem realResultMsb_sampleCodeDots_one_device :
    realResultMsb 16384 (sampleCodeDots (List.replicate inputsPerGpuSize (5, true)))
        (List.replicate inputsPerGpuSize 3) =
      some ((chunks 64 (List.zipWith
        (fun (d : UInt16 × Bool) (m : UInt16) => decide ((m.toNat * (16384 : UInt64).toNat : Int) <
          (if d.2 then -(d.1.toNat : Int) else d.1.toNat) * 2 ^ 16))
        (List.replicate inputsPerGpuSize ((5 : UInt16), true))
          (List.replicate inputsPerGpuSize 3))).map packWord) :=
  realResultMsb_sampleCodeDots 16384 (by decide) _ _ (by simp) (by simp)
    (fun d hd => by rw [List.eq_of_mem_replicate hd]; decide)
    (fun m hm => by rw [List.eq_of_mem_replicate hm]; decide)

end IrisMpc.Threshold
