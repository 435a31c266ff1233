import IrisMpc.Threshold.Open
import IrisMpc.Threshold.Shares
import IrisMpc.Threshold.Reference

/-!
# The threshold test around the circuit (`tests/threshold.rs`)

The circuit itself is not among the sources; this module covers what the test
does on either side of it.

`to_gpu` cuts a party's two share vectors into `INPUTS_PER_GPU_SIZE` slices
and puts the `d`-th slice of each on device `d` as one `ChunkShare`; `izip!`
stops at the shortest of the devices and the two slice iterators. The test
draws `INPUTS_PER_GPU_SIZE` inputs per device, so every device holds a full
slice of both shares, and the layout the circuit starts from is a replicated
sharing on every device: party `p`'s `b` halves are party `p + 2`'s `a`
halves, and on each device the three parties' `a` halves add up to that
device's slice of the inputs (`toGpu_repShareVec`).

After `open`, the test walks the opened result and the plaintext reference
with `izip!`, which stops at the shorter of the two, and breaks at the first
difference. Both have `n * CHUNK_SIZE` words on `n` devices, so the check
passes exactly when the opened result is the reference
(`resultCorrect_iff_eq`).
-/

namespace IrisMpc.Threshold

/-- Modelled from the spec: `ChunkShare::new` (not among the sources), which pairs two buffers
of one length; `none` for buffers of different lengths. -/
def ChunkShare.new {T : Type} (a b : List T) : Option (ChunkShare T) :=
  if h : a.length = b.length then some ⟨a, b, h⟩ else none

/-- `to_gpu` on `nDevices` devices: the `d`-th `INPUTS_PER_GPU_SIZE` slices of `a` and `b` on
device `d`. -/
def toGpu (a b : List UInt16) (nDevices : Nat) : Option (List (ChunkShare UInt16)) :=
  (((chunks inputsPerGpuSize a).zip (chunks inputsPerGpuSize b)).take nDevices).mapM
    fun ab => ChunkShare.new ab.1 ab.2

theorem inputsPerGpuSize_pos : 0 < inputsPerGpuSize := by decide

/-- Pairing slices of equal lengths succeeds, slice by slice. -/
theorem mapM_new_zip {T : Type} {as bs : List (List T)}
    (h : List.Forall₂ (fun a b => a.length = b.length) as bs) :
    ∃ xs : List (ChunkShare T), (as.zip bs).mapM (fun ab => ChunkShare.new ab.1 ab.2) = some xs ∧
      xs.map ChunkShare.a = as ∧ xs.map ChunkShare.b = bs := by
  induction h with
  | nil => exact ⟨[], rfl, rfl, rfl⟩
  | @cons a b _ _ hab _ ih =>
    obtain ⟨xs, hxs, ha, hb⟩ := ih
    have hnew : ChunkShare.new a b = some ⟨a, b, hab⟩ := dif_pos hab
    refine ⟨⟨a, b, hab⟩ :: xs, ?_, by rw [List.map_cons, ha], by rw [List.map_cons, hb]⟩
    simp only [List.zip_cons_cons, List.mapM_cons, hnew, hxs]
    rfl

/-- On `n` devices and `n` full slices of both shares, every device gets its slice of each. -/
theorem toGpu_full {a b : List UInt16} {n : Nat} (ha : a.length = n * inputsPerGpuSize)
    (hb : b.length = n * inputsPerGpuSize) :
    ∃ xs, toGpu a b n = some xs ∧
      xs.map ChunkShare.a = chunks inputsPerGpuSize a ∧
      xs.map ChunkShare.b = chunks inputsPerGpuSize b := by
  rw [Nat.mul_comm] at ha hb
  have hlen : ∀ c : List UInt16, c.length = inputsPerGpuSize * n →
      (chunks inputsPerGpuSize c).length = n :=
    fun c hc => length_chunks inputsPerGpuSize_pos n c hc
  have hslices : List.Forall₂ (fun a b => a.length = b.length)
      (chunks inputsPerGpuSize a) (chunks inputsPerGpuSize b) :=
    List.forall₂_iff_get.mpr ⟨by rw [hlen a ha, hlen b hb], fun i h₁ h₂ =>
      (length_of_mem_chunks inputsPerGpuSize_pos ha _ (List.get_mem _ i h₁)).trans
        (length_of_mem_chunks inputsPerGpuSize_pos hb _ (List.get_mem _ i h₂)).symm⟩
  have htake : ((chunks inputsPerGpuSize a).zip (chunks inputsPerGpuSize b)).take n =
      (chunks inputsPerGpuSize a).zip (chunks inputsPerGpuSize b) :=
    List.take_of_length_le (by rw [List.length_zip, hlen a ha, hlen b hb, min_self])
  rw [toGpu, htake]
  exact mapM_new_zip hslices

/-- Adding three share vectors slice by slice is slicing their sum. -/
theorem zipWith3_chunks {s₀ s₁ s₂ : List UInt16} {n : Nat}
    (h₀ : s₀.length = inputsPerGpuSize * n) (h₁ : s₁.length = inputsPerGpuSize * n)
    (h₂ : s₂.length = inputsPerGpuSize * n) :
    List.zipWith3 (List.zipWith3 fun x y z => x + y + z) (chunks inputsPerGpuSize s₀)
      (chunks inputsPerGpuSize s₁) (chunks inputsPerGpuSize s₂) =
    chunks inputsPerGpuSize (List.zipWith3 (fun x y z => x + y + z) s₀ s₁ s₂) := by
  have hpos := inputsPerGpuSize_pos
  have hslice := fun {s : List UInt16} (hs : s.length = inputsPerGpuSize * n) =>
    length_of_mem_chunks hpos hs
  have hcount : ∀ {s : List UInt16}, s.length = inputsPerGpuSize * n →
      (chunks inputsPerGpuSize s).length = n := fun hs => length_chunks hpos n _ hs
  have hblock : ∀ xs ∈ List.zipWith3 (List.zipWith3 fun x y z => x + y + z)
      (chunks inputsPerGpuSize s₀) (chunks inputsPerGpuSize s₁) (chunks inputsPerGpuSize s₂),
      xs.length = inputsPerGpuSize := fun xs hxs => by
    obtain ⟨a, ha, b, hb, c, hc, rfl⟩ := exists_of_mem_zipWith3 hxs
    rw [length_zipWith3, hslice h₀ a ha, hslice h₁ b hb, hslice h₂ c hc, min_self, min_self]
  rw [← chunks_flatten hpos _ hblock, flatten_zipWith3_zipWith3 (hslice h₀) (hslice h₁)
      (hslice h₂) ((hcount h₀).trans (hcount h₁).symm) ((hcount h₁).trans (hcount h₂).symm),
    flatten_chunks hpos, flatten_chunks hpos, flatten_chunks hpos]

/-- The test's shares on the devices: on `n` devices and `n * INPUTS_PER_GPU_SIZE` inputs, every
party's `to_gpu` of its `rep_share_vec` pair puts a full slice on each of the `n` devices, party
`p`'s `b` halves are party `p + 2`'s `a` halves, and on every device the three parties' `a`
halves add up to that device's slice of the inputs. -/
theorem toGpu_repShareVec (value : List UInt16) (r : Nat → UInt16) (n : Nat)
    (hlen : value.length = n * inputsPerGpuSize) :
    ∃ dev : Fin 3 → List (ChunkShare UInt16),
      (∀ p : Fin 3, ∃ a b, repShareVec value r p = some (a, b) ∧ toGpu a b n = some (dev p)) ∧
      (∀ p, (dev p).length = n ∧ ∀ x ∈ dev p, x.a.length = inputsPerGpuSize) ∧
      (∀ p, (dev p).map ChunkShare.b = (dev (p + 2)).map ChunkShare.a) ∧
      List.zipWith3 (List.zipWith3 fun x y z => x + y + z)
        ((dev 0).map ChunkShare.a) ((dev 1).map ChunkShare.a) ((dev 2).map ChunkShare.a) =
        chunks inputsPerGpuSize value := by
  have hshare : ∀ p, (shares value r p).length = n * inputsPerGpuSize := fun p =>
    (length_shares value r p).trans hlen
  choose dev hdev ha hb using fun p : Fin 3 => toGpu_full (hshare p) (hshare (p + 2))
  have hshare' : ∀ p, (shares value r p).length = inputsPerGpuSize * n := fun p =>
    (hshare p).trans (Nat.mul_comm _ _)
  refine ⟨dev, fun p => ⟨_, _, repShareVec_eq value r p, hdev p⟩, fun p => ⟨?_, ?_⟩,
    fun p => (hb p).trans (ha (p + 2)).symm, ?_⟩
  · rw [← List.length_map (dev p) ChunkShare.a, ha p]
    exact length_chunks inputsPerGpuSize_pos n _ (hshare' p)
  · intro x hx
    exact length_of_mem_chunks inputsPerGpuSize_pos (hshare' p) x.a
      (ha p ▸ List.mem_map_of_mem ChunkShare.a hx)
  · rw [ha 0, ha 1, ha 2, zipWith3_chunks (hshare' 0) (hshare' 1) (hshare' 2),
      zipWith3_add_shares]

theorem toGpu_repShareVec_one_device :
    (List.replicate inputsPerGpuSize (5 : UInt16)).length = 1 * inputsPerGpuSize ∧
    ∃ dev : Fin 3 → List (ChunkShare UInt16),
      (∀ p : Fin 3, ∃ a b, repShareVec (List.replicate inputsPerGpuSize 5) UInt16.ofNat p =
        some (a, b) ∧ toGpu a b 1 = some (dev p)) ∧
      (∀ p, (dev p).length = 1 ∧ ∀ x ∈ dev p, x.a.length = inputsPerGpuSize) ∧
      (∀ p, (dev p).map ChunkShare.b = (dev (p + 2)).map ChunkShare.a) ∧
      List.zipWith3 (List.zipWith3 fun x y z => x + y + z)
        ((dev 0).map ChunkShare.a) ((dev 1).map ChunkShare.a) ((dev 2).map ChunkShare.a) =
        chunks inputsPerGpuSize (List.replicate inputsPerGpuSize 5) :=
  have hlen : (List.replicate inputsPerGpuSize (5 : UInt16)).length = 1 * inputsPerGpuSize := by
    simp
  ⟨hlen, toGpu_repShareVec _ UInt16.ofNat 1 hlen⟩

/-! ## The check after `open` -/

/-- The loop of `test_threshold` that sets `correct`: pairs from `izip!`, stopping at the first
that differ. -/
def resultCorrect : List UInt64 → List UInt64 → Bool
  | r :: result, r' :: realResult => if r ≠ r' then false else resultCorrect result realResult
  | _, _ => true

theorem resultCorrect_iff_of_length_eq :
    ∀ {result realResult : List UInt64}, result.length = realResult.length →
      (resultCorrect result realResult = true ↔ result = realResult)
  | [], [], _ => iff_of_true rfl rfl
  | [], _ :: _, h | _ :: _, [], h => absurd h (by simp)
  | r :: result, r' :: realResult, h => by
    rw [resultCorrect, List.cons.injEq,
      ← resultCorrect_iff_of_length_eq (Nat.succ.inj h)]
    by_cases hr : r = r'
    · simp only [hr, ne_eq, not_true_eq_false, if_false, true_and]
    · simp only [hr, ne_eq, not_false_eq_true, if_true, false_and, Bool.false_eq_true]

/-- The test's check is exact: whatever the circuit left in the result buffers, once a party's
`open` returns on `n` devices, the reference of `n * INPUTS_PER_GPU_SIZE` pairs has as many words
as its result, and `correct` stays true exactly when the two are equal. -/
theorem resultCorrect_iff_eq (x : Fin 3 → List (ChunkShare UInt64)) (p : Fin 3) (a : UInt64)
    (codes masks : List UInt16) (n : Nat) (hdevices : (x p).length = n)
    (hlen : codes.length = masks.length) (hinputs : codes.length = n * inputsPerGpuSize)
    {result : List UInt64} (hopen : openRound x chunkSize p = some result) :
    ∃ realResult, realResultMsb a codes masks = some realResult ∧
      (resultCorrect result realResult = true ↔ result = realResult) := by
  obtain ⟨hreal, hreal_len⟩ := realResultMsb_of_length a codes masks n hlen hinputs
  refine ⟨_, hreal, resultCorrect_iff_of_length_eq ?_⟩
  rw [length_of_openRound hopen, hdevices, hreal_len]

/-! ## The whole test against a circuit that compares -/

/-- The values a batch stands for on each device: the three parties' `a` halves added up,
device by device. -/
def deviceValues (dev : Fin 3 → List (ChunkShare UInt16)) : List (List UInt16) :=
  List.zipWith3 (List.zipWith3 fun x y z => x + y + z)
    ((dev 0).map ChunkShare.a) ((dev 1).map ChunkShare.a) ((dev 2).map ChunkShare.a)

/-- Modelled from the spec: what `Circuits::compare_threshold_masked_many` (not among the
sources) leaves in the result buffers for `open`. Every party has two full chunks on each of its
devices, and the parties hold a replicated XOR sharing of, device by device, the packed match
bits of that device's pairs: the values its code and mask shares stand for, compared as
`real_result_msb` compares them. -/
structure ComparesThreshold (a : UInt64) (code mask : Fin 3 → List (ChunkShare UInt16))
    (x : Fin 3 → List (ChunkShare UInt64)) : Prop where
  replicated : Replicated x chunkSize
  full : ∀ p, ∀ res ∈ x p, 2 * chunkSize ≤ res.a.length
  reveals : List.zipWith3 xorShares ((x 0).map fun res => (res.getOffset 0 chunkSize).a)
      ((x 1).map fun res => (res.getOffset 0 chunkSize).a)
      ((x 2).map fun res => (res.getOffset 0 chunkSize).a) =
    List.zipWith (fun c m => (chunks 64 (List.zipWith (msbBit a) c m)).map packWord)
      (deviceValues code) (deviceValues mask)

section Devices

variable {value : List UInt16} {r : Nat → UInt16} {n : Nat}

/-- A party's devices hold its two share vectors, slice by slice. -/
theorem toGpu_shares (hlen : value.length = n * inputsPerGpuSize) {p : Fin 3}
    {s t : List UInt16} {dev : List (ChunkShare UInt16)}
    (hrep : repShareVec value r p = some (s, t))
    (hgpu : toGpu s t n = some dev) :
    dev.map ChunkShare.a = chunks inputsPerGpuSize (shares value r p) ∧
      dev.map ChunkShare.b = chunks inputsPerGpuSize (shares value r (p + 2)) := by
  rw [repShareVec_eq] at hrep
  obtain ⟨rfl, rfl⟩ := Prod.mk.inj (Option.some.inj hrep)
  obtain ⟨xs, hxs, ha, hb⟩ := toGpu_full ((length_shares value r p).trans hlen)
    ((length_shares value r (p + 2)).trans hlen)
  cases hgpu.symm.trans hxs
  exact ⟨ha, hb⟩

/-- The devices the three parties fill stand for the batch, slice by slice. -/
theorem deviceValues_toGpu (hlen : value.length = n * inputsPerGpuSize)
    {dev : Fin 3 → List (ChunkShare UInt16)}
    (hdev : ∀ p : Fin 3, ∃ s t, repShareVec value r p = some (s, t) ∧
      toGpu s t n = some (dev p)) :
    deviceValues dev = chunks inputsPerGpuSize value := by
  have ha : ∀ p, (dev p).map ChunkShare.a = chunks inputsPerGpuSize (shares value r p) :=
    fun p => by
      obtain ⟨s, t, hrep, hgpu⟩ := hdev p
      exact (toGpu_shares hlen hrep hgpu).1
  have hshare : ∀ p, (shares value r p).length = inputsPerGpuSize * n := fun p =>
    (length_shares value r p).trans (hlen.trans (Nat.mul_comm _ _))
  rw [deviceValues, ha 0, ha 1, ha 2, zipWith3_chunks (hshare 0) (hshare 1) (hshare 2),
    zipWith3_add_shares]

end Devices

/-- What the parties open against a circuit that compares is the reference, packed over the
whole batch. -/
theorem revealed_of_comparesThreshold {a : UInt64} {codes masks : List UInt16}
    {code mask : Fin 3 → List (ChunkShare UInt16)} {x : Fin 3 → List (ChunkShare UInt64)}
    {n : Nat}
    (hcodes : codes.length = n * inputsPerGpuSize) (hmasks : masks.length = n * inputsPerGpuSize)
    (hcode : deviceValues code = chunks inputsPerGpuSize codes)
    (hmask : deviceValues mask = chunks inputsPerGpuSize masks)
    (hx : ComparesThreshold a code mask x) :
    revealed x chunkSize = (chunks 64 (List.zipWith (msbBit a) codes masks)).map packWord := by
  have hdvd : 64 ∣ inputsPerGpuSize := ⟨195424, rfl⟩
  rw [Nat.mul_comm] at hcodes hmasks
  rw [revealed, hx.reveals, hcode, hmask,
    ← List.map_zipWith (fun bits => (chunks 64 bits).map packWord),
    zipWith_chunks inputsPerGpuSize_pos n codes masks hcodes hmasks, ← List.flatMap_def,
    ← List.map_flatMap, flatMap_chunks (by decide) inputsPerGpuSize_pos hdvd]

/-- Against a circuit that compares, the test passes at every party: on any number of devices,
for any code and mask dot products of one batch and any draws of their shares, once `to_gpu` has
put every party's shares on its devices, every party's `open` returns and `correct` stays
true. -/
theorem threshold_test_passes (a : UInt64) (codes masks : List UInt16) (rc rm : Nat → UInt16)
    (n : Nat) (hcodes : codes.length = n * inputsPerGpuSize)
    (hmasks : masks.length = n * inputsPerGpuSize) (code mask : Fin 3 → List (ChunkShare UInt16))
    (hcode : ∀ p : Fin 3, ∃ s t, repShareVec codes rc p = some (s, t) ∧
      toGpu s t n = some (code p))
    (hmask : ∀ p : Fin 3, ∃ s t, repShareVec masks rm p = some (s, t) ∧
      toGpu s t n = some (mask p))
    (x : Fin 3 → List (ChunkShare UInt64)) (hx : ComparesThreshold a code mask x) (p : Fin 3) :
    ∃ result realResult, openRound x chunkSize p = some result ∧
      realResultMsb a codes masks = some realResult ∧ resultCorrect result realResult = true := by
  have hopen := openRound_of_full hx.replicated hx.full p
  obtain ⟨hreal, -⟩ := realResultMsb_of_length a codes masks n (hcodes.trans hmasks.symm) hcodes
  refine ⟨_, _, hopen, hreal, (resultCorrect_iff_of_length_eq ?_).mpr ?_⟩ <;>
    rw [revealed_of_comparesThreshold hcodes hmasks (deviceValues_toGpu hcodes hcode)
      (deviceValues_toGpu hmasks hmask) hx]

/-! ## One device whose pairs all compare true -/

/-- A result buffer of two chunks of the words `a` and `b`. -/
def constResult (a b : UInt64) : ChunkShare UInt64 :=
  ⟨List.replicate (2 * chunkSize) a, List.replicate (2 * chunkSize) b,
    by rw [List.length_replicate, List.length_replicate]⟩

/-- The word of 64 set bits shared in the replicated layout: party 0 holds it, the others zeros. -/
def allSetResult : Fin 3 → List (ChunkShare UInt64) :=
  ![[constResult (packWord (List.replicate 64 true)) 0],
    [constResult 0 (packWord (List.replicate 64 true))], [constResult 0 0]]

theorem firstChunk_constResult (a b : UInt64) :
    ((constResult a b).getOffset 0 chunkSize).a = List.replicate chunkSize a ∧
      ((constResult a b).getOffset 0 chunkSize).b = List.replicate chunkSize b := by
  simp only [constResult, ChunkShare.getOffset, Nat.zero_mul, List.drop_zero, List.take_replicate,
    Nat.min_eq_left (by omega : chunkSize ≤ 2 * chunkSize), and_self]

theorem allSetResult_replicated : Replicated allSetResult chunkSize := by
  intro p
  fin_cases p <;> rfl

theorem allSetResult_full : ∀ p, ∀ res ∈ allSetResult p, 2 * chunkSize ≤ res.a.length := by
  intro p
  fin_cases p <;> simp [allSetResult, constResult]

theorem xor_allSet :
    packWord (List.replicate 64 true) ^^^ 0 ^^^ 0 = packWord (List.replicate 64 true) := by
  decide

theorem xorShares_allSetResult :
    List.zipWith3 xorShares ((allSetResult 0).map fun res => (res.getOffset 0 chunkSize).a)
      ((allSetResult 1).map fun res => (res.getOffset 0 chunkSize).a)
      ((allSetResult 2).map fun res => (res.getOffset 0 chunkSize).a) =
    [List.replicate chunkSize (packWord (List.replicate 64 true))] := by
  simp only [allSetResult, Matrix.cons_val_zero, Matrix.cons_val_one, Matrix.head_cons,
    Matrix.cons_val_two, Matrix.tail_cons, List.map_cons, List.map_nil, List.zipWith3]
  rw [(firstChunk_constResult _ _).1, (firstChunk_constResult _ _).1,
    (firstChunk_constResult _ _).1, xorShares, zipWith3_replicate, xor_allSet]

theorem openRound_allSetResult (p : Fin 3) :
    openRound allSetResult chunkSize p =
      some (List.replicate chunkSize (packWord (List.replicate 64 true))) := by
  rw [openRound_of_full allSetResult_replicated allSetResult_full p]
  simp only [revealed, xorShares_allSetResult, List.flatten_cons, List.flatten_nil,
    List.append_nil]

/-- On one device with every code dot product `1` and mask dot product `0`, `open` outputs one
set bit per pair, and the reference agrees. -/
theorem resultCorrect_iff_eq_one_device :
    openRound allSetResult chunkSize 0 =
        some (List.replicate chunkSize (packWord (List.replicate 64 true))) ∧
      ∃ realResult, realResultMsb 16384 (List.replicate inputsPerGpuSize 1)
          (List.replicate inputsPerGpuSize 0) = some realResult ∧
        (resultCorrect (List.replicate chunkSize (packWord (List.replicate 64 true))) realResult =
            true ↔ List.replicate chunkSize (packWord (List.replicate 64 true)) = realResult) ∧
        resultCorrect (List.replicate chunkSize (packWord (List.replicate 64 true))) realResult =
          true := by
  have hopen := openRound_allSetResult 0
  obtain ⟨r, hr, hiff⟩ :=
    resultCorrect_iff_eq allSetResult 0 16384 (List.replicate inputsPerGpuSize 1)
      (List.replicate inputsPerGpuSize 0) 1 rfl (by simp) (by simp) hopen
  have href := realResultMsb_replicate 16384 1 0 1
  rw [Nat.one_mul, Nat.one_mul, show msbBit 16384 1 0 = true by decide] at href
  exact ⟨hopen, r, hr, hiff, hiff.mpr (Option.some.inj (href.symm.trans hr))⟩

/-- The whole test on one device, with every code dot product `1` and mask dot product `0`
shared from zero draws, against a circuit that leaves `allSetResult`. -/
theorem threshold_test_passes_one_device :
    ∃ code mask : Fin 3 → List (ChunkShare UInt16),
      (∀ p : Fin 3, ∃ s t, repShareVec (List.replicate inputsPerGpuSize 1) (fun _ => 0) p =
        some (s, t) ∧ toGpu s t 1 = some (code p)) ∧
      (∀ p : Fin 3, ∃ s t, repShareVec (List.replicate inputsPerGpuSize 0) (fun _ => 0) p =
        some (s, t) ∧ toGpu s t 1 = some (mask p)) ∧
      ComparesThreshold 16384 code mask allSetResult ∧
      ∃ result realResult, openRound allSetResult chunkSize 0 = some result ∧
        realResultMsb 16384 (List.replicate inputsPerGpuSize 1)
          (List.replicate inputsPerGpuSize 0) = some realResult ∧
        resultCorrect result realResult = true := by
  have hlen : ∀ v : UInt16, (List.replicate inputsPerGpuSize v).length = 1 * inputsPerGpuSize :=
    fun v => by simp
  have hgpu : ∀ v : UInt16, ∃ dev : Fin 3 → List (ChunkShare UInt16), ∀ p : Fin 3, ∃ s t,
      repShareVec (List.replicate inputsPerGpuSize v) (fun _ => 0) p = some (s, t) ∧
        toGpu s t 1 = some (dev p) := fun v => by
    have hshare := fun p => (length_shares (List.replicate inputsPerGpuSize v) (fun _ => 0) p).trans
      (hlen v)
    choose dev hdev _ _ using fun p : Fin 3 => toGpu_full (hshare p) (hshare (p + 2))
    exact ⟨dev, fun p => ⟨_, _, repShareVec_eq _ _ p, hdev p⟩⟩
  obtain ⟨code, hcode⟩ := hgpu 1
  obtain ⟨mask, hmask⟩ := hgpu 0
  have hvalues : ∀ v : UInt16, chunks inputsPerGpuSize (List.replicate inputsPerGpuSize v) =
      [List.replicate inputsPerGpuSize v] := fun v => by
    simpa only [Nat.one_mul, List.replicate_one] using
      chunks_replicate inputsPerGpuSize_pos 1 v
  have hwords : inputsPerGpuSize = chunkSize * 64 := rfl
  have hx : ComparesThreshold 16384 code mask allSetResult := by
    refine ⟨allSetResult_replicated, allSetResult_full, ?_⟩
    rw [deviceValues_toGpu (hlen 1) hcode, deviceValues_toGpu (hlen 0) hmask, hvalues, hvalues,
      xorShares_allSetResult, List.zipWith_cons_cons, List.zipWith_nil_left,
      List.zipWith_replicate', show msbBit 16384 1 0 = true by decide, hwords,
      chunks_replicate (by decide), List.map_replicate]
  exact ⟨code, mask, hcode, hmask, hx, threshold_test_passes 16384 _ _ _ _ 1 (hlen 1) (hlen 0)
    code mask hcode hmask _ hx 0⟩

end IrisMpc.Threshold
