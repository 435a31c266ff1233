import Mathlib.Tactic.IntervalCases
import Mathlib.Tactic.FinCases
import Mathlib.Tactic.Abel
import Mathlib.Tactic.Tauto
import Mathlib.Data.UInt
import Mathlib.Data.List.Forall2
import Mathlib.Data.List.GetD
import Mathlib.Data.String.Basic
import Mathlib.Algebra.Order.Group.Abs

/-!
# The Rust standard-library values the wire formats carry

A `Vec<T>` is a list whose length is a `usize`, an array `[T; N]` a list of
exactly `N` elements, and a `String` a `Vec<u8>` that `core::str::from_utf8`
accepts. `runUtf8Validation` follows `core::str::validations`: the first byte
of a character fixes its width and the range of its second byte, and every
later byte is a continuation byte. `chunks` and `chunksExact` are
`<[T]>::chunks` and `<[T]>::chunks_exact`.
-/

namespace IrisMpc

variable {α : Type}

/-- A byte buffer, `Vec<u8>` or `&[u8]`. -/
abbrev Bytes := List UInt8

/-- `[T; N]`. -/
structure RArray (α : Type) (n : Nat) where
  toList : List α
  length_eq : toList.length = n
  deriving DecidableEq, Repr

/-- `Vec<T>`: its length is a 64-bit `usize`. -/
structure RVec (α : Type) where
  toList : List α
  length_lt : toList.length < 2 ^ 64
  deriving DecidableEq, Repr

theorem RArray.ext {n : Nat} {a b : RArray α n} (h : a.toList = b.toList) : a = b := by
  cases a; cases b; cases h; rfl

theorem RVec.ext {a b : RVec α} (h : a.toList = b.toList) : a = b := by
  cases a; cases b; cases h; rfl

/-! ## UTF-8 validation -/

/-- `utf8_char_width`: the width of the character a first byte starts, `0` if none. -/
def utf8CharWidth (b : UInt8) : Nat :=
  if b < 0x80 then 1
  else if b < 0xC2 then 0
  else if b < 0xE0 then 2
  else if b < 0xF0 then 3
  else if b < 0xF5 then 4
  else 0

/-- A continuation byte `0x80..=0xBF`; Rust tests `(b as i8) < -64`. -/
def isContByte (b : UInt8) : Bool := 0x80 ≤ b && b ≤ 0xBF

/-- The second byte of a three-byte character, after `first`. -/
def secondOf3 (first b : UInt8) : Bool :=
  (first = 0xE0 && 0xA0 ≤ b && b ≤ 0xBF) ||
  (0xE1 ≤ first && first ≤ 0xEC && isContByte b) ||
  (first = 0xED && 0x80 ≤ b && b ≤ 0x9F) ||
  (0xEE ≤ first && first ≤ 0xEF && isContByte b)

/-- The second byte of a four-byte character, after `first`. -/
def secondOf4 (first b : UInt8) : Bool :=
  (first = 0xF0 && 0x90 ≤ b && b ≤ 0xBF) ||
  (0xF1 ≤ first && first ≤ 0xF3 && isContByte b) ||
  (first = 0xF4 && 0x80 ≤ b && b ≤ 0x8F)

/-- `run_utf8_validation`, answering only whether the bytes are well-formed UTF-8. -/
def runUtf8Validation : Bytes → Bool
  | [] => true
  | first :: rest =>
    match utf8CharWidth first, rest with
    | 1, rest => runUtf8Validation rest
    | 2, b :: rest => isContByte b && runUtf8Validation rest
    | 3, b :: c :: rest => secondOf3 first b && isContByte c && runUtf8Validation rest
    | 4, b :: c :: d :: rest =>
      secondOf4 first b && isContByte c && isContByte d && runUtf8Validation rest
    | _, _ => false

/-- Unfolding by `delta` rather than by the equation lemmas: generating those for the width
match takes seconds. -/
theorem runUtf8Validation_cons_ascii {b : UInt8} (hb : b < 0x80) (rest : Bytes) :
    runUtf8Validation (b :: rest) = runUtf8Validation rest := by
  have hw : utf8CharWidth b = 1 := if_pos hb
  delta runUtf8Validation
  dsimp only
  rw [hw]

/-- ASCII text is UTF-8. -/
theorem runUtf8Validation_of_ascii : ∀ bs : Bytes, (∀ b ∈ bs, b < 0x80) → runUtf8Validation bs
  | [], _ => rfl
  | b :: bs, h => by
    rw [runUtf8Validation_cons_ascii (h b (List.mem_cons_self b bs))]
    exact runUtf8Validation_of_ascii bs fun c hc => h c (List.mem_cons_of_mem b hc)

/-- `String`: a `Vec<u8>` holding well-formed UTF-8. -/
structure RString where
  bytes : List UInt8
  length_lt : bytes.length < 2 ^ 64
  valid : runUtf8Validation bytes = true
  deriving DecidableEq, Repr

theorem RString.ext {a b : RString} (h : a.bytes = b.bytes) : a = b := by
  cases a; cases b; cases h; rfl

/-! ## Slices in chunks -/

/-- `<[T]>::chunks(size)`: pieces of `size` elements, the last one possibly shorter.
Rust panics on `size = 0`; its one caller passes a nonzero constant. -/
def chunks (size : Nat) : List α → List (List α)
  | [] => []
  | x :: xs =>
    if 0 < size then (x :: xs).take size :: chunks size ((x :: xs).drop size) else []
termination_by xs => xs.length
decreasing_by simp only [List.length_drop, List.length_cons]; omega

@[simp] theorem chunks_nil (size : Nat) : chunks size ([] : List α) = [] := by
  rw [chunks]

theorem chunks_append {size : Nat} (hsize : 0 < size) {xs : List α} (hxs : xs.length = size)
    (ys : List α) : chunks size (xs ++ ys) = xs :: chunks size ys := by
  obtain _ | ⟨x, xs⟩ := xs
  · simp at hxs; omega
  · rw [List.cons_append, chunks, if_pos hsize, ← List.cons_append, List.take_left' hxs,
      List.drop_left' hxs]

/-- The first piece of `k + 1` pieces' worth, and the `k` pieces' worth after it. -/
theorem take_drop_of_length {size k : Nat} {xs : List α} (h : xs.length = size * (k + 1)) :
    (xs.take size).length = size ∧ (xs.drop size).length = size * k := by
  rw [Nat.mul_succ] at h
  simp only [List.length_take, List.length_drop]
  omega

theorem chunks_append_of_length {size : Nat} (hsize : 0 < size) :
    ∀ (k : Nat) (xs : List α), xs.length = size * k →
      ∀ ys, chunks size (xs ++ ys) = chunks size xs ++ chunks size ys
  | 0, xs, h, ys => by rw [List.eq_nil_of_length_eq_zero h, chunks_nil, List.nil_append, List.nil_append]
  | k + 1, xs, h, ys => by
    obtain ⟨htake, hdrop⟩ := take_drop_of_length h
    rw [← List.take_append_drop size xs, List.append_assoc, chunks_append hsize htake,
      chunks_append hsize htake, chunks_append_of_length hsize k _ hdrop, List.cons_append]

theorem length_chunks {size : Nat} (hsize : 0 < size) :
    ∀ (k : Nat) (xs : List α), xs.length = size * k → (chunks size xs).length = k
  | 0, xs, h => by rw [List.eq_nil_of_length_eq_zero h, chunks_nil, List.length_nil]
  | k + 1, xs, h => by
    obtain ⟨htake, hdrop⟩ := take_drop_of_length h
    rw [← List.take_append_drop size xs, chunks_append hsize htake, List.length_cons,
      length_chunks hsize k _ hdrop]

theorem flatten_chunks {size : Nat} (hsize : 0 < size) (xs : List α) :
    (chunks size xs).flatten = xs := by
  induction xs using chunks.induct size with
  | case1 => rw [chunks_nil, List.flatten_nil]
  | case2 x xs _ ih => rw [chunks, if_pos hsize, List.flatten_cons, ih, List.take_append_drop]
  | case3 _ _ h => exact absurd hsize h

theorem chunks_flatten {size : Nat} (hsize : 0 < size) :
    ∀ xss : List (List α), (∀ xs ∈ xss, xs.length = size) → chunks size xss.flatten = xss
  | [], _ => chunks_nil size
  | xs :: xss, h => by
    rw [List.flatten_cons, chunks_append hsize (h xs (.head _)),
      chunks_flatten hsize xss fun ys hys => h ys (.tail _ hys)]

theorem chunks_replicate {size : Nat} (hsize : 0 < size) (n : Nat) (a : α) :
    chunks size (List.replicate (n * size) a) = List.replicate n (List.replicate size a) := by
  rw [← List.flatten_replicate_replicate, chunks_flatten hsize _ fun xs hxs => by
    rw [List.eq_of_mem_replicate hxs, List.length_replicate]]

theorem length_of_mem_chunks {size : Nat} (hsize : 0 < size) {k : Nat} {xs : List α}
    (h : xs.length = size * k) : ∀ ys ∈ chunks size xs, ys.length = size := by
  induction k generalizing xs with
  | zero => rw [List.eq_nil_of_length_eq_zero h, chunks_nil]; exact nofun
  | succ k ih =>
    obtain ⟨htake, hdrop⟩ := take_drop_of_length h
    rw [← List.take_append_drop size xs, chunks_append hsize htake]
    exact List.forall_mem_cons.mpr ⟨htake, ih hdrop⟩

/-- Pairing two slices of `k` full pieces piece by piece is cutting their pairing into pieces. -/
theorem zipWith_chunks {β γ : Type} {f : α → β → γ} {size : Nat} (hsize : 0 < size) :
    ∀ (k : Nat) (xs : List α) (ys : List β), xs.length = size * k → ys.length = size * k →
      List.zipWith (List.zipWith f) (chunks size xs) (chunks size ys) =
        chunks size (List.zipWith f xs ys)
  | 0, xs, ys, hx, hy => by
    rw [List.eq_nil_of_length_eq_zero hx, List.eq_nil_of_length_eq_zero hy, chunks_nil,
      List.zipWith_nil_left, List.zipWith_nil_left, chunks_nil]
  | k + 1, xs, ys, hx, hy => by
    obtain ⟨hxt, hxd⟩ := take_drop_of_length hx
    obtain ⟨hyt, hyd⟩ := take_drop_of_length hy
    have hzt : (List.zipWith f (xs.take size) (ys.take size)).length = size := by
      rw [List.length_zipWith, hxt, hyt, min_self]
    rw [← List.take_append_drop size xs, ← List.take_append_drop size ys,
      List.zipWith_append f _ _ _ _ (hxt.trans hyt.symm), chunks_append hsize hxt,
      chunks_append hsize hyt, chunks_append hsize hzt, List.zipWith_cons_cons,
      zipWith_chunks hsize k _ _ hxd hyd]

/-- Cutting into pieces of `n` and each piece into pieces of `m`, where `m` divides `n`, is
cutting into pieces of `m`. -/
theorem flatMap_chunks {m n : Nat} (hm : 0 < m) (hn : 0 < n) (hmn : m ∣ n) (xs : List α) :
    (chunks n xs).flatMap (chunks m) = chunks m xs := by
  obtain ⟨k, hk⟩ := hmn
  induction xs using chunks.induct n with
  | case1 => simp
  | case2 x xs _ ih =>
    rw [chunks, if_pos hn, List.flatMap_cons, ih]
    by_cases hlen : n ≤ (x :: xs).length
    · have htake : ((x :: xs).take n).length = m * k := by
        simp only [List.length_take]; omega
      rw [← chunks_append_of_length hm k _ htake, List.take_append_drop]
    · rw [List.drop_eq_nil_of_le (by omega), chunks_nil, List.append_nil,
        List.take_of_length_le (by omega)]
  | case3 _ _ h => exact absurd hn h

/-- `<[T]>::chunks_exact(size)`: the pieces of exactly `size` elements; a shorter tail is left
out. -/
def chunksExact (size : Nat) (xs : List α) : List (List α) :=
  chunks size (xs.take (xs.length / size * size))

theorem chunksExact_of_mod_eq_zero {size : Nat} {xs : List α} (h : xs.length % size = 0) :
    chunksExact size xs = chunks size xs := by
  rw [chunksExact, List.take_of_length_le (Nat.div_mul_cancel (Nat.dvd_of_mod_eq_zero h)).ge]

end IrisMpc
