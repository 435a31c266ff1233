import Mathlib.Data.Fin.VecNotation
import IrisMpc.RustCore

/-!
# Replicated shares of the threshold test (`tests/threshold.rs`)

`rep_share` splits a `u16` into three additive shares `a`, `b` and
`c = value - a - b`, of which party `id` keeps two. Every party seeds its
generator with the same constant and draws in the same order, so the three
parties draw the same `a` and `b` for every element: `r` below is that common
stream of draws. The subtraction is `u16` arithmetic, wrapping as in a release
build. Party `p` then holds the share `x p` and the share of party `p + 2`,
and the three shares `x 0`, `x 1`, `x 2` add up to the value. No party
learns anything from its own pair: every pair arises from exactly one draw,
whatever the value (`repShare_view_unique`). Over a whole vector, a fixed offset
on the stream of draws maps a party's pairs for one vector onto its pairs for
any other of the same length (`repShareVec_hiding`).
-/

namespace IrisMpc.Threshold

/-- `rep_share`: party `id`'s pair of the shares `a`, `b`, `c = value - a - b`; an `id` past
the three parties is `unreachable!`. -/
def repShare (value a b : UInt16) (id : Nat) : Option (UInt16 × UInt16) :=
  let c := value - a - b
  match id with
  | 0 => some (a, c)
  | 1 => some (b, a)
  | 2 => some (c, b)
  | _ => none

/-- `rep_share_vec`: `rep_share` on every element, drawing `a` and `b` from the stream `r`. -/
def repShareVec : List UInt16 → (Nat → UInt16) → Nat → Option (List UInt16 × List UInt16)
  | [], _, _ => some ([], [])
  | v :: vs, r, id => do
    let (a, b) ← repShare v (r 0) (r 1) id
    let (as, bs) ← repShareVec vs (fun k => r (k + 2)) id
    pure (a :: as, b :: bs)

/-- The three additive shares of every element, for the draws `r`. -/
def shares : List UInt16 → (Nat → UInt16) → Fin 3 → List UInt16
  | [], _, _ => []
  | v :: vs, r, p =>
    ![r 0, r 1, v - r 0 - r 1] p :: shares vs (fun k => r (k + 2)) p

theorem shares_sum (v a b : UInt16) : a + b + (v - a - b) = v := by
  apply UInt16.eq_of_toBitVec_eq
  show a.toBitVec + b.toBitVec + (v.toBitVec - a.toBitVec - b.toBitVec) = v.toBitVec
  abel

/-- Whatever the value, each pair a party can hold comes from exactly one draw of `a` and `b`.
With uniform draws, one party's pair is uniform too, and says nothing about the value. -/
theorem repShare_view_unique (value : UInt16) (id : Nat) (hid : id < 3) (view : UInt16 × UInt16) :
    ∃! ab : UInt16 × UInt16, repShare value ab.1 ab.2 id = some view := by
  obtain ⟨x, y⟩ := view
  obtain _ | _ | _ | id := id
  · refine ⟨(x, value - x - y), congrArg some (Prod.ext rfl (sub_sub_cancel _ _)), ?_⟩
    rintro ⟨a, b⟩ h
    obtain ⟨rfl, rfl⟩ := Prod.mk.inj (Option.some.inj h)
    exact Prod.ext rfl (sub_sub_cancel _ _).symm
  · refine ⟨(y, x), rfl, ?_⟩
    rintro ⟨a, b⟩ h
    obtain ⟨rfl, rfl⟩ := Prod.mk.inj (Option.some.inj h)
    rfl
  · refine ⟨(value - y - x, y), congrArg some (Prod.ext ?_ rfl), ?_⟩
    · show value - (value - y - x) - y = x
      rw [sub_sub value y x, sub_sub_cancel, add_sub_cancel_left]
    rintro ⟨a, b⟩ h
    obtain ⟨rfl, rfl⟩ := Prod.mk.inj (Option.some.inj h)
    exact Prod.ext (by rw [sub_right_comm value a b, sub_sub_cancel]) rfl
  · omega

/-- Party 0 holding `(1, 2)` for the value `5` drew `a = 1` and `b = 2`. -/
theorem repShare_view_unique_party_zero :
    0 < 3 ∧ ∃! ab : UInt16 × UInt16, repShare 5 ab.1 ab.2 0 = some (1, 2) :=
  ⟨by decide, repShare_view_unique 5 0 (by decide) (1, 2)⟩

theorem repShareVec_eq (value : List UInt16) (r : Nat → UInt16) (p : Fin 3) :
    repShareVec value r p = some (shares value r p, shares value r (p + 2)) := by
  induction value generalizing r with
  | nil => rfl
  | cons v vs ih =>
    rw [repShareVec, ih]
    fin_cases p <;> rfl

/-- Moving the draw of the share party `p` does not hold by the difference of two values keeps
both of `p`'s shares of the element. -/
theorem shares_head_shift (x x' a b : UInt16) (p : Fin 3) :
    ![a + (if p = 2 then x' - x else 0), b + (if p = 0 then x' - x else 0),
        x' - (a + (if p = 2 then x' - x else 0)) - (b + (if p = 0 then x' - x else 0))] p =
      ![a, b, x - a - b] p ∧
    ![a + (if p = 2 then x' - x else 0), b + (if p = 0 then x' - x else 0),
        x' - (a + (if p = 2 then x' - x else 0)) - (b + (if p = 0 then x' - x else 0))] (p + 2) =
      ![a, b, x - a - b] (p + 2) := by
  fin_cases p
  · refine ⟨add_zero a, ?_⟩
    show x' - (a + 0) - (b + (x' - x)) = x - a - b
    rw [add_zero, sub_add_eq_sub_sub, sub_sub x' a b, sub_sub_sub_cancel_left, ← sub_sub]
  · exact ⟨add_zero b, add_zero a⟩
  · refine ⟨?_, add_zero b⟩
    show x' - (a + (x' - x)) - (b + 0) = x - a - b
    rw [add_zero, add_comm a, sub_add_eq_sub_sub, sub_sub_cancel]

/-- No party learns anything about the vector it holds shares of. For any two vectors of one
length, a fixed offset added to the draws turns party `p`'s pair for the one into its pair for the
other. Adding an offset permutes the streams of draws, so with uniform draws party `p`'s pair is
distributed alike, whatever the vector. -/
theorem repShareVec_hiding (p : Fin 3) : ∀ (v v' : List UInt16), v.length = v'.length →
    ∃ d : Nat → UInt16, ∀ r, repShareVec v' (r + d) p = repShareVec v r p
  | [], [], _ => ⟨0, fun _ => rfl⟩
  | [], _ :: _, h | _ :: _, [], h => absurd h (by simp)
  | x :: xs, x' :: xs', h => by
    obtain ⟨d, hd⟩ := repShareVec_hiding p xs xs' (Nat.succ.inj h)
    refine ⟨fun
      | 0 => if p = 2 then x' - x else 0
      | 1 => if p = 0 then x' - x else 0
      | k + 2 => d k, fun r => ?_⟩
    have htail := hd fun k => r (k + 2)
    rw [repShareVec_eq, repShareVec_eq] at htail ⊢
    obtain ⟨h0, h2⟩ := Prod.mk.inj (Option.some.inj htail)
    obtain ⟨e0, e2⟩ := shares_head_shift x x' (r 0) (r 1) p
    exact congrArg some (Prod.ext (congrArg₂ List.cons e0 h0) (congrArg₂ List.cons e2 h2))

/-- Party 0's pair for `[5]` is its pair for `[9]` once the draws are moved by an offset. -/
theorem repShareVec_hiding_party_zero :
    ([5] : List UInt16).length = [9].length ∧
      ∃ d : Nat → UInt16, ∀ r, repShareVec [9] (r + d) 0 = repShareVec [5] r 0 :=
  ⟨rfl, repShareVec_hiding 0 [5] [9] rfl⟩

/-- The three shares of every element add up to it. -/
theorem zipWith3_add_shares (value : List UInt16) (r : Nat → UInt16) :
    List.zipWith3 (fun x y z => x + y + z)
      (shares value r 0) (shares value r 1) (shares value r 2) = value := by
  induction value generalizing r with
  | nil => rfl
  | cons v vs ih =>
    simp only [shares, List.zipWith3, ih]
    exact congrArg (· :: vs) (shares_sum v (r 0) (r 1))

theorem length_shares (value : List UInt16) (r : Nat → UInt16) (p : Fin 3) :
    (shares value r p).length = value.length := by
  induction value generalizing r with
  | nil => rfl
  | cons v vs ih => simp only [shares, List.length_cons, ih]

/-- Every party's pair is its own share and that of party `p + 2`, and the three shares of every
element add up to it. -/
theorem repShareVec_replicated (value : List UInt16) (r : Nat → UInt16) :
    (∀ p : Fin 3, repShareVec value r p = some (shares value r p, shares value r (p + 2))) ∧
    List.zipWith3 (fun x y z => x + y + z)
      (shares value r 0) (shares value r 1) (shares value r 2) = value :=
  ⟨repShareVec_eq value r, zipWith3_add_shares value r⟩

end IrisMpc.Threshold
