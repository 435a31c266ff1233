import Mathlib.Data.Fin.VecNotation
import IrisMpc.RustCore

/-!
# The open round of the threshold test (`tests/threshold.rs`)

After the comparison circuit, every party holds on each device a result
buffer pair whose first chunk carries XOR shares of the packed match bits.
`open` sends the `b` half of that chunk to the next party, receives into
the second chunk the buffer the previous party sent, and outputs
`a ^ b ^ c` on every device, concatenated in device order; it then asserts
the length of what it built.

Party `p`'s next party is `p + 1` and its previous party `p + 2`, modulo
three. When the parties hold a replicated sharing in the layout
`rep_share` produces (party `p`'s `b` is party `p + 2`'s `a`) and every buffer
holds the two chunks `open` slices, every party outputs the same vector: the
XOR of the three shares; a party whose buffer lacks the second chunk panics
(`openRound_reveals`). Chunk boundaries only partition the batch: that vector
is the element-wise XOR of the three shares concatenated in device order,
whatever the number of devices (`openRound_xor_concat`).
-/

namespace IrisMpc.Threshold

variable {α β γ δ : Type}

/-- Modelled from the spec: `ChunkShare<T>` (not among the sources), a party's two buffers on one
device, always of the same length. -/
structure ChunkShare (T : Type) where
  a : List T
  b : List T
  len_eq : a.length = b.length

/-- Modelled from the spec: `ChunkShare::get_offset(i, chunk_size)` (not among the sources), the
`i`-th run of `chunk_size` elements of both buffers. -/
def ChunkShare.getOffset {T : Type} (x : ChunkShare T) (i chunkSize : Nat) : ChunkShare T where
  a := (x.a.drop (i * chunkSize)).take chunkSize
  b := (x.b.drop (i * chunkSize)).take chunkSize
  len_eq := by simp only [List.length_take, List.length_drop, x.len_eq]

/-- Modelled from the spec: the slice behind `get_offset`, which panics when the run goes past
the buffers. -/
def ChunkShare.getOffset? {T : Type} (x : ChunkShare T) (i chunkSize : Nat) :
    Option (ChunkShare T) :=
  if (i + 1) * chunkSize ≤ x.a.length then some (x.getOffset i chunkSize) else none

/-- Modelled from the spec: `receive_view` fills the view with what the peer sent; counts that
differ are an NCCL error. -/
def receiveView (view msg : List UInt64) : Option (List UInt64) :=
  if msg.length = view.length then some msg else none

def openSends (x : List (ChunkShare UInt64)) (chunkSize : Nat) : List (List UInt64) :=
  x.map fun res => (res.getOffset 0 chunkSize).b

/-- `open`, given what the previous party sent on each device. The first loop slices the first
chunks and sends their `b` halves, the second slices the second chunks and receives into their
`a` halves. `none` is a panic: a slice past a buffer, or the failed `assert_eq!`. -/
def «open» (x : List (ChunkShare UInt64)) (received : List (List UInt64)) (chunkSize : Nat) :
    Option (List UInt64) := do
  let first ← x.mapM (·.getOffset? 0 chunkSize)
  let second ← x.mapM (·.getOffset? 1 chunkSize)
  let c ← (List.zipWith (fun res msg => receiveView res.a msg) second received).mapM id
  let result := (List.zipWith3 (List.zipWith3 fun a b c => a ^^^ (b ^^^ c))
    (first.map (·.a)) (first.map (·.b)) c).flatten
  if result.length = x.length * chunkSize then some result else none

/-- One round of `open` at the three parties: party `p` receives, device by device, what its
previous party `p + 2` sent to its own next party, `p`. -/
def openRound (x : Fin 3 → List (ChunkShare UInt64)) (chunkSize : Nat) (p : Fin 3) :
    Option (List UInt64) :=
  «open» (x p) (openSends (x (p + 2)) chunkSize) chunkSize

/-- The parties hold a replicated sharing on the first chunk: party `p`'s `b` halves are party
`p + 2`'s `a` halves, device by device. -/
def Replicated (x : Fin 3 → List (ChunkShare UInt64)) (chunkSize : Nat) : Prop :=
  ∀ p, openSends (x p) chunkSize = (x (p + 2)).map fun res => (res.getOffset 0 chunkSize).a

instance (x : Fin 3 → List (ChunkShare UInt64)) (chunkSize : Nat) :
    Decidable (Replicated x chunkSize) :=
  inferInstanceAs (Decidable (∀ _, _ = _))

/-! ## Reordering the three inputs of `zipWith3` -/

section Reorder

variable {f : α → α → α → β}

theorem zipWith3_swap12 (h : ∀ a b c, f a b c = f b a c) (l₁ : List α) :
    ∀ l₂ l₃ : List α, List.zipWith3 f l₁ l₂ l₃ = List.zipWith3 f l₂ l₁ l₃ := by
  induction l₁ with
  | nil => rintro (_ | _) (_ | _) <;> rfl
  | cons a l₁ ih =>
    rintro (_ | ⟨b, l₂⟩) (_ | ⟨c, l₃⟩)
    iterate 3 rfl
    simp only [List.zipWith3, h a, ih]

theorem zipWith3_swap23 (h : ∀ a b c, f a b c = f a c b) (l₁ : List α) :
    ∀ l₂ l₃ : List α, List.zipWith3 f l₁ l₂ l₃ = List.zipWith3 f l₁ l₃ l₂ := by
  induction l₁ with
  | nil => intro _ _; rfl
  | cons a l₁ ih =>
    rintro (_ | ⟨b, l₂⟩) (_ | ⟨c, l₃⟩)
    iterate 3 rfl
    simp only [List.zipWith3, h a, ih]

end Reorder

/-! ## XOR of three shares -/

theorem xor_xor_assoc (a b c : UInt64) : a ^^^ (b ^^^ c) = a ^^^ b ^^^ c :=
  UInt64.eq_of_toBitVec_eq (BitVec.xor_assoc _ _ _).symm

theorem xor3_swap12 (a b c : UInt64) : a ^^^ b ^^^ c = b ^^^ a ^^^ c := by
  apply UInt64.eq_of_toBitVec_eq
  show a.toBitVec ^^^ b.toBitVec ^^^ c.toBitVec = b.toBitVec ^^^ a.toBitVec ^^^ c.toBitVec
  ac_rfl

theorem xor3_swap23 (a b c : UInt64) : a ^^^ b ^^^ c = a ^^^ c ^^^ b := by
  apply UInt64.eq_of_toBitVec_eq
  show a.toBitVec ^^^ b.toBitVec ^^^ c.toBitVec = a.toBitVec ^^^ c.toBitVec ^^^ b.toBitVec
  ac_rfl

/-- XOR of three share buffers, element by element. -/
def xorShares (a0 a1 a2 : List UInt64) : List UInt64 :=
  List.zipWith3 (fun a0 a1 a2 => a0 ^^^ a1 ^^^ a2) a0 a1 a2

/-- The value the three parties' XOR shares stand for: the XOR of their first chunks' `a` halves,
device by device, in device order. -/
def revealed (x : Fin 3 → List (ChunkShare UInt64)) (chunkSize : Nat) : List UInt64 :=
  let share := fun p : Fin 3 => (x p).map fun res => (res.getOffset 0 chunkSize).a
  (List.zipWith3 xorShares (share 0) (share 1) (share 2)).flatten

theorem xorShares_swap12 (a0 a1 a2 : List UInt64) : xorShares a0 a1 a2 = xorShares a1 a0 a2 :=
  zipWith3_swap12 xor3_swap12 a0 a1 a2

theorem xorShares_swap23 (a0 a1 a2 : List UInt64) : xorShares a0 a1 a2 = xorShares a0 a2 a1 :=
  zipWith3_swap23 xor3_swap23 a0 a1 a2

/-! ## Lengths -/

theorem length_zipWith3 (f : α → β → γ → δ) (l₁ : List α) : ∀ l₂ l₃,
    (List.zipWith3 f l₁ l₂ l₃).length = min l₁.length (min l₂.length l₃.length) := by
  induction l₁ with
  | nil => intro _ _; simp only [List.zipWith3, List.length_nil, Nat.zero_min]
  | cons a l₁ ih =>
    rintro (_ | ⟨b, l₂⟩) (_ | ⟨c, l₃⟩)
    iterate 3 simp only [List.zipWith3, List.length_nil, Nat.zero_min, Nat.min_zero]
    simp only [List.zipWith3, List.length_cons, ih, Nat.succ_min_succ]

theorem length_flatten_zipWith3 {f : α → β → γ → List δ} {n : Nat} (l₁ : List α) : ∀ l₂ l₃,
    (∀ a ∈ l₁, ∀ b ∈ l₂, ∀ c ∈ l₃, (f a b c).length = n) →
      (List.zipWith3 f l₁ l₂ l₃).flatten.length = min l₁.length (min l₂.length l₃.length) * n := by
  induction l₁ with
  | nil =>
    intro _ _ _
    simp only [List.zipWith3, List.flatten_nil, List.length_nil, Nat.zero_min, Nat.zero_mul]
  | cons a l₁ ih =>
    rintro (_ | ⟨b, l₂⟩) (_ | ⟨c, l₃⟩) h
    iterate 3
      simp only [List.zipWith3, List.flatten_nil, List.length_nil, Nat.zero_min, Nat.min_zero,
        Nat.zero_mul]
    have hrest := ih l₂ l₃ fun a' ha b' hb c' hc =>
      h a' (.tail _ ha) b' (.tail _ hb) c' (.tail _ hc)
    simp only [List.zipWith3, List.flatten_cons, List.length_append, List.length_cons,
      h a (.head _) b (.head _) c (.head _), hrest, Nat.succ_min_succ, Nat.succ_mul]
    omega

theorem exists_of_mem_zipWith3 {f : α → β → γ → δ} {d : δ} :
    ∀ {l₁ : List α} {l₂ : List β} {l₃ : List γ}, d ∈ List.zipWith3 f l₁ l₂ l₃ →
      ∃ a ∈ l₁, ∃ b ∈ l₂, ∃ c ∈ l₃, d = f a b c
  | a :: _, b :: _, c :: _, h => by
    rcases List.mem_cons.mp h with rfl | h
    · exact ⟨a, .head _, b, .head _, c, .head _, rfl⟩
    · obtain ⟨a', ha, b', hb, c', hc, rfl⟩ := exists_of_mem_zipWith3 h
      exact ⟨a', .tail _ ha, b', .tail _ hb, c', .tail _ hc, rfl⟩
  | [], _, _, h | _ :: _, [], _, h | _ :: _, _ :: _, [], h => nomatch h

theorem zipWith3_replicate (f : α → β → γ → δ) (a : α) (b : β) (c : γ) : ∀ n,
    List.zipWith3 f (List.replicate n a) (List.replicate n b) (List.replicate n c) =
      List.replicate n (f a b c)
  | 0 => rfl
  | n + 1 => congrArg (f a b c :: ·) (zipWith3_replicate f a b c n)

theorem zipWith3_append {f : α → β → γ → δ} (r₁ : List α) (r₂ : List β) (r₃ : List γ) :
    ∀ {l₁ : List α} {l₂ : List β} {l₃ : List γ}, l₁.length = l₂.length → l₂.length = l₃.length →
      List.zipWith3 f (l₁ ++ r₁) (l₂ ++ r₂) (l₃ ++ r₃) =
        List.zipWith3 f l₁ l₂ l₃ ++ List.zipWith3 f r₁ r₂ r₃
  | [], l₂, l₃, h₁₂, h₂₃ => by
    obtain rfl := List.eq_nil_of_length_eq_zero h₁₂.symm
    obtain rfl := List.eq_nil_of_length_eq_zero h₂₃.symm
    rfl
  | _ :: _, [], _, h, _ => absurd h (Nat.succ_ne_zero _)
  | _ :: _, _ :: _, [], _, h => absurd h (Nat.succ_ne_zero _)
  | a :: _, b :: _, c :: _, h₁₂, h₂₃ =>
    congrArg (f a b c :: ·) (zipWith3_append r₁ r₂ r₃ (Nat.succ.inj h₁₂) (Nat.succ.inj h₂₃))

/-- `zipWith3` block by block over blocks of one length is `zipWith3` over the concatenations. -/
theorem flatten_zipWith3_zipWith3 {f : α → β → γ → δ} {n : Nat} :
    ∀ {L₁ : List (List α)} {L₂ : List (List β)} {L₃ : List (List γ)},
      (∀ l ∈ L₁, l.length = n) → (∀ l ∈ L₂, l.length = n) → (∀ l ∈ L₃, l.length = n) →
      L₁.length = L₂.length → L₂.length = L₃.length →
      (List.zipWith3 (List.zipWith3 f) L₁ L₂ L₃).flatten =
        List.zipWith3 f L₁.flatten L₂.flatten L₃.flatten
  | [], L₂, L₃, _, _, _, h₁₂, h₂₃ => by
    obtain rfl := List.eq_nil_of_length_eq_zero h₁₂.symm
    obtain rfl := List.eq_nil_of_length_eq_zero h₂₃.symm
    rfl
  | _ :: _, [], _, _, _, _, h, _ => absurd h (Nat.succ_ne_zero _)
  | _ :: _, _ :: _, [], _, _, _, _, h => absurd h (Nat.succ_ne_zero _)
  | l₁ :: _, l₂ :: _, l₃ :: _, h₁, h₂, h₃, h₁₂, h₂₃ => by
    have hl₁ := h₁ l₁ (.head _)
    have hl₂ := h₂ l₂ (.head _)
    rw [List.zipWith3, List.flatten_cons, List.flatten_cons, List.flatten_cons, List.flatten_cons,
      zipWith3_append _ _ _ (hl₁.trans hl₂.symm) (hl₂.trans (h₃ l₃ (.head _)).symm),
      flatten_zipWith3_zipWith3 (fun l hl => h₁ l (.tail _ hl)) (fun l hl => h₂ l (.tail _ hl))
        (fun l hl => h₃ l (.tail _ hl)) (Nat.succ.inj h₁₂) (Nat.succ.inj h₂₃)]

/-! ## One round -/

section Slices

variable {T : Type} {i chunkSize : Nat}

theorem mapM_getOffset? : ∀ {x : List (ChunkShare T)},
    (∀ res ∈ x, (i + 1) * chunkSize ≤ res.a.length) →
      x.mapM (·.getOffset? i chunkSize) = some (x.map (·.getOffset i chunkSize))
  | [], _ => rfl
  | res :: x, h => by
    rw [List.mapM_cons, ChunkShare.getOffset?, if_pos (h res (.head _)),
      mapM_getOffset? fun r hr => h r (.tail _ hr)]
    rfl

theorem mapM_getOffset?_eq_none : ∀ {x : List (ChunkShare T)},
    (∃ res ∈ x, res.a.length < (i + 1) * chunkSize) → x.mapM (·.getOffset? i chunkSize) = none
  | res :: x, ⟨r, hr, hlt⟩ => by
    rw [List.mapM_cons]
    rcases List.mem_cons.mp hr with rfl | hr
    · rw [ChunkShare.getOffset?, if_neg (Nat.not_le.mpr hlt)]
      rfl
    · rw [mapM_getOffset?_eq_none ⟨r, hr, hlt⟩]
      cases res.getOffset? i chunkSize <;> rfl

theorem length_getOffset {x : ChunkShare T} (h : (i + 1) * chunkSize ≤ x.a.length) :
    (x.getOffset i chunkSize).a.length = chunkSize ∧
      (x.getOffset i chunkSize).b.length = chunkSize := by
  simp only [ChunkShare.getOffset, List.length_take, List.length_drop, ← x.len_eq]
  constructor <;> rw [Nat.add_mul, Nat.one_mul] at h <;> omega

end Slices

/-- Receiving messages of the views' length fills every view with its message. -/
theorem mapM_receiveView {chunkSize : Nat} : ∀ {views : List (ChunkShare UInt64)}
    {msgs : List (List UInt64)}, views.length = msgs.length →
    (∀ v ∈ views, v.a.length = chunkSize) → (∀ m ∈ msgs, m.length = chunkSize) →
      (List.zipWith (fun res msg => receiveView res.a msg) views msgs).mapM id = some msgs
  | [], [], _, _, _ => rfl
  | [], _ :: _, h, _, _ | _ :: _, [], h, _, _ => absurd h (by simp)
  | v :: views, m :: msgs, h, hv, hm => by
    have hrecv : receiveView v.a m = some m :=
      if_pos ((hm m (.head _)).trans (hv v (.head _)).symm)
    rw [List.zipWith_cons_cons, List.mapM_cons, id, hrecv,
      mapM_receiveView (Nat.succ.inj h) (fun v' h' => hv v' (.tail _ h'))
        (fun m' h' => hm m' (.tail _ h'))]
    rfl

section Round

variable {x : Fin 3 → List (ChunkShare UInt64)} {chunkSize : Nat}

/-- With two full chunks in every buffer and a message of a chunk's length for each, `open`
outputs the XOR of its two shares and the message, device by device, then asserts its length. -/
theorem open_of_full {xs : List (ChunkShare UInt64)} {received : List (List UInt64)}
    (hfull : ∀ res ∈ xs, 2 * chunkSize ≤ res.a.length) (hlen : xs.length = received.length)
    (hmsg : ∀ m ∈ received, m.length = chunkSize) :
    «open» xs received chunkSize =
      let result := (List.zipWith3 xorShares
        (xs.map fun res => (res.getOffset 0 chunkSize).a) (openSends xs chunkSize) received).flatten
      if result.length = xs.length * chunkSize then some result else none := by
  have h0 : ∀ res ∈ xs, (0 + 1) * chunkSize ≤ res.a.length := fun res hres => by
    have := hfull res hres; omega
  have hviews : ∀ v ∈ xs.map (·.getOffset 1 chunkSize), v.a.length = chunkSize := by
    intro v hv
    obtain ⟨res, hres, rfl⟩ := List.mem_map.mp hv
    exact (length_getOffset (hfull res hres)).1
  have hxor : (List.zipWith3 fun a b c => a ^^^ (b ^^^ c)) = xorShares := by
    funext a b c; simp only [xorShares, xor_xor_assoc]
  simp only [«open», mapM_getOffset? h0, mapM_getOffset? hfull,
    mapM_receiveView (by rw [List.length_map, hlen]) hviews hmsg, hxor, List.map_map,
    openSends, Option.pure_def, Option.bind_eq_bind, Option.some_bind]
  rfl

/-- A buffer without a second chunk makes the slice of its receive target panic. -/
theorem open_of_short {xs : List (ChunkShare UInt64)} {received : List (List UInt64)}
    (hshort : ∃ res ∈ xs, res.a.length < 2 * chunkSize) : «open» xs received chunkSize = none := by
  simp only [«open», @mapM_getOffset?_eq_none _ 1 chunkSize xs hshort, Option.bind_eq_bind,
    Option.none_bind, Option.bind_none]

/-- Under a replicated sharing, each party's XOR of its two shares and the received one is the
XOR of the three parties' shares, in whatever order the party holds them. -/
theorem open_result_replicated (hrep : Replicated x chunkSize) (p : Fin 3) :
    (List.zipWith3 xorShares ((x p).map fun res => (res.getOffset 0 chunkSize).a)
      (openSends (x p) chunkSize) (openSends (x (p + 2)) chunkSize)).flatten =
    revealed x chunkSize := by
  have hsw12 := zipWith3_swap12 xorShares_swap12
  have hsw23 := zipWith3_swap23 xorShares_swap23
  fin_cases p
  · rw [hrep, hrep]; exact congrArg List.flatten (hsw23 _ _ _)
  · rw [hrep, hrep]; exact congrArg List.flatten (hsw12 _ _ _)
  · rw [hrep, hrep]
    exact congrArg List.flatten (((hsw12 _ _ _).trans (hsw23 _ _ _)).trans (hsw12 _ _ _))

theorem Replicated.length_eq (hrep : Replicated x chunkSize) (p : Fin 3) :
    (x p).length = (x 0).length := by
  have h : ∀ q, (x q).length = (x (q + 2)).length := fun q => by
    simpa only [openSends, List.length_map] using congrArg List.length (hrep q)
  have h02 : (x 0).length = (x 2).length := h 0
  have h21 : (x 2).length = (x 1).length := h 2
  fin_cases p
  · rfl
  · exact (h02.trans h21).symm
  · exact h02.symm

theorem length_firstChunk (hlen : ∀ p, ∀ res ∈ x p, chunkSize ≤ res.a.length) (p : Fin 3) :
    ∀ l ∈ (x p).map fun res => (res.getOffset 0 chunkSize).a, l.length = chunkSize := by
  intro l hl
  obtain ⟨res, hres, rfl⟩ := List.mem_map.mp hl
  simp [ChunkShare.getOffset, hlen p res hres]

theorem length_revealed (hrep : Replicated x chunkSize)
    (hlen : ∀ p, ∀ res ∈ x p, chunkSize ≤ res.a.length) (p : Fin 3) :
    (revealed x chunkSize).length = (x p).length * chunkSize := by
  have hcell : ∀ a ∈ (x 0).map fun res => (res.getOffset 0 chunkSize).a,
      ∀ b ∈ (x 1).map fun res => (res.getOffset 0 chunkSize).a,
      ∀ c ∈ (x 2).map fun res => (res.getOffset 0 chunkSize).a,
      (xorShares a b c).length = chunkSize := fun a ha b hb c hc => by
    simp [xorShares, length_zipWith3, length_firstChunk hlen 0 a ha, length_firstChunk hlen 1 b hb,
      length_firstChunk hlen 2 c hc]
  rw [revealed, length_flatten_zipWith3 _ _ _ hcell]
  simp only [List.length_map, hrep.length_eq, min_self]

theorem length_of_open {xs : List (ChunkShare UInt64)} {received : List (List UInt64)}
    {result : List UInt64} (h : «open» xs received chunkSize = some result) :
    result.length = xs.length * chunkSize := by
  simp only [«open», Option.bind_eq_bind, Option.bind_eq_some] at h
  obtain ⟨_, _, _, _, _, _, h⟩ := h
  split_ifs at h with hlen
  exact Option.some.inj h ▸ hlen

theorem length_of_openRound {p : Fin 3} {result : List UInt64}
    (h : openRound x chunkSize p = some result) : result.length = (x p).length * chunkSize :=
  length_of_open h

theorem openRound_of_full (hrep : Replicated x chunkSize)
    (hfull : ∀ q, ∀ res ∈ x q, 2 * chunkSize ≤ res.a.length) (p : Fin 3) :
    openRound x chunkSize p = some (revealed x chunkSize) := by
  have hfirst : ∀ q, ∀ res ∈ x q, chunkSize ≤ res.a.length := fun q res hres => by
    have := hfull q res hres; omega
  have hmsg : ∀ m ∈ openSends (x (p + 2)) chunkSize, m.length = chunkSize := by
    intro m hm
    obtain ⟨res, hres, rfl⟩ := List.mem_map.mp hm
    exact (@length_getOffset _ 0 chunkSize res (by have := hfull _ res hres; omega)).2
  have hlen : (x p).length = (openSends (x (p + 2)) chunkSize).length := by
    rw [openSends, List.length_map, hrep.length_eq p, hrep.length_eq (p + 2)]
  rw [openRound, open_of_full (hfull p) hlen hmsg, open_result_replicated hrep p]
  exact if_pos (length_revealed hrep hfirst p)

/-- Under a replicated sharing every party's `open` outputs the XOR of the three shares when
every buffer holds two full chunks, and panics when one of its own buffers has no second chunk to
receive into. -/
theorem openRound_reveals (hrep : Replicated x chunkSize) (p : Fin 3) :
    ((∀ q, ∀ res ∈ x q, 2 * chunkSize ≤ res.a.length) →
      openRound x chunkSize p = some (revealed x chunkSize)) ∧
    ((∃ res ∈ x p, res.a.length < 2 * chunkSize) → openRound x chunkSize p = none) :=
  ⟨fun hfull => openRound_of_full hrep hfull p, open_of_short⟩

/-- The number of devices backing the batch does not matter: under a replicated sharing with two
full chunks in every buffer, every party outputs the element-wise XOR of the three parties'
shares, each concatenated in device order. -/
theorem openRound_xor_concat (hrep : Replicated x chunkSize)
    (hfull : ∀ q, ∀ res ∈ x q, 2 * chunkSize ≤ res.a.length) (p : Fin 3) :
    openRound x chunkSize p = some (xorShares
      ((x 0).map fun res => (res.getOffset 0 chunkSize).a).flatten
      ((x 1).map fun res => (res.getOffset 0 chunkSize).a).flatten
      ((x 2).map fun res => (res.getOffset 0 chunkSize).a).flatten) := by
  have hfirst : ∀ q, ∀ res ∈ x q, chunkSize ≤ res.a.length := fun q res hres => by
    have := hfull q res hres; omega
  have hdev : ∀ q, ((x q).map fun res => (res.getOffset 0 chunkSize).a).length = (x 0).length :=
    fun q => by rw [List.length_map, hrep.length_eq]
  rw [openRound_of_full hrep hfull p]
  exact congrArg some (flatten_zipWith3_zipWith3 (length_firstChunk hfirst 0)
    (length_firstChunk hfirst 1) (length_firstChunk hfirst 2) ((hdev 0).trans (hdev 1).symm)
    ((hdev 1).trans (hdev 2).symm))

end Round

/-- Three parties on one device with chunks of two words: party `p` holds the shares `s p` and
`s (p + 2)` of `[1 ^ 16 ^ 4, 2 ^ 32 ^ 8]` in the first chunk, and a second chunk to receive into. -/
def twoChunkShares : Fin 3 → List (ChunkShare UInt64) :=
  ![[⟨[1, 2, 7, 7], [4, 8, 7, 7], rfl⟩], [⟨[16, 32, 7, 7], [1, 2, 7, 7], rfl⟩],
    [⟨[4, 8, 7, 7], [16, 32, 7, 7], rfl⟩]]

/-- The same first chunks, with no second chunk. -/
def oneChunkShares : Fin 3 → List (ChunkShare UInt64) :=
  ![[⟨[1, 2], [4, 8], rfl⟩], [⟨[16, 32], [1, 2], rfl⟩], [⟨[4, 8], [16, 32], rfl⟩]]

theorem openRound_two_chunks :
    openRound twoChunkShares 2 1 = some [21, 42] ∧ openRound oneChunkShares 2 1 = none := by
  refine ⟨?_, (@openRound_reveals oneChunkShares 2 (by decide) 1).2 (by decide)⟩
  rw [(@openRound_reveals twoChunkShares 2 (by decide) 1).1 (by decide)]
  decide

/-- Party 1 of the two-chunk round outputs the XOR of the three concatenated shares. -/
theorem openRound_xor_concat_two_chunks :
    Replicated twoChunkShares 2 ∧ (∀ q, ∀ res ∈ twoChunkShares q, 2 * 2 ≤ res.a.length) ∧
      openRound twoChunkShares 2 1 = some (xorShares [1, 2] [16, 32] [4, 8]) :=
  ⟨by decide, by decide, @openRound_xor_concat twoChunkShares 2 (by decide) (by decide) 1⟩

end IrisMpc.Threshold
