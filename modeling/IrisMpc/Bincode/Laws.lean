import IrisMpc.Bincode.Reader

/-!
# Round trips of the bincode readers, and why prefixes are refused

`Decodes w r` says that `r` reads back what `w` writes, whatever bytes follow.
`Forward r` says that bytes appended after a successful read are left over
untouched. Every reader of the format has both, and the two together make a
proper prefix of an encoding unreadable (`Decodes.error_of_proper_prefix`):
reading the prefix and then the missing suffix would have to leave the suffix
over, while reading the whole encoding leaves nothing.
-/

namespace IrisMpc.Bincode

open Reader

variable {α β : Type}

/-- `r` reads back what `w` writes, whatever follows it. -/
def Decodes (w : α → Bytes) (r : Reader α) : Prop :=
  ∀ a rest, r (w a ++ rest) = .ok (a, rest)

/-- `r` reads from the front: appending bytes to a readable input only extends the rest. -/
def Forward (r : Reader α) : Prop :=
  ∀ s e a s', r s = .ok (a, s') → r (s ++ e) = .ok (a, s' ++ e)

/-- A forward reader that decodes `w` fails on every proper prefix of an encoding. -/
theorem Decodes.error_of_proper_prefix {w : α → Bytes} {r : Reader α} (hd : Decodes w r)
    (hf : Forward r) {a : α} {p e : Bytes} (he : e ≠ []) (hp : p ++ e = w a) :
    ∃ err, r p = .error err := by
  cases h : r p with
  | error err => exact ⟨err, rfl⟩
  | ok q =>
    have hwhole := hd a []
    rw [List.append_nil, ← hp, hf p e q.1 q.2 h] at hwhole
    have hrest : q.2 ++ e = [] := (Prod.mk.inj (Except.ok.inj hwhole)).2
    exact absurd (List.append_eq_nil.mp hrest).2 he

/-! ## Reading forward -/

theorem forward_pure (a : α) : Forward (pure a : Reader α) := by
  intro s e b s' h
  obtain ⟨rfl, rfl⟩ := Prod.mk.inj (Except.ok.inj h)
  rfl

theorem forward_fail (err : ErrorKind) : Forward (fail err : Reader α) := by
  intro s e a s' h
  cases h

theorem Forward.bind {r : Reader α} {f : α → Reader β} (hr : Forward r)
    (hf : ∀ a, Forward (f a)) : Forward (r >>= f) := by
  intro s e b s'' h
  cases hs : r s with
  | error err => rw [bind_of_error hs] at h; cases h
  | ok p =>
    rw [bind_of_ok hs] at h
    rw [bind_of_ok (hr s e p.1 p.2 hs)]
    exact hf p.1 p.2 e b s'' h

theorem Forward.map {r : Reader α} (hr : Forward r) (g : α → β) : Forward (g <$> r) :=
  hr.bind fun a => forward_pure (g a)

theorem forward_readBytes (n : Nat) : Forward (readBytes n) := by
  intro s e v s' h
  unfold readBytes at h ⊢
  split at h
  · rename_i hn
    obtain ⟨rfl, rfl⟩ := Prod.mk.inj (Except.ok.inj h)
    have hn' : n ≤ (s ++ e).length := by simp only [List.length_append]; omega
    rw [dif_pos hn']
    simp only [List.take_append_of_le_length hn, List.drop_append_of_le_length hn]
  · cases h

theorem forward_readFixed (w : Nat) : Forward (readFixed w) :=
  (forward_readBytes w).bind fun _ => forward_pure _

theorem forward_readU8 : Forward readU8 := (forward_readFixed 1).map _
theorem forward_readU16 : Forward readU16 := (forward_readFixed 2).map _
theorem forward_readU32 : Forward readU32 := (forward_readFixed 4).map _
theorem forward_readU64 : Forward readU64 := (forward_readFixed 8).map _

theorem forward_readBool : Forward readBool := by
  refine forward_readU8.bind fun b => ?_
  split
  · exact forward_pure _
  · split
    · exact forward_pure _
    · exact forward_fail _

theorem forward_readSeq {r : Reader α} (hr : Forward r) : ∀ n, Forward (readSeq r n)
  | 0 => forward_pure _
  | n + 1 => hr.bind fun _ => (forward_readSeq hr n).bind fun _ => forward_pure _

theorem forward_readVec {r : Reader α} (hr : Forward r) : Forward (readVec r) :=
  forward_readU64.bind fun _ => (forward_readSeq hr _).bind fun _ => forward_pure _

/-! ## Reading back what was written -/

theorem readBytes_append {n : Nat} (bs : Bytes) (h : bs.length = n) (rest : Bytes) :
    readBytes n (bs ++ rest) = .ok (⟨bs, h⟩, rest) := by
  have hn : n ≤ (bs ++ rest).length := by simp only [List.length_append]; omega
  simp only [readBytes, dif_pos hn, List.take_left' h, List.drop_left' h]

theorem readBytes_of_lt {n : Nat} {s : Bytes} (h : s.length < n) :
    readBytes n s = .error .unexpectedEof := by
  simp only [readBytes, dif_neg (Nat.not_le.mpr h)]

theorem readFixed_leBytes (w x : Nat) (rest : Bytes) :
    readFixed w (leBytes w x ++ rest) = .ok (x % 256 ^ w, rest) := by
  rw [readFixed, bind_of_ok (readBytes_append _ (leBytes_length w x) rest), pure_apply,
    leNat_leBytes]

theorem decodes_readU8 : Decodes writeU8 readU8 := fun x rest => by
  rw [readU8, writeU8, map_of_ok (readFixed_leBytes 1 x.toNat rest)]
  have h : x.toNat < 256 ^ 1 := x.toBitVec.isLt
  rw [Nat.mod_eq_of_lt h, UInt8.toNat.inj (UInt8.toNat_ofNat_of_lt x.toBitVec.isLt)]

theorem decodes_readU16 : Decodes writeU16 readU16 := fun x rest => by
  rw [readU16, writeU16, map_of_ok (readFixed_leBytes 2 x.toNat rest)]
  have h : x.toNat < 256 ^ 2 := x.toBitVec.isLt
  rw [Nat.mod_eq_of_lt h, UInt16.toNat.inj (UInt16.toNat_ofNat_of_lt x.toBitVec.isLt)]

theorem decodes_readU32 : Decodes writeU32 readU32 := fun x rest => by
  rw [readU32, writeU32, map_of_ok (readFixed_leBytes 4 x.toNat rest)]
  have h : x.toNat < 256 ^ 4 := x.toBitVec.isLt
  rw [Nat.mod_eq_of_lt h, UInt32.toNat.inj (UInt32.toNat_ofNat_of_lt x.toBitVec.isLt)]

theorem decodes_readU64 : Decodes writeU64 readU64 := fun x rest => by
  rw [readU64, writeU64, map_of_ok (readFixed_leBytes 8 x.toNat rest)]
  have h : x.toNat < 256 ^ 8 := x.toBitVec.isLt
  rw [Nat.mod_eq_of_lt h, UInt64.toNat.inj (UInt64.toNat_ofNat_of_lt x.toBitVec.isLt)]

theorem decodes_readBool : Decodes writeBool readBool := fun b rest => by
  rw [readBool, writeBool, bind_of_ok (decodes_readU8 _ rest)]
  cases b <;> rfl

/-- A newtype reads back through its wrapper. -/
theorem Decodes.map {w : β → Bytes} {r : Reader β} (hd : Decodes w r) (f : α → β) (g : β → α)
    (hgf : ∀ a, g (f a) = a) : Decodes (fun a => w (f a)) (g <$> r) := fun a rest => by
  rw [map_of_ok (hd (f a) rest), hgf]

theorem readSeq_writeSeq {w : α → Bytes} {r : Reader α} (hd : Decodes w r) :
    ∀ {n : Nat} (xs : List α) (h : xs.length = n) (rest : Bytes),
      readSeq r n (writeSeq w xs ++ rest) = .ok (⟨xs, h⟩, rest)
  | _, [], rfl, _ => rfl
  | _, a :: xs, rfl, rest => by
    rw [writeSeq_cons, List.append_assoc]
    show (r >>= _) _ = _
    rw [bind_of_ok (hd a _), bind_of_ok (readSeq_writeSeq hd xs rfl rest)]
    rfl

theorem decodes_readVec {w : α → Bytes} {r : Reader α} (hd : Decodes w r) :
    Decodes (writeVec w) (readVec r) := fun v rest => by
  have hlen : (UInt64.ofNat v.toList.length).toNat = v.toList.length :=
    UInt64.toNat_ofNat_of_lt v.length_lt
  rw [readVec, writeVec, List.append_assoc, bind_of_ok (decodes_readU64 _ _),
    bind_of_ok (readSeq_writeSeq hd v.toList hlen.symm rest)]
  rfl

theorem decodes_readString : Decodes writeString readString := fun s rest => by
  have hlen : (UInt64.ofNat s.bytes.length).toNat = s.bytes.length :=
    UInt64.toNat_ofNat_of_lt s.length_lt
  rw [readString, writeString, List.append_assoc, bind_of_ok (decodes_readU64 _ _),
    bind_of_ok (readBytes_append s.bytes hlen.symm rest)]
  simp only [dif_pos s.valid]
  rfl

end IrisMpc.Bincode
