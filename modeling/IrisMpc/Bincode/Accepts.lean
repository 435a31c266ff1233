import IrisMpc.Bincode.Laws

/-!
# What the readers accept

`Encodes w r` says that `r` accepts nothing but encodings: whatever it reads
is `w` of the value it returns, followed by the bytes it leaves. Together with
`Decodes w r`, a reader and its writer are inverse: a slice is accepted with
the value `a` and the rest `rest` exactly when it is `w a ++ rest`.

Integers accept every byte string of their width, and a `bool` only the
bytes `0` and `1`. A sequence, vector or string accepts its `u64` length and
then exactly that many elements.
-/

namespace IrisMpc.Bincode

open Reader

variable {α β : Type}

/-- `r` accepts only what `w` writes, followed by the bytes it leaves. -/
def Encodes (w : α → Bytes) (r : Reader α) : Prop :=
  ∀ s a rest, r s = .ok (a, rest) → s = w a ++ rest

namespace Reader

theorem ok_of_bind_ok {r : Reader α} {f : α → Reader β} {s s' : Bytes} {b : β}
    (h : (r >>= f) s = .ok (b, s')) : ∃ a s₁, r s = .ok (a, s₁) ∧ f a s₁ = .ok (b, s') := by
  cases hr : r s with
  | error e => rw [bind_of_error hr] at h; cases h
  | ok p => exact ⟨p.1, p.2, rfl, by rwa [bind_of_ok hr] at h⟩

theorem ok_of_map_ok {r : Reader α} {g : α → β} {s s' : Bytes} {b : β}
    (h : (g <$> r) s = .ok (b, s')) : ∃ a, r s = .ok (a, s') ∧ b = g a := by
  obtain ⟨a, s₁, ha, hp⟩ := @ok_of_bind_ok _ _ r (fun a => pure (g a)) _ _ _ h
  obtain ⟨rfl, rfl⟩ := Prod.mk.inj (Except.ok.inj hp)
  exact ⟨a, ha, rfl⟩

end Reader

/-! ## Bytes and integers -/

theorem readBytes_ok {n : Nat} {s rest : Bytes} {v : RArray UInt8 n}
    (h : readBytes n s = .ok (v, rest)) : s = v.toList ++ rest := by
  unfold readBytes at h
  split at h
  · obtain ⟨rfl, rfl⟩ := Prod.mk.inj (Except.ok.inj h)
    exact (List.take_append_drop n s).symm
  · cases h

theorem leNat_lt : ∀ bs : Bytes, leNat bs < 256 ^ bs.length
  | [] => Nat.one_pos
  | b :: bs => by
    have hb : b.toNat < 256 := b.toBitVec.isLt
    have ih := leNat_lt bs
    rw [leNat, List.length_cons, Nat.pow_succ']
    omega

theorem leBytes_leNat : ∀ bs : Bytes, leBytes bs.length (leNat bs) = bs
  | [] => rfl
  | b :: bs => by
    have hb : b.toNat < 256 := b.toBitVec.isLt
    have hlow : UInt8.ofNat (b.toNat + 256 * leNat bs) = b := by
      apply UInt8.toNat.inj
      rw [show (UInt8.ofNat (b.toNat + 256 * leNat bs)).toNat = (b.toNat + 256 * leNat bs) % 256
        from BitVec.toNat_ofNat _ 8]
      omega
    rw [List.length_cons, leNat, leBytes, hlow,
      show (b.toNat + 256 * leNat bs) / 256 = leNat bs by omega, leBytes_leNat bs]

theorem readFixed_ok {w : Nat} {s rest : Bytes} {n : Nat} (h : readFixed w s = .ok (n, rest)) :
    s = leBytes w n ++ rest ∧ n < 256 ^ w := by
  obtain ⟨v, s₁, hv, hpure⟩ := ok_of_bind_ok h
  obtain ⟨rfl, rfl⟩ := Prod.mk.inj (Except.ok.inj hpure)
  have hbytes := leBytes_leNat v.toList
  have hlt := leNat_lt v.toList
  rw [v.length_eq] at hbytes hlt
  exact ⟨by rw [readBytes_ok hv, hbytes], hlt⟩

/-- A `w`-byte integer type read through `ofNat` and written through `toNat`. -/
theorem encodes_map_readFixed {T : Type} (w : Nat) (ofNat : Nat → T) (toNat : T → Nat)
    (h : ∀ n < 256 ^ w, toNat (ofNat n) = n) :
    Encodes (fun x => leBytes w (toNat x)) (ofNat <$> readFixed w) := fun s x rest hx => by
  obtain ⟨n, hn, rfl⟩ := ok_of_map_ok hx
  obtain ⟨hs, hlt⟩ := readFixed_ok hn
  rw [hs]
  dsimp only
  rw [h n hlt]

theorem encodes_readU8 : Encodes writeU8 readU8 :=
  encodes_map_readFixed 1 _ _ fun _ hn => UInt8.toNat_ofNat_of_lt (hn.trans_eq rfl)

theorem encodes_readU16 : Encodes writeU16 readU16 :=
  encodes_map_readFixed 2 _ _ fun _ hn => UInt16.toNat_ofNat_of_lt (hn.trans_eq rfl)

theorem encodes_readU32 : Encodes writeU32 readU32 :=
  encodes_map_readFixed 4 _ _ fun _ hn => UInt32.toNat_ofNat_of_lt (hn.trans_eq rfl)

theorem encodes_readU64 : Encodes writeU64 readU64 :=
  encodes_map_readFixed 8 _ _ fun _ hn => UInt64.toNat_ofNat_of_lt (hn.trans_eq rfl)

theorem encodes_readBool : Encodes writeBool readBool := fun s b rest h => by
  obtain ⟨x, s₁, hx, hb⟩ := ok_of_bind_ok h
  rw [encodes_readU8 s x s₁ hx]
  split at hb
  · obtain ⟨rfl, rfl⟩ := Prod.mk.inj (Except.ok.inj hb)
    rw [‹x = 1›]
    rfl
  · split at hb
    · obtain ⟨rfl, rfl⟩ := Prod.mk.inj (Except.ok.inj hb)
      rw [‹x = 0›]
      rfl
    · cases hb

/-! ## Newtypes, sequences and strings -/

theorem Encodes.map {w : β → Bytes} {r : Reader β} (he : Encodes w r) (f : α → β) (g : β → α)
    (hfg : ∀ b, f (g b) = b) : Encodes (fun a => w (f a)) (g <$> r) := fun s a rest h => by
  obtain ⟨b, hb, rfl⟩ := ok_of_map_ok h
  dsimp only
  rw [hfg, he s b rest hb]

theorem Encodes.readSeq {w : α → Bytes} {r : Reader α} (he : Encodes w r) :
    ∀ {n : Nat} (s : Bytes) (xs : RArray α n) (rest : Bytes),
      readSeq r n s = .ok (xs, rest) → s = writeSeq w xs.toList ++ rest
  | 0, _, _, _, h => by
    obtain ⟨rfl, rfl⟩ := Prod.mk.inj (Except.ok.inj h)
    rfl
  | _ + 1, s, _, rest, h => by
    obtain ⟨a, s₁, ha, h₁⟩ := ok_of_bind_ok h
    obtain ⟨as, s₂, has, h₂⟩ := ok_of_bind_ok h₁
    obtain ⟨rfl, rfl⟩ := Prod.mk.inj (Except.ok.inj h₂)
    rw [he s a s₁ ha, he.readSeq s₁ as s₂ has, ← List.append_assoc]
    rfl

theorem ofNat_toNat_u32 (x : UInt32) : UInt32.ofNat x.toNat = x :=
  UInt32.toNat.inj (UInt32.toNat_ofNat_of_lt x.toBitVec.isLt)

theorem ofNat_toNat_u64 (x : UInt64) : UInt64.ofNat x.toNat = x :=
  UInt64.toNat.inj (UInt64.toNat_ofNat_of_lt x.toBitVec.isLt)

theorem Encodes.readVec {w : α → Bytes} {r : Reader α} (he : Encodes w r) :
    Encodes (writeVec w) (readVec r) := fun s v rest h => by
  obtain ⟨len, s₁, hlen, h₁⟩ := ok_of_bind_ok h
  obtain ⟨xs, s₂, hxs, h₂⟩ := ok_of_bind_ok h₁
  obtain ⟨rfl, rfl⟩ := Prod.mk.inj (Except.ok.inj h₂)
  rw [encodes_readU64 s len s₁ hlen, he.readSeq s₁ xs s₂ hxs, writeVec, List.append_assoc]
  dsimp only
  rw [xs.length_eq, ofNat_toNat_u64]

theorem encodes_readString : Encodes writeString readString := fun s str rest h => by
  obtain ⟨len, s₁, hlen, h₁⟩ := ok_of_bind_ok h
  obtain ⟨bytes, s₂, hbytes, h₂⟩ := ok_of_bind_ok h₁
  rw [encodes_readU64 s len s₁ hlen, readBytes_ok hbytes]
  split at h₂
  · obtain ⟨rfl, rfl⟩ := Prod.mk.inj (Except.ok.inj h₂)
    rw [writeString, List.append_assoc]
    dsimp only
    rw [bytes.length_eq, ofNat_toNat_u64]
  · cases h₂

end IrisMpc.Bincode
