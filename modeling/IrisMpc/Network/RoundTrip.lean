import IrisMpc.Network.Value
import IrisMpc.Bincode.Accepts

/-!
# `from_network` inverts `to_network` and refuses malformed input

The reader of every variant reads back its payload and reads forward, so
`from_network` returns every value `to_network` encodes, and, by
`Decodes.error_of_proper_prefix`, fails on every proper prefix of an encoding.
Input too short for the variant index, or with an index past the ten variants,
fails before any payload is read. Conversely every reader accepts only
encodings, so `from_network` returns `v` exactly on the encoding of `v`
followed by any bytes (`fromNetwork_ok_iff`).
-/

namespace IrisMpc.Network.NetworkValue

open Bincode Reader

theorem forward_readVariant : ∀ idx, Forward (readVariant idx)
  | 0 => (forward_readSeq forward_readU8 16).map _
  | 1 => forward_readU16.map _
  | 2 => forward_readU32.map _
  | 3 => forward_readBool.map _
  | 4 => forward_readU16.map _
  | 5 => forward_readU32.map _
  | 6 => forward_readU64.map _
  | 7 => (forward_readVec (forward_readU16.map _)).map _
  | 8 => (forward_readVec (forward_readU32.map _)).map _
  | 9 => (forward_readVec (forward_readU64.map _)).map _
  | _ + 10 => forward_fail _

theorem forward_read : Forward read :=
  forward_readU32.bind fun idx => forward_readVariant idx.toNat

theorem read_writeU32 (k : UInt32) (payload : Bytes) :
    read (writeU32 k ++ payload) = readVariant k.toNat payload :=
  bind_of_ok (decodes_readU32 k payload) _

theorem decodes_read : Decodes write read := by
  intro v rest
  cases v <;> rw [write, List.append_assoc, read_writeU32]
  case prfKey key =>
    exact map_of_ok (readSeq_writeSeq decodes_readU8 key.toList key.length_eq rest) _
  case ring16 x => exact map_of_ok (decodes_readU16 x.val rest) _
  case ring32 x => exact map_of_ok (decodes_readU32 x.val rest) _
  case ringElementBit x => exact map_of_ok (decodes_readBool x.val.val rest) _
  case ringElement16 x => exact map_of_ok (decodes_readU16 x.val rest) _
  case ringElement32 x => exact map_of_ok (decodes_readU32 x.val rest) _
  case ringElement64 x => exact map_of_ok (decodes_readU64 x.val rest) _
  case vecRing16 xs =>
    exact map_of_ok
      (decodes_readVec (decodes_readU16.map RingElement.val RingElement.mk fun _ => rfl) xs rest) _
  case vecRing32 xs =>
    exact map_of_ok
      (decodes_readVec (decodes_readU32.map RingElement.val RingElement.mk fun _ => rfl) xs rest) _
  case vecRing64 xs =>
    exact map_of_ok
      (decodes_readVec (decodes_readU64.map RingElement.val RingElement.mk fun _ => rfl) xs rest) _

/-- The payload reader of variant `idx` accepts only that variant's payload. -/
theorem encodes_readVariant : ∀ (idx : Nat) (s : Bytes) (v : NetworkValue) (rest : Bytes),
    readVariant idx s = .ok (v, rest) → writeU32 (UInt32.ofNat idx) ++ s = v.write ++ rest
  | 0, s, _, rest, h => by
    obtain ⟨key, hkey, rfl⟩ := ok_of_map_ok h
    rw [encodes_readU8.readSeq s key rest hkey, write, List.append_assoc]
    rfl
  | 1, s, _, rest, h => by
    obtain ⟨x, hx, rfl⟩ := ok_of_map_ok h
    rw [encodes_readU16 s x rest hx, write, List.append_assoc]
    rfl
  | 2, s, _, rest, h => by
    obtain ⟨x, hx, rfl⟩ := ok_of_map_ok h
    rw [encodes_readU32 s x rest hx, write, List.append_assoc]
    rfl
  | 3, s, _, rest, h => by
    obtain ⟨x, hx, rfl⟩ := ok_of_map_ok h
    rw [encodes_readBool s x rest hx, write, List.append_assoc]
    rfl
  | 4, s, _, rest, h => by
    obtain ⟨x, hx, rfl⟩ := ok_of_map_ok h
    rw [encodes_readU16 s x rest hx, write, List.append_assoc]
    rfl
  | 5, s, _, rest, h => by
    obtain ⟨x, hx, rfl⟩ := ok_of_map_ok h
    rw [encodes_readU32 s x rest hx, write, List.append_assoc]
    rfl
  | 6, s, _, rest, h => by
    obtain ⟨x, hx, rfl⟩ := ok_of_map_ok h
    rw [encodes_readU64 s x rest hx, write, List.append_assoc]
    rfl
  | 7, s, _, rest, h => by
    obtain ⟨xs, hxs, rfl⟩ := ok_of_map_ok h
    rw [(encodes_readU16.map RingElement.val RingElement.mk fun _ => rfl).readVec s xs rest hxs,
      write, List.append_assoc]
    rfl
  | 8, s, _, rest, h => by
    obtain ⟨xs, hxs, rfl⟩ := ok_of_map_ok h
    rw [(encodes_readU32.map RingElement.val RingElement.mk fun _ => rfl).readVec s xs rest hxs,
      write, List.append_assoc]
    rfl
  | 9, s, _, rest, h => by
    obtain ⟨xs, hxs, rfl⟩ := ok_of_map_ok h
    rw [(encodes_readU64.map RingElement.val RingElement.mk fun _ => rfl).readVec s xs rest hxs,
      write, List.append_assoc]
    rfl
  | _ + 10, _, _, _, h => nomatch h

theorem encodes_read : Encodes write read := fun s v rest h => by
  obtain ⟨idx, s₁, hidx, hv⟩ := ok_of_bind_ok h
  rw [encodes_readU32 s idx s₁ hidx, ← encodes_readVariant idx.toNat s₁ v rest hv,
    ofNat_toNat_u32]

theorem fromNetwork_ok (bytes : Bytes) : fromNetwork (.ok bytes) =
    ((·.1) <$> read bytes).mapError fun _ => "failed to parse value" := rfl

theorem fromNetwork_toNetwork (v : NetworkValue) : fromNetwork (.ok v.toNetwork) = .ok v := by
  have h := decodes_read v []
  rw [List.append_nil] at h
  rw [fromNetwork_ok, toNetwork, h]
  rfl

/-- `from_network` ignores whatever follows an encoding. -/
theorem fromNetwork_toNetwork_append (v : NetworkValue) (rest : Bytes) :
    fromNetwork (.ok (v.toNetwork ++ rest)) = .ok v := by
  rw [fromNetwork_ok, toNetwork, decodes_read v rest]
  rfl

/-- `from_network` accepts exactly the encodings, whatever follows them: a parsed buffer starts
with the encoding of the value returned. -/
theorem fromNetwork_ok_iff (bytes : Bytes) (v : NetworkValue) :
    fromNetwork (.ok bytes) = .ok v ↔ ∃ rest, bytes = v.toNetwork ++ rest := by
  rw [fromNetwork_ok]
  constructor
  · intro h
    cases hr : read bytes with
    | error e => rw [hr] at h; cases h
    | ok p =>
      rw [hr] at h
      cases h
      exact ⟨p.2, encodes_read bytes p.1 p.2 hr⟩
  · rintro ⟨rest, rfl⟩
    rw [toNetwork, decodes_read v rest]
    rfl

/-- The wire format is self-delimiting: no encoding is a proper prefix of another, and distinct
values have distinct encodings. -/
theorem toNetwork_prefix_free {v w : NetworkValue} {e : Bytes}
    (h : v.toNetwork ++ e = w.toNetwork) : v = w ∧ e = [] := by
  have hv := decodes_read v e
  have hw := decodes_read w []
  rw [List.append_nil] at hw
  rw [show v.write ++ e = w.write from h, hw] at hv
  obtain ⟨hvw, he⟩ := Prod.mk.inj (Except.ok.inj hv)
  exact ⟨hvw.symm, he.symm⟩

theorem toNetwork_prefix_free_ring16 : ring16 ⟨7⟩ = ring16 ⟨7⟩ ∧ ([] : Bytes) = [] :=
  toNetwork_prefix_free (List.append_nil _)

/-! ## Malformed input -/

theorem fromNetwork_of_error {bytes : Bytes} {err : ErrorKind} (h : read bytes = .error err) :
    fromNetwork (.ok bytes) = .error "failed to parse value" := by
  rw [fromNetwork_ok, h]
  rfl

theorem read_of_short {bytes : Bytes} (h : bytes.length < 4) :
    read bytes = .error .unexpectedEof :=
  bind_of_error (bind_of_error (bind_of_error (readBytes_of_lt h) _) _) _

theorem readVariant_of_ge {idx : Nat} (h : 10 ≤ idx) (s : Bytes) :
    ∃ err, readVariant idx s = .error err := by
  obtain ⟨k, rfl⟩ := Nat.exists_eq_add_of_le' h
  exact ⟨_, rfl⟩

theorem read_of_bad_index (b0 b1 b2 b3 : UInt8) (rest : Bytes)
    (h : 10 ≤ b0.toNat + 2 ^ 8 * b1.toNat + 2 ^ 16 * b2.toNat + 2 ^ 24 * b3.toNat) :
    ∃ err, read (b0 :: b1 :: b2 :: b3 :: rest) = .error err := by
  have hidx : readU32 (b0 :: b1 :: b2 :: b3 :: rest) =
      .ok (UInt32.ofNat (leNat [b0, b1, b2, b3]), rest) :=
    map_of_ok (bind_of_ok (readBytes_append [b0, b1, b2, b3] rfl rest) _) _
  have hval : (UInt32.ofNat (leNat [b0, b1, b2, b3])).toNat =
      b0.toNat + 2 ^ 8 * b1.toNat + 2 ^ 16 * b2.toNat + 2 ^ 24 * b3.toNat := by
    have := b0.toNat_lt; have := b1.toNat_lt; have := b2.toNat_lt; have := b3.toNat_lt
    rw [UInt32.toNat_ofNat_of_lt] <;> simp only [leNat, UInt32.size] <;> omega
  rw [read, bind_of_ok hidx, hval]
  exact readVariant_of_ge h rest

theorem fromNetwork_rejects_malformed :
    (∀ (v : NetworkValue) (p e : Bytes), e ≠ [] → p ++ e = v.toNetwork →
      fromNetwork (.ok p) = .error "failed to parse value") ∧
    (∀ buf : Bytes, buf.length < 4 → fromNetwork (.ok buf) = .error "failed to parse value") ∧
    (∀ (b0 b1 b2 b3 : UInt8) (rest : Bytes),
      10 ≤ b0.toNat + 2 ^ 8 * b1.toNat + 2 ^ 16 * b2.toNat + 2 ^ 24 * b3.toNat →
      fromNetwork (.ok (b0 :: b1 :: b2 :: b3 :: rest)) = .error "failed to parse value") := by
  refine ⟨fun v p e he hp => ?_, fun buf h => fromNetwork_of_error (read_of_short h),
    fun b0 b1 b2 b3 rest h => ?_⟩
  · obtain ⟨err, herr⟩ := decodes_read.error_of_proper_prefix forward_read he hp
    exact fromNetwork_of_error herr
  · obtain ⟨err, herr⟩ := read_of_bad_index b0 b1 b2 b3 rest h
    exact fromNetwork_of_error herr

end IrisMpc.Network.NetworkValue
