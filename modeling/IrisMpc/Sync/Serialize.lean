import IrisMpc.Sync.SyncNccl
import IrisMpc.Bincode.Accepts

/-!
# The fixed-size `SyncState` record

The bincode encoding of a state is sixteen bytes of length fields plus, for
every identifier, an eight-byte length and its bytes. `serialize` accepts a
state exactly when that fits in `SERIAL_SIZE`, and then always returns
`SERIAL_SIZE` bytes, so the records of all parties can be concatenated and cut
apart again without a length prefix. Decoding a record ignores its padding.
-/

namespace IrisMpc.Sync

open Bincode Reader

theorem SyncState.write_length (s : SyncState) :
    s.write.length = 16 + (s.deletedRequestIds.toList.map fun id => 8 + id.bytes.length).sum := by
  simp only [SyncState.write, writeVec, List.length_append, writeU64_length, writeSeq_length,
    writeString_length]
  omega

theorem serialize_eq (s : SyncState) : serialize s =
    if s.write.length > serialSize then .error (.msg "State too large to serialize")
    else .ok (s.write ++ List.replicate (serialSize - s.write.length) 0) := rfl

theorem serialize_eq_ok_iff (s : SyncState) (buf : Bytes) :
    serialize s = .ok buf ↔
      s.write.length ≤ serialSize ∧ buf = s.write ++ List.replicate (serialSize - s.write.length) 0 := by
  rw [serialize_eq]
  by_cases h : s.write.length > serialSize
  · simp only [if_pos h, reduceCtorEq, false_iff, not_and]
    exact fun hle => absurd hle (by omega)
  · simp only [if_neg h, Except.ok.injEq]
    exact ⟨fun hb => ⟨by omega, hb.symm⟩, fun hb => hb.2.symm⟩

theorem serialize_isOk_iff (s : SyncState) :
    (serialize s).isOk ↔ s.write.length ≤ serialSize := by
  rw [serialize_eq]
  by_cases h : s.write.length > serialSize
  · simp only [if_pos h, Except.isOk, Except.toBool, Bool.false_eq_true, false_iff]
    omega
  · simp only [if_neg h, Except.isOk, Except.toBool, true_iff]
    omega

theorem serialize_length {s : SyncState} {buf : Bytes} (h : serialize s = .ok buf) :
    buf.length = serialSize := by
  obtain ⟨hle, rfl⟩ := (serialize_eq_ok_iff s buf).mp h
  simp only [List.length_append, List.length_replicate]
  omega

theorem idLengths_le {ids : List RString} (h : ∀ id ∈ ids, id.bytes.length ≤ maxRequestIdLen) :
    (ids.map fun id => 8 + id.bytes.length).sum ≤ ids.length * (8 + maxRequestIdLen) := by
  induction ids with
  | nil => simp
  | cons id ids ih =>
    have hid := h id (List.mem_cons_self id ids)
    have hids := ih fun j hj => h j (List.mem_cons_of_mem id hj)
    simp only [List.map_cons, List.sum_cons, List.length_cons, Nat.succ_mul]
    omega

/-- Every state within the limits the constants name fits. -/
theorem serialize_isOk_of_limits (s : SyncState)
    (hcount : s.deletedRequestIds.toList.length ≤ maxRequests)
    (hlen : ∀ id ∈ s.deletedRequestIds.toList, id.bytes.length ≤ maxRequestIdLen) :
    (serialize s).isOk := by
  rw [serialize_isOk_iff, SyncState.write_length, serialSize]
  have hsum := idLengths_le hlen
  have hmul := Nat.mul_le_mul_right (8 + maxRequestIdLen) hcount
  omega

theorem serialize_fixed_size (s : SyncState) :
    s.write.length = 16 + (s.deletedRequestIds.toList.map fun id => 8 + id.bytes.length).sum ∧
    ((serialize s).isOk ↔ s.write.length ≤ serialSize) ∧
    (∀ buf, serialize s = .ok buf →
      buf = s.write ++ List.replicate (serialSize - s.write.length) 0 ∧ buf.length = serialSize) ∧
    (s.deletedRequestIds.toList.length ≤ maxRequests →
      (∀ id ∈ s.deletedRequestIds.toList, id.bytes.length ≤ maxRequestIdLen) →
      (serialize s).isOk) :=
  ⟨s.write_length, serialize_isOk_iff s,
    fun buf h => ⟨((serialize_eq_ok_iff s buf).mp h).2, serialize_length h⟩,
    serialize_isOk_of_limits s⟩

/-! ## Reading a record back -/

theorem SyncState.decodes_read : Decodes SyncState.write SyncState.read := fun s rest => by
  rw [SyncState.read, SyncState.write, List.append_assoc, bind_of_ok (decodes_readU64 _ _),
    bind_of_ok (decodes_readVec decodes_readString _ _)]
  rfl

theorem deserialize_serialize {s : SyncState} {buf : Bytes} (h : serialize s = .ok buf) :
    deserialize buf = .ok s := by
  obtain ⟨-, rfl⟩ := (serialize_eq_ok_iff s buf).mp h
  rw [deserialize, Bincode.deserialize, SyncState.decodes_read s]
  rfl

theorem SyncState.encodes_read : Encodes SyncState.write SyncState.read := fun s st rest h => by
  obtain ⟨dbLen, s₁, hdb, h₁⟩ := ok_of_bind_ok h
  obtain ⟨ids, s₂, hids, h₂⟩ := ok_of_bind_ok h₁
  obtain ⟨rfl, rfl⟩ := Prod.mk.inj (Except.ok.inj h₂)
  rw [encodes_readU64 s dbLen s₁ hdb, encodes_readString.readVec s₁ ids s₂ hids,
    SyncState.write, List.append_assoc]

/-- `deserialize` accepts a buffer exactly when it starts with the encoding of the state it
returns. What follows is not looked at: the zero padding `serialize` adds, or any other bytes. -/
theorem deserialize_ok_iff (stateSer : Bytes) (s : SyncState) :
    deserialize stateSer = .ok s ↔ ∃ rest, stateSer = s.write ++ rest := by
  constructor
  · intro h
    cases hr : SyncState.read stateSer with
    | error e =>
      rw [deserialize, Bincode.deserialize, hr] at h
      cases h
    | ok p =>
      rw [deserialize, Bincode.deserialize, hr] at h
      cases h
      exact ⟨p.2, SyncState.encodes_read stateSer p.1 p.2 hr⟩
  · rintro ⟨rest, rfl⟩
    rw [deserialize, Bincode.deserialize, SyncState.decodes_read s rest]
    rfl

end IrisMpc.Sync
