import IrisMpc.Sync.Serialize

/-!
# A sync round over every rank

Every rank serializes its own state, and the collective hands every rank the
concatenation of the ranks' records in rank order. Cutting that buffer into
`SERIAL_SIZE` chunks lines up with the record boundaries, and the decoder stops
at the end of each record's encoding, so every rank returns the same list of
all states, its own at its rank.
-/

namespace IrisMpc.Sync

open Bincode

theorem serialSize_pos : 0 < serialSize := by decide

/-- Decoding the concatenated records gives back the states, in rank order. -/
theorem deserializeAll_flatten {states : List SyncState} {bufs : List Bytes}
    (h : List.Forall₂ (fun s buf => serialize s = .ok buf) states bufs) :
    deserializeAll bufs.flatten = .ok states := by
  induction h with
  | nil => rw [deserializeAll, List.flatten_nil, chunks_nil]; rfl
  | cons hs _ ih =>
    rw [deserializeAll] at ih ⊢
    rw [List.flatten_cons, chunks_append serialSize_pos (serialize_length hs), List.mapM_cons,
      deserialize_serialize hs, ih]
    rfl

theorem sync_eq_ok {allGather : Bytes → Except String Bytes} {state : SyncState}
    {buf gathered : Bytes} {states : List SyncState} (hs : serialize state = .ok buf)
    (hg : allGather buf = .ok gathered) (hd : deserializeAll gathered = .ok states) :
    sync allGather state = .ok (SyncResult.new state states) := by
  simp only [sync, hs, hg, hd, bind, Except.bind, Except.mapError]
  rfl

/-- Rank `r` of a round in which every rank serialized its state and the collective delivered
the concatenation of the records. -/
theorem sync_at_rank {states : List SyncState} {bufs : List Bytes}
    (hser : List.Forall₂ (fun s buf => serialize s = .ok buf) states bufs)
    {gather : Nat → Bytes → Except String Bytes}
    (hgather : ∀ r (hr : r < bufs.length), gather r bufs[r] = .ok bufs.flatten)
    {r : Nat} (hr : r < states.length) :
    sync (gather r) states[r] = .ok (SyncResult.new states[r] states) := by
  have hbr : r < bufs.length := hser.length_eq ▸ hr
  exact sync_eq_ok ((List.forall₂_iff_get.mp hser).2 r hr hbr) (hgather r hbr)
    (deserializeAll_flatten hser)

theorem sync_returns_all_states (states : List SyncState) (bufs : List Bytes)
    (hser : List.Forall₂ (fun s buf => serialize s = .ok buf) states bufs)
    (gather : Nat → Bytes → Except String Bytes)
    (hgather : ∀ r (hr : r < bufs.length), gather r bufs[r] = .ok bufs.flatten)
    (r : Nat) (hr : r < states.length) :
    sync (gather r) states[r] = .ok (SyncResult.new states[r] states) :=
  sync_at_rank hser hgather hr

/-- `tests::some_state`: database length 123 and the identifiers `"abc"` and `"def"`. -/
def someState : SyncState :=
  ⟨123, ⟨[⟨[0x61, 0x62, 0x63], by decide, by decide⟩, ⟨[0x64, 0x65, 0x66], by decide, by decide⟩],
    by decide⟩⟩

/-- The late party of `tests::test_out_of_sync`: database length 12, no identifiers. -/
def lateState : SyncState := ⟨12, ⟨[], by decide⟩⟩

theorem sync_returns_all_states_two_ranks :
    List.Forall₂ (fun s buf => serialize s = .ok buf) [someState, lateState]
      [someState.write ++ List.replicate (serialSize - someState.write.length) 0,
        lateState.write ++ List.replicate (serialSize - lateState.write.length) 0] ∧
    sync (fun _ => .ok [someState.write ++ List.replicate (serialSize - someState.write.length) 0,
        lateState.write ++ List.replicate (serialSize - lateState.write.length) 0].flatten)
      lateState = .ok (SyncResult.new lateState [someState, lateState]) :=
  have hser : List.Forall₂ (fun s buf => serialize s = .ok buf) [someState, lateState] _ :=
    .cons rfl (.cons rfl .nil)
  ⟨hser, sync_returns_all_states _ _ hser (fun _ _ => .ok _) (fun _ _ => rfl) 1 (by decide)⟩

end IrisMpc.Sync
