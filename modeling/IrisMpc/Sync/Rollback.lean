import IrisMpc.Sync.Round

/-!
# The rollback decision after a sync round

`SyncResult::must_rollback_storage` lives in `iris_mpc_common::helpers::sync`,
which is not among the sources, and is modelled from the spec. Every rank of a
round holds the same list of all states with its own among them, so every rank
takes the same decision: no rollback when all database lengths agree, and
otherwise a rollback to the least of them, a length every party has reached.
The two configurations of `test_sync` and `test_out_of_sync` are its cases.
-/

namespace IrisMpc.Sync

/-- Modelled from the spec: `SyncResult::must_rollback_storage` (not among the sources). No
target when every state's database length matches the caller's own; otherwise the least
database length of all states. -/
def SyncResult.mustRollbackStorage (r : SyncResult) : Option Nat :=
  if r.allStates.all (·.dbLen = r.myState.dbLen) then none
  else (r.allStates.map (·.dbLen.toNat)).min?

theorem all_eq_own_iff {states : List SyncState} {me : SyncState} (hme : me ∈ states) :
    (∀ s ∈ states, s.dbLen = me.dbLen) ↔ ∀ s ∈ states, ∀ t ∈ states, s.dbLen = t.dbLen :=
  ⟨fun h s hs t ht => (h s hs).trans (h t ht).symm, fun h s hs => h s hs me hme⟩

/-- The decision of a rank whose own state is among all states does not depend on the rank. -/
theorem mustRollbackStorage_new {states : List SyncState} {me : SyncState} (hme : me ∈ states) :
    (SyncResult.new me states).mustRollbackStorage =
      if ∀ s ∈ states, ∀ t ∈ states, s.dbLen = t.dbLen then none
      else (states.map (·.dbLen.toNat)).min? := by
  simp only [SyncResult.mustRollbackStorage, SyncResult.new, List.all_eq_true, decide_eq_true_eq,
    all_eq_own_iff hme]

/-- After a complete round every rank returns, and every rank's decision is the same: no
rollback exactly when all database lengths agree, and otherwise a rollback to the least of
them. -/
theorem sync_round_rollback (states : List SyncState) (bufs : List Bytes)
    (hser : List.Forall₂ (fun s buf => serialize s = .ok buf) states bufs)
    (gather : Nat → Bytes → Except String Bytes)
    (hgather : ∀ r (hr : r < bufs.length), gather r bufs[r] = .ok bufs.flatten)
    (r : Nat) (hr : r < states.length) :
    ∃ res, sync (gather r) states[r] = .ok res ∧
      (res.mustRollbackStorage = none ↔ ∀ s ∈ states, ∀ t ∈ states, s.dbLen = t.dbLen) ∧
      ∀ m, res.mustRollbackStorage = some m ↔
        (∃ s ∈ states, ∃ t ∈ states, s.dbLen ≠ t.dbLen) ∧
          m ∈ states.map (·.dbLen.toNat) ∧ ∀ s ∈ states, m ≤ s.dbLen.toNat := by
  refine ⟨_, sync_at_rank hser hgather hr, ?_⟩
  rw [mustRollbackStorage_new (List.getElem_mem hr)]
  by_cases hall : ∀ s ∈ states, ∀ t ∈ states, s.dbLen = t.dbLen
  · rw [if_pos hall]
    refine ⟨iff_of_true rfl hall, fun m => iff_of_false (by simp) ?_⟩
    rintro ⟨⟨s, hs, t, ht, hne⟩, -⟩
    exact hne (hall s hs t ht)
  · rw [if_neg hall]
    have hne : states.map (·.dbLen.toNat) ≠ [] := by
      simpa only [ne_eq, List.map_eq_nil_iff] using List.ne_nil_of_mem (List.getElem_mem hr)
    have hdis : ∃ s ∈ states, ∃ t ∈ states, s.dbLen ≠ t.dbLen := by
      push_neg at hall
      exact hall
    refine ⟨iff_of_false (by rwa [ne_eq, ← List.min?_eq_none_iff] at hne) hall, fun m => ?_⟩
    rw [List.min?_eq_some_iff', List.forall_mem_map]
    exact ⟨fun h => ⟨hdis, h⟩, fun h => h.2⟩

/-- A record padded to `SERIAL_SIZE`, as `serialize` returns it for the test states. -/
def padded (s : SyncState) : Bytes := s.write ++ List.replicate (serialSize - s.write.length) 0

/-- `test_out_of_sync` at rank 0: databases of lengths 123, 12 and 12 roll back to 12. -/
theorem sync_out_of_sync_rolls_back :
    ∃ res, sync (fun _ => .ok ([someState, lateState, lateState].map padded).flatten) someState =
      .ok res ∧ res.mustRollbackStorage = some 12 := by
  obtain ⟨res, hres, -, hsome⟩ := sync_round_rollback [someState, lateState, lateState] _
    (.cons rfl (.cons rfl (.cons rfl .nil))) (fun _ _ => .ok _) (fun _ _ => rfl) 0 (by decide)
  exact ⟨res, hres, (hsome 12).mpr ⟨⟨someState, by simp, lateState, by simp, by decide⟩,
    by decide, by decide⟩⟩

end IrisMpc.Sync
