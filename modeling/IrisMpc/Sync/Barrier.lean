import IrisMpc.Sync.Rollback

/-!
# A sync round is a barrier

`sync` is collective: NCCL's `all_gather` returns at a rank only once every rank
of the communicator has called it. A rank whose state does not fit in
`SERIAL_SIZE` returns its error from `serialize` before the collective and never
joins it, so every rank whose state fits waits in `all_gather`. `syncRound`
gives the outcome of one round at a rank from the states all ranks hold.

The round completes exactly when every state fits (`syncRound_eq`), and within
the limits the constants name every state does.
-/

namespace IrisMpc.Sync

/-- What one rank sees of a sync round. -/
inductive RankOutcome where
  /-- `sync` returned. -/
  | returned (r : Except Report SyncResult)
  /-- The rank waits in `all_gather` for a rank that never calls it. -/
  | waiting
  deriving Repr

/-- Modelled from the spec (all parties contribute their state before any proceeds) and from
NCCL's `all_gather`: the outcome of a round at the rank holding `me`, when the ranks hold
`states`. The collective delivers the concatenation of every rank's buffer once every rank has
called it, and no rank serialized a buffer then fails to call it. -/
def syncRound (states : List SyncState) (me : SyncState) : RankOutcome :=
  match states.mapM serialize with
  | .ok bufs => .returned (sync (fun _ => .ok bufs.flatten) me)
  | .error _ =>
    match serialize me with
    | .error e => .returned (.error e)
    | .ok _ => .waiting

/-- `collect` into a `Result<Vec<_>>` gives `bs` exactly when each element maps to its
counterpart in `bs`. -/
theorem mapM_eq_ok_iff {ε α β : Type} {f : α → Except ε β} :
    ∀ {l : List α} {bs : List β}, l.mapM f = .ok bs ↔ List.Forall₂ (fun a b => f a = .ok b) l bs
  | [], bs => by
    rw [List.mapM_nil, List.forall₂_nil_left_iff]
    exact ⟨fun h => (Except.ok.inj h).symm, fun h => h ▸ rfl⟩
  | a :: l, bs => by
    rw [List.mapM_cons, List.forall₂_cons_left_iff]
    cases ha : f a with
    | error e => exact ⟨nofun, fun ⟨_, _, h, _⟩ => nomatch h⟩
    | ok b =>
      cases hl : l.mapM f with
      | error e =>
        refine ⟨nofun, fun ⟨_, u, _, hu, _⟩ => ?_⟩
        rw [← mapM_eq_ok_iff, hl] at hu
        cases hu
      | ok u =>
        simp only [bind, Except.bind, pure, Except.pure, Except.ok.injEq, ← mapM_eq_ok_iff, hl]
        constructor
        · rintro rfl
          exact ⟨b, u, rfl, rfl, rfl⟩
        · rintro ⟨_, _, rfl, rfl, rfl⟩
          rfl

theorem isOk_of_forall₂ {states : List SyncState} {bufs : List Bytes}
    (h : List.Forall₂ (fun s buf => serialize s = .ok buf) states bufs) :
    ∀ s ∈ states, (serialize s).isOk := by
  induction h with
  | nil => exact nofun
  | cons hs _ ih => exact List.forall_mem_cons.mpr ⟨by rw [hs]; rfl, ih⟩

/-- The outcome at every rank: all ranks return every state when all states fit; otherwise a
rank whose state fits waits, and a rank whose state does not returns the error. -/
theorem syncRound_eq (states : List SyncState) (r : Nat) (hr : r < states.length) :
    syncRound states states[r] =
      if ∀ s ∈ states, s.write.length ≤ serialSize then
        .returned (.ok (SyncResult.new states[r] states))
      else if states[r].write.length ≤ serialSize then .waiting
      else .returned (.error (.msg "State too large to serialize")) := by
  by_cases hall : ∀ s ∈ states, s.write.length ≤ serialSize
  · have hser : List.Forall₂ (fun s buf => serialize s = .ok buf) states (states.map padded) :=
      List.forall₂_map_right_iff.mpr
        (List.forall₂_same.mpr fun s hs => (serialize_eq_ok_iff s _).mpr ⟨hall s hs, rfl⟩)
    have hme : serialize states[r] = .ok (padded states[r]) :=
      (serialize_eq_ok_iff _ _).mpr ⟨hall _ (List.getElem_mem hr), rfl⟩
    rw [syncRound, mapM_eq_ok_iff.mpr hser, if_pos hall]
    exact congrArg _ (@sync_eq_ok (fun _ => .ok _) _ _ _ _ hme rfl (deserializeAll_flatten hser))
  · have herr : ∀ bufs, states.mapM serialize ≠ .ok bufs := fun bufs h =>
      hall fun s hs => (serialize_isOk_iff s).mp (isOk_of_forall₂ (mapM_eq_ok_iff.mp h) s hs)
    cases hm : states.mapM serialize with
    | ok bufs => exact absurd hm (herr bufs)
    | error e =>
      rw [syncRound, hm, if_neg hall, serialize_eq]
      dsimp only
      by_cases hme : states[r].write.length ≤ serialSize
      · rw [if_neg (Nat.not_lt.mpr hme), if_pos hme]
      · rw [if_pos (Nat.not_le.mp hme), if_neg hme]

/-- The round at every rank: all ranks return every state when all states fit, and a rank whose
state fits otherwise waits in the collective, while one whose state does not returns the error.
Within the limits the constants name every state fits, so the round completes. -/
theorem sync_round_barrier (states : List SyncState) (r : Nat) (hr : r < states.length) :
    syncRound states states[r] =
      (if ∀ s ∈ states, s.write.length ≤ serialSize then
        .returned (.ok (SyncResult.new states[r] states))
      else if states[r].write.length ≤ serialSize then .waiting
      else .returned (.error (.msg "State too large to serialize"))) ∧
    ((∀ s ∈ states, s.deletedRequestIds.toList.length ≤ maxRequests ∧
      ∀ id ∈ s.deletedRequestIds.toList, id.bytes.length ≤ maxRequestIdLen) →
      syncRound states states[r] = .returned (.ok (SyncResult.new states[r] states))) := by
  refine ⟨syncRound_eq states r hr, fun hlim => ?_⟩
  have hall : ∀ s ∈ states, s.write.length ≤ serialSize := fun s hs =>
    (serialize_isOk_iff s).mp (serialize_isOk_of_limits s (hlim s hs).1 (hlim s hs).2)
  rw [syncRound_eq states r hr, if_pos hall]

/-- The three ranks of `test_out_of_sync` complete their round: rank 1 returns all states. -/
theorem sync_round_barrier_out_of_sync :
    1 < [someState, lateState, lateState].length ∧
    (∀ s ∈ [someState, lateState, lateState],
      s.deletedRequestIds.toList.length ≤ maxRequests ∧
        ∀ id ∈ s.deletedRequestIds.toList, id.bytes.length ≤ maxRequestIdLen) ∧
    syncRound [someState, lateState, lateState] lateState =
      .returned (.ok (SyncResult.new lateState [someState, lateState, lateState])) :=
  ⟨by decide, by decide, (sync_round_barrier [someState, lateState, lateState] 1 (by decide)).2
    (by decide)⟩

end IrisMpc.Sync
