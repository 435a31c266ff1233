import IrisMpc.Bincode.Laws

/-!
# Exchanging `SyncState` between parties (`server/sync_nccl.rs`)

Each party pads the bincode encoding of its `SyncState` with zeros to the fixed
`SERIAL_SIZE`, NCCL's `all_gather` concatenates the parties' buffers in rank
order, and every party cuts the result back into `SERIAL_SIZE` chunks and
decodes each. `SyncState` and `SyncResult` live in
`iris_mpc_common::helpers::sync`, which is not among the sources; their fields
are taken from the spec and from the literals in this file's tests.

The device copies around the collective (`htod_copy`, `alloc_zeros`,
`dtoh_sync_copy`, each unwrapped) are the accelerator boundary and are taken to
succeed; `sync` receives the collective as `allGather`, which answers with the
gathered buffer or NCCL's error.
-/

namespace IrisMpc.Sync

open Bincode

/-- Modelled from the spec: `SyncState` (not among the sources), the database length and the
deleted request identifiers, serialized in this order. -/
structure SyncState where
  dbLen : UInt64
  deletedRequestIds : RVec RString
  deriving DecidableEq, Repr

/-- Modelled from the spec: `SyncResult` (not among the sources), the caller's own state and the
states of all parties. -/
structure SyncResult where
  myState : SyncState
  allStates : List SyncState
  deriving DecidableEq, Repr

/-- Modelled from the spec: `SyncResult::new`. -/
def SyncResult.new (myState : SyncState) (allStates : List SyncState) : SyncResult :=
  ⟨myState, allStates⟩

namespace SyncState

/-- `bincode::serialize` of the derived `Serialize`: the fields in order. -/
def write (s : SyncState) : Bytes :=
  writeU64 s.dbLen ++ writeVec writeString s.deletedRequestIds

/-- The derived `Deserialize` on bincode's deserializer. -/
def read : Reader SyncState := do
  let dbLen ← readU64
  let deletedRequestIds ← readVec readString
  pure ⟨dbLen, deletedRequestIds⟩

end SyncState

/-- The `eyre::Report`s of `sync`: a bincode error passed up by `?`, or a message. -/
inductive Report where
  | bincode (e : ErrorKind)
  | msg (text : String)
  deriving DecidableEq, Repr

/-- `MAX_REQUESTS`. -/
def maxRequests : Nat := 256 * 2

/-- `MAX_REQUEST_ID_LEN`, the length of a uuidv4 string. -/
def maxRequestIdLen : Nat := 36

/-- `SERIAL_SIZE`, with `size_of::<usize>() = 8`. -/
def serialSize : Nat := maxRequests * (8 + maxRequestIdLen) + 2 * 8

/-- `serialize`: the bincode encoding padded with zeros to `SERIAL_SIZE`, or an error when it
does not fit. -/
def serialize (state : SyncState) : Except Report Bytes :=
  let stateSer := state.write
  if stateSer.length > serialSize then .error (.msg "State too large to serialize")
  else .ok (stateSer ++ List.replicate (serialSize - stateSer.length) 0)

/-- `deserialize`: `bincode::deserialize`, which ignores the padding. -/
def deserialize (stateSer : Bytes) : Except Report SyncState :=
  (Bincode.deserialize SyncState.read stateSer).mapError .bincode

/-- `deserialize_all`: every `SERIAL_SIZE` chunk decoded, stopping at the first error. -/
def deserializeAll (stateSer : Bytes) : Except Report (List SyncState) :=
  (chunks serialSize stateSer).mapM deserialize

/-- `sync`: serialize, gather every party's buffer, decode them all. -/
def sync (allGather : Bytes → Except String Bytes) (state : SyncState) :
    Except Report SyncResult := do
  let stateDev ← serialize state
  let allStatesSer ← (allGather stateDev).mapError .msg
  let allStates ← deserializeAll allStatesSer
  pure (SyncResult.new state allStates)

end IrisMpc.Sync
