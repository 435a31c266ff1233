import IrisMpc.RustCore

/-!
# Decrypting a party's iris share (`helpers/smpc_request.rs`)

`decrypt_iris_share` decodes the base64 share, opens the sealed box with the
current key pair and, when that fails, with the previous one, then reads the
plaintext as UTF-8 JSON. The base64 engine, the sealed box and the JSON
parser are libraries and are parameters here; `String::from_utf8` is
`runUtf8Validation`.

Every failed open ends as `SealedBoxOpenError`: the `Err(_)` arm after the
fallback also catches the `PreviousKeyNotFound` built when there is no
previous key pair, and whatever error the sealed box gives. So
`decrypt_iris_share` returns only four of the errors
(`decryptIrisShare_error`).
-/

namespace IrisMpc.Smpc

/-- Modelled from its uses here: `SharesDecodingError` (`helpers::key_pair`, not among the
sources), the variants `smpc_request.rs` builds; `E` is the JSON parser's error. The `reqwest`
error inside `RequestError` is left out. -/
inductive SharesDecodingError (E : Type) where
  | base64DecodeError
  | previousKeyNotFound
  | sealedBoxOpenError
  | decodedShareParsingToUTF8Error
  | serdeError (err : E)
  | requestError
  | secretStringNotFound
  | responseContent (status : UInt16) (url : String) (message : String)
  deriving DecidableEq, Repr

/-- Modelled from its uses here: `SharesEncryptionKeyPairs` (`helpers::key_pair`, not among the
sources). -/
structure SharesEncryptionKeyPairs (K : Type) where
  currentKeyPair : K
  previousKeyPair : Option K

/-- `String::from_utf8`, without the details of its error. -/
def fromUtf8 (bytes : RVec UInt8) : Option RString :=
  if h : runUtf8Validation bytes.toList = true then some ⟨bytes.toList, bytes.length_lt, h⟩
  else none

section Decrypt

variable {K E J : Type} (b64Decode : Bytes → Option (RVec UInt8))
  (openSealedBox : K → RVec UInt8 → Except (SharesDecodingError E) (RVec UInt8))
  (fromStr : RString → Except E J)

/-- `decrypted` in `decrypt_iris_share`: the current key pair, then the previous one. -/
def openShare (keyPairs : SharesEncryptionKeyPairs K) (shareBytes : RVec UInt8) :
    Except (SharesDecodingError E) (RVec UInt8) :=
  match openSealedBox keyPairs.currentKeyPair shareBytes with
  | .ok bytes => .ok bytes
  | .error _ =>
    match (match keyPairs.previousKeyPair with
      | some keyPair => openSealedBox keyPair shareBytes
      | none => .error .previousKeyNotFound) with
    | .ok bytes => .ok bytes
    | .error _ => .error .sealedBoxOpenError

/-- `UniquenessRequest::decrypt_iris_share`. -/
def decryptIrisShare (share : RString) (keyPairs : SharesEncryptionKeyPairs K) :
    Except (SharesDecodingError E) J := do
  let shareBytes ← match b64Decode share.bytes with
    | some bytes => pure bytes
    | none => throw .base64DecodeError
  match openShare openSealedBox keyPairs shareBytes with
  | .ok bytes =>
    let jsonString ← match fromUtf8 bytes with
      | some s => pure s
      | none => throw .decodedShareParsingToUTF8Error
    (fromStr jsonString).mapError .serdeError
  | .error e => throw e

variable {b64Decode openSealedBox fromStr}

theorem openShare_error {keyPairs : SharesEncryptionKeyPairs K} {shareBytes : RVec UInt8}
    {e : SharesDecodingError E} (h : openShare openSealedBox keyPairs shareBytes = .error e) :
    e = .sealedBoxOpenError := by
  unfold openShare at h
  split at h
  · cases h
  · split at h
    · cases h
    · exact (Except.error.inj h).symm

theorem decryptIrisShare_eq (share : RString) (keyPairs : SharesEncryptionKeyPairs K) :
    decryptIrisShare b64Decode openSealedBox fromStr share keyPairs =
      match b64Decode share.bytes with
      | none => .error .base64DecodeError
      | some shareBytes =>
        match openShare openSealedBox keyPairs shareBytes with
        | .error e => .error e
        | .ok bytes =>
          match fromUtf8 bytes with
          | none => .error .decodedShareParsingToUTF8Error
          | some s => (fromStr s).mapError .serdeError := by
  unfold decryptIrisShare
  cases b64Decode share.bytes with
  | none => rfl
  | some shareBytes =>
    simp only [pure_bind]
    cases openShare openSealedBox keyPairs shareBytes with
    | error e => rfl
    | ok bytes => dsimp only; cases fromUtf8 bytes <;> rfl

/-- `decrypt_iris_share` fails only with these four errors: never with `PreviousKeyNotFound`,
and never with an error of the sealed box itself. -/
theorem decryptIrisShare_error (share : RString) (keyPairs : SharesEncryptionKeyPairs K)
    (e : SharesDecodingError E)
    (h : decryptIrisShare b64Decode openSealedBox fromStr share keyPairs = .error e) :
    e = .base64DecodeError ∨ e = .sealedBoxOpenError ∨ e = .decodedShareParsingToUTF8Error ∨
      ∃ err, e = .serdeError err := by
  rw [decryptIrisShare_eq] at h
  split at h
  · exact .inl (Except.error.inj h).symm
  · split at h
    · rename_i e' heq
      exact .inr (.inl ((Except.error.inj h).symm.trans (openShare_error heq)))
    · split at h
      · exact .inr (.inr (.inl (Except.error.inj h).symm))
      · cases hs : fromStr _ with
        | error err => rw [hs] at h; exact .inr (.inr (.inr ⟨err, (Except.error.inj h).symm⟩))
        | ok j => rw [hs] at h; cases h

/-- A current key pair whose sealed box fails with `PreviousKeyNotFound`, and no previous key
pair: the error is `SealedBoxOpenError`. -/
theorem decryptIrisShare_error_without_previous_key :
    @decryptIrisShare Unit Unit Unit (fun _ => some ⟨[], by decide⟩)
        (fun _ _ => .error .previousKeyNotFound) (fun _ => .ok ()) ⟨[], by decide, rfl⟩ ⟨(), none⟩ =
      .error .sealedBoxOpenError ∧
    ((SharesDecodingError.sealedBoxOpenError : SharesDecodingError Unit) = .base64DecodeError ∨
      (SharesDecodingError.sealedBoxOpenError : SharesDecodingError Unit) = .sealedBoxOpenError ∨
      (SharesDecodingError.sealedBoxOpenError : SharesDecodingError Unit) =
        .decodedShareParsingToUTF8Error ∨
      ∃ err, (SharesDecodingError.sealedBoxOpenError : SharesDecodingError Unit) = .serdeError err) :=
  ⟨rfl, @decryptIrisShare_error Unit Unit Unit (fun _ => some ⟨[], by decide⟩)
    (fun _ _ => .error .previousKeyNotFound) (fun _ => .ok ()) ⟨[], by decide, rfl⟩ ⟨(), none⟩
    .sealedBoxOpenError rfl⟩

end Decrypt

end IrisMpc.Smpc
