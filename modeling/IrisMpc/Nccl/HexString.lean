import IrisMpc.Nccl.IdWrapper

/-!
# The hex string form of an NCCL `Id`

Casting `i8` to `u8` and back is the identity on the bits, and `hex::decode`
inverts `hex::encode`, so `from_str` reads back every `Id` that `Display`
wrote, and on 256 lowercase digits the two directions are inverse bijections.
`from_str` succeeds exactly on 256 hex digits of either case; on every other
string it panics, in `unwrap` on a non-digit or an odd length and in
`copy_from_slice` on a decoded length other than 128. It never returns `Err`.
The two copies of `IdWrapper` compute the same functions.
-/

namespace IrisMpc

open Hex

variable {α : Type}

theorem map_asI8_asU8 (l : List Int8) : (l.map asU8).map asI8 = l := by
  simp only [List.map_map]
  exact List.map_id l

theorem idFromStr_of_decode {s : RString} {decoded : List UInt8}
    (h : decode s.bytes = .ok decoded) (hlen : decoded.length = 128) :
    idFromStr s = .ok (.ok ⟨⟨decoded.map asI8, by rw [List.length_map, hlen]⟩⟩) := by
  have hcopy : copyFromSlice zeroInternal (decoded.map asI8) =
      .ok ⟨decoded.map asI8, by rw [List.length_map, hlen]⟩ :=
    dif_pos (by rw [List.length_map, hlen])
  rw [idFromStr, h]
  show (copyFromSlice zeroInternal (decoded.map asI8)).bind _ = _
  rw [hcopy]
  rfl

theorem idFromStr_of_decode_error {s : RString} {e : FromHexError} (h : decode s.bytes = .error e) :
    idFromStr s = .error (.unwrap e) := by
  rw [idFromStr, h]
  rfl

theorem idFromStr_of_length_ne {s : RString} {decoded : List UInt8}
    (h : decode s.bytes = .ok decoded) (hlen : decoded.length ≠ 128) :
    idFromStr s = .error (.copyFromSlice 128 decoded.length) := by
  have hcopy : copyFromSlice zeroInternal (decoded.map asI8) =
      .error (.copyFromSlice 128 decoded.length) := by
    rw [copyFromSlice, dif_neg (by rwa [List.length_map]), List.length_map]
    rfl
  rw [idFromStr, h]
  show (copyFromSlice zeroInternal (decoded.map asI8)).bind _ = _
  rw [hcopy]
  rfl

/-! ## Round trips -/

theorem idFromStr_idToStr (id : Id) : idFromStr (idToStr id) = .ok (.ok id) := by
  obtain ⟨⟨l, hl⟩⟩ := id
  have hlen : (l.map asU8).length = 128 := by rw [List.length_map, hl]
  rw [idFromStr_of_decode (decode_encode _) hlen]
  simp only [map_asI8_asU8]

/-- On 256 lowercase digits, `from_str` succeeds and `Display` gives the string back. -/
theorem idFromStr_lower {s : RString} (hlen : s.bytes.length = 256)
    (hmem : ∀ c ∈ s.bytes, c ∈ hexCharsLower) :
    ∃ id, idFromStr s = .ok (.ok id) ∧ idToStr id = s := by
  obtain ⟨bytes, hdec, henc⟩ := decodePairs_lower s.bytes 0 (by omega) hmem
  have hdecode : decode s.bytes = .ok bytes := by
    rw [decode, if_neg (by omega), hdec]
  have hbytes : bytes.length = 128 := by
    have := decode_length hdecode
    omega
  refine ⟨_, idFromStr_of_decode hdecode hbytes, RString.ext ?_⟩
  show encode ((bytes.map asI8).map asU8) = s.bytes
  rw [List.map_map]
  exact (congrArg encode (List.map_id bytes)).trans henc

/-! ## What `from_str` accepts -/

theorem idFromStr_ok_iff (s : RString) :
    (∃ id, idFromStr s = .ok (.ok id)) ↔ s.bytes.length = 256 ∧ ∀ c ∈ s.bytes, IsHexDigit c := by
  constructor
  · rintro ⟨id, hid⟩
    cases hdec : decode s.bytes with
    | error e => rw [idFromStr_of_decode_error hdec] at hid; cases hid
    | ok decoded =>
      by_cases hlen : decoded.length = 128
      · have hdigits := ((decode_ok_iff s.bytes).mp ⟨decoded, hdec⟩).2
        have := decode_length hdec
        exact ⟨by omega, hdigits⟩
      · rw [idFromStr_of_length_ne hdec hlen] at hid; cases hid
  · rintro ⟨hlen, hdigits⟩
    obtain ⟨decoded, hdec⟩ := (decode_ok_iff s.bytes).mpr ⟨by omega, hdigits⟩
    have := decode_length hdec
    exact ⟨_, idFromStr_of_decode hdec (by omega)⟩

/-- `from_str` returns `Ok` or panics: in `unwrap`, or in `copy_from_slice` on a decoded length
other than 128. -/
theorem idFromStr_cases (s : RString) :
    (∃ id, idFromStr s = .ok (.ok id)) ∨ (∃ e, idFromStr s = .error (.unwrap e)) ∨
      ∃ n ≠ 128, idFromStr s = .error (.copyFromSlice 128 n) := by
  cases hdec : decode s.bytes with
  | error e => exact .inr (.inl ⟨e, idFromStr_of_decode_error hdec⟩)
  | ok decoded =>
    by_cases hlen : decoded.length = 128
    · exact .inl ⟨_, idFromStr_of_decode hdec hlen⟩
    · exact .inr (.inr ⟨_, hlen, idFromStr_of_length_ne hdec hlen⟩)

theorem idFromStr_unwrap {s : RString}
    (h : ¬ (s.bytes.length % 2 = 0 ∧ ∀ c ∈ s.bytes, IsHexDigit c)) :
    ∃ e, idFromStr s = .error (.unwrap e) := by
  cases hdec : decode s.bytes with
  | error e => exact ⟨e, idFromStr_of_decode_error hdec⟩
  | ok decoded => exact absurd ((decode_ok_iff s.bytes).mp ⟨decoded, hdec⟩) h

theorem idFromStr_copyFromSlice {s : RString}
    (h : s.bytes.length % 2 = 0 ∧ ∀ c ∈ s.bytes, IsHexDigit c) (hlen : s.bytes.length ≠ 256) :
    idFromStr s = .error (.copyFromSlice 128 (s.bytes.length / 2)) := by
  obtain ⟨decoded, hdec⟩ := (decode_ok_iff s.bytes).mpr h
  have := decode_length hdec
  rw [show s.bytes.length / 2 = decoded.length by omega]
  exact idFromStr_of_length_ne hdec (by omega)

/-! ## The two copies -/

theorem map_idFromStr_ok_iff {β : Type} (mk : Id → β) (s : RString) :
    (∃ w, (fun r => r.map mk) <$> idFromStr s = .ok (.ok w)) ↔ ∃ id, idFromStr s = .ok (.ok id) := by
  constructor
  · rintro ⟨w, hw⟩
    rcases idFromStr_cases s with ⟨id, h⟩ | ⟨p, h⟩ | ⟨n, -, h⟩ <;> rw [h] at hw
    · exact ⟨id, h⟩
    all_goals cases hw
  · rintro ⟨id, h⟩
    exact ⟨mk id, by rw [h]; rfl⟩

theorem map_idFromStr_ne_error {β : Type} (mk : Id → β) (s : RString) (e : String) :
    (fun r => r.map mk) <$> idFromStr s ≠ .ok (.error e) := by
  rcases idFromStr_cases s with ⟨id, h⟩ | ⟨p, h⟩ | ⟨n, -, h⟩ <;> rw [h] <;> nofun

theorem idWrapper_hex_roundtrip :
    (∀ id : Id, Helpers.IdWrapper.fromStr (Helpers.IdWrapper.fmt ⟨id⟩) = .ok (.ok ⟨id⟩)) ∧
    (∀ id : Id, Nccl.IdWrapper.fromStr (Nccl.IdWrapper.toString ⟨id⟩) = .ok (.ok ⟨id⟩)) ∧
    (∀ s : RString, s.bytes.length = 256 → (∀ c ∈ s.bytes, c ∈ hexCharsLower) →
      ∃ id : Id, Helpers.IdWrapper.fromStr s = .ok (.ok ⟨id⟩) ∧ Helpers.IdWrapper.fmt ⟨id⟩ = s ∧
        Nccl.IdWrapper.fromStr s = .ok (.ok ⟨id⟩) ∧ Nccl.IdWrapper.toString ⟨id⟩ = s) ∧
    (∀ s : RString, (fun r => r.map Helpers.IdWrapper.id) <$> Helpers.IdWrapper.fromStr s =
      (fun r => r.map Nccl.IdWrapper.id) <$> Nccl.IdWrapper.fromStr s) ∧
    (∀ id : Id, Helpers.IdWrapper.fmt ⟨id⟩ = Nccl.IdWrapper.toString ⟨id⟩) := by
  refine ⟨fun id => ?_, fun id => ?_, fun s hlen hmem => ?_, fun s => ?_, fun _ => rfl⟩
  · rw [Helpers.IdWrapper.fromStr, Helpers.IdWrapper.fmt, idFromStr_idToStr]; rfl
  · rw [Nccl.IdWrapper.fromStr, Nccl.IdWrapper.toString, idFromStr_idToStr]; rfl
  · obtain ⟨id, hid, hstr⟩ := idFromStr_lower hlen hmem
    refine ⟨id, ?_, hstr, ?_, hstr⟩
    · rw [Helpers.IdWrapper.fromStr, hid]; rfl
    · rw [Nccl.IdWrapper.fromStr, hid]; rfl
  · rw [Helpers.IdWrapper.fromStr, Nccl.IdWrapper.fromStr]
    cases idFromStr s with
    | error p => rfl
    | ok r => cases r <;> rfl

theorem idWrapper_fromStr_ok_or_panic (s : RString) :
    ((∃ w, Helpers.IdWrapper.fromStr s = .ok (.ok w)) ↔
      s.bytes.length = 256 ∧ ∀ c ∈ s.bytes, IsHexDigit c) ∧
    ((∃ w, Nccl.IdWrapper.fromStr s = .ok (.ok w)) ↔
      s.bytes.length = 256 ∧ ∀ c ∈ s.bytes, IsHexDigit c) ∧
    (∀ e, Helpers.IdWrapper.fromStr s ≠ .ok (.error e) ∧ Nccl.IdWrapper.fromStr s ≠ .ok (.error e)) ∧
    (¬ (s.bytes.length % 2 = 0 ∧ ∀ c ∈ s.bytes, IsHexDigit c) →
      ∃ e, Helpers.IdWrapper.fromStr s = .error (.unwrap e) ∧
        Nccl.IdWrapper.fromStr s = .error (.unwrap e)) ∧
    (s.bytes.length % 2 = 0 ∧ (∀ c ∈ s.bytes, IsHexDigit c) → s.bytes.length ≠ 256 →
      Helpers.IdWrapper.fromStr s = .error (.copyFromSlice 128 (s.bytes.length / 2)) ∧
        Nccl.IdWrapper.fromStr s = .error (.copyFromSlice 128 (s.bytes.length / 2))) := by
  refine ⟨(map_idFromStr_ok_iff _ s).trans (idFromStr_ok_iff s),
    (map_idFromStr_ok_iff _ s).trans (idFromStr_ok_iff s),
    fun e => ⟨map_idFromStr_ne_error _ s e, map_idFromStr_ne_error _ s e⟩,
    fun h => ?_, fun h hlen => ?_⟩
  · obtain ⟨e, he⟩ := idFromStr_unwrap h
    exact ⟨e, by rw [Helpers.IdWrapper.fromStr, he]; rfl, by rw [Nccl.IdWrapper.fromStr, he]; rfl⟩
  · have hc := idFromStr_copyFromSlice h hlen
    exact ⟨by rw [Helpers.IdWrapper.fromStr, hc]; rfl, by rw [Nccl.IdWrapper.fromStr, hc]; rfl⟩

/-- The empty string and `"zz"` make both copies of `from_str` panic. -/
theorem idWrapper_fromStr_panics :
    Helpers.IdWrapper.fromStr ⟨[], by decide, rfl⟩ = .error (.copyFromSlice 128 0) ∧
    Nccl.IdWrapper.fromStr ⟨[], by decide, rfl⟩ = .error (.copyFromSlice 128 0) ∧
    Helpers.IdWrapper.fromStr ⟨[0x7A, 0x7A], by decide, rfl⟩ =
      .error (.unwrap (.invalidHexCharacter 'z' 0)) ∧
    Nccl.IdWrapper.fromStr ⟨[0x7A, 0x7A], by decide, rfl⟩ =
      .error (.unwrap (.invalidHexCharacter 'z' 0)) :=
  ⟨rfl, rfl, rfl, rfl⟩

end IrisMpc
