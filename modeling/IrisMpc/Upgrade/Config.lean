import IrisMpc.RustCore

/-!
# The eye of an upgrade configuration (`iris-mpc-upgrade/src/config.rs`)

`Eye::from_str` lowercases the ASCII letters of its argument and accepts
`left` and `right`; anything else is an `Err` that quotes the argument as it
was given. So the parser ignores case, reads back the names the derived
`Debug` prints, and its error names the rejected input (`eyeFromStr_spec`).
-/

namespace IrisMpc.Upgrade

inductive Eye where
  | left
  | right
  deriving DecidableEq, Repr

/-- `u8::to_ascii_lowercase`. -/
def toAsciiLowercaseByte (b : UInt8) : UInt8 :=
  if 65 ≤ b ∧ b ≤ 90 then b + 32 else b

/-- `str::to_ascii_lowercase`, on the bytes of the string. -/
def toAsciiLowercase (s : Bytes) : Bytes := s.map toAsciiLowercaseByte

/-- `"left"` and `"right"`, the strings `from_str` matches after lowercasing. -/
def Eye.lowerName : Eye → Bytes
  | .left => [108, 101, 102, 116]
  | .right => [114, 105, 103, 104, 116]

/-- The derived `Debug`: `Left` and `Right`. -/
def Eye.debug : Eye → Bytes
  | .left => [76, 101, 102, 116]
  | .right => [82, 105, 103, 104, 116]

/-- `"Invalid eye: "`, the start of the message of `from_str`'s `Err`. -/
def invalidEyePrefix : Bytes := [73, 110, 118, 97, 108, 105, 100, 32, 101, 121, 101, 58, 32]

/-- `<Eye as FromStr>::from_str`: the `match` on the lowercased string compares it with
`"left"`, then with `"right"`; the `Err` holds the bytes of the formatted message. -/
def eyeFromStr (s : Bytes) : Except Bytes Eye :=
  if toAsciiLowercase s = Eye.left.lowerName then .ok .left
  else if toAsciiLowercase s = Eye.right.lowerName then .ok .right
  else .error (invalidEyePrefix ++ s)

theorem toAsciiLowercase_debug (e : Eye) : toAsciiLowercase e.debug = e.lowerName := by
  cases e <;> decide

/-- `from_str` accepts exactly the strings that lowercase to an eye's name, in any case, reads
back the name `Debug` prints, and quotes a rejected input in its error. -/
theorem eyeFromStr_spec :
    (∀ s e, eyeFromStr s = .ok e ↔ toAsciiLowercase s = e.lowerName) ∧
    (∀ e, eyeFromStr e.debug = .ok e) ∧
    (∀ s msg, eyeFromStr s = .error msg → msg = invalidEyePrefix ++ s) := by
  have hne : Eye.left.lowerName ≠ Eye.right.lowerName := by decide
  have hok : ∀ s e, eyeFromStr s = .ok e ↔ toAsciiLowercase s = e.lowerName := fun s e => by
    unfold eyeFromStr
    by_cases hl : toAsciiLowercase s = Eye.left.lowerName
    · cases e <;> simp [hl, hne]
    · by_cases hr : toAsciiLowercase s = Eye.right.lowerName
      · cases e <;> simp [hl, hr, hne.symm]
      · cases e <;> simp [hl, hr]
  refine ⟨hok, fun e => (hok _ e).mpr (toAsciiLowercase_debug e), fun s msg h => ?_⟩
  unfold eyeFromStr at h
  split at h
  · cases h
  · split at h
    · cases h
    · exact (Except.error.inj h).symm

end IrisMpc.Upgrade
