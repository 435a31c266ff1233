import IrisMpc.Nccl.HexString

/-!
# Exchanging the NCCL ids over HTTP (`bin/nccl.rs`)

The host (party 0) creates one `Id` per device and serves the hex form of id
`i` at the path `/i`; the node (party 1) requests `/i` for every device `i`,
parses the body with `IdWrapper::from_str` and builds its communicator with
the result. `helpers/id_wrapper.rs` serves ids the same way (`http_root`).
The path segment is `usize::from_str`'s input, and the request path is
`usize`'s decimal form. HTTP is modelled as handing over the path and the
body unchanged.

The host answers exactly the paths that `usize::from_str` reads as a device
index (`root_ok_iff`), and panics on every other path. The node ends up with
exactly the host's ids, device by device (`exchangeIds_eq`): the decimal form
parses back to the device index, and `from_str` reads back what `to_string`
wrote.
-/

namespace IrisMpc

inductive IntErrorKind where
  | empty
  | invalidDigit
  | posOverflow
  deriving DecidableEq, Repr

/-- The digit loop of `from_str_radix` in radix 10 with overflow checks: an invalid digit is
reported before an overflow at the same position. -/
def parseDigits : Bytes → Nat → Except IntErrorKind Nat
  | [], result => .ok result
  | c :: cs, result =>
    if 48 ≤ c.toNat ∧ c.toNat ≤ 57 then
      if result * 10 + (c.toNat - 48) < 2 ^ 64 then parseDigits cs (result * 10 + (c.toNat - 48))
      else .error .posOverflow
    else .error .invalidDigit

/-- `<usize as FromStr>::from_str`: a lone sign is an invalid digit, a leading `+` is skipped,
and a `-` is left to the digit loop, which refuses it. -/
def parseUsize : Bytes → Except IntErrorKind Nat
  | [] => .error .empty
  | c :: rest =>
    if (c = 43 ∨ c = 45) ∧ rest = [] then .error .invalidDigit
    else if c = 43 then parseDigits rest 0
    else parseDigits (c :: rest) 0

def fmtUsize (n : Nat) : Bytes :=
  if n < 10 then [UInt8.ofNat (48 + n)] else fmtUsize (n / 10) ++ [UInt8.ofNat (48 + n % 10)]
termination_by n
decreasing_by omega

def IsDecDigit (c : UInt8) : Prop := 48 ≤ c.toNat ∧ c.toNat ≤ 57

instance (c : UInt8) : Decidable (IsDecDigit c) := inferInstanceAs (Decidable (_ ∧ _))

/-- The value of the decimal digits `ds` read after the value `r`. -/
def decValue (ds : Bytes) (r : Nat) : Nat := ds.foldl (fun acc c => acc * 10 + (c.toNat - 48)) r

/-- The panics of the exchange: `unwrap` of a failed `parse` of the device index, an index past
the served ids, and a panic inside `IdWrapper::from_str` or on the `Err` it returns. -/
inductive ExchangePanic where
  | parse (err : IntErrorKind)
  | index (len idx : Nat)
  | fromStr (p : Panic)
  | fromStrErr (msg : String)
  deriving DecidableEq

/-- The body of `root` (`bin/nccl.rs`) and of `http_root` (`helpers/id_wrapper.rs`): parse the
device index, look it up, write the id as hex. -/
def serveId (toStr : Id → RString) (ids : List Id) (deviceId : Bytes) :
    Except ExchangePanic RString := do
  let deviceId ← (parseUsize deviceId).mapError .parse
  match ids[deviceId]? with
  | some id => pure (toStr id)
  | none => throw (.index ids.length deviceId)

def root (commId : RVec Id) (deviceId : Bytes) : Except ExchangePanic RString :=
  serveId (fun id => Nccl.IdWrapper.toString ⟨id⟩) commId.toList deviceId

def httpRoot (ids : RVec Id) (deviceId : Bytes) : Except ExchangePanic RString :=
  serveId (fun id => Helpers.IdWrapper.fmt ⟨id⟩) ids.toList deviceId

/-- The node's id for device `i` in `main` of `bin/nccl.rs`: request `/i` and parse the body. -/
def nodeId (get : Bytes → Except ExchangePanic RString) (i : Nat) : Except ExchangePanic Id := do
  let text ← get (fmtUsize i)
  match Nccl.IdWrapper.fromStr text with
  | .ok (.ok w) => pure w.id
  | .ok (.error msg) => throw (.fromStrErr msg)
  | .error p => throw (.fromStr p)

/-- The ids of the `n` devices of party `partyId` in `main`: the host's own, or those the node
fetches from the host's `root`. -/
def exchangeIds (commId : RVec Id) (partyId n : Nat) : Except ExchangePanic (List Id) :=
  if partyId = 0 then pure (commId.toList.take n)
  else (List.range n).mapM (nodeId (root commId))

/-! ## Decimal numbers -/

theorem parseDigits_append (l₁ l₂ : Bytes) (r : Nat) :
    parseDigits (l₁ ++ l₂) r = (parseDigits l₁ r).bind (parseDigits l₂) := by
  induction l₁ generalizing r with
  | nil => rfl
  | cons c cs ih =>
    simp only [List.cons_append, parseDigits]
    split
    · split
      · exact ih _
      · rfl
    · rfl

theorem toNat_digit {d : Nat} (hd : d < 10) : (UInt8.ofNat (48 + d)).toNat = 48 + d :=
  UInt8.toNat_ofNat_of_lt (by show 48 + d < 256; omega)

theorem parseDigits_digit {d : Nat} (hd : d < 10) (r : Nat) (h : r * 10 + d < 2 ^ 64) :
    parseDigits [UInt8.ofNat (48 + d)] r = .ok (r * 10 + d) := by
  simp only [parseDigits, toNat_digit hd, Nat.add_sub_cancel_left]
  rw [if_pos (by omega), if_pos h]

theorem parseDigits_fmtUsize (n : Nat) (hn : n < 2 ^ 64) : parseDigits (fmtUsize n) 0 = .ok n := by
  induction n using fmtUsize.induct with
  | case1 n h =>
    rw [fmtUsize, if_pos h, parseDigits_digit h 0 (by omega), Nat.zero_mul, Nat.zero_add]
  | case2 n h ih =>
    rw [fmtUsize, if_neg h, parseDigits_append, ih (by omega), Except.bind,
      parseDigits_digit (Nat.mod_lt _ (by decide)) _ (by omega), Nat.div_add_mod']

theorem fmtUsize_head (n : Nat) : ∃ d rest, fmtUsize n = d :: rest ∧ d ≠ 43 ∧ d ≠ 45 := by
  induction n using fmtUsize.induct with
  | case1 n h =>
    refine ⟨_, [], by rw [fmtUsize, if_pos h], fun he => ?_, fun he => ?_⟩
    · have hn : 48 + n = 43 := (toNat_digit h).symm.trans (congrArg UInt8.toNat he)
      omega
    · have hn : 48 + n = 45 := (toNat_digit h).symm.trans (congrArg UInt8.toNat he)
      omega
  | case2 n h ih =>
    obtain ⟨d, rest, hfmt, hd⟩ := ih
    exact ⟨d, rest ++ _, by rw [fmtUsize, if_neg h, hfmt, List.cons_append], hd⟩

theorem parseUsize_fmtUsize (n : Nat) (hn : n < 2 ^ 64) : parseUsize (fmtUsize n) = .ok n := by
  obtain ⟨d, rest, hfmt, h43, h45⟩ := fmtUsize_head n
  rw [hfmt, parseUsize, if_neg (by tauto), if_neg h43, ← hfmt, parseDigits_fmtUsize n hn]

/-! ## What `usize::from_str` accepts -/

theorem le_decValue (ds : Bytes) (r : Nat) : r ≤ decValue ds r := by
  induction ds generalizing r with
  | nil => exact Nat.le_refl r
  | cons c cs ih => exact (show r ≤ r * 10 + (c.toNat - 48) by omega).trans (ih _)

theorem parseDigits_ok_iff (ds : Bytes) {r n : Nat} (hr : r < 2 ^ 64) :
    parseDigits ds r = .ok n ↔ (∀ c ∈ ds, IsDecDigit c) ∧ decValue ds r = n ∧ n < 2 ^ 64 := by
  induction ds generalizing r with
  | nil =>
    simp only [parseDigits, decValue, List.foldl_nil, List.not_mem_nil, Except.ok.injEq]
    exact ⟨fun h => ⟨fun _ h => h.elim, h, h ▸ hr⟩, fun h => h.2.1⟩
  | cons c cs ih =>
    have hstep : decValue (c :: cs) r = decValue cs (r * 10 + (c.toNat - 48)) := rfl
    simp only [parseDigits, List.mem_cons, forall_eq_or_imp, hstep]
    split
    · rename_i hc
      split
      · rename_i hfit
        rw [ih hfit]
        exact ⟨fun h => ⟨⟨hc, h.1⟩, h.2⟩, fun h => ⟨h.1.2, h.2⟩⟩
      · rename_i hfit
        have := le_decValue cs (r * 10 + (c.toNat - 48))
        exact ⟨(fun h => nomatch h), fun ⟨_, hv, hn⟩ => absurd (hv ▸ hn) (by omega)⟩
    · rename_i hc
      exact ⟨(fun h => nomatch h), fun h => absurd h.1.1 hc⟩

/-- `usize::from_str` accepts exactly a nonempty string of decimal digits, after at most one
`+`, whose value fits in 64 bits, and returns that value. -/
theorem parseUsize_ok_iff (s : Bytes) (n : Nat) :
    parseUsize s = .ok n ↔ ∃ ds, (s = ds ∨ s = 43 :: ds) ∧ ds ≠ [] ∧
      (∀ c ∈ ds, IsDecDigit c) ∧ decValue ds 0 = n ∧ n < 2 ^ 64 := by
  have h0 : (0 : Nat) < 2 ^ 64 := Nat.two_pow_pos 64
  have hsign : ∀ c : UInt8, c = 43 ∨ c = 45 → ¬ IsDecDigit c := by
    rintro _ (rfl | rfl) <;> decide
  cases s with
  | nil =>
    refine ⟨(fun h => nomatch h), ?_⟩
    rintro ⟨ds, hs | hs, hne, -⟩
    · exact (hne hs.symm).elim
    · cases hs
  | cons c rest =>
    rw [parseUsize]
    by_cases hlone : (c = 43 ∨ c = 45) ∧ rest = []
    · rw [if_pos hlone]
      obtain ⟨hc, rfl⟩ := hlone
      refine ⟨(fun h => nomatch h), ?_⟩
      rintro ⟨ds, hs | hs, hne, hd, -⟩
      · exact (hsign c hc (hd c (hs ▸ .head _))).elim
      · exact (hne (List.cons.inj hs).2.symm).elim
    · rw [if_neg hlone]
      by_cases hplus : c = 43
      · subst hplus
        rw [if_pos rfl, parseDigits_ok_iff rest h0]
        constructor
        · exact fun h => ⟨rest, .inr rfl, fun he => hlone ⟨.inl rfl, he⟩, h⟩
        · rintro ⟨ds, hs | hs, -, h⟩
          · exact (hsign 43 (.inl rfl) (h.1 43 (hs ▸ .head _))).elim
          · exact (List.cons.inj hs).2 ▸ h
      · rw [if_neg hplus, parseDigits_ok_iff (c :: rest) h0]
        constructor
        · exact fun h => ⟨c :: rest, .inl rfl, List.cons_ne_nil _ _, h⟩
        · rintro ⟨ds, hs | hs, -, h⟩
          · exact hs ▸ h
          · exact absurd (List.cons.inj hs).1 hplus

/-! ## The exchange -/

theorem serveId_fmtUsize (toStr : Id → RString) (ids : RVec Id) {i : Nat}
    (hi : i < ids.toList.length) :
    serveId toStr ids.toList (fmtUsize i) = .ok (toStr ids.toList[i]) := by
  simp only [serveId, parseUsize_fmtUsize i (hi.trans ids.length_lt), Except.mapError, bind,
    Except.bind, List.getElem?_eq_getElem hi]
  rfl

theorem serveId_ok_iff (toStr : Id → RString) (ids : List Id) (path : Bytes) (text : RString) :
    serveId toStr ids path = .ok text ↔
      ∃ i, parseUsize path = .ok i ∧ ∃ h : i < ids.length, text = toStr ids[i] := by
  unfold serveId
  cases hp : parseUsize path with
  | error e => exact ⟨(fun h => nomatch h), fun ⟨_, h, _⟩ => nomatch h⟩
  | ok i =>
    simp only [Except.mapError, bind, Except.bind, Except.ok.injEq, exists_eq_left']
    cases hi : ids[i]? with
    | none =>
      rw [List.getElem?_eq_none_iff] at hi
      exact ⟨(fun h => nomatch h), fun ⟨h, _⟩ => absurd h (by omega)⟩
    | some id =>
      obtain ⟨h, rfl⟩ := List.getElem?_eq_some_iff.mp hi
      exact ⟨fun he => ⟨h, (Except.ok.inj he).symm⟩, fun ⟨_, he⟩ => congrArg _ he.symm⟩

/-- The host's `root` answers a path exactly when the path is a nonempty string of decimal
digits, after at most one `+`, whose value is a device index, and then with the hex form of
that device's id; on every other path it panics. -/
theorem root_ok_iff (commId : RVec Id) (path : Bytes) (text : RString) :
    root commId path = .ok text ↔
      ∃ ds i, (path = ds ∨ path = 43 :: ds) ∧ ds ≠ [] ∧ (∀ c ∈ ds, IsDecDigit c) ∧
        decValue ds 0 = i ∧ ∃ h : i < commId.toList.length,
          text = Nccl.IdWrapper.toString ⟨commId.toList[i]⟩ := by
  rw [root, serveId_ok_iff]
  constructor
  · rintro ⟨i, hp, h, rfl⟩
    obtain ⟨ds, hs, hne, hd, hv, -⟩ := (parseUsize_ok_iff path i).mp hp
    exact ⟨ds, i, hs, hne, hd, hv, h, rfl⟩
  · rintro ⟨ds, i, hs, hne, hd, hv, h, rfl⟩
    exact ⟨i, (parseUsize_ok_iff path i).mpr ⟨ds, hs, hne, hd, hv, h.trans commId.length_lt⟩, h,
      rfl⟩

theorem nodeId_root (commId : RVec Id) {i : Nat} (hi : i < commId.toList.length) :
    nodeId (root commId) i = .ok commId.toList[i] := by
  have hparse : Nccl.IdWrapper.fromStr (Nccl.IdWrapper.toString ⟨commId.toList[i]⟩) =
      .ok (.ok ⟨commId.toList[i]⟩) := by
    rw [Nccl.IdWrapper.fromStr, Nccl.IdWrapper.toString, idFromStr_idToStr]
    rfl
  simp only [nodeId, root, serveId_fmtUsize _ commId hi, bind, Except.bind, hparse]
  rfl

theorem mapM_range_eq_ok {ε β : Type} (f : Nat → Except ε β) (l : List β)
    (h : ∀ i (hi : i < l.length), f i = .ok l[i]) : (List.range l.length).mapM f = .ok l := by
  induction l using List.reverseRecOn with
  | nil => rfl
  | append_singleton l x ih =>
    have hl : (List.range l.length).mapM f = .ok l := ih fun i hi => by
      rw [h i (by rw [List.length_append]; omega), List.getElem_append_left hi]
    have hx : f l.length = .ok x := by
      rw [h _ (by simp), List.getElem_append_right (Nat.le_refl _)]
      simp
    rw [List.length_append, List.length_singleton, List.range_succ, List.mapM_append, hl,
      List.mapM_cons, List.mapM_nil, hx]
    rfl

/-- Both parties end up with the host's ids, device by device: the host takes its own, and the
node reads back every id the host serves. -/
theorem exchangeIds_eq (commId : RVec Id) (partyId : Nat) :
    exchangeIds commId partyId commId.toList.length = .ok commId.toList := by
  unfold exchangeIds
  split
  · rw [List.take_length]
    rfl
  · exact mapM_range_eq_ok _ _ fun i hi => nodeId_root commId hi

end IrisMpc
