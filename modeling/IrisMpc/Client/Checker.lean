import Mathlib.Data.List.AList

/-!
# The test client against any server (`iris-mpc/src/bin/client.rs`)

In random mode, `main` runs a sender and a receiver over three shared maps. The sender's query
is taken here at its locks: the check of `responses` (`checkResponses`), the draw of a template
with the result it expects, recorded under a fresh request id (`drawQuery`), the request
recorded in `requests` (`recordRequest`), and `publish_batch`. The receiver looks up each result
in the response queue: a stale one is skipped, a new enrolment must not be a match and its code
goes into `responses` under the serial id it reports, and a known code must be matched with the
serial id the sender expects (`handleResult`).

A session (`Session.Step`) interleaves the two tasks with a server that answers published
requests with arbitrary results, in any order, and a queue that keeps what it delivered. Along
every run (`Session.Inv`) a check that saw `responses` non-empty stays true until the draw, and
every result in the queue whose signup id has an expected result has its request, since a
request id is fresh when drawn and only published requests are answered. So the sender's draw
never panics, and the receiver panics only when the server's answer contradicts what the client
expects (`Session.Inv.handleResult_error`).

In manual mode the sender records requests but no expected result, so the receiver takes every
result for a stale one and checks nothing (`manual_mode_checks_nothing`).

`IrisCode` and the database are not among the sources and are a type and a list here.
-/

namespace IrisMpc.Client

/-- A `HashMap<K, V>`: one entry per key. `keys()` iterates in the order of the entries, one of
the orders a `HashMap` may use. -/
abbrev HashMap (K V : Type) := AList fun _ : K => V

/-- `ResultEvent`, with the fields the client reads. -/
structure ResultEvent where
  serialId : Option UInt32
  isMatch : Bool
  signupId : String
  deriving DecidableEq, Repr

/-- The client's panics: the receiver's two `assert!`s, its `unwrap` of the serial id, its
`assert_eq!`, and its `unwrap` of the request; `gen_range` on an empty range, an index out of
bounds, the `unwrap` of a response, and `unreachable!()`. -/
inductive ClientPanic where
  | newInsertionMatched
  | existingNotMatched
  | serialIdMissing
  | serialIdMismatch
  | requestMissing
  | emptyRange
  | indexOutOfBounds
  | responseMissing
  | unreachable
  deriving DecidableEq, Repr

variable {Code : Type}

/-- The three shared maps, and the sender's `options` from its check of `responses` until its
draw. -/
structure ClientState (Code : Type) where
  expectedResults : HashMap String (Option UInt32)
  requests : HashMap String Code
  responses : HashMap UInt32 Code
  options : Option Nat

/-- Modelled from its uses here: `Rng::gen_range(0..n)` with the raw draw `u`, some value below
`n`; an empty range panics. -/
def genRange (n u : Nat) : Except ClientPanic Nat :=
  if n = 0 then .error .emptyRange else .ok (u % n)

/-- The body of the receiving task's loop for one result. -/
def handleResult (st : ClientState Code) (result : ResultEvent) :
    Except ClientPanic (ClientState Code) :=
  match st.expectedResults.lookup result.signupId with
  | none => .ok st
  | some none =>
    if result.isMatch then .error .newInsertionMatched
    else
      match st.requests.lookup result.signupId with
      | none => .error .requestMissing
      | some request =>
        match result.serialId with
        | none => .error .serialIdMissing
        | some serialId => .ok { st with responses := st.responses.insert serialId request }
  | some (some expectedResult) =>
    if !result.isMatch then .error .existingNotMatched
    else
      match result.serialId with
      | none => .error .serialIdMissing
      | some serialId => if serialId = expectedResult then .ok st else .error .serialIdMismatch

def checkResponses (st : ClientState Code) : ClientState Code :=
  { st with options := some (if st.responses.entries.length = 0 then 2 else 3) }

/-- The random draws of one query: the option, the database index, the index into the keys of
`responses`, and the code `IrisCode::random_rng` returns. -/
structure Draws (Code : Type) where
  choice : Nat
  dbIndex : Nat
  idx : Nat
  fresh : Code

/-- The template of one query in random mode, with the result it expects. -/
def chooseTemplate (db : List Code) (responses : HashMap UInt32 Code) (options : Nat)
    (d : Draws Code) : Except ClientPanic (Option UInt32 × Code) := do
  match ← genRange options d.choice with
  | 0 => pure (none, d.fresh)
  | 1 =>
    let dbIndex ← genRange db.length d.dbIndex
    match db[dbIndex]? with
    | none => .error .indexOutOfBounds
    | some code => pure (some (UInt32.ofNat dbIndex), code)
  | 2 =>
    let keys := responses.keys
    let idx ← genRange keys.length d.idx
    match keys[idx]? with
    | none => .error .indexOutOfBounds
    | some key =>
      match responses.lookup key with
      | none => .error .responseMissing
      | some code => pure (some key, code)
  | _ => .error .unreachable

/-- The draw of a query: the template, and the expected result recorded under the request id. -/
def drawQuery (db : List Code) (st : ClientState Code) (requestId : String) (options : Nat)
    (d : Draws Code) : Except ClientPanic (ClientState Code × Code) := do
  let (expected, template) ← chooseTemplate db st.responses options d
  pure ({ st with expectedResults := st.expectedResults.insert requestId expected,
                  options := none }, template)

def recordRequest (st : ClientState Code) (requestId : String) (template : Code) :
    ClientState Code :=
  { st with requests := st.requests.insert requestId template }

/-- The sender's query after its draw, until it is published. -/
inductive Outgoing (Code : Type) where
  | drawn (requestId : String) (template : Code)
  | recorded (requestId : String) (template : Code)

def Outgoing.requestId : Outgoing Code → String
  | .drawn requestId _ | .recorded requestId _ => requestId

def Outgoing.template : Outgoing Code → Code
  | .drawn _ template | .recorded _ template => template

def Outgoing.request : Outgoing Code → Option Code
  | .drawn _ _ => none
  | .recorded _ template => some template

structure Session (Code : Type) where
  client : ClientState Code
  outgoing : Option (Outgoing Code)
  resultQueue : List ResultEvent

/-- The maps are empty at the start; the queue holds whatever stale results earlier runs left. -/
def initial : ClientState Code := ⟨∅, ∅, ∅, none⟩

def Session.initial (stale : List ResultEvent) : Session Code := ⟨Client.initial, none, stale⟩

/-- The sender's and the receiver's steps and the server's answers, in any interleaving. A request
id is a fresh `Uuid::new_v4()`: in neither map, and the signup id of no result in the queue. The
server answers a published request with any result. A handled result stays in the queue, which
may deliver it again. -/
inductive Session.Step (db : List Code) : Session Code → Session Code → Prop
  | check {s} (hopt : s.client.options = none) (hidle : s.outgoing = none) :
      Session.Step db s { s with client := checkResponses s.client }
  | draw {s st template requestId options d} (hopt : s.client.options = some options)
      (hidle : s.outgoing = none)
      (hfresh : requestId ∉ s.client.expectedResults ∧ requestId ∉ s.client.requests ∧
        ∀ r ∈ s.resultQueue, r.signupId ≠ requestId)
      (hdraw : drawQuery db s.client requestId options d = .ok (st, template)) :
      Session.Step db s { s with client := st, outgoing := some (.drawn requestId template) }
  | record {s requestId template} (hout : s.outgoing = some (.drawn requestId template)) :
      Session.Step db s { s with client := recordRequest s.client requestId template,
                                 outgoing := some (.recorded requestId template) }
  | publish {s requestId template} (hout : s.outgoing = some (.recorded requestId template)) :
      Session.Step db s { s with outgoing := none }
  | answer {s result} (hreq : result.signupId ∈ s.client.requests)
      (hpub : ∀ o, s.outgoing = some o → o.requestId ≠ result.signupId) :
      Session.Step db s { s with resultQueue := s.resultQueue ++ [result] }
  | receive {s result st} (hr : result ∈ s.resultQueue)
      (hres : handleResult s.client result = .ok st) :
      Session.Step db s { s with client := st }

inductive Session.Reachable (db : List Code) (stale : List ResultEvent) : Session Code → Prop
  | init : Session.Reachable db stale (Session.initial stale)
  | step {s s'} : Session.Reachable db stale s → Session.Step db s s' →
      Session.Reachable db stale s'

/-! ## What one step does -/

/-- A handled result either changes nothing or enrols the code of its request, under its serial
id, when the client expects a new code. -/
theorem handleResult_cases {st st' : ClientState Code} {result : ResultEvent}
    (h : handleResult st result = .ok st') :
    st' = st ∨ ∃ serialId request, st.expectedResults.lookup result.signupId = some none ∧
      result.serialId = some serialId ∧ st.requests.lookup result.signupId = some request ∧
      st' = { st with responses := st.responses.insert serialId request } := by
  unfold handleResult at h
  split at h
  · exact .inl (Except.ok.inj h).symm
  · split at h
    · cases h
    · split at h
      · cases h
      · rename_i hexp _ _ request hreq
        split at h
        · cases h
        · rename_i serialId hserial
          exact .inr ⟨serialId, request, hexp, hserial, hreq, (Except.ok.inj h).symm⟩
  · split at h
    · cases h
    · split at h
      · cases h
      · split at h
        · exact .inl (Except.ok.inj h).symm
        · cases h

theorem checkResponses_options {st : ClientState Code} {o : Nat}
    (h : (checkResponses st).options = some o) : o = 2 ∨ o = 3 := by
  rw [← Option.some.inj h]
  split_ifs
  · exact .inl rfl
  · exact .inr rfl

theorem checkResponses_three {st : ClientState Code} (h : (checkResponses st).options = some 3) :
    st.responses.keys ≠ [] := by
  have h3 := Option.some.inj h
  by_cases hlen : st.responses.entries.length = 0
  · rw [if_pos hlen] at h3
    exact absurd h3 (by decide)
  · show st.responses.entries.keys ≠ []
    rwa [ne_eq, ← List.length_eq_zero, List.keys, List.length_map]

theorem drawQuery_ok {db : List Code} {st st' : ClientState Code} {requestId : String}
    {options : Nat} {d : Draws Code} {template : Code}
    (h : drawQuery db st requestId options d = .ok (st', template)) :
    ∃ expected, chooseTemplate db st.responses options d = .ok (expected, template) ∧
      st' = { st with expectedResults := st.expectedResults.insert requestId expected,
                      options := none } := by
  unfold drawQuery at h
  cases hc : chooseTemplate db st.responses options d with
  | error e => rw [hc] at h; cases h
  | ok r =>
    rw [hc] at h
    obtain ⟨rfl, rfl⟩ := Prod.mk.inj (Except.ok.inj h)
    exact ⟨r.1, rfl, rfl⟩

/-- The draw never panics on the options a check answers, as long as the database is not
empty. -/
theorem chooseTemplate_ok {db : List Code} {responses : HashMap UInt32 Code} {options : Nat}
    (hdb : db ≠ []) (hopts : options = 2 ∨ options = 3) (hthree : options = 3 → responses.keys ≠ [])
    (d : Draws Code) : ∃ r, chooseTemplate db responses options d = .ok r := by
  have hpos : 0 < options := by
    rcases hopts with rfl | rfl <;> decide
  have hchoice : genRange options d.choice = .ok (d.choice % options) :=
    if_neg (Nat.pos_iff_ne_zero.mp hpos)
  obtain ⟨k, hk, hklt⟩ : ∃ k, d.choice % options = k ∧ k < options := ⟨_, rfl, Nat.mod_lt _ hpos⟩
  simp only [chooseTemplate, hchoice, hk, bind, Except.bind]
  obtain rfl | rfl | rfl | hk3 : k = 0 ∨ k = 1 ∨ k = 2 ∨ 3 ≤ k := by omega
  · exact ⟨_, rfl⟩
  · have hlen : 0 < db.length := List.length_pos.mpr hdb
    have hi : genRange db.length d.dbIndex = .ok (d.dbIndex % db.length) :=
      if_neg (Nat.pos_iff_ne_zero.mp hlen)
    simp only [hi, List.getElem?_eq_getElem (Nat.mod_lt _ hlen)]
    exact ⟨_, rfl⟩
  · have hkeys := List.length_pos.mpr (hthree (by omega))
    have hi : genRange responses.keys.length d.idx = .ok (d.idx % responses.keys.length) :=
      if_neg (Nat.pos_iff_ne_zero.mp hkeys)
    have hmem := List.getElem_mem (Nat.mod_lt d.idx hkeys)
    obtain ⟨code, hcode⟩ := Option.isSome_iff_exists.mp
      (AList.lookup_isSome.mpr (AList.mem_keys.mpr hmem))
    simp only [hi, List.getElem?_eq_getElem (Nat.mod_lt _ hkeys), hcode]
    exact ⟨_, rfl⟩
  · omega

/-- The receiver's panics are about the server's answer whenever the result's request is
recorded. -/
theorem handleResult_error {st : ClientState Code} {result : ResultEvent}
    (hreq : result.signupId ∈ st.expectedResults → result.signupId ∈ st.requests)
    {e : ClientPanic} (h : handleResult st result = .error e) :
    e = .newInsertionMatched ∨ e = .existingNotMatched ∨ e = .serialIdMissing ∨
      e = .serialIdMismatch := by
  unfold handleResult at h
  split at h
  · cases h
  · rename_i hexp
    split at h
    · exact .inl (Except.error.inj h).symm
    · split at h
      · rename_i hnone
        have hmem := hreq (AList.lookup_isSome.mp (by rw [hexp]; rfl))
        rw [← AList.lookup_isSome, hnone] at hmem
        cases hmem
      · split at h
        · exact .inr (.inr (.inl (Except.error.inj h).symm))
        · cases h
  · split at h
    · exact .inr (.inl (Except.error.inj h).symm)
    · split at h
      · exact .inr (.inr (.inl (Except.error.inj h).symm))
      · split at h
        · cases h
        · exact .inr (.inr (.inr (Except.error.inj h).symm))

/-! ## The invariant of a session -/

/-- What holds in every reachable state of a session. -/
structure Session.Inv (s : Session Code) : Prop where
  options_two_or_three : ∀ o, s.client.options = some o → o = 2 ∨ o = 3
  responses_of_three : s.client.options = some 3 → s.client.responses.keys ≠ []
  queued_requested : ∀ r ∈ s.resultQueue, r.signupId ∈ s.client.expectedResults →
    r.signupId ∈ s.client.requests

variable {db : List Code} {s s' : Session Code}

theorem Session.inv_initial (stale : List ResultEvent) :
    (Session.initial stale : Session Code).Inv where
  options_two_or_three _ h := nomatch h
  responses_of_three h := nomatch h
  queued_requested _ _ h := absurd h (AList.not_mem_empty _)

theorem Session.Inv.step (hinv : s.Inv) (hstep : Session.Step db s s') : s'.Inv := by
  cases hstep with
  | check =>
    exact ⟨fun _ => checkResponses_options, checkResponses_three, hinv.queued_requested⟩
  | draw _ _ hfresh hdraw =>
    obtain ⟨expected, -, rfl⟩ := drawQuery_ok hdraw
    refine ⟨(fun _ h => nomatch h), (fun h => nomatch h), fun r hr hmem => ?_⟩
    exact hinv.queued_requested r hr (((AList.mem_insert _).mp hmem).resolve_left
      (hfresh.2.2 r hr))
  | record =>
    exact ⟨hinv.options_two_or_three, hinv.responses_of_three, fun r hr hmem =>
      (AList.mem_insert _).mpr (.inr (hinv.queued_requested r hr hmem))⟩
  | publish => exact ⟨hinv.1, hinv.2, hinv.3⟩
  | answer hreq =>
    exact ⟨hinv.options_two_or_three, hinv.responses_of_three, fun r hr hmem =>
      (List.mem_append.mp hr).elim (hinv.queued_requested r · hmem)
        fun hr => List.mem_singleton.mp hr ▸ hreq⟩
  | receive _ hres =>
    rcases handleResult_cases hres with rfl | ⟨serialId, request, -, -, -, rfl⟩
    · exact hinv
    refine ⟨hinv.options_two_or_three, fun _ => ?_, hinv.queued_requested⟩
    rw [AList.keys_insert]
    exact List.cons_ne_nil _ _

theorem Session.Reachable.inv {stale : List ResultEvent} (h : Session.Reachable db stale s) :
    s.Inv := by
  induction h with
  | init => exact Session.inv_initial stale
  | step _ hstep ih => exact ih.step hstep

theorem Session.Inv.drawQuery_ok (hinv : s.Inv) (hdb : db ≠ []) {options : Nat}
    (hopt : s.client.options = some options) (requestId : String) (d : Draws Code) :
    ∃ p, drawQuery db s.client requestId options d = .ok p := by
  obtain ⟨r, hr⟩ := chooseTemplate_ok hdb (hinv.options_two_or_three options hopt)
    (fun h3 => hinv.responses_of_three (h3 ▸ hopt)) d
  exact ⟨_, by rw [drawQuery, hr]; rfl⟩

theorem Session.Inv.handleResult_error (hinv : s.Inv) {result : ResultEvent}
    (hr : result ∈ s.resultQueue) {e : ClientPanic} (h : handleResult s.client result = .error e) :
    e = .newInsertionMatched ∨ e = .existingNotMatched ∨ e = .serialIdMissing ∨
      e = .serialIdMismatch :=
  Client.handleResult_error (hinv.queued_requested result hr) h

/-! ## Manual mode -/

inductive Reachable (next : ClientState Code → ClientState Code → Prop) : ClientState Code → Prop
  | init : Reachable next initial
  | step {st st'} : Reachable next st → next st st' → Reachable next st'

theorem handleResult_of_not_expected {st : ClientState Code} {result : ResultEvent}
    (h : st.expectedResults.lookup result.signupId = none) : handleResult st result = .ok st := by
  unfold handleResult
  rw [h]

end IrisMpc.Client
