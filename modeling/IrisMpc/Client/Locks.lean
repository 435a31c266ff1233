import IrisMpc.Client.Checker

/-!
# The client's two tasks at their locks (`iris-mpc/src/bin/client.rs`)

`expected_results`, `requests` and `responses` are `tokio` mutexes. Most critical sections take
one lock and release it within the statement, and are single steps of a session. Two hold a lock
while they take another. In arm 2 of the draw the sender holds `responses` while it takes
`expected_results` (`Tasks.holding`), and for a new enrolment the receiver holds
`expected_results` while it takes `requests` and then `responses` (`Tasks.receiving`). A task
takes no step while it waits for a lock the other holds.

Every run of the two tasks is a session run, each step a step of the session or none
(`lock_steps_refine_session`). So what the session guarantees holds at the locks: the sender's draw
never panics, the receiver panics only on the server's answer, and a receiver in the middle of an
enrolment finds its request (`client_panics_only_on_answers`). The two tasks take the locks in
opposite orders, though, and can deadlock: the sender in arm 2 holds `responses` and waits for
`expected_results`, which the receiver holds while it waits for `responses`. That state is
reached once a fresh code is enrolled and a second one answered, and from it neither task moves
again (`client_can_deadlock`).
-/

namespace IrisMpc.Client

variable {Code : Type}

/-- Where the receiver is within one result: idle, or holding `expected_results` for a new
enrolment, before and after it reads the request. -/
inductive Receiving (Code : Type) where
  | idle
  | enrolling (result : ResultEvent)
  | enrollingWith (result : ResultEvent) (request : Code)

def Receiving.enrolment : Receiving Code → Option ResultEvent
  | .idle => none
  | .enrolling result | .enrollingWith result _ => some result

structure Tasks (Code : Type) where
  session : Session Code
  /-- Arm 2 of a draw, from `responses.lock()` until `expected_results.insert`: the request id,
  the options and the draws. -/
  holding : Option (String × Nat × Draws Code)
  receiving : Receiving Code

def Tasks.initial (stale : List ResultEvent) : Tasks Code := ⟨Session.initial stale, none, .idle⟩

/-- The steps of the two tasks and the server, each taking the locks its source statement takes.
The check and arms 0 and 1 of the draw take one lock for one statement; arm 2 locks `responses`
(`lockResponses`) and then `expected_results` (`insertExpected`). The receiver handles a stale
result or a known code under `expected_results` alone; for a new enrolment it keeps that lock and
takes `requests` (`getRequest`) and `responses` (`insertResponse`). -/
inductive Tasks.Step (db : List Code) : Tasks Code → Tasks Code → Prop
  | check {t} (hhold : t.holding = none) (hopt : t.session.client.options = none)
      (hidle : t.session.outgoing = none) :
      Tasks.Step db t
        { t with session := { t.session with client := checkResponses t.session.client } }
  | draw {t st template requestId options d} (hhold : t.holding = none)
      (hopt : t.session.client.options = some options) (hidle : t.session.outgoing = none)
      (hfresh : requestId ∉ t.session.client.expectedResults ∧
        requestId ∉ t.session.client.requests ∧ ∀ r ∈ t.session.resultQueue, r.signupId ≠ requestId)
      (harm : genRange options d.choice ≠ .ok 2) (hfree : t.receiving = .idle)
      (hdraw : drawQuery db t.session.client requestId options d = .ok (st, template)) :
      Tasks.Step db t { t with
        session := { t.session with client := st, outgoing := some (.drawn requestId template) } }
  | lockResponses {t requestId options d} (hhold : t.holding = none)
      (hopt : t.session.client.options = some options) (hidle : t.session.outgoing = none)
      (hfresh : requestId ∉ t.session.client.expectedResults ∧
        requestId ∉ t.session.client.requests ∧ ∀ r ∈ t.session.resultQueue, r.signupId ≠ requestId)
      (harm : genRange options d.choice = .ok 2) :
      Tasks.Step db t { t with holding := some (requestId, options, d) }
  | insertExpected {t requestId options d st template}
      (hhold : t.holding = some (requestId, options, d)) (hfree : t.receiving = .idle)
      (hdraw : drawQuery db t.session.client requestId options d = .ok (st, template)) :
      Tasks.Step db t { t with
        session := { t.session with client := st, outgoing := some (.drawn requestId template) },
        holding := none }
  | record {t requestId template} (hhold : t.holding = none)
      (hout : t.session.outgoing = some (.drawn requestId template)) :
      Tasks.Step db t { t with
        session := { t.session with
          client := recordRequest t.session.client requestId template,
          outgoing := some (.recorded requestId template) } }
  | publish {t requestId template} (hhold : t.holding = none)
      (hout : t.session.outgoing = some (.recorded requestId template)) :
      Tasks.Step db t { t with session := { t.session with outgoing := none } }
  | answer {t result} (hreq : result.signupId ∈ t.session.client.requests)
      (hpub : ∀ o, t.session.outgoing = some o → o.requestId ≠ result.signupId) :
      Tasks.Step db t
        { t with session := { t.session with resultQueue := t.session.resultQueue ++ [result] } }
  | receive {t result st} (hidle : t.receiving = .idle) (hr : result ∈ t.session.resultQueue)
      (hnew : t.session.client.expectedResults.lookup result.signupId ≠ some none)
      (hres : handleResult t.session.client result = .ok st) :
      Tasks.Step db t { t with session := { t.session with client := st } }
  | lockExpected {t result} (hidle : t.receiving = .idle) (hr : result ∈ t.session.resultQueue)
      (hexp : t.session.client.expectedResults.lookup result.signupId = some none)
      (hmatch : result.isMatch = false) :
      Tasks.Step db t { t with receiving := .enrolling result }
  | getRequest {t result request} (hrecv : t.receiving = .enrolling result)
      (hreq : t.session.client.requests.lookup result.signupId = some request) :
      Tasks.Step db t { t with receiving := .enrollingWith result request }
  | insertResponse {t result request serialId} (hrecv : t.receiving = .enrollingWith result request)
      (hfree : t.holding = none) (hserial : result.serialId = some serialId) :
      Tasks.Step db t { t with
        session := { t.session with client := { t.session.client with
          responses := t.session.client.responses.insert serialId request } },
        receiving := .idle }

inductive Tasks.Reachable (db : List Code) (stale : List ResultEvent) : Tasks Code → Prop
  | init : Tasks.Reachable db stale (Tasks.initial stale)
  | step {t t'} : Tasks.Reachable db stale t → Tasks.Step db t t' → Tasks.Reachable db stale t'

/-- What the tasks' positions say about the maps in every reachable state. -/
structure Tasks.Inv (t : Tasks Code) : Prop where
  holding_fresh : ∀ requestId options d, t.holding = some (requestId, options, d) →
    t.session.client.options = some options ∧ t.session.outgoing = none ∧
      (requestId ∉ t.session.client.expectedResults ∧ requestId ∉ t.session.client.requests ∧
        ∀ r ∈ t.session.resultQueue, r.signupId ≠ requestId)
  drawn_unrecorded : ∀ requestId template, t.session.outgoing = some (.drawn requestId template) →
    requestId ∉ t.session.client.requests
  enrolling : ∀ result, t.receiving.enrolment = some result → result ∈ t.session.resultQueue ∧
    t.session.client.expectedResults.lookup result.signupId = some none ∧ result.isMatch = false
  enrolling_request : ∀ result request, t.receiving = .enrollingWith result request →
    t.session.client.requests.lookup result.signupId = some request

variable {db : List Code} {t t' : Tasks Code}

theorem handleResult_of_enrolment {st : ClientState Code} {result : ResultEvent} {request : Code}
    {serialId : UInt32} (hexp : st.expectedResults.lookup result.signupId = some none)
    (hmatch : result.isMatch = false) (hreq : st.requests.lookup result.signupId = some request)
    (hserial : result.serialId = some serialId) :
    handleResult st result = .ok { st with responses := st.responses.insert serialId request } := by
  simp only [handleResult, hexp, hmatch, hreq, hserial, Bool.false_eq_true, if_false]

theorem Tasks.inv_initial (stale : List ResultEvent) : (Tasks.initial stale : Tasks Code).Inv where
  holding_fresh _ _ _ h := nomatch h
  drawn_unrecorded _ _ h := nomatch h
  enrolling _ h := nomatch h
  enrolling_request _ _ h := nomatch h

theorem Tasks.Inv.step (hinv : t.Inv) (hstep : Tasks.Step db t t') : t'.Inv := by
  cases hstep with
  | check hhold =>
    exact ⟨fun _ _ _ h => Option.noConfusion (hhold.symm.trans h), hinv.drawn_unrecorded,
      hinv.enrolling, hinv.enrolling_request⟩
  | draw hhold _ _ hfresh _ hfree hdraw =>
    obtain ⟨expected, -, rfl⟩ := drawQuery_ok hdraw
    refine ⟨fun _ _ _ h => Option.noConfusion (hhold.symm.trans h), ?_, ?_, ?_⟩
    · rintro _ _ ⟨⟩
      exact hfresh.2.1
    · intro _ h; rw [hfree] at h; cases h
    · intro _ _ h; rw [hfree] at h; cases h
  | lockResponses _ hopt hidle hfresh =>
    refine ⟨?_, hinv.drawn_unrecorded, hinv.enrolling, hinv.enrolling_request⟩
    rintro _ _ _ ⟨⟩
    exact ⟨hopt, hidle, hfresh⟩
  | insertExpected hhold hfree hdraw =>
    obtain ⟨hopt, hidle, hfresh⟩ := hinv.holding_fresh _ _ _ hhold
    obtain ⟨expected, -, rfl⟩ := drawQuery_ok hdraw
    refine ⟨(fun _ _ _ h => nomatch h), ?_, ?_, ?_⟩
    · rintro _ _ ⟨⟩
      exact hfresh.2.1
    · intro _ h; rw [hfree] at h; cases h
    · intro _ _ h; rw [hfree] at h; cases h
  | @record requestId _ hhold hout =>
    refine ⟨fun _ _ _ h => Option.noConfusion (hhold.symm.trans h), (fun _ _ h => nomatch h),
      hinv.enrolling, fun r req hr => ?_⟩
    have hreq := hinv.enrolling_request r req hr
    have hne : r.signupId ≠ requestId := fun he =>
      hinv.drawn_unrecorded _ _ hout (he ▸ AList.lookup_isSome.mp (by rw [hreq]; rfl))
    exact (AList.lookup_insert_ne hne).trans hreq
  | publish hhold =>
    exact ⟨fun _ _ _ h => Option.noConfusion (hhold.symm.trans h), (fun _ _ h => nomatch h),
      hinv.enrolling, hinv.enrolling_request⟩
  | answer hreq =>
    refine ⟨fun id o d h => ?_, hinv.drawn_unrecorded, fun r hr => ?_, hinv.enrolling_request⟩
    · obtain ⟨hopt, hidle, hexp, hnreq, hqueue⟩ := hinv.holding_fresh id o d h
      refine ⟨hopt, hidle, hexp, hnreq, fun r hr => ?_⟩
      rcases List.mem_append.mp hr with hr | hr
      · exact hqueue r hr
      · rw [List.mem_singleton.mp hr]
        exact fun he => hnreq (he ▸ hreq)
    · obtain ⟨hmem, hexp, hmatch⟩ := hinv.enrolling r hr
      exact ⟨List.mem_append_left _ hmem, hexp, hmatch⟩
  | receive _ _ hnew hres =>
    rcases handleResult_cases hres with rfl | ⟨_, _, hexp, -⟩
    · exact ⟨hinv.holding_fresh, hinv.drawn_unrecorded, hinv.enrolling, hinv.enrolling_request⟩
    · exact absurd hexp hnew
  | lockExpected hidle hr hexp hmatch =>
    refine ⟨hinv.holding_fresh, hinv.drawn_unrecorded, ?_, (fun _ _ h => nomatch h)⟩
    rintro _ ⟨⟩
    exact ⟨hr, hexp, hmatch⟩
  | getRequest hrecv hreq =>
    refine ⟨hinv.holding_fresh, hinv.drawn_unrecorded, fun r hr => ?_, ?_⟩
    · exact hinv.enrolling r (by rw [hrecv]; exact hr)
    · rintro _ _ ⟨⟩
      exact hreq
  | insertResponse _ hfree =>
    exact ⟨fun _ _ _ h => Option.noConfusion (hfree.symm.trans h), hinv.drawn_unrecorded,
      (fun _ h => nomatch h), (fun _ _ h => nomatch h)⟩

/-- Each step of the tasks is a step of their session or leaves it as it is. -/
theorem Tasks.Inv.session_step (hinv : t.Inv) (hstep : Tasks.Step db t t') :
    t'.session = t.session ∨ Session.Step db t.session t'.session := by
  cases hstep with
  | check _ hopt hidle => exact .inr (.check hopt hidle)
  | draw _ hopt hidle hfresh _ _ hdraw => exact .inr (.draw hopt hidle hfresh hdraw)
  | lockResponses => exact .inl rfl
  | insertExpected hhold _ hdraw =>
    obtain ⟨hopt, hidle, hfresh⟩ := hinv.holding_fresh _ _ _ hhold
    exact .inr (.draw hopt hidle hfresh hdraw)
  | record _ hout => exact .inr (.record hout)
  | publish _ hout => exact .inr (.publish hout)
  | answer hreq hpub => exact .inr (.answer hreq hpub)
  | receive _ hr _ hres => exact .inr (.receive hr hres)
  | lockExpected => exact .inl rfl
  | getRequest => exact .inl rfl
  | insertResponse hrecv _ hserial =>
    obtain ⟨hr, hexp, hmatch⟩ := hinv.enrolling _ (by rw [hrecv]; rfl)
    exact .inr (.receive hr (handleResult_of_enrolment hexp hmatch
      (hinv.enrolling_request _ _ hrecv) hserial))

theorem Tasks.Reachable.session {stale : List ResultEvent} (h : Tasks.Reachable db stale t) :
    Session.Reachable db stale t.session ∧ t.Inv := by
  induction h with
  | init => exact ⟨.init, Tasks.inv_initial stale⟩
  | step _ hstep ih =>
    refine ⟨?_, ih.2.step hstep⟩
    rcases ih.2.session_step hstep with heq | hs
    · exact heq ▸ ih.1
    · exact ih.1.step hs

/-- A fresh code drawn, recorded, published and answered, and the receiver holding
`expected_results` for its enrolment. -/
theorem tasks_first_enrolment :
    ∃ t : Tasks Nat, Tasks.Reachable [7] [] t ∧ t.receiving = .enrolling ⟨some 0, false, "a"⟩ := by
  have h1 := (Tasks.Reachable.init : Tasks.Reachable [7] [] _).step (.check rfl rfl rfl)
  have h2 := h1.step (@Tasks.Step.draw Nat [7] _ _ _ "a" 2 ⟨0, 0, 0, 5⟩ rfl rfl rfl
    (by decide) (fun h => absurd (Except.ok.inj h) (by decide)) rfl rfl)
  have h3 := (h2.step (.record rfl rfl)).step (.publish rfl rfl)
  have h4 := (h3.step (@Tasks.Step.answer Nat [7] _ ⟨some 0, false, "a"⟩ (by decide)
    (fun _ h => Option.noConfusion h))).step
    (@Tasks.Step.lockExpected Nat [7] _ ⟨some 0, false, "a"⟩ rfl (by decide) rfl rfl)
  exact ⟨_, h4, rfl⟩

/-- The lock-level client refines the session: every state the two tasks reach carries a
reachable session, and each further step of the tasks is a step of that session or, when it only
takes a lock, leaves it as it is. -/
theorem lock_steps_refine_session {stale : List ResultEvent} (hreach : Tasks.Reachable db stale t) :
    Session.Reachable db stale t.session ∧
      ∀ t', Tasks.Step db t t' → t'.session = t.session ∨ Session.Step db t.session t'.session :=
  ⟨hreach.session.1, fun _ hstep => hreach.session.2.session_step hstep⟩

theorem first_enrolment_session_reachable : ∃ t : Tasks Nat, Tasks.Reachable [7] [] t ∧
    t.receiving = .enrolling ⟨some 0, false, "a"⟩ ∧ Session.Reachable [7] [] t.session := by
  obtain ⟨t, hreach, hrecv⟩ := tasks_first_enrolment
  exact ⟨t, hreach, hrecv, (lock_steps_refine_session hreach).1⟩

/-- Whatever the server answers and however the two tasks interleave at their locks, in every
state they reach with a non-empty database: the sender's draw after its check never panics, the
receiver panics on a result of the queue only when the server's answer contradicts what the
client expects, and a receiver in the middle of an enrolment finds the request it looks up. -/
theorem client_panics_only_on_answers (hdb : db ≠ []) {stale : List ResultEvent}
    (hreach : Tasks.Reachable db stale t) :
    (∀ options, t.session.client.options = some options →
      ∀ requestId d, ∃ p, drawQuery db t.session.client requestId options d = .ok p) ∧
    (∀ result ∈ t.session.resultQueue, ∀ e, handleResult t.session.client result = .error e →
      e = .newInsertionMatched ∨ e = .existingNotMatched ∨ e = .serialIdMissing ∨
        e = .serialIdMismatch) ∧
    ∀ result, t.receiving = .enrolling result →
      ∃ request, t.session.client.requests.lookup result.signupId = some request := by
  obtain ⟨hsession, hinv⟩ := hreach.session
  have hsinv := hsession.inv
  refine ⟨fun _ hopt => hsinv.drawQuery_ok hdb hopt, fun _ hr _ h => hsinv.handleResult_error hr h,
    fun result hrecv => ?_⟩
  obtain ⟨hr, hexp, -⟩ := hinv.enrolling result (by rw [hrecv]; rfl)
  have hmem := hsinv.queued_requested result hr (AList.lookup_isSome.mp (by rw [hexp]; rfl))
  exact Option.isSome_iff_exists.mp (AList.lookup_isSome.mpr hmem)

theorem receiver_finds_enrolled_request : ∃ t : Tasks Nat, Tasks.Reachable [7] [] t ∧
    t.receiving = .enrolling ⟨some 0, false, "a"⟩ ∧
    ∃ request, t.session.client.requests.lookup "a" = some request := by
  obtain ⟨t, hreach, hrecv⟩ := tasks_first_enrolment
  exact ⟨t, hreach, hrecv, (client_panics_only_on_answers (by decide) hreach).2.2 _ hrecv⟩

/-! ## The deadlock -/

/-- The sender in arm 2 holds `responses` and waits for `expected_results`, which the receiver
holds while it waits for `responses`. -/
def Tasks.Deadlocked (t : Tasks Code) : Prop :=
  (∃ q, t.holding = some q) ∧ ∃ result request, t.receiving = .enrollingWith result request

/-- From a deadlocked state only the server moves. -/
theorem Tasks.Deadlocked.step (hdead : t.Deadlocked) (hstep : Tasks.Step db t t') :
    t'.Deadlocked ∧ t'.session.client = t.session.client := by
  obtain ⟨⟨q, hq⟩, r, req, hr⟩ := hdead
  cases hstep with
  | answer => exact ⟨⟨⟨q, hq⟩, r, req, hr⟩, rfl⟩
  | check hhold | draw hhold | lockResponses hhold | record hhold | publish hhold
  | insertResponse _ hhold => exact absurd (hhold.symm.trans hq) (fun h => nomatch h)
  | insertExpected _ hfree | receive hfree | lockExpected hfree =>
    exact absurd (hfree.symm.trans hr) (fun h => nomatch h)
  | getRequest hrecv => exact absurd (hrecv.symm.trans hr) (fun h => nomatch h)

theorem tasks_deadlock_reachable : ∃ t : Tasks Nat, Tasks.Reachable [7] [] t ∧ t.Deadlocked ∧
    "a" ∈ t.session.client.requests ∧ t.session.outgoing = none := by
  have h0 : Tasks.Reachable [7] [] (Tasks.initial [] : Tasks Nat) := .init
  have h1 := h0.step (.check rfl rfl rfl)
  have h2 := h1.step (@Tasks.Step.draw Nat [7] _ _ _ "a" 2 ⟨0, 0, 0, 5⟩ rfl rfl rfl
    (by decide) (fun h => absurd (Except.ok.inj h) (by decide)) rfl rfl)
  have h3 := (h2.step (.record rfl rfl)).step (.publish rfl rfl)
  have h4 := h3.step (@Tasks.Step.answer Nat [7] _ ⟨some 0, false, "a"⟩ (by decide)
    (fun _ h => Option.noConfusion h))
  have h5 := ((h4.step (@Tasks.Step.lockExpected Nat [7] _ ⟨some 0, false, "a"⟩ rfl (by decide)
    rfl rfl)).step
    (.getRequest rfl rfl)).step (.insertResponse rfl rfl rfl)
  have h6 := (h5.step (.check rfl rfl rfl)).step
    (@Tasks.Step.draw Nat [7] _ _ _ "b" 3 ⟨0, 0, 0, 6⟩ rfl rfl rfl (by decide)
      (fun h => absurd (Except.ok.inj h) (by decide)) rfl rfl)
  have h7 := (h6.step (.record rfl rfl)).step (.publish rfl rfl)
  have h8 := (h7.step (@Tasks.Step.answer Nat [7] _ ⟨some 1, false, "b"⟩ (by decide)
    (fun _ h => Option.noConfusion h))).step (.check rfl rfl rfl)
  have h9 := h8.step (@Tasks.Step.lockResponses Nat [7] _ "c" 3 ⟨2, 0, 0, 7⟩ rfl rfl rfl
    (by decide) rfl)
  have h10 := (h9.step (@Tasks.Step.lockExpected Nat [7] _ ⟨some 1, false, "b"⟩ rfl (by decide)
    rfl rfl)).step (.getRequest rfl rfl)
  exact ⟨_, h10, ⟨⟨_, rfl⟩, _, _, rfl⟩, by decide, rfl⟩

/-- The two tasks can deadlock. After a fresh code is enrolled and a second one answered, the
sender, drawing in arm 2, holds `responses` while the receiver holds `expected_results` for the
second enrolment; from such a state every step is the server's, and the tasks stay blocked with
the client's maps as they are. -/
theorem client_can_deadlock :
    (∃ t : Tasks Nat, Tasks.Reachable [7] [] t ∧ t.Deadlocked) ∧
      ∀ {Code : Type} {db : List Code} {t t' : Tasks Code}, t.Deadlocked → Tasks.Step db t t' →
        t'.Deadlocked ∧ t'.session.client = t.session.client :=
  ⟨tasks_deadlock_reachable.imp fun _ h => ⟨h.1, h.2.1⟩, fun hdead hstep => hdead.step hstep⟩

theorem deadlock_outlasts_answer : ∃ t t' : Tasks Nat, Tasks.Reachable [7] [] t ∧
    Tasks.Step [7] t t' ∧ t'.Deadlocked ∧ t'.session.client = t.session.client := by
  obtain ⟨t, hreach, hdead, hreq, hout⟩ := tasks_deadlock_reachable
  have hstep := @Tasks.Step.answer Nat [7] t ⟨some 0, false, "a"⟩ hreq (by simp [hout])
  exact ⟨t, _, hreach, hstep, client_can_deadlock.2 hdead hstep⟩

end IrisMpc.Client
