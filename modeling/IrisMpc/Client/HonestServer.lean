import IrisMpc.Client.Checker

/-!
# The test client against an honest server (`iris-mpc/src/bin/client.rs`)

The client tests the uniqueness server: a result that contradicts what it expects makes its
receiver panic. This module shows that these checks raise no false alarm. Against a server that
answers as the client expects (`serve`), whatever order the sender, the receiver and the server
take their steps in, however the response queue reorders or redelivers results, and whatever
stale results it holds from earlier runs, the receiver accepts every result in the queue, and the
sender's draw never panics (`honest_server_no_false_alarm`). The honest server answers only
requests that were published, so every run against it is a session of `Checker` against some
server (`honest_harness_refines_session`).

Two facts about the run are hypotheses. The database holds no code twice: a code at two
indices is answered with the first, and the client expects the index it drew. And a code
`IrisCode::random_rng` draws is neither in the database nor in a request sent before.

The invariant (`Harness.Inv`) says that every query in flight expects the serial id the server
holds its code under, or no serial id if the server does not hold the code. A code the server
does not hold belongs to no other request. Every result in the queue whose signup id the client
knows answers such a query.
-/

namespace IrisMpc.Client

variable {Code : Type}

/-- The three templates a draw can give: a fresh code, expected new; the code of the database at
a drawn index, expected under that index; a code of `responses`, expected under its key. -/
theorem chooseTemplate_cases {db : List Code} {responses : HashMap UInt32 Code} {options : Nat}
    {d : Draws Code} {expected : Option UInt32} {template : Code}
    (h : chooseTemplate db responses options d = .ok (expected, template)) :
    (expected = none ∧ template = d.fresh) ∨
      (∃ i, ∃ hi : i < db.length, expected = some (UInt32.ofNat i) ∧ template = db[i]) ∨
      ∃ key, expected = some key ∧ responses.lookup key = some template := by
  unfold chooseTemplate at h
  cases hg : genRange options d.choice with
  | error e => rw [hg] at h; cases h
  | ok k =>
    simp only [hg, bind, Except.bind] at h
    split at h
    · obtain ⟨rfl, rfl⟩ := Prod.mk.inj (Except.ok.inj h)
      exact .inl ⟨rfl, rfl⟩
    · cases hi : genRange db.length d.dbIndex with
      | error e => rw [hi] at h; cases h
      | ok i =>
        simp only [hi] at h
        split at h
        · cases h
        · rename_i code hcode
          obtain ⟨rfl, rfl⟩ := Prod.mk.inj (Except.ok.inj h)
          obtain ⟨hlt, rfl⟩ := List.getElem?_eq_some_iff.mp hcode
          exact .inr (.inl ⟨i, hlt, rfl, rfl⟩)
    · cases hi : genRange responses.keys.length d.idx with
      | error e => rw [hi] at h; cases h
      | ok i =>
        simp only [hi] at h
        split at h
        · cases h
        · split at h
          · cases h
          · rename_i key _ _ code hcode
            obtain ⟨rfl, rfl⟩ := Prod.mk.inj (Except.ok.inj h)
            exact .inr (.inr ⟨key, rfl, hcode⟩)
    · cases h

section Server

variable [DecidableEq Code]

/-- The serial id the server holds `code` under: the index of its first occurrence in the
table. -/
def serialOf (table : List Code) (code : Code) : Option UInt32 :=
  if code ∈ table then some (UInt32.ofNat (table.indexOf code)) else none

/-- Modelled from its uses here: the uniqueness server as the client expects it to answer. Its
table holds the database's codes under their indices as serial ids, then the codes it enrolled.
A code in the table is a match, with the serial id of its first occurrence; any other code is
enrolled under the next serial id. -/
def serve (table : List Code) (signupId : String) (code : Code) : List Code × ResultEvent :=
  if code ∈ table then (table, ⟨some (UInt32.ofNat (table.indexOf code)), true, signupId⟩)
  else (table ++ [code], ⟨some (UInt32.ofNat table.length), false, signupId⟩)

variable {table : List Code} {code : Code}

theorem serialOf_of_mem (h : code ∈ table) :
    serialOf table code = some (UInt32.ofNat (table.indexOf code)) := if_pos h

theorem serialOf_of_not_mem (h : code ∉ table) : serialOf table code = none := if_neg h

theorem mem_of_serialOf_eq_some {k : UInt32} (h : serialOf table code = some k) :
    code ∈ table := by
  by_contra hmem
  rw [serialOf_of_not_mem hmem] at h
  cases h

theorem serialOf_append_of_mem (rest : List Code) (h : code ∈ table) :
    serialOf (table ++ rest) code = serialOf table code := by
  rw [serialOf_of_mem (List.mem_append_left rest h), serialOf_of_mem h,
    List.indexOf_append_of_mem h]

theorem serialOf_append_of_ne {t : Code} (h : code ∈ table ∨ code ≠ t) :
    serialOf (table ++ [t]) code = serialOf table code := by
  by_cases hmem : code ∈ table
  · exact serialOf_append_of_mem [t] hmem
  · have hnot : code ∉ table ++ [t] := by
      simp only [List.mem_append, List.mem_singleton, hmem, h.resolve_left hmem, or_self,
        not_false_eq_true]
    rw [serialOf_of_not_mem hnot, serialOf_of_not_mem hmem]

theorem serialOf_append_self (h : code ∉ table) :
    serialOf (table ++ [code]) code = some (UInt32.ofNat table.length) := by
  rw [serialOf_of_mem (List.mem_append_right table (List.mem_singleton_self code)),
    List.indexOf_append_of_not_mem h, List.indexOf_cons_self, Nat.add_zero]

theorem serialOf_getElem {db rest : List Code} (hnodup : (db ++ rest).Nodup) {i : Nat}
    (hi : i < db.length) : serialOf (db ++ rest) db[i] = some (UInt32.ofNat i) := by
  have hmem : db[i] ∈ db := List.getElem_mem hi
  rw [serialOf_append_of_mem rest hmem, serialOf_of_mem hmem,
    List.indexOf_getElem (List.Nodup.of_append_left hnodup) i hi]

theorem serve_of_mem (signupId : String) (h : code ∈ table) :
    serve table signupId code = (table, ⟨serialOf table code, true, signupId⟩) := by
  rw [serve, if_pos h, serialOf_of_mem h]

theorem serve_of_not_mem (signupId : String) (h : code ∉ table) :
    serve table signupId code =
      (table ++ [code], ⟨some (UInt32.ofNat table.length), false, signupId⟩) := if_neg h

structure Harness (Code : Type) where
  client : ClientState Code
  outgoing : Option (Outgoing Code)
  requestQueue : List (String × Code)
  table : List Code
  resultQueue : List ResultEvent

/-- At the start the client's maps are empty, the server holds the database, and the response
queue holds whatever stale results earlier runs left. -/
def Harness.initial (db : List Code) (stale : List ResultEvent) : Harness Code :=
  ⟨Client.initial, none, [], db, stale⟩

/-- The steps of the sender, the server and the receiver, in any interleaving. A request id is
a fresh `Uuid::new_v4()`: in neither map, and the signup id of no result in the queue. A drawn
code is a fresh `IrisCode::random_rng()`: in neither the database nor a request. The server
takes the published requests in any order. A handled result stays in the queue, which may
deliver it again. -/
inductive HarnessStep (db : List Code) : Harness Code → Harness Code → Prop
  | check {h} (hopt : h.client.options = none) (hidle : h.outgoing = none) :
      HarnessStep db h { h with client := checkResponses h.client }
  | draw {h st template requestId options d} (hopt : h.client.options = some options)
      (hidle : h.outgoing = none)
      (hfresh : requestId ∉ h.client.expectedResults ∧ requestId ∉ h.client.requests ∧
        ∀ r ∈ h.resultQueue, r.signupId ≠ requestId)
      (hnew : d.fresh ∉ db ∧ ∀ id, h.client.requests.lookup id ≠ some d.fresh)
      (hdraw : drawQuery db h.client requestId options d = .ok (st, template)) :
      HarnessStep db h { h with client := st, outgoing := some (.drawn requestId template) }
  | record {h requestId template} (hout : h.outgoing = some (.drawn requestId template)) :
      HarnessStep db h { h with client := recordRequest h.client requestId template,
                                outgoing := some (.recorded requestId template) }
  | publish {h requestId template} (hout : h.outgoing = some (.recorded requestId template)) :
      HarnessStep db h { h with outgoing := none,
                                requestQueue := h.requestQueue ++ [(requestId, template)] }
  | serve {h pre post q} (hq : h.requestQueue = pre ++ q :: post) :
      HarnessStep db h { h with requestQueue := pre ++ post,
                                table := (serve h.table q.1 q.2).1,
                                resultQueue := h.resultQueue ++ [(serve h.table q.1 q.2).2] }
  | receive {h result st} (hr : result ∈ h.resultQueue)
      (hres : handleResult h.client result = .ok st) :
      HarnessStep db h { h with client := st }

inductive Harness.Reachable (db : List Code) (stale : List ResultEvent) : Harness Code → Prop
  | init : Harness.Reachable db stale (Harness.initial db stale)
  | step {h h'} : Harness.Reachable db stale h → HarnessStep db h h' →
      Harness.Reachable db stale h'

/-- A query in flight gets the answer the client expects: its expected result is the serial id
the server holds its code under, and a code the server does not hold belongs to this query
only. -/
structure Fair (st : ClientState Code) (table : List Code) (requestId : String) (code : Code) :
    Prop where
  expected : st.expectedResults.lookup requestId = some (serialOf table code)
  fresh_unique : code ∉ table → ∀ id, st.requests.lookup id = some code → id = requestId

/-- A result answers a recorded request as the client expects: the serial id of its code, and,
for a match, the serial id the client expects. -/
def Answered (st : ClientState Code) (table : List Code) (result : ResultEvent) : Prop :=
  ∃ code, st.requests.lookup result.signupId = some code ∧ code ∈ table ∧
    result.serialId = serialOf table code ∧
    st.expectedResults.lookup result.signupId =
      some (if result.isMatch then result.serialId else none)

structure Harness.Inv (db : List Code) (h : Harness Code) : Prop where
  options_two_or_three : ∀ o, h.client.options = some o → o = 2 ∨ o = 3
  responses_of_three : h.client.options = some 3 → h.client.responses.keys ≠ []
  table_nodup : h.table.Nodup
  db_prefix : db <+: h.table
  table_sent : ∀ c ∈ h.table, c ∈ db ∨ ∃ id, h.client.requests.lookup id = some c
  responses_served : ∀ k c, h.client.responses.lookup k = some c → serialOf h.table c = some k
  outgoing : ∀ o, h.outgoing = some o → h.client.requests.lookup o.requestId = o.request ∧
    Fair h.client h.table o.requestId o.template ∧ o.requestId ∉ h.requestQueue.map Prod.fst
  queued : ∀ q ∈ h.requestQueue,
    h.client.requests.lookup q.1 = some q.2 ∧ Fair h.client h.table q.1 q.2
  queue_nodup : (h.requestQueue.map Prod.fst).Nodup
  answered : ∀ r ∈ h.resultQueue, r.signupId ∈ h.client.expectedResults →
    Answered h.client h.table r

variable {db : List Code} {h : Harness Code}

theorem Fair.of_maps {st st' : ClientState Code} {id : String} {c : Code} (hf : Fair st table id c)
    (hexp : st'.expectedResults = st.expectedResults) (hreq : st'.requests = st.requests) :
    Fair st' table id c :=
  ⟨hexp ▸ hf.expected, hreq ▸ hf.fresh_unique⟩

theorem Fair.enrol {st : ClientState Code} {id id' : String} {c t : Code}
    (hf : Fair st table id c) (hreq : st.requests.lookup id' = some t) (hne : id' ≠ id) :
    Fair st (table ++ [t]) id c := by
  have hc : c ∈ table ∨ c ≠ t := by
    by_cases hmem : c ∈ table
    · exact .inl hmem
    · exact .inr fun hct => hne (hf.fresh_unique hmem id' (by rw [hct]; exact hreq))
  exact ⟨by rw [serialOf_append_of_ne hc]; exact hf.expected,
    fun hnot => hf.fresh_unique fun hm => hnot (List.mem_append_left _ hm)⟩

theorem Answered.enrol {st : ClientState Code} {r : ResultEvent} (hans : Answered st table r)
    (t : Code) : Answered st (table ++ [t]) r := by
  obtain ⟨c, hreq, hmem, hserial, hexp⟩ := hans
  exact ⟨c, hreq, List.mem_append_left _ hmem,
    by rw [serialOf_append_of_mem _ hmem]; exact hserial, hexp⟩

theorem Harness.inv_initial {stale : List ResultEvent} (hnodup : db.Nodup) :
    (Harness.initial db stale : Harness Code).Inv db where
  options_two_or_three _ h := nomatch h
  responses_of_three h := nomatch h
  table_nodup := hnodup
  db_prefix := List.prefix_refl db
  table_sent _ hc := .inl hc
  responses_served _ _ h := nomatch h
  outgoing _ h := nomatch h
  queued _ h := nomatch h
  queue_nodup := List.nodup_nil
  answered _ _ h := absurd h (AList.not_mem_empty _)

theorem Harness.Inv.check (hinv : h.Inv db) :
    ({ h with client := checkResponses h.client } : Harness Code).Inv db :=
  { hinv with
    options_two_or_three := fun _ => checkResponses_options
    responses_of_three := checkResponses_three
    outgoing := fun o ho => ⟨(hinv.outgoing o ho).1, (hinv.outgoing o ho).2.1.of_maps rfl rfl,
      (hinv.outgoing o ho).2.2⟩
    queued := fun q hq => ⟨(hinv.queued q hq).1, (hinv.queued q hq).2.of_maps rfl rfl⟩ }

/-- A draw expects the serial id the server holds its template under, and a template the server
does not hold is in no request. -/
theorem Harness.Inv.chooseTemplate_fair {options : Nat} {d : Draws Code} {expected : Option UInt32}
    {template : Code} (hinv : h.Inv db)
    (hnew : d.fresh ∉ db ∧ ∀ id, h.client.requests.lookup id ≠ some d.fresh)
    (hc : chooseTemplate db h.client.responses options d = .ok (expected, template)) :
    expected = serialOf h.table template ∧
      (template ∉ h.table → ∀ id, h.client.requests.lookup id ≠ some template) := by
  rcases chooseTemplate_cases hc with ⟨rfl, rfl⟩ | ⟨i, hi, rfl, rfl⟩ | ⟨key, rfl, hkey⟩
  · have hnot : d.fresh ∉ h.table := fun hmem =>
      (hinv.table_sent _ hmem).elim hnew.1 fun ⟨id, hid⟩ => hnew.2 id hid
    exact ⟨(serialOf_of_not_mem hnot).symm, fun _ => hnew.2⟩
  · obtain ⟨rest, hrest⟩ := hinv.db_prefix
    have hnodup : (db ++ rest).Nodup := by rw [hrest]; exact hinv.table_nodup
    have hmem : db[i] ∈ db ++ rest := List.mem_append_left rest (List.getElem_mem hi)
    rw [← hrest]
    exact ⟨(serialOf_getElem hnodup hi).symm, fun hnot => absurd hmem hnot⟩
  · have hserved := hinv.responses_served key template hkey
    exact ⟨hserved.symm, fun hnot => absurd (mem_of_serialOf_eq_some hserved) hnot⟩

theorem Harness.Inv.draw {st : ClientState Code} {template : Code} {requestId : String}
    {options : Nat} {d : Draws Code} (hinv : h.Inv db)
    (hfresh : requestId ∉ h.client.expectedResults ∧ requestId ∉ h.client.requests ∧
      ∀ r ∈ h.resultQueue, r.signupId ≠ requestId)
    (hnew : d.fresh ∉ db ∧ ∀ id, h.client.requests.lookup id ≠ some d.fresh)
    (hdraw : drawQuery db h.client requestId options d = .ok (st, template)) :
    ({ h with client := st,
               outgoing := some (.drawn requestId template) } : Harness Code).Inv db := by
  obtain ⟨expected, hc, rfl⟩ := drawQuery_ok hdraw
  obtain ⟨hexp, hunique⟩ := hinv.chooseTemplate_fair hnew hc
  have hqueued : ∀ q ∈ h.requestQueue, q.1 ≠ requestId := fun q hq he =>
    hfresh.1 (AList.lookup_isSome.mp (by rw [← he, (hinv.queued q hq).2.expected]; rfl))
  refine { hinv with
    options_two_or_three := fun _ h => nomatch h
    responses_of_three := fun h => nomatch h
    outgoing := fun o ho => ?_
    queued := fun q hq => ⟨(hinv.queued q hq).1, ?_, (hinv.queued q hq).2.fresh_unique⟩
    answered := fun r hr hmem => ?_ }
  · cases ho
    refine ⟨AList.lookup_eq_none.mpr hfresh.2.1,
      ⟨?_, fun hnot id hid => absurd hid (hunique hnot id)⟩, fun hmem => ?_⟩
    · show (h.client.expectedResults.insert requestId expected).lookup requestId = _
      rw [AList.lookup_insert, hexp]
      rfl
    · obtain ⟨q, hq, he⟩ := List.mem_map.mp hmem
      exact hqueued q hq he
  · show (h.client.expectedResults.insert requestId expected).lookup q.1 = _
    rw [AList.lookup_insert_ne (hqueued q hq)]
    exact (hinv.queued q hq).2.expected
  · have hne := hfresh.2.2 r hr
    have hmem' : r.signupId ∈ h.client.expectedResults :=
      ((AList.mem_insert _).mp hmem).resolve_left hne
    obtain ⟨c, hreq, hc, hserial, hexp'⟩ := hinv.answered r hr hmem'
    refine ⟨c, hreq, hc, hserial, ?_⟩
    show (h.client.expectedResults.insert requestId expected).lookup r.signupId = _
    rw [AList.lookup_insert_ne hne]
    exact hexp'

theorem Harness.Inv.record {requestId : String} {template : Code} (hinv : h.Inv db)
    (hout : h.outgoing = some (.drawn requestId template)) :
    ({ h with client := recordRequest h.client requestId template,
              outgoing := some (.recorded requestId template) } : Harness Code).Inv db := by
  obtain ⟨hnone, hfair, hnotq⟩ := hinv.outgoing _ hout
  have hnone : h.client.requests.lookup requestId = none := hnone
  have hkeep : ∀ id c, h.client.requests.lookup id = some c →
      (recordRequest h.client requestId template).requests.lookup id = some c := fun id c hid =>
    (AList.lookup_insert_ne fun he => by rw [he, hnone] at hid; cases hid).trans hid
  have hcases : ∀ id c, (recordRequest h.client requestId template).requests.lookup id = some c →
      (id = requestId ∧ c = template) ∨ h.client.requests.lookup id = some c :=
    fun id c hid => by
      by_cases he : id = requestId
      · subst he
        exact .inl ⟨rfl, (Option.some.inj ((AList.lookup_insert _).symm.trans hid)).symm⟩
      · exact .inr ((AList.lookup_insert_ne he).symm.trans hid)
  refine { hinv with
    table_sent := fun c hc =>
      (hinv.table_sent c hc).imp_right fun ⟨id, hid⟩ => ⟨id, hkeep id c hid⟩
    outgoing := fun o ho => ?_
    queued := fun q hq => ⟨hkeep _ _ (hinv.queued q hq).1, (hinv.queued q hq).2.expected,
      fun hnot id hid => ?_⟩
    answered := fun r hr hmem => ?_ }
  · cases ho
    exact ⟨AList.lookup_insert _, ⟨hfair.expected, fun hnot id hid =>
      (hcases id _ hid).elim (·.1) (hfair.fresh_unique hnot id)⟩, hnotq⟩
  · rcases hcases id _ hid with ⟨rfl, hqt⟩ | hold
    · have hq1 := hfair.fresh_unique (hqt ▸ hnot) q.1 (hqt ▸ (hinv.queued q hq).1)
      exact absurd (List.mem_map.mpr ⟨q, hq, hq1⟩) hnotq
    · exact (hinv.queued q hq).2.fresh_unique hnot id hold
  · obtain ⟨c, hreq, hc, hserial, hexp⟩ := hinv.answered r hr hmem
    exact ⟨c, hkeep _ _ hreq, hc, hserial, hexp⟩

theorem Harness.Inv.publish {requestId : String} {template : Code} (hinv : h.Inv db)
    (hout : h.outgoing = some (.recorded requestId template)) :
    ({ h with outgoing := none,
              requestQueue := h.requestQueue ++ [(requestId, template)] } :
      Harness Code).Inv db := by
  obtain ⟨hreq, hfair, hnotq⟩ := hinv.outgoing _ hout
  refine { hinv with
    outgoing := fun _ h => nomatch h
    queued := fun q hq => (List.mem_append.mp hq).elim (hinv.queued q) fun hq => ?_
    queue_nodup := ?_ }
  · rw [List.mem_singleton.mp hq]
    exact ⟨hreq, hfair⟩
  · rw [List.map_append, List.map_singleton]
    exact List.nodup_append.mpr ⟨hinv.queue_nodup, List.nodup_singleton _,
      fun x hx hx' => hnotq (by rw [List.mem_singleton.mp hx'] at hx; exact hx)⟩

theorem Harness.Inv.serve {pre post : List (String × Code)} {q : String × Code}
    (hinv : h.Inv db) (hq : h.requestQueue = pre ++ q :: post) :
    ({ h with requestQueue := pre ++ post, table := (serve h.table q.1 q.2).1,
              resultQueue := h.resultQueue ++ [(serve h.table q.1 q.2).2] } :
      Harness Code).Inv db := by
  have hqmem : q ∈ h.requestQueue := hq ▸ List.mem_append_right pre (List.mem_cons_self q post)
  obtain ⟨hreq, hfair⟩ := hinv.queued q hqmem
  have hsub : pre ++ post ⊆ h.requestQueue :=
    hq ▸ ((List.Sublist.refl pre).append (List.sublist_cons_self q post)).subset
  have hnodup : (q.1 :: ((pre ++ post).map Prod.fst)).Nodup := by
    have h' := hinv.queue_nodup
    rw [hq, List.map_append, List.map_cons] at h'
    rw [List.map_append]
    exact List.nodup_middle.mp h'
  have hne : ∀ q' ∈ pre ++ post, q'.1 ≠ q.1 := fun q' hq' he =>
    (List.nodup_cons.mp hnodup).1 (he ▸ List.mem_map_of_mem Prod.fst hq')
  have hnotq : ∀ o, h.outgoing = some o → o.requestId ∉ (pre ++ post).map Prod.fst :=
    fun o ho hmem => (hinv.outgoing o ho).2.2 (List.map_subset Prod.fst hsub hmem)
  have hout_ne : ∀ o, h.outgoing = some o → q.1 ≠ o.requestId := fun o ho he =>
    (hinv.outgoing o ho).2.2 (he ▸ List.mem_map_of_mem Prod.fst hqmem)
  by_cases hmem : q.2 ∈ h.table
  · rw [serve_of_mem q.1 hmem]
    refine { hinv with
      outgoing := fun o ho => ⟨(hinv.outgoing o ho).1, (hinv.outgoing o ho).2.1, hnotq o ho⟩
      queued := fun q' hq' => hinv.queued q' (hsub hq')
      queue_nodup := (List.nodup_cons.mp hnodup).2
      answered := fun r hr hm => (List.mem_append.mp hr).elim (hinv.answered r · hm)
        fun hr => ?_ }
    rw [List.mem_singleton.mp hr]
    exact ⟨q.2, hreq, hmem, rfl, hfair.expected⟩
  · rw [serve_of_not_mem q.1 hmem]
    refine { hinv with
      table_nodup := List.nodup_append.mpr ⟨hinv.table_nodup, List.nodup_singleton _,
        fun x hx hx' => hmem (List.mem_singleton.mp hx' ▸ hx)⟩
      db_prefix := hinv.db_prefix.trans (List.prefix_append _ _)
      table_sent := fun c hc => (List.mem_append.mp hc).elim (hinv.table_sent c)
        fun hc => .inr ⟨q.1, List.mem_singleton.mp hc ▸ hreq⟩
      responses_served := fun k c hk => by
        have hserved := hinv.responses_served k c hk
        rw [serialOf_append_of_mem _ (mem_of_serialOf_eq_some hserved)]
        exact hserved
      outgoing := fun o ho => ⟨(hinv.outgoing o ho).1,
        (hinv.outgoing o ho).2.1.enrol hreq (hout_ne o ho), hnotq o ho⟩
      queued := fun q' hq' => ⟨(hinv.queued q' (hsub hq')).1,
        (hinv.queued q' (hsub hq')).2.enrol hreq (hne q' hq').symm⟩
      queue_nodup := (List.nodup_cons.mp hnodup).2
      answered := fun r hr hm => (List.mem_append.mp hr).elim
        (fun hr => (hinv.answered r hr hm).enrol q.2) fun hr => ?_ }
    rw [List.mem_singleton.mp hr]
    refine ⟨q.2, hreq, List.mem_append_right _ (List.mem_singleton_self _),
      (serialOf_append_self hmem).symm, ?_⟩
    rw [hfair.expected, serialOf_of_not_mem hmem]
    rfl

theorem Harness.Inv.receive {result : ResultEvent} {st : ClientState Code} (hinv : h.Inv db)
    (hr : result ∈ h.resultQueue) (hres : handleResult h.client result = .ok st) :
    ({ h with client := st } : Harness Code).Inv db := by
  rcases handleResult_cases hres with rfl | ⟨serialId, request, hexp, hserial, hreq, rfl⟩
  · exact hinv
  obtain ⟨c, hc, -, hserial', -⟩ :=
    hinv.answered result hr (AList.lookup_isSome.mp (by rw [hexp]; rfl))
  obtain rfl : c = request := Option.some.inj (hc.symm.trans hreq)
  refine { hinv with
    responses_of_three := fun _ => by
      show (h.client.responses.insert serialId c).keys ≠ []
      rw [AList.keys_insert]
      exact List.cons_ne_nil _ _
    responses_served := fun k c' hk => ?_
    outgoing := fun o ho => ⟨(hinv.outgoing o ho).1, (hinv.outgoing o ho).2.1.of_maps rfl rfl,
      (hinv.outgoing o ho).2.2⟩
    queued := fun q hq => ⟨(hinv.queued q hq).1, (hinv.queued q hq).2.of_maps rfl rfl⟩ }
  by_cases hks : k = serialId
  · subst hks
    obtain rfl := Option.some.inj ((AList.lookup_insert _).symm.trans hk)
    rw [← hserial', hserial]
  · exact hinv.responses_served k c' ((AList.lookup_insert_ne hks).symm.trans hk)

theorem Harness.Inv.step {h' : Harness Code} (hinv : h.Inv db) (hstep : HarnessStep db h h') :
    h'.Inv db := by
  cases hstep with
  | check => exact hinv.check
  | draw _ _ hfresh hnew hdraw => exact hinv.draw hfresh hnew hdraw
  | record hout => exact hinv.record hout
  | publish hout => exact hinv.publish hout
  | serve hq => exact hinv.serve hq
  | receive hr hres => exact hinv.receive hr hres

theorem Harness.Reachable.inv {stale : List ResultEvent} (hnodup : db.Nodup)
    (hreach : Harness.Reachable db stale h) : h.Inv db := by
  induction hreach with
  | init => exact Harness.inv_initial hnodup
  | step _ hstep ih => exact ih.step hstep

/-- The client's side of the harness: the server's table and its unserved requests forgotten. -/
def Harness.session (h : Harness Code) : Session Code := ⟨h.client, h.outgoing, h.resultQueue⟩

theorem serve_signupId (table : List Code) (signupId : String) (code : Code) :
    (serve table signupId code).2.signupId = signupId := by
  unfold serve
  split <;> rfl

/-- Every step of the harness is a step of its client's session; serving a request is answering
a published one. -/
theorem Harness.Inv.session_step {h' : Harness Code} (hinv : h.Inv db)
    (hstep : HarnessStep db h h') : Session.Step db h.session h'.session := by
  cases hstep with
  | check hopt hidle => exact .check hopt hidle
  | draw hopt hidle hfresh _ hdraw => exact .draw hopt hidle hfresh hdraw
  | record hout => exact .record hout
  | publish hout => exact .publish hout
  | @serve pre post q hq =>
    have hqmem : q ∈ h.requestQueue := hq ▸ List.mem_append_right pre (List.mem_cons_self q post)
    refine .answer ?_ fun o ho he => (hinv.outgoing o ho).2.2 ?_
    · rw [serve_signupId]
      exact AList.lookup_isSome.mp
        (by simp only [Harness.session, (hinv.queued q hqmem).1, Option.isSome_some])
    · rw [he, serve_signupId]
      exact List.mem_map_of_mem Prod.fst hqmem
  | receive hr hres => exact .receive hr hres

theorem handleResult_of_answered {st : ClientState Code} {result : ResultEvent}
    (hans : Answered st table result) : ∃ st', handleResult st result = .ok st' := by
  obtain ⟨c, hreq, hmem, hserial, hexp⟩ := hans
  rw [serialOf_of_mem hmem] at hserial
  unfold handleResult
  cases hm : result.isMatch
  · simp only [hm, Bool.false_eq_true, if_false] at hexp
    simp only [hexp, hm, Bool.false_eq_true, if_false, hreq, hserial]
    exact ⟨_, rfl⟩
  · simp only [hm, if_true, hserial] at hexp
    simp only [hexp, hm, Bool.not_true, Bool.false_eq_true, if_false, hserial, if_true]
    exact ⟨_, rfl⟩

/-- Against an honest server the client raises no false alarm. In every state the sender, the
receiver and the server reach in any interleaving, with results delivered in any order, again,
or stale from earlier runs: the receiver accepts every result in the queue, and the sender's draw
never panics. The database holds no code twice and is not empty. -/
theorem honest_server_no_false_alarm (hnodup : db.Nodup) (hdb : db ≠ [])
    {stale : List ResultEvent} (hreach : Harness.Reachable db stale h) :
    (∀ result ∈ h.resultQueue, ∃ st, handleResult h.client result = .ok st) ∧
      ∀ options, h.client.options = some options →
        ∀ requestId d, ∃ p, drawQuery db h.client requestId options d = .ok p := by
  have hinv := hreach.inv hnodup
  refine ⟨fun result hr => ?_, fun options hopt requestId d => ?_⟩
  · by_cases hmem : result.signupId ∈ h.client.expectedResults
    · exact handleResult_of_answered (hinv.answered result hr hmem)
    · exact ⟨_, handleResult_of_not_expected (AList.lookup_eq_none.mpr hmem)⟩
  · obtain ⟨r, hr⟩ := chooseTemplate_ok hdb (hinv.options_two_or_three options hopt)
      (fun h3 => hinv.responses_of_three (h3 ▸ hopt)) d
    exact ⟨_, by rw [drawQuery, hr]; rfl⟩

/-- One query from the database, through the sender, the server and back: the server matches
it under index `0`. -/
theorem harness_first_match :
    ∃ h : Harness Nat, Harness.Reachable [7] [] h ∧ h.resultQueue = [⟨some 0, true, "q"⟩] := by
  have h0 : Harness.Reachable [7] [] (Harness.initial [7] [] : Harness Nat) := .init
  have h1 := h0.step (.check rfl rfl)
  have h2 := h1.step (@HarnessStep.draw Nat _ [7] _ _ _ "q" _ ⟨1, 0, 0, 5⟩ rfl rfl
    ⟨AList.not_mem_empty "q", AList.not_mem_empty "q", fun _ h => absurd h (List.not_mem_nil _)⟩
    ⟨by decide, fun _ h => Option.noConfusion h⟩ rfl)
  exact ⟨_, ((h2.step (.record rfl)).step (.publish rfl)).step
    (@HarnessStep.serve Nat _ [7] _ [] [] _ rfl), rfl⟩

theorem honest_server_first_match :
    ([7] : List Nat).Nodup ∧ [7] ≠ [] ∧ ∃ h : Harness Nat, Harness.Reachable [7] [] h ∧
      h.resultQueue = [⟨some 0, true, "q"⟩] ∧
      ∃ st, handleResult h.client ⟨some 0, true, "q"⟩ = .ok st := by
  obtain ⟨h, hreach, hqueue⟩ := harness_first_match
  refine ⟨by decide, by decide, h, hreach, hqueue, ?_⟩
  exact (honest_server_no_false_alarm (by decide) (by decide) hreach).1 _
    (hqueue ▸ List.mem_singleton_self _)

end Server

end IrisMpc.Client
