import Floonet.Server.Feed

/-!
# Events belong to a live subscription

A broadcast is checked against the open subscriptions when it is sent. The rows of a query are
not: what a thread has put into the result queue goes out, whatever became of the subscription
meanwhile, and the thread itself looks for its cancellation once every 100 rows. `Settled`
says of a step that it opens none of these gaps, and in a run of such steps every event that
goes out belongs to a subscription that is open and wants it (`events_attributed`). What it asks
of a statement is a matter of the filter alone when stored keys are in lower case
(`settled_prepare`).
-/

namespace Floonet

open Session (Booked)
open Sqlite (Db EventRow ReadsAlike queryFromFilter sampleCmd sampleKindFilter sampleQueried
  sampleQueried_wrapped)

/-- The connection has the subscription open, and it wants the event in the text. -/
def Attributed (crypto : Crypto) (conn : ClientConn) (subId text : String) : Prop :=
  ∃ sub e, conn.subscriptions.lookup subId = some sub ∧ e.Wrapped crypto ∧ text = e.eventStr ∧
    sub.interestedInEvent e = true

/-- No row of this id waits in the result queue. -/
def Client.Drained (c : Client) (id : String) : Prop :=
  ∀ r ∈ c.results, r.subId = id → r.event = "EOSE"

namespace Feed

variable (fd : Feed)

/-- The step leaves no row behind without its subscription: ids are free of the quotes that
messages drop, and change hands only when no row of theirs waits; statements select what the
live match takes; and a query that was cancelled sends no more rows. -/
def Settled (st : State) : Action fd.server.crypto → Prop
  | .turn i => ∀ c, st.client = some c →
    (∀ s, TakesUp fd.server c.session i s → Json.quote ∉ s.id.toList ∧ c.Drained s.id) ∧
      ∀ id, Closes fd.server c.session i id → c.Drained id
  | .thread q (.prepare unixTime) => ∀ c t, st.client = some c → c.threads.lookup q = some t →
    ∀ f ∈ t.filters.head?, ∀ r ∈ (queryFromFilter f unixTime).rows fd.eng st.db,
      ∀ e, e.Wrapped fd.server.crypto → r.content = e.serialized → ReadsAlike f e
  | .thread q .row => ∀ c, st.client = some c → q ∉ c.cancelled
  | _ => True

/-! ## What such steps keep

Everything on its way to a client carries a subscription id: the rows in the result queue and what
the query threads will still send. Both stay with open subscriptions as long as no step leaves a
row behind. -/

/-- The thread under a channel. -/
structure ThreadSound (crypto : Crypto) (c : Client) (q : Nat) (t : QueryThread) : Prop where
  /-- it runs for the subscription of its channel, unless it was cancelled -/
  current : q ∈ c.cancelled ∨ (c.session.runningQueries.lookup t.sub.id = some q ∧
    c.session.conn.subscriptions.lookup t.sub.id = some t.sub)
  filters : ∀ f ∈ t.filters, f ∈ t.sub.filters
  rows : ∀ r ∈ t.rows, ∃ e, e.Wrapped crypto ∧ r.content = e.serialized ∧
    t.sub.interestedInEvent e = true

/-- What holds of a client between two steps: its bookkeeping, its query threads and the results
on their way to it. -/
structure ClientSound (crypto : Crypto) (c : Client) : Prop where
  booked : Booked c.session
  unquoted : ∀ id ∈ c.session.conn.subscriptions, Json.quote ∉ id.toList
  threads : ∀ q t, c.threads.lookup q = some t → ThreadSound crypto c q t
  results : ∀ r ∈ c.results,
    r.event = "EOSE" ∨ Attributed crypto c.session.conn r.subId r.event

/-- Everything under way belongs to a subscription. -/
structure Sound (st : State) : Prop where
  coherent : st.db.Coherent
  stores : st.db.Stores (Event.Wrapped fd.server.crypto)
  outbox : ∀ e ∈ st.outbox, e.Wrapped fd.server.crypto
  chan : ∀ e ∈ st.chan.log, e.Wrapped fd.server.crypto
  client : ∀ c, st.client = some c → ClientSound fd.server.crypto c

variable {fd} {st : State} {c : Client} {i : Input}

section Turn

/-- A client stays sound when the queries of the subscriptions that change are cancelled, and no
row waits for them. -/
theorem ClientSound.of_kept {crypto : Crypto} {c' : Client} (h : ClientSound crypto c)
    (hbooked : Booked c'.session)
    (hunquoted : ∀ id ∈ c'.session.conn.subscriptions, Json.quote ∉ id.toList)
    (hresults : c'.results = c.results) (hcancelled : ∀ q ∈ c.cancelled, q ∈ c'.cancelled)
    (hkept : ∀ id q, c.session.runningQueries.lookup id = some q → q ∈ c'.cancelled ∨
      (c'.session.runningQueries.lookup id = some q ∧ c'.session.conn.subscriptions.lookup id =
        c.session.conn.subscriptions.lookup id))
    (hwaiting : ∀ r ∈ c.results, r.event = "EOSE" ∨ c'.session.conn.subscriptions.lookup r.subId =
      c.session.conn.subscriptions.lookup r.subId)
    (hthreads : ∀ q t, c'.threads.lookup q = some t →
      c.threads.lookup q = some t ∨ ThreadSound crypto c' q t) : ClientSound crypto c' := by
  refine ⟨hbooked, hunquoted, fun q t ht => ?_, fun r hr => ?_⟩
  · rcases hthreads q t ht with hold | hnew
    · obtain ⟨hcurrent, hfilters, hrows⟩ := h.threads q t hold
      refine ⟨?_, hfilters, hrows⟩
      rcases hcurrent with hc | ⟨hrun, hsub⟩
      · exact .inl (hcancelled q hc)
      · refine (hkept _ q hrun).imp_right fun hk => ⟨hk.1, ?_⟩
        rw [hk.2, hsub]
    · exact hnew
  · rw [hresults] at hr
    rcases hwaiting r hr with heose | hsame
    · exact .inl heose
    · refine (h.results r hr).imp_right ?_
      rintro ⟨sub, e, hsub, he⟩
      exact ⟨sub, e, by rw [hsame, hsub], he⟩

/-- A turn keeps the client sound when its REQ or CLOSE finds no row of the id. -/
theorem clientSound_took (h : ClientSound fd.server.crypto c)
    (hreq : ∀ s, TakesUp fd.server c.session i s → Json.quote ∉ s.id.toList ∧ c.Drained s.id)
    (hclose : ∀ id, Closes fd.server c.session i id → c.Drained id) :
    ClientSound fd.server.crypto (c.took (fd.server.step c.session i)).1 := by
  have hbooked : Booked (c.took (fd.server.step c.session i)).1.session := booked_step i h.booked
  have hcancelled : ∀ q ∈ c.cancelled, q ∈ (c.took (fd.server.step c.session i)).1.cancelled :=
    fun q hq => mem_cancelled_took.mpr (.inl hq)
  rcases turn_cases fd.server c.session i with hq | ⟨s, hs⟩ | ⟨id, hid⟩
  · have hsubs : (c.took (fd.server.step c.session i)).1.session.conn.subscriptions =
        c.session.conn.subscriptions := hq.subscriptions
    refine h.of_kept hbooked (hsubs ▸ h.unquoted) rfl hcancelled ?_ ?_ ?_
    · exact fun id q hrun => .inr ⟨by rw [← hrun, ← hq.runningQueries]; rfl, by rw [hsubs]⟩
    · exact fun r _ => .inr (by rw [hsubs])
    · intro q t ht
      rw [threads_took_of_quiet hq] at ht
      exact .inl ht
  · obtain ⟨hquote, hdrained⟩ := hreq s hs
    have hstep := step_of_takesUp hs
    have hsession : (c.took (fd.server.step c.session i)).1.session = c.session.withQuery s :=
      congrArg Prod.fst hstep
    refine h.of_kept hbooked (fun id hid => ?_) rfl hcancelled (fun id q hrun => ?_) (fun r hr => ?_)
      fun q t ht => ?_
    · rw [hsession, Session.withQuery, AList.mem_insert] at hid
      rcases hid with rfl | hid
      · exact hquote
      · exact h.unquoted id hid
    · by_cases heq : id = s.id
      · -- the query that ran under the id is cancelled
        refine .inl (mem_cancelled_took.mpr (.inr ?_))
        rw [hstep]
        exact List.mem_append_left _ (mem_cancelOf.mpr ⟨q, heq ▸ hrun, rfl⟩)
      · rw [hsession]
        exact .inr ⟨(AList.lookup_insert_ne heq).trans hrun, AList.lookup_insert_ne heq⟩
    · by_cases heq : r.subId = s.id
      · exact .inl (hdrained r hr heq)
      · rw [hsession]
        exact .inr (AList.lookup_insert_ne heq)
    · rw [threads_took_of_takesUp hs] at ht
      split_ifs at ht
      · by_cases heq : q = c.session.nextQuery
        · subst heq
          rw [AList.lookup_insert] at ht
          cases ht
          refine .inr ⟨.inr ?_, fun _ hf => hf, fun r hr => absurd hr List.not_mem_nil⟩
          rw [hsession]
          exact ⟨AList.lookup_insert _, AList.lookup_insert _⟩
        · rw [AList.lookup_insert_ne heq] at ht
          exact .inl ht
      · exact .inl ht
  · have hdrained := hclose id hid
    have hstep := step_of_closes hid
    have hsession : (c.took (fd.server.step c.session i)).1.session = c.session.withoutQuery id :=
      congrArg Prod.fst hstep
    refine h.of_kept hbooked (fun id' hid' => ?_) rfl hcancelled (fun id' q hrun => ?_)
      (fun r hr => ?_) fun q t ht => ?_
    · rw [hsession, Session.withoutQuery, ClientConn.subscriptions_unsubscribe,
        AList.mem_erase] at hid'
      exact h.unquoted id' hid'.2
    · by_cases heq : id' = id
      · refine .inl (mem_cancelled_took.mpr (.inr ?_))
        rw [hstep]
        exact mem_cancelOf.mpr ⟨q, heq ▸ hrun, rfl⟩
      · rw [hsession]
        exact .inr ⟨(AList.lookup_erase_ne heq).trans hrun, AList.lookup_erase_ne heq⟩
    · by_cases heq : r.subId = id
      · exact .inl (hdrained r hr heq)
      · rw [hsession]
        exact .inr (AList.lookup_erase_ne heq)
    · rw [threads_took_of_closes hid] at ht
      exact .inl ht

/-- A turn that takes something from a queue leaves the subscriptions alone. -/
theorem clientSound_took_of_internal (h : ClientSound fd.server.crypto c)
    (hi : fd.server.received i.turn = none) :
    ClientSound fd.server.crypto (c.took (fd.server.step c.session i)).1 :=
  clientSound_took h (fun _ hs => absurd hi hs.received_ne) fun _ hid => absurd hi hid.received_ne

end Turn

section Thread

variable {crypto : Crypto} {eng : Sql.Engine} {db : Db} {q : Nat} {t : QueryThread}

/-- Selected rows hold events the filter is interested in. -/
theorem interested_of_mem_rows (hcoh : db.Coherent) (hstores : db.Stores (Event.Wrapped crypto))
    {f : ReqFilter} {unixTime : Nat} {r : EventRow}
    (hr : r ∈ (queryFromFilter f unixTime).rows eng db)
    (halike : ∀ e, e.Wrapped crypto → r.content = e.serialized → ReadsAlike f e) :
    ∃ e, e.Wrapped crypto ∧ r.content = e.serialized ∧ f.interestedInEvent e = true := by
  obtain ⟨hmem, hsel⟩ := Sqlite.selects_of_mem_rows hr
  obtain ⟨e, he, hcontent⟩ := hstores r hmem
  exact ⟨e, he, hcontent,
    Sqlite.interested_of_selects hcoh hmem hcontent he (halike e he hcontent) hsel⟩

variable (eng) in
/-- A step of a thread keeps it sound, and what it sends belongs to its subscription. -/
theorem ThreadSound.advance (h : ThreadSound crypto c q t) (hcoh : db.Coherent)
    (hstores : db.Stores (Event.Wrapped crypto)) (b : Bool) (m : QueryThread.Move)
    (hprepare : ∀ unixTime, m = .prepare unixTime → ∀ f ∈ t.filters.head?,
      ∀ r ∈ (queryFromFilter f unixTime).rows eng db,
        ∀ e, e.Wrapped crypto → r.content = e.serialized → ReadsAlike f e)
    (hrow : m = .row → q ∉ c.cancelled) :
    (∀ t' ∈ (t.advance eng db b m).1, ThreadSound crypto c q t') ∧
      ∀ r ∈ (t.advance eng db b m).2,
        r.event = "EOSE" ∨ Attributed crypto c.session.conn r.subId r.event := by
  have hsame : (∀ t' ∈ some t, ThreadSound crypto c q t') ∧
      ∀ r ∈ (none : Option QueryResult),
        r.event = "EOSE" ∨ Attributed crypto c.session.conn r.subId r.event :=
    ⟨fun t' ht' => Option.mem_some_iff.mp ht' ▸ h, fun r hr => absurd hr (Option.not_mem_none r)⟩
  have hends : ∀ r ∈ (none : Option QueryResult),
      r.event = "EOSE" ∨ Attributed crypto c.session.conn r.subId r.event := hsame.2
  cases m with
  | start =>
    simp only [QueryThread.advance]
    split_ifs
    · exact hsame
    · exact ⟨fun t' ht' => absurd ht' (Option.not_mem_none t'), hends⟩
    · refine ⟨fun t' ht' => ?_, hends⟩
      rw [← Option.mem_some_iff.mp ht']
      exact ⟨h.current, h.filters, h.rows⟩
  | noConnection =>
    simp only [QueryThread.advance]
    split_ifs
    · exact hsame
    · exact ⟨fun t' ht' => absurd ht' (Option.not_mem_none t'), hends⟩
    · refine ⟨fun t' ht' => ?_, hends⟩
      rw [← Option.mem_some_iff.mp ht']
      exact ⟨h.current, fun f hf => absurd hf List.not_mem_nil, h.rows⟩
  | prepare unixTime =>
    simp only [QueryThread.advance]
    split
    · rename_i f rest _ _ hfilters
      split_ifs
      · refine ⟨fun t' ht' => ?_, hends⟩
        rw [← Option.mem_some_iff.mp ht']
        refine ⟨h.current, fun g hg => h.filters g (hfilters ▸ List.mem_cons_of_mem _ hg), ?_⟩
        intro r hr
        have halike := hprepare unixTime rfl f (by rw [hfilters]; rfl) r hr
        obtain ⟨e, he, hcontent, hint⟩ := interested_of_mem_rows hcoh hstores hr halike
        refine ⟨e, he, hcontent, List.any_eq_true.mpr ⟨f, h.filters f ?_, hint⟩⟩
        exact hfilters ▸ List.mem_cons_self ..
      · exact ⟨fun t' ht' => absurd ht' (Option.not_mem_none t'), hends⟩
    · exact hsame
  | row =>
    simp only [QueryThread.advance]
    split
    · exact hsame
    · rename_i r rest hrows
      split_ifs
      · exact ⟨fun t' ht' => absurd ht' (Option.not_mem_none t'), hends⟩
      · refine ⟨fun t' ht' => ?_, fun sent hsent => .inr ?_⟩
        · rw [← Option.mem_some_iff.mp ht']
          exact ⟨h.current, h.filters, fun r hr => h.rows r (hrows ▸ List.mem_cons_of_mem _ hr)⟩
        · rw [← Option.mem_some_iff.mp hsent]
          obtain ⟨-, hsub⟩ := h.current.resolve_left (hrow rfl)
          obtain ⟨e, he, hcontent, hint⟩ := h.rows r (hrows ▸ List.mem_cons_self ..)
          exact ⟨t.sub, e, hsub, he, by rw [hcontent]; rfl, hint⟩
  | finish =>
    simp only [QueryThread.advance]
    split
    · refine ⟨fun t' ht' => absurd ht' (Option.not_mem_none t'), fun sent hsent => .inl ?_⟩
      rw [← Option.mem_some_iff.mp hsent]
    · exact hsame
  | abort => exact ⟨fun t' ht' => absurd ht' (Option.not_mem_none t'), hends⟩

/-- A step of a thread keeps the client sound. -/
theorem clientSound_moveThread {db : Db} (h : ClientSound fd.server.crypto c) (hcoh : db.Coherent)
    (hstores : db.Stores (Event.Wrapped fd.server.crypto)) (q : Nat) (m : QueryThread.Move)
    (hprepare : ∀ unixTime, m = .prepare unixTime → ∀ t, c.threads.lookup q = some t →
      ∀ f ∈ t.filters.head?, ∀ r ∈ (queryFromFilter f unixTime).rows fd.eng db,
        ∀ e, e.Wrapped fd.server.crypto → r.content = e.serialized → ReadsAlike f e)
    (hrow : m = .row → q ∉ c.cancelled) :
    ClientSound fd.server.crypto (fd.moveThread db q m c).1 := by
  rw [moveThread]
  rcases ht : c.threads.lookup q with _ | t
  · exact h
  · obtain ⟨hleft, hsent⟩ := ThreadSound.advance fd.eng (h.threads q t ht) hcoh hstores
      (c.cancelled.contains q) m (fun unixTime hm => hprepare unixTime hm t ht) hrow
    refine ⟨h.booked, h.unquoted, fun q' t' ht' => ?_, fun r hr => ?_⟩
    · have hsound : ThreadSound fd.server.crypto c q' t' := by
        by_cases hq : q' = q
        · subst hq
          rcases hadv : (t.advance fd.eng db (c.cancelled.contains q') m).1 with _ | left
          · simp only [hadv, Option.elim_none, AList.lookup_erase] at ht'
            cases ht'
          · simp only [hadv, Option.elim_some, AList.lookup_insert] at ht'
            cases ht'
            exact hleft _ hadv
        · rcases hadv : (t.advance fd.eng db (c.cancelled.contains q) m).1 with _ | left
          · simp only [hadv, Option.elim_none, AList.lookup_erase_ne hq] at ht'
            exact h.threads q' t' ht'
          · simp only [hadv, Option.elim_some, AList.lookup_insert_ne hq] at ht'
            exact h.threads q' t' ht'
      exact ⟨hsound.current, hsound.filters, hsound.rows⟩
    · rcases List.mem_append.mp hr with hr | hr
      · exact h.results r hr
      · exact hsent r (Option.mem_toList.mp hr)

end Thread

/-! ## Settled runs -/

section Run

variable {db : Db} {a : Action fd.server.crypto}

/-- A statement is settled, whatever it selects, for a filter of full hex whose tag conditions all
have values, as long as the stored keys are in lower case. -/
theorem settled_prepare {q unixTime : Nat} (hcoh : st.db.Coherent)
    (hlow : ∀ r ∈ st.db.events, isLowerHex r.content.pubkey = true)
    (hfilters : ∀ c t, st.client = some c → c.threads.lookup q = some t → ∀ f ∈ t.filters.head?,
      Sqlite.FullHexFilter f ∧ ∀ map, f.tags = some map →
        ∀ key val, map.lookup key = some val → val.values ≠ ∅) :
    fd.Settled st (.thread q (.prepare unixTime)) := by
  intro c t hc ht f hf r hr e he hcontent
  obtain ⟨hhex, hvalues⟩ := hfilters c t hc ht f hf
  obtain ⟨hmem, hsel⟩ := Sqlite.selects_of_mem_rows hr
  have hkey : isLowerHex e.pubkey = true := by
    have hrow := hlow r hmem
    rw [hcontent] at hrow
    exact hrow
  exact Sqlite.readsAlike_of_values hcoh hmem hcontent he hkey hhex hvalues hsel

theorem sound_start (hcoh : db.Coherent)
    (hstores : db.Stores (Event.Wrapped fd.server.crypto)) : fd.Sound (fd.start db) where
  coherent := hcoh
  stores := hstores
  outbox := fun _ h => absurd h List.not_mem_nil
  chan := fun _ h => absurd h List.not_mem_nil
  client := fun _ h => by cases h

/-- A task commits and broadcasts its own event. -/
theorem sound_commit (h : fd.Sound st) {e : Event} (he : e.Wrapped fd.server.crypto)
    (attempt : Except Payment.RepoError Nat) {outlets : List Pipeline.Outlet}
    (hown : ∀ o ∈ outlets, o.event = e) :
    fd.Sound (commit st (fd.writeEvent st.db e attempt).2 outlets) := by
  have hdb : (commit st (fd.writeEvent st.db e attempt).2 outlets).db = st.db ∨
      (commit st (fd.writeEvent st.db e attempt).2 outlets).db = Sqlite.write fd.eng st.db e := by
    rcases db_commit st (fd.writeEvent st.db e attempt).2 outlets with hc | hc
    · exact .inl hc
    · rw [hc]
      exact writeEvent_cases fd st.db e attempt
  refine ⟨?_, ?_, fun e' he' => ?_, h.chan, h.client⟩
  · rcases hdb with hdb | hdb <;> rw [hdb]
    · exact h.coherent
    · exact h.coherent.write fd.eng e
  · rcases hdb with hdb | hdb <;> rw [hdb]
    · exact h.stores
    · exact h.stores.write fd.eng fun _ => he
  · rcases mem_outbox_commit.mp he' with hold | hnew
    · exact h.outbox e' hold
    · obtain rfl : e' = e := hown _ hnew
      exact he

/-- A step of the client keeps the rest. -/
theorem sound_onClient (h : fd.Sound st) {f : Client → Client × List Effect}
    (hf : ∀ c, st.client = some c → ClientSound fd.server.crypto (f c).1) :
    fd.Sound (onClient st f).1 := by
  rw [onClient]
  rcases hc : st.client with _ | c
  · exact h
  · refine ⟨h.coherent, h.stores, h.outbox, h.chan, fun c' hc' => ?_⟩
    cases hc'
    exact hf c hc

/-- A settled step keeps everything sound. -/
theorem sound_step (h : fd.Sound st) (hset : fd.Settled st a) : fd.Sound (fd.step st a).1 := by
  cases a with
  | write r wrapped =>
    refine sound_commit h wrapped r.write fun o ho => ?_
    obtain ⟨x, hx, he⟩ := Pipeline.event_of_writerOutlets ho
    exact (DbWriter.event_of_round hx he).1
  | verify m e wrapped =>
    exact sound_commit h wrapped m.write fun o ho =>
      event_of_onMetadata (Pipeline.event_of_verifierOutlets ho)
  | publish k =>
    rw [step]
    rcases he : st.outbox[k]? with _ | e
    · exact h
    · refine ⟨h.coherent, h.stores, fun e' he' => h.outbox e' (List.mem_of_mem_eraseIdx he'),
        fun e' he' => ?_, h.client⟩
      rcases List.mem_append.mp he' with hold | hnew
      · exact h.chan e' hold
      · rw [List.mem_singleton.mp hnew]
        exact h.outbox e (List.mem_of_getElem? he)
  | maintain op other =>
    refine ⟨h.coherent.apply fd.eng op, h.stores.apply fd.eng fun e he => ?_, h.outbox, h.chan,
      h.client⟩
    exact absurd he (other e)
  | connect uuid =>
    rw [step]
    rcases hc : st.client with _ | c
    · refine ⟨h.coherent, h.stores, h.outbox, h.chan, fun c hc => ?_⟩
      cases hc
      refine ⟨booked_start fd.server uuid, fun id hid => ?_, fun q t ht => ?_, fun r hr => ?_⟩
      · simp only [Client.start, Server.start] at hid
        split_ifs at hid <;> cases hid
      · cases ht
      · cases hr
    · exact h
  | turn i =>
    refine sound_onClient h fun c hc => ?_
    split_ifs
    · exact clientSound_took (h.client c hc) (hset c hc).1 (hset c hc).2
    · exact h.client c hc
  | recvResult now failsAt =>
    refine sound_onClient h fun c hc => ?_
    have hsound := h.client c hc
    rw [recvResult]
    rcases hr : c.results with _ | ⟨r, rest⟩
    · exact hsound
    · refine clientSound_took_of_internal (c := { c with results := rest })
        ⟨hsound.booked, hsound.unquoted, fun q t ht => ?_, fun r' hr' => ?_⟩ rfl
      · obtain ⟨hcurrent, hfilters, hrows⟩ := hsound.threads q t ht
        exact ⟨hcurrent, hfilters, hrows⟩
      · exact hsound.results r' (hr ▸ List.mem_cons_of_mem _ hr')
  | recvBroadcast now failsAt =>
    refine sound_onClient h fun c hc => ?_
    have hsound := h.client c hc
    have hmoved : ∀ next, ClientSound fd.server.crypto { c with next } := by
      intro next
      refine ⟨hsound.booked, hsound.unquoted, fun q t ht => ?_, hsound.results⟩
      obtain ⟨hcurrent, hfilters, hrows⟩ := hsound.threads q t ht
      exact ⟨hcurrent, hfilters, hrows⟩
    rw [recvBroadcast]
    rcases st.chan.recv c.next with _ | next | e
    · exact hsound
    · exact hmoved next
    · exact clientSound_took_of_internal (hmoved (c.next + 1)) rfl
  | thread q m =>
    refine sound_onClient h fun c hc => ?_
    refine clientSound_moveThread (h.client c hc) h.coherent h.stores q m ?_ ?_
    · rintro unixTime rfl t ht
      exact hset c t hc ht
    · rintro rfl
      exact hset c hc

/-! ### What goes out -/

/-- A name without quotation marks stays as it is. -/
theorem withoutQuotes_eq {s : String} (h : Json.quote ∉ s.toList) : withoutQuotes s = s := by
  rw [withoutQuotes, List.filter_eq_self.mpr, String.ofList_toList]
  intro ch hch
  simp only [ne_eq, decide_eq_true_eq]
  rintro rfl
  exact h hch

/-- The end of a query does not go out as an event. -/
theorem ne_eose_of_step {sv : Server} {st : Session} {r : QueryResult} {subId text : String}
    (hi : i.turn = .queryResult r) (h : Effect.send (.event subId text) ∈ (sv.step st i).2) :
    r.event ≠ "EOSE" := by
  obtain ⟨-, st', effects, hturn, hmem⟩ := Server.send_of_step h
  rw [hi] at hturn
  cases hturn
  rw [Server.onQueryResult] at hmem
  split_ifs at hmem with heose hallow
  · simp at hmem
  · exact heose
  · exact heose

/-- An event that goes out in a sound state belongs to a subscription. -/
theorem attributed_of_sound (h : fd.Sound st) {subId text : String}
    (hsent : .send (.event subId text) ∈ (fd.step st a).2) :
    ∃ c, st.client = some c ∧ Attributed fd.server.crypto c.session.conn subId text := by
  -- it is the connection that sent it, in one of its turns
  have hclient : ∀ {f : Client → Client × List Effect},
      .send (.event subId text) ∈ (onClient st f).2 →
      ∃ c, st.client = some c ∧ .send (.event subId text) ∈ (f c).2 := by
    intro f hf
    rw [onClient] at hf
    rcases hc : st.client with _ | c <;> rw [hc] at hf
    · cases hf
    · exact ⟨c, rfl, hf⟩
  cases a with
  | write r wrapped => cases hsent
  | verify m e wrapped => cases hsent
  | publish k =>
    rw [step] at hsent
    rcases he : st.outbox[k]? with _ | e <;> rw [he] at hsent <;> cases hsent
  | maintain op other => cases hsent
  | connect uuid =>
    rw [step] at hsent
    rcases hc : st.client with _ | c <;> rw [hc] at hsent <;> cases hsent
  | turn i =>
    obtain ⟨c, hc, hsent⟩ := hclient hsent
    split_ifs at hsent with hext
    · obtain ⟨-, ⟨r, hi, -⟩ | ⟨e, s, sub, hi, -⟩⟩ := Server.event_of_step hsent <;>
        rw [hi] at hext <;> cases hext
    · cases hsent
  | recvResult now failsAt =>
    obtain ⟨c, hc, hsent⟩ := hclient hsent
    have hsound := h.client c hc
    rw [recvResult] at hsent
    rcases hr : c.results with _ | ⟨r, rest⟩ <;> rw [hr] at hsent
    · cases hsent
    · have hne := ne_eose_of_step rfl hsent
      obtain ⟨-, ⟨r', hi, hid, htext⟩ | ⟨e, s, sub, hi, -⟩⟩ := Server.event_of_step hsent
      · cases hi
        have hattr := (hsound.results r (hr ▸ List.mem_cons_self ..)).resolve_left hne
        obtain ⟨sub, e, hsub, he⟩ := hattr
        have hquote := hsound.unquoted r.subId (AList.lookup_isSome.mp (by rw [hsub]; rfl))
        refine ⟨c, hc, sub, e, ?_, htext ▸ he⟩
        rw [hid, withoutQuotes_eq hquote]
        exact hsub
      · cases hi
  | recvBroadcast now failsAt =>
    obtain ⟨c, hc, hsent⟩ := hclient hsent
    have hsound := h.client c hc
    rw [recvBroadcast] at hsent
    rcases hrecv : st.chan.recv c.next with _ | next | e <;> rw [hrecv] at hsent
    · cases hsent
    · cases hsent
    · obtain ⟨-, ⟨r, hi, -⟩ | ⟨e', s, sub, hi, hs, hint, hid, htext⟩⟩ := Server.event_of_step hsent
      · cases hi
      · cases hi
        have hsub : c.session.conn.subscriptions.lookup s = some sub := AList.mem_lookup_iff.mpr hs
        have hquote := hsound.unquoted s (AList.lookup_isSome.mp (by rw [hsub]; rfl))
        have he : e.Wrapped fd.server.crypto :=
          h.chan e (List.mem_of_getElem? (Broadcast.Chan.getElem?_of_recv hrecv))
        refine ⟨c, hc, sub, e, ?_, he, htext, hint⟩
        rw [hid, withoutQuotes_eq hquote]
        exact hsub
  | thread q m =>
    obtain ⟨c, hc, hsent⟩ := hclient hsent
    rw [moveThread] at hsent
    rcases ht : c.threads.lookup q with _ | t <;> rw [ht] at hsent <;> cases hsent

/-- **Events belong to a live subscription.** In a run whose steps are all settled, an event
goes out under an id only while a subscription is open under that id that wants it. The relay
may start on any database it has written. -/
theorem events_attributed (fd : Feed) (ops : List Sqlite.Op)
    (hops : ∀ e ∈ Sqlite.written ops, e.Wrapped fd.server.crypto)
    (acts : List (Action fd.server.crypto))
    (hset : Machine.Along (fun st a => (fd.step st a).1) fd.Settled
      (fd.start (Sqlite.run fd.eng ops)) acts)
    (pre post : List (Action fd.server.crypto)) (a : Action fd.server.crypto)
    (hacts : acts = pre ++ a :: post) (subId text : String)
    (hsent : .send (.event subId text) ∈ (fd.step (fd.run (Sqlite.run fd.eng ops) pre) a).2) :
    ∃ c, (fd.run (Sqlite.run fd.eng ops) pre).client = some c ∧
      Attributed fd.server.crypto c.session.conn subId text := by
  rw [hacts, Machine.along_append] at hset
  have hstart : fd.Sound (fd.start (Sqlite.run fd.eng ops)) := by
    refine sound_start (Sqlite.run_coherent fd.eng ops) fun r hr => ?_
    obtain ⟨e, ⟨he, -⟩, hcontent⟩ := Sqlite.run_written fd.eng ops r hr
    exact ⟨e, hops e he, hcontent⟩
  have hsound : fd.Sound (fd.run (Sqlite.run fd.eng ops) pre) :=
    Machine.invariant_along (fun st a _ hC h => sound_step h hC) hset.1 hstart
  exact attributed_of_sound hsound hsent

end Run

/-! ## A client that closes -/

/-- The relay has stored a note. -/
def storedNote : List Sqlite.Op := [.persistEvent sampleQueried.event]

/-- A server with one note in reach. -/
noncomputable def noteFeed : Feed := sampleFeed false [sampleQueried]

/-- A client that asks for notes. -/
def noteSub : Subscription := ⟨"feed", [sampleKindFilter]⟩

/-- What the relay has done after some of these steps. -/
noncomputable def noteRun (acts : List (Action noteFeed.server.crypto)) : State :=
  noteFeed.run (Sqlite.run noteFeed.eng storedNote) acts

theorem wrapped_storedNote : ∀ e ∈ Sqlite.written storedNote, e.Wrapped noteFeed.server.crypto := by
  intro e he
  obtain rfl : e = sampleQueried.event := List.mem_singleton.mp he
  exact ⟨sampleCmd sampleQueried, ⟨rfl, rfl⟩, sampleQueried_wrapped⟩

/-- A row of the note that waits goes out next. -/
theorem sent_note {acts : List (Action noteFeed.server.crypto)}
    (h : (noteRun acts).client.map (fun c => (c.results, c.session.isOpen)) =
      some ([⟨"feed", sampleQueried.event.eventStr⟩], true)) :
    .send (.event "feed" sampleQueried.event.eventStr) ∈
      (noteFeed.step (noteRun acts) (.recvResult 1700000092 none)).2 := by
  obtain ⟨c, hc, hpair⟩ := Option.map_eq_some_iff.mp h
  obtain ⟨hresults, hopen⟩ := Prod.mk.inj hpair
  rw [step, onClient, hc]
  exact @sent_recvResult noteFeed _ _ _ _ _ hresults (eventStr_ne_eose _) rfl
    (isOpen_recvResult hopen)

theorem settled_asksAndFinds : Machine.Along (fun st a => (noteFeed.step st a).1) noteFeed.Settled
    (noteFeed.start (Sqlite.run noteFeed.eng storedNote))
    (asksAndFinds _ noteSub ++ [.recvResult 1700000092 none]) := by
  refine ⟨trivial, fun c hc => ⟨fun s hs => ?_, fun id hid => ?_⟩, trivial, fun c t hc ht => ?_,
    fun c hc => ?_, trivial, trivial⟩
  · have hrec := hs.received
    cases hrec
    cases hc
    exact ⟨by decide, fun r hr => absurd hr List.not_mem_nil⟩
  · have hrec := hid.received
    cases hrec
  · -- the filter asks for a kind only
    have hfilters : (noteRun ((asksAndFinds _ noteSub).take 3)).client.bind
        (fun c => (c.threads.lookup 0).map QueryThread.filters) = some [sampleKindFilter] := by
      decide +kernel
    have hkeys : ∀ r ∈ (noteRun ((asksAndFinds _ noteSub).take 3)).db.events,
        isLowerHex r.content.pubkey = true := by
      decide +kernel
    have hcoh : (noteRun ((asksAndFinds _ noteSub).take 3)).db.Coherent :=
      Sqlite.run_coherent noteFeed.eng storedNote
    refine settled_prepare hcoh hkeys (fun c t hc ht f hf => ?_) c t hc ht
    rw [hc, Option.bind_some, ht, Option.map_some, Option.some.injEq] at hfilters
    rw [hfilters] at hf
    obtain rfl := Option.some.inj hf
    exact ⟨⟨fun ids hids => (by cases hids), fun as has => (by cases has)⟩,
      fun map hmap => by cases hmap⟩
  · have hcancelled : (noteRun ((asksAndFinds _ noteSub).take 4)).client.map Client.cancelled =
        some [] := by
      decide +kernel
    have hc' : (noteRun ((asksAndFinds _ noteSub).take 4)).client = some c := hc
    rw [hc', Option.map_some, Option.some.injEq] at hcancelled
    rw [hcancelled]
    exact List.not_mem_nil

/-- A client that keeps its subscription gets the note for it. -/
theorem note_attributed : ∃ c, (noteRun (asksAndFinds _ noteSub)).client = some c ∧
    Attributed noteFeed.server.crypto c.session.conn "feed" sampleQueried.event.eventStr :=
  events_attributed noteFeed storedNote wrapped_storedNote _ settled_asksAndFinds
    (asksAndFinds _ noteSub) [] _ rfl _ _ (sent_note rfl)

/-- A client that closes its subscription while the row waits gets it all the same. -/
theorem closed_note_unattributed :
    .send (.event "feed" sampleQueried.event.eventStr) ∈
      (noteFeed.step (noteRun (asksAndFinds _ noteSub ++ [.turn (closeInput "feed")]))
        (.recvResult 1700000092 none)).2 ∧
    ¬ ∃ c, (noteRun (asksAndFinds _ noteSub ++ [.turn (closeInput "feed")])).client = some c ∧
      Attributed noteFeed.server.crypto c.session.conn "feed" sampleQueried.event.eventStr := by
  refine ⟨sent_note rfl, ?_⟩
  rintro ⟨c, hc, sub, e, hsub, -⟩
  have hclosed : (noteRun (asksAndFinds _ noteSub ++ [.turn (closeInput "feed")])).client.map
      (fun c => c.session.conn.subscriptions.lookup "feed") = some none := by
    decide +kernel
  rw [hc, Option.map_some, hsub] at hclosed
  cases hclosed

end Feed

end Floonet
