import Floonet.Server.Feed
import Floonet.Server.GiftWrap

/-!
# No event falls between the query and the live feed

A subscription is registered before its query reads the database, and an event is committed
before it is broadcast. So an event that is committed too late for the statement of a filter is
broadcast to a connection that already has the subscription. `UnderWay` names the places where
such an event is until it is sent, and every step keeps it in one of them (`underWay_step`).
-/

namespace Floonet

open Session (Booked)
open Sqlite (Db EventRow queryFromFilter sampleCmd sampleWrap)

namespace Feed

variable (fd : Feed)

/-! ## What is assumed of a run

The premises are about steps of the run: the event stays visible, the subscription is left alone,
and neither the connection, the statement nor the gate fails. -/

/-- The writer commits the event of the round: `write_event` is called and adds it. -/
def Commits (st : State) (r : Round) : Prop :=
  .written r.event ∈ fd.outletsOf st r ∧
    ∃ updated, (fd.writeEvent st.db r.event r.write).1 = .ok updated ∧ updated ≠ 0

/-- The time a step compares expirations with. -/
def Action.clock {crypto : Crypto} : Action crypto → Option Nat
  | .maintain (.deleteExpired now) _ => some now
  | .thread _ (.prepare unixTime) => some unixTime
  | _ => none

/-- The step leaves the event visible, and comes before it expires. -/
def Lasts (e : Event) (st : State) (a : Action fd.server.crypto) : Prop :=
  (∀ row ∈ (fd.step st a).1.db.events, row.content = e.serialized → row.hidden = false) ∧
    ∀ now ∈ a.clock, (e.expiration.all fun exp => decide (now < exp)) = true

/-- The step does not take the subscription away: it neither closes its id nor gives it to
another one, does not abort its query, and the receiver has missed nothing. -/
def Kept (id : String) (q : Nat) (st : State) : Action fd.server.crypto → Prop
  | .turn i => ∀ c, st.client = some c →
    (∀ s, TakesUp fd.server c.session i s → s.id ≠ id) ∧ ¬ Closes fd.server c.session i id
  | .recvBroadcast _ _ => ∀ c, st.client = some c → ¬ st.chan.Lags c.next
  | .thread q' m => q' = q → m ≠ .abort
  | _ => True

/-- The thread of the query gets a database connection. -/
def Connected (q : Nat) : Action fd.server.crypto → Prop
  | .thread q' m => q' = q → m ≠ .noConnection
  | _ => True

/-- SQLite takes the statements of the subscription. -/
def Served (s : Subscription) : Prop :=
  ∀ f ∈ s.filters, ∀ now, (queryFromFilter f now).taken fd.eng = true

/-- When the connection takes something from a queue, the gate for private events would let it
have the event. -/
def Allowed (e : Event) (st : State) : Action fd.server.crypto → Prop
  | .recvResult _ _ => ∀ c, st.client = some c →
    fd.server.allowedToSend e.eventStr c.session.conn = true
  | .recvBroadcast _ _ => ∀ c, st.client = some c →
    fd.server.allowedToSend e.eventStr c.session.conn = true
  | _ => True

/-- The loop of the connection runs. -/
def Open (st : State) : Prop := ∀ c, st.client = some c → c.session.isOpen = true

/-- Nothing is left to be handled: the query is through and the queues are empty. -/
structure Drained (st : State) (q : Nat) : Prop where
  outbox : st.outbox = []
  results : ∀ c, st.client = some c → c.results = []
  next : ∀ c, st.client = some c → st.chan.tail ≤ c.next
  thread : ∀ c, st.client = some c → c.threads.lookup q = none

/-! ## Any run

In every run the channels of the queries are told apart and each belongs to one session, so a turn
only ever cancels its own. -/

/-- What a client keeps. -/
structure Client.Orderly (chan : Broadcast.Chan Event) (c : Client) : Prop where
  booked : Booked c.session
  next_le : c.next ≤ chan.tail
  /-- only earlier queries were cancelled -/
  cancelled : c.session.isOpen = true → ∀ q ∈ c.cancelled, q < c.session.nextQuery

/-- What holds in every run. -/
structure Orderly (st : State) : Prop where
  coherent : st.db.Coherent
  client : ∀ c, st.client = some c → Client.Orderly st.chan c

variable {fd} {st : State} {a : Action fd.server.crypto} {c : Client}

/-- A step changes the tables by one of their calls, or not at all. -/
theorem db_step (st : State) (a : Action fd.server.crypto) : (fd.step st a).1.db = st.db ∨
    ∃ op, (fd.step st a).1.db = Sqlite.Op.apply fd.eng st.db op ∧
      ∀ now, op = .deleteExpired now → now ∈ a.clock := by
  have hcommit : ∀ (e : Event) attempt outlets,
      (commit st (fd.writeEvent st.db e attempt).2 outlets).db = st.db ∨
        ∃ op, (commit st (fd.writeEvent st.db e attempt).2 outlets).db =
          Sqlite.Op.apply fd.eng st.db op ∧ ∀ now, op = .deleteExpired now → now ∈ a.clock := by
    intro e attempt outlets
    rcases db_commit st (fd.writeEvent st.db e attempt).2 outlets with h | h
    · exact .inl h
    · rcases writeEvent_cases fd st.db e attempt with hw | hw
      · exact .inl (h.trans hw)
      · exact .inr ⟨.persistEvent e, h.trans hw, fun now hop => by cases hop⟩
  cases a with
  | write r wrapped => exact hcommit r.event r.write _
  | verify m e wrapped => exact hcommit e m.write _
  | publish k =>
    refine .inl ?_
    rw [step]
    rcases st.outbox[k]? with _ | e <;> rfl
  | maintain op other =>
    refine .inr ⟨op, rfl, ?_⟩
    rintro now rfl
    rfl
  | connect uuid =>
    refine .inl ?_
    rw [step]
    rcases st.client with _ | c <;> rfl
  | turn i => exact .inl (db_onClient _ _)
  | recvResult now failsAt => exact .inl (db_onClient _ _)
  | recvBroadcast now failsAt => exact .inl (db_onClient _ _)
  | thread q m => exact .inl (db_onClient _ _)

theorem orderly_start {db : Db} (hcoh : db.Coherent) : Orderly (fd.start db) where
  coherent := hcoh
  client := fun _ h => by cases h

/-- A turn cancels queries of its own session. -/
theorem orderly_took {chan : Broadcast.Chan Event} {i : Input} (h : Client.Orderly chan c) :
    Client.Orderly chan (c.took (fd.server.step c.session i)).1 := by
  refine ⟨booked_step i h.booked, h.next_le, fun hopen q hq => ?_⟩
  have hbefore := h.cancelled (Server.isOpen_of_step hopen)
  have hcancel : ∀ {id}, Effect.cancel q ∈ c.session.cancelOf id → q < c.session.nextQuery := by
    intro id hmem
    obtain ⟨q', hq', heq⟩ := mem_cancelOf.mp hmem
    cases heq
    exact h.booked.numbered id q hq'
  rw [mem_cancelled_took] at hq
  rcases turn_cases fd.server c.session i with hquiet | ⟨s, hs⟩ | ⟨id, hid⟩
  · have hold := hq.resolve_right (hquiet.no_cancel hopen q)
    exact (hbefore q hold).trans_le hquiet.nextQuery
  · have hstep := step_of_takesUp hs
    have hnext : (fd.server.step c.session i).1.nextQuery = c.session.nextQuery + 1 := by
      rw [hstep]
      rfl
    refine Nat.lt_of_lt_of_eq (Nat.lt_succ_of_lt ?_) hnext.symm
    rcases hq with hq | hq
    · exact hbefore q hq
    · rw [hstep, List.mem_append] at hq
      refine hcancel (hq.resolve_right ?_)
      split_ifs <;> simp
  · have hstep := step_of_closes hid
    have hnext : (fd.server.step c.session i).1.nextQuery = c.session.nextQuery := by
      rw [hstep]
      rfl
    refine Nat.lt_of_lt_of_eq ?_ hnext.symm
    rcases hq with hq | hq
    · exact hbefore q hq
    · rw [hstep] at hq
      exact hcancel hq

/-- A step of the client. -/
theorem orderly_onClient (h : Orderly st) {f : Client → Client × List Effect}
    (hf : ∀ c, Client.Orderly st.chan c → Client.Orderly st.chan (f c).1) :
    Orderly (onClient st f).1 := by
  rcases hc : st.client with _ | c
  · rw [onClient, hc]
    exact h
  · refine ⟨by rw [db_onClient]; exact h.coherent, fun c' hc' => ?_⟩
    rw [(onClient_of_client hc).1, Option.some.injEq] at hc'
    rw [chan_onClient, ← hc']
    exact hf c (h.client c hc)

theorem orderly_step (h : Orderly st) (a : Action fd.server.crypto) : Orderly (fd.step st a).1 := by
  have hcoh : (fd.step st a).1.db.Coherent := by
    rcases db_step st a with hdb | ⟨op, hdb, -⟩ <;> rw [hdb]
    · exact h.coherent
    · exact h.coherent.apply fd.eng op
  cases a with
  | write r wrapped => exact ⟨hcoh, h.client⟩
  | verify m e wrapped => exact ⟨hcoh, h.client⟩
  | publish k =>
    rw [step]
    rcases st.outbox[k]? with _ | e
    · exact h
    · refine ⟨h.coherent, fun c hc => ?_⟩
      obtain ⟨hbooked, hnext, hcancelled⟩ := h.client c hc
      refine ⟨hbooked, hnext.trans ?_, hcancelled⟩
      rw [Broadcast.Chan.tail_send]
      exact Nat.le_succ _
  | maintain op other => exact ⟨hcoh, h.client⟩
  | connect uuid =>
    rw [step]
    rcases hc : st.client with _ | c
    · refine ⟨h.coherent, fun c hc => ?_⟩
      cases hc
      exact ⟨booked_start fd.server uuid, le_rfl, fun _ q hq => absurd hq List.not_mem_nil⟩
    · exact h
  | turn i =>
    refine orderly_onClient h fun c hc => ?_
    split_ifs
    · exact orderly_took hc
    · exact hc
  | recvResult now failsAt =>
    refine orderly_onClient h fun c hc => ?_
    rw [recvResult]
    rcases c.results with _ | ⟨r, rest⟩
    · exact hc
    · exact orderly_took (c := { c with results := rest }) ⟨hc.booked, hc.next_le, hc.cancelled⟩
  | recvBroadcast now failsAt =>
    refine orderly_onClient h fun c hc => ?_
    have hmoved : ∀ next ≤ st.chan.tail, Client.Orderly st.chan { c with next } :=
      fun next hnext => ⟨hc.booked, hnext, hc.cancelled⟩
    rw [recvBroadcast]
    rcases hrecv : st.chan.recv c.next with _ | next | e
    · exact hc
    · refine hmoved next ?_
      rw [Broadcast.Chan.recv] at hrecv
      split_ifs at hrecv
      · cases hrecv
        exact Nat.sub_le _ _
      · rcases hm : st.chan.log[c.next]? with _ | m <;> rw [hm] at hrecv <;> cases hrecv
    · exact orderly_took (hmoved _ (Broadcast.Chan.lt_tail_of_recv hrecv))
  | thread q m =>
    refine orderly_onClient h fun c hc => ?_
    rw [moveThread]
    rcases c.threads.lookup q with _ | t
    · exact hc
    · exact ⟨hc.booked, hc.next_le, hc.cancelled⟩

theorem orderly_run {acts : List (Action fd.server.crypto)} (h : Orderly st) :
    Orderly (Machine.run (fun st a => (fd.step st a).1) st acts) :=
  Machine.invariant (fun _ a _ h => orderly_step h a) h

/-- A connection that runs has run before. -/
theorem open_of_step (h : Open (fd.step st a).1) : Open st := by
  have hclient : ∀ {f : Client → Client × List Effect},
      (∀ c, (f c).1.session.isOpen = true → c.session.isOpen = true) →
      Open (onClient st f).1 → Open st := by
    intro f hf hopen c hc
    exact hf c (hopen _ (onClient_of_client hc).1)
  have hturn : ∀ (c : Client) (i : Input),
      (c.took (fd.server.step c.session i)).1.session.isOpen = true → c.session.isOpen = true :=
    fun _ _ hopen => Server.isOpen_of_step hopen
  cases a with
  | write r wrapped => exact h
  | verify m e wrapped => exact h
  | publish k =>
    rw [step] at h
    rcases he : st.outbox[k]? with _ | e <;> rw [he] at h <;> exact h
  | maintain op other => exact h
  | connect uuid =>
    rw [step] at h
    rcases hc : st.client with _ | c <;> rw [hc] at h
    · intro c hc'
      rw [hc] at hc'
      cases hc'
    · exact h
  | turn i =>
    refine hclient (fun c hopen => ?_) h
    split_ifs at hopen
    · exact hturn c i hopen
    · exact hopen
  | recvResult now failsAt =>
    refine hclient (fun c hopen => ?_) h
    rw [recvResult] at hopen
    rcases hr : c.results with _ | ⟨r, rest⟩ <;> rw [hr] at hopen
    · exact hopen
    · exact hturn { c with results := rest } _ hopen
  | recvBroadcast now failsAt =>
    refine hclient (fun c hopen => ?_) h
    rw [recvBroadcast] at hopen
    rcases hr : st.chan.recv c.next with _ | next | e <;> rw [hr] at hopen
    · exact hopen
    · exact hopen
    · exact hturn { c with next := c.next + 1 } _ hopen
  | thread q m =>
    refine hclient (fun c hopen => ?_) h
    rw [moveThread] at hopen
    rcases ht : c.threads.lookup q with _ | t <;> rw [ht] at hopen <;> exact hopen

/-- A connection that is open in the end was open. -/
theorem open_of_run {acts : List (Action fd.server.crypto)}
    (h : Open (Machine.run (fun st a => (fd.step st a).1) st acts)) : Open st := by
  induction acts generalizing st with
  | nil => exact h
  | cons a acts ih => exact open_of_step (ih h)

/-! ## The event stays stored

Tables change by calls of the repository only, so a visible event that lasts is in the rows of
every later statement of its filter. -/

/-- The event is stored where a statement of the filter finds it. -/
def Stored (f : ReqFilter) (e : Event) (st : State) : Prop :=
  ∃ r ∈ st.db.events, r.content = e.serialized ∧
    ∃ now, (queryFromFilter f now).selects st.db r = true

section Stored

variable {f : ReqFilter} {e : Event}

/-- A step keeps the event stored while it lasts. -/
theorem stored_step (hord : Orderly st)
    (hkind : e.isReplaceable = false ∧ e.isParamReplaceable = false) (hlasts : fd.Lasts e st a)
    (h : Stored f e st) : Stored f e (fd.step st a).1 := by
  obtain ⟨r, hr, hcontent, now, hsel⟩ := h
  rcases db_step st a with hdb | ⟨op, hdb, hclock⟩
  · exact ⟨r, hdb ▸ hr, hcontent, now, hdb ▸ hsel⟩
  · have hrow := hord.coherent r hr
    have hexpires : r.expiresAt = e.expiration := by
      rw [hrow.expiresAt, hcontent]
      rfl
    have hr' : r ∈ (op.apply fd.eng st.db).events := by
      refine Sqlite.mem_apply hr ?_ hrow.kind (fun s hs heq => ?_) fun now hop => ?_
      · rw [hcontent]
        exact hkind
      · exact hlasts.1 s (hdb ▸ hs) (heq.trans hcontent)
      · rw [hexpires]
        exact hlasts.2 now (hclock now hop)
    have htags : (op.apply fd.eng st.db).tagsOf r.id = st.db.tagsOf r.id := by
      rw [(hord.coherent.apply fd.eng op r hr').tagsOf, hrow.tagsOf]
    rw [Stored, hdb]
    exact ⟨r, hr', hcontent, now,
      Sqlite.selects_again htags (Sqlite.visible_of_selects hsel).2 hsel⟩

/-- A statement without a limit finds it. -/
theorem mem_rows_of_stored (hord : Orderly st) (hlimit : f.limit = none) {now : Nat}
    (hexp : (e.expiration.all fun exp => decide (now < exp)) = true) (h : Stored f e st) :
    ∃ r ∈ (queryFromFilter f now).rows fd.eng st.db, r.content = e.serialized := by
  obtain ⟨r, hr, hcontent, now', hsel⟩ := h
  refine ⟨r, Sqlite.mem_rows (Sqlite.limit_queryFromFilter hlimit) hr ?_, hcontent⟩
  refine Sqlite.selects_again rfl ?_ hsel
  rw [(hord.coherent r hr).expiresAt, hcontent]
  exact hexp

end Stored

/-! ## The subscription stays open

A turn about other ids leaves the subscription and its query alone, and so does a turn that takes
something from a queue. -/

/-- The subscription is open, and its query is the one on this channel. -/
structure Subscribed (s : Subscription) (q : Nat) (c : Client) : Prop where
  subscription : c.session.conn.subscriptions.lookup s.id = some s
  query : c.session.runningQueries.lookup s.id = some q
  not_cancelled : q ∉ c.cancelled
  thread : ∀ t, c.threads.lookup q = some t → t.sub = s ∧ ∀ f ∈ t.filters, f ∈ s.filters

section Subscribed

variable {s : Subscription} {q : Nat} {i : Input}

/-- A turn about other ids leaves the subscription and its thread alone. -/
theorem subscribed_took (hb : Booked c.session) (h : Subscribed s q c)
    (hreq : ∀ s', TakesUp fd.server c.session i s' → s'.id ≠ s.id)
    (hclose : ¬ Closes fd.server c.session i s.id)
    (hopen : (c.took (fd.server.step c.session i)).1.session.isOpen = true) :
    Subscribed s q (c.took (fd.server.step c.session i)).1 ∧
      (c.took (fd.server.step c.session i)).1.threads.lookup q = c.threads.lookup q := by
  -- the channel of the query belongs to no other id
  have hcancel : ∀ id ≠ s.id, Effect.cancel q ∉ c.session.cancelOf id := by
    intro id hne hmem
    obtain ⟨q', hq', heq⟩ := mem_cancelOf.mp hmem
    cases heq
    exact hne (hb.one_id _ _ _ hq' h.query)
  have hthreads : ∀ {c' : Client}, c'.threads.lookup q = c.threads.lookup q →
      ∀ t, c'.threads.lookup q = some t → t.sub = s ∧ ∀ f ∈ t.filters, f ∈ s.filters :=
    fun hsame t ht => h.thread t (hsame ▸ ht)
  rcases turn_cases fd.server c.session i with hq | ⟨s', hs'⟩ | ⟨id, hid⟩
  · have hlookup : (c.took (fd.server.step c.session i)).1.threads.lookup q =
        c.threads.lookup q := by
      rw [threads_took_of_quiet hq]
    refine ⟨⟨?_, ?_, ?_, hthreads hlookup⟩, hlookup⟩
    · rw [← h.subscription, ← hq.subscriptions]
      rfl
    · rw [← h.query, ← hq.runningQueries]
      rfl
    · rw [mem_cancelled_took, not_or]
      exact ⟨h.not_cancelled, hq.no_cancel hopen q⟩
  · have hne := hreq s' hs'
    have hstep := step_of_takesUp hs'
    have hsession : (c.took (fd.server.step c.session i)).1.session = c.session.withQuery s' :=
      congrArg Prod.fst hstep
    have hlookup : (c.took (fd.server.step c.session i)).1.threads.lookup q =
        c.threads.lookup q := by
      rw [threads_took_of_takesUp hs']
      split_ifs
      · exact AList.lookup_insert_ne (hb.numbered _ _ h.query).ne
      · rfl
    refine ⟨⟨?_, ?_, ?_, hthreads hlookup⟩, hlookup⟩
    · rw [hsession]
      exact (AList.lookup_insert_ne hne.symm).trans h.subscription
    · rw [hsession]
      exact (AList.lookup_insert_ne hne.symm).trans h.query
    · rw [mem_cancelled_took, not_or, hstep, List.mem_append, not_or]
      refine ⟨h.not_cancelled, hcancel _ hne, ?_⟩
      split_ifs <;> simp
  · have hne : id ≠ s.id := by
      rintro rfl
      exact hclose hid
    have hstep := step_of_closes hid
    have hsession : (c.took (fd.server.step c.session i)).1.session = c.session.withoutQuery id :=
      congrArg Prod.fst hstep
    have hlookup : (c.took (fd.server.step c.session i)).1.threads.lookup q =
        c.threads.lookup q := by
      rw [threads_took_of_closes hid]
    refine ⟨⟨?_, ?_, ?_, hthreads hlookup⟩, hlookup⟩
    · rw [hsession]
      exact (AList.lookup_erase_ne hne.symm).trans h.subscription
    · rw [hsession]
      exact (AList.lookup_erase_ne hne.symm).trans h.query
    · rw [mem_cancelled_took, not_or, hstep]
      exact ⟨h.not_cancelled, hcancel id hne⟩

/-- What a turn takes from a queue is neither a REQ nor a CLOSE. -/
theorem subscribed_took_of_internal (hb : Booked c.session) (h : Subscribed s q c)
    (hi : fd.server.received i.turn = none)
    (hopen : (c.took (fd.server.step c.session i)).1.session.isOpen = true) :
    Subscribed s q (c.took (fd.server.step c.session i)).1 ∧
      (c.took (fd.server.step c.session i)).1.threads.lookup q = c.threads.lookup q :=
  subscribed_took hb h (fun _ hs' => absurd hi hs'.received_ne) (fun hid => hid.received_ne hi) hopen

end Subscribed

/-! ## The event is under way

After the commit the event is in one of four places: about to be broadcast, in the broadcast queue
of the client, with a query that will find it or has it, or in the result queue. Every step sends
it or leaves it in one of them. -/

/-- The thread is to find the event, or has found it. -/
def Finds (f : ReqFilter) (e : Event) (t : QueryThread) : Prop :=
  f ∈ t.filters ∨ ∃ r ∈ t.rows, r.content = e.serialized

/-- Where a client has an event that it has not sent yet. -/
inductive Holds (s : Subscription) (q : Nat) (f : ReqFilter) (e : Event)
    (chan : Broadcast.Chan Event) (c : Client) : Prop where
  | broadcast {n : Nat} : c.next ≤ n → chan.log[n]? = some e → Holds s q f e chan c
  | result : ⟨s.id, e.eventStr⟩ ∈ c.results → Holds s q f e chan c
  | thread {t : QueryThread} : c.threads.lookup q = some t → Finds f e t → Holds s q f e chan c

/-- The event is about to be broadcast, or the client has it. -/
def UnderWay (s : Subscription) (q : Nat) (f : ReqFilter) (e : Event) (st : State) : Prop :=
  e ∈ st.outbox ∨ ∃ c, st.client = some c ∧ Holds s q f e st.chan c

section UnderWay

variable {s : Subscription} {q : Nat} {f : ReqFilter} {e : Event} {chan : Broadcast.Chan Event}

/-- A step of a thread that is neither cancelled nor aborted sends the event or keeps it. -/
theorem Finds.advance {eng : Sql.Engine} {db : Db} {t : QueryThread} {m : QueryThread.Move}
    (h : Finds f e t) (habort : m ≠ .abort) (hconn : m ≠ .noConnection)
    (htaken : ∀ f' ∈ t.filters, ∀ now, (queryFromFilter f' now).taken eng = true)
    (hprepare : ∀ now, m = .prepare now →
      ∃ r ∈ (queryFromFilter f now).rows eng db, r.content = e.serialized) :
    (∃ t', (t.advance eng db false m).1 = some t' ∧ t'.sub = t.sub ∧ Finds f e t') ∨
      (t.advance eng db false m).2 = some ⟨t.sub.id, e.eventStr⟩ := by
  cases m with
  | start =>
    refine .inl ?_
    simp only [QueryThread.advance, Bool.false_eq_true, if_false]
    split_ifs with hstarted
    · exact ⟨t, rfl, rfl, h⟩
    · exact ⟨_, rfl, rfl, h⟩
  | noConnection => exact absurd rfl hconn
  | prepare now =>
    refine .inl ?_
    simp only [QueryThread.advance]
    split
    · rename_i f' rest _ hrows hfilters
      rw [if_pos (htaken f' (hfilters ▸ List.mem_cons_self ..) now)]
      refine ⟨_, rfl, rfl, ?_⟩
      rcases h with hf | ⟨r, hr, -⟩
      · rw [hfilters] at hf
        rcases List.mem_cons.mp hf with rfl | hf
        · exact .inr (hprepare now rfl)
        · exact .inl hf
      · rw [hrows] at hr
        cases hr
    · exact ⟨t, rfl, rfl, h⟩
  | row =>
    simp only [QueryThread.advance]
    split
    · exact .inl ⟨t, rfl, rfl, h⟩
    · rename_i r₀ rest hrows
      rw [if_neg (by simp)]
      rcases h with hf | ⟨r, hr, hcontent⟩
      · exact .inl ⟨_, rfl, rfl, .inl hf⟩
      · rw [hrows] at hr
        rcases List.mem_cons.mp hr with rfl | hr
        · refine .inr ?_
          rw [hcontent]
          rfl
        · exact .inl ⟨_, rfl, rfl, .inr ⟨r, hr, hcontent⟩⟩
  | finish =>
    refine .inl ?_
    simp only [QueryThread.advance]
    split
    · rename_i _ hrows hfilters
      rcases h with hf | ⟨r, hr, -⟩
      · rw [hfilters] at hf
        cases hf
      · rw [hrows] at hr
        cases hr
    · exact ⟨t, rfl, rfl, h⟩
  | abort => exact absurd rfl habort

/-- A statement that is refused ends the thread. -/
theorem advance_refused {eng : Sql.Engine} {db : Db} {b : Bool} {t : QueryThread} {f : ReqFilter}
    {rest : List ReqFilter} {now : Nat} (hstarted : t.started = true) (hrows : t.rows = [])
    (hfilters : t.filters = f :: rest) (h : (queryFromFilter f now).taken eng = false) :
    t.advance eng db b (.prepare now) = (none, none) := by
  simp only [QueryThread.advance, hstarted, hrows, hfilters, h, Bool.false_eq_true, if_false]

/-- What is left of a thread runs for the same subscription, and for filters it had before. -/
theorem sub_advance {eng : Sql.Engine} {db : Db} {b : Bool} {t t' : QueryThread}
    {m : QueryThread.Move} (h : (t.advance eng db b m).1 = some t') :
    t'.sub = t.sub ∧ ∀ f ∈ t'.filters, f ∈ t.filters := by
  have hsame : t.sub = t.sub ∧ ∀ f ∈ t.filters, f ∈ t.filters := ⟨rfl, fun _ hf => hf⟩
  cases m with
  | start =>
    simp only [QueryThread.advance] at h
    split_ifs at h <;> cases h <;> exact hsame
  | noConnection =>
    simp only [QueryThread.advance] at h
    split_ifs at h <;> cases h
    · exact hsame
    · exact ⟨rfl, fun f hf => absurd hf List.not_mem_nil⟩
  | prepare now =>
    simp only [QueryThread.advance] at h
    split at h
    · rename_i hfilters
      split_ifs at h
      cases h
      exact ⟨rfl, fun f hf => hfilters ▸ List.mem_cons_of_mem _ hf⟩
    · cases h
      exact hsame
  | row =>
    simp only [QueryThread.advance] at h
    split at h
    · cases h
      exact hsame
    · split_ifs at h
      cases h
      exact hsame
  | finish =>
    simp only [QueryThread.advance] at h
    split at h
    · cases h
    · cases h
      exact hsame
  | abort => cases h

/-- The parts of the client it looks at. -/
theorem Holds.congr {c' : Client} (h : Holds s q f e chan c) (hnext : c'.next = c.next)
    (hresults : c'.results = c.results) (hthread : c'.threads.lookup q = c.threads.lookup q) :
    Holds s q f e chan c' := by
  cases h with
  | broadcast hn he => exact .broadcast (hnext ▸ hn) he
  | result hr => exact .result (hresults ▸ hr)
  | thread ht hf => exact .thread (hthread.trans ht) hf

/-- A step of any thread. -/
theorem subscribed_moveThread (h : Subscribed s q c) (db : Db) (q' : Nat) (m : QueryThread.Move) :
    Subscribed s q (fd.moveThread db q' m c).1 := by
  rw [moveThread]
  rcases ht : c.threads.lookup q' with _ | t
  · exact h
  · refine ⟨h.subscription, h.query, h.not_cancelled, fun t' ht' => ?_⟩
    by_cases hq : q = q'
    · subst hq
      rcases hadv : (t.advance fd.eng db (c.cancelled.contains q) m).1 with _ | left
      · simp only [hadv, Option.elim_none, AList.lookup_erase] at ht'
        cases ht'
      · simp only [hadv, Option.elim_some, AList.lookup_insert, Option.some.injEq] at ht'
        obtain ⟨hsub, hfilters⟩ := sub_advance hadv
        obtain ⟨hs, hmem⟩ := h.thread t ht
        rw [← ht']
        exact ⟨hsub.trans hs, fun f hf => hmem f (hfilters f hf)⟩
    · rcases hadv : (t.advance fd.eng db (c.cancelled.contains q') m).1 with _ | left
      · simp only [hadv, Option.elim_none, AList.lookup_erase_ne hq] at ht'
        exact h.thread t' ht'
      · simp only [hadv, Option.elim_some, AList.lookup_insert_ne hq] at ht'
        exact h.thread t' ht'

/-- A step of a thread keeps the event with the client. -/
theorem holds_moveThread {db : Db} {q' : Nat} {m : QueryThread.Move} (hsub : Subscribed s q c)
    (hkept : q' = q → m ≠ .abort) (hconn : q' = q → m ≠ .noConnection) (htaken : fd.Served s)
    (hprepare : ∀ now, m = .prepare now →
      ∃ r ∈ (queryFromFilter f now).rows fd.eng db, r.content = e.serialized)
    (h : Holds s q f e chan c) : Holds s q f e chan (fd.moveThread db q' m c).1 := by
  rw [moveThread]
  rcases ht : c.threads.lookup q' with _ | t
  · exact h
  · cases h with
    | broadcast hn he => exact .broadcast hn he
    | result hr => exact .result (List.mem_append_left _ hr)
    | thread ht₀ hf =>
      by_cases hq : q = q'
      · subst hq
        obtain rfl := Option.some.inj (ht₀.symm.trans ht)
        have hcancelled : c.cancelled.contains q = false := by
          rw [Bool.eq_false_iff, ne_eq, List.contains_iff_mem]
          exact hsub.not_cancelled
        rw [hcancelled]
        obtain ⟨hs, hmem⟩ := hsub.thread _ ht
        rcases hf.advance (hkept rfl) (hconn rfl) (fun f' hf' => htaken f' (hmem f' hf')) hprepare
          with ⟨t', ht', -, hf'⟩ | hsent
        · refine .thread (t := t') ?_ hf'
          simp only [ht', Option.elim_some, AList.lookup_insert]
        · refine .result (List.mem_append_right _ ?_)
          rw [hsent, ← hs]
          exact List.mem_singleton_self _
      · refine .thread ?_ hf
        rcases hadv : (t.advance fd.eng db (c.cancelled.contains q') m).1 with _ | left
        · simp only [hadv, Option.elim_none, AList.lookup_erase_ne hq]
          exact ht₀
        · simp only [hadv, Option.elim_some, AList.lookup_insert_ne hq]
          exact ht₀

/-- Every step keeps the subscription while the loop runs. -/
theorem subscribed_step (hord : Orderly st) (hkept : fd.Kept s.id q st a)
    (hopen : Open (fd.step st a).1) (hc : st.client = some c) (h : Subscribed s q c) :
    ∃ c', (fd.step st a).1.client = some c' ∧ Subscribed s q c' := by
  have hb := (hord.client c hc).booked
  have hclient : ∀ {f : Client → Client × List Effect}, Open (onClient st f).1 →
      ((f c).1.session.isOpen = true → Subscribed s q (f c).1) →
      ∃ c', (onClient st f).1.client = some c' ∧ Subscribed s q c' := by
    intro f hopen hf
    have hc' := (onClient_of_client (f := f) hc).1
    exact ⟨_, hc', hf (hopen _ hc')⟩
  cases a with
  | write r wrapped => exact ⟨c, hc, h⟩
  | verify m e wrapped => exact ⟨c, hc, h⟩
  | publish k =>
    rw [step]
    rcases st.outbox[k]? with _ | e <;> exact ⟨c, hc, h⟩
  | maintain op other => exact ⟨c, hc, h⟩
  | connect uuid =>
    rw [step, hc]
    exact ⟨c, hc, h⟩
  | turn i =>
    refine hclient hopen fun hopen => ?_
    split_ifs at hopen ⊢
    · exact (subscribed_took hb h (hkept c hc).1 (hkept c hc).2 hopen).1
    · exact h
  | recvResult now failsAt =>
    refine hclient hopen fun hopen => ?_
    rw [recvResult] at hopen ⊢
    rcases hr : c.results with _ | ⟨r, rest⟩ <;> rw [hr] at hopen
    · exact h
    · exact (subscribed_took_of_internal (c := { c with results := rest }) hb
        ⟨h.subscription, h.query, h.not_cancelled, h.thread⟩ rfl hopen).1
  | recvBroadcast now failsAt =>
    refine hclient hopen fun hopen => ?_
    have hmoved : ∀ next, Subscribed s q { c with next } := fun next =>
      ⟨h.subscription, h.query, h.not_cancelled, h.thread⟩
    rw [recvBroadcast] at hopen ⊢
    rcases hr : st.chan.recv c.next with _ | next | e <;> rw [hr] at hopen
    · exact h
    · exact hmoved next
    · exact (subscribed_took_of_internal (c := { c with next := c.next + 1 }) hb
        (hmoved _) rfl hopen).1
  | thread q' m =>
    exact hclient hopen fun _ => subscribed_moveThread h st.db q' m

/-- The event is about to be sent for the subscription. -/
def delivery (s : Subscription) (e : Event) : Effect :=
  .send (.event (withoutQuotes s.id) e.eventStr)

/-- A turn for the next row sends it, or leaves the event where it is. -/
theorem holds_recvResult {now : Nat} {failsAt : Option Nat} (hb : Booked c.session)
    (hsub : Subscribed s q c)
    (hallow : fd.server.allowedToSend e.eventStr c.session.conn = true)
    (hopen : (fd.recvResult now failsAt c).1.session.isOpen = true) (h : Holds s q f e chan c) :
    delivery s e ∈ (fd.recvResult now failsAt c).2 ∨
      Holds s q f e chan (fd.recvResult now failsAt c).1 := by
  rcases hr : c.results with _ | ⟨r, rest⟩
  · refine .inr ?_
    rw [recvResult, hr]
    exact h
  · by_cases heq : r = ⟨s.id, e.eventStr⟩
    · subst heq
      exact .inl (sent_recvResult hr (eventStr_ne_eose e) hallow hopen)
    · refine .inr ?_
      simp only [recvResult, hr] at hopen ⊢
      obtain ⟨-, hthread⟩ := subscribed_took_of_internal (c := { c with results := rest }) hb
        ⟨hsub.subscription, hsub.query, hsub.not_cancelled, hsub.thread⟩ rfl hopen
      cases h with
      | broadcast hn he => exact .broadcast hn he
      | result hmem =>
        rw [hr, List.mem_cons] at hmem
        exact .result (hmem.resolve_left fun h => heq h.symm)
      | thread ht hf => exact .thread (hthread.trans ht) hf

/-- A turn for the next broadcast sends it, or leaves the event where it is. -/
theorem holds_recvBroadcast {now : Nat} {failsAt : Option Nat} (hb : Booked c.session)
    (hsub : Subscribed s q c) (hint : s.interestedInEvent e = true)
    (hallow : fd.server.allowedToSend e.eventStr c.session.conn = true)
    (hlag : ¬ chan.Lags c.next)
    (hopen : (fd.recvBroadcast chan now failsAt c).1.session.isOpen = true)
    (h : Holds s q f e chan c) :
    delivery s e ∈ (fd.recvBroadcast chan now failsAt c).2 ∨
      Holds s q f e chan (fd.recvBroadcast chan now failsAt c).1 := by
  rcases hrecv : chan.recv c.next with _ | next | e'
  · refine .inr ?_
    rw [recvBroadcast, hrecv]
    exact h
  · -- the receiver has kept up
    rw [Broadcast.Chan.recv, if_neg hlag] at hrecv
    rcases hm : chan.log[c.next]? with _ | m <;> rw [hm] at hrecv <;> cases hrecv
  · by_cases heq : e' = e
    · subst heq
      exact .inl (sent_recvBroadcast hrecv hsub.subscription hint hallow hopen)
    · refine .inr ?_
      simp only [recvBroadcast, hrecv] at hopen ⊢
      obtain ⟨-, hthread⟩ := subscribed_took_of_internal (c := { c with next := c.next + 1 }) hb
        ⟨hsub.subscription, hsub.query, hsub.not_cancelled, hsub.thread⟩ rfl hopen
      cases h with
      | @broadcast n hn he =>
        have hne : n ≠ c.next := by
          rintro rfl
          rw [Broadcast.Chan.getElem?_of_recv hrecv] at he
          exact heq (Option.some.inj he)
        exact .broadcast (Nat.lt_of_le_of_ne hn hne.symm) he
      | result hr => exact .result hr
      | thread ht hf => exact .thread (hthread.trans ht) hf

/-- **Every step sends the event or keeps it under way.** -/
theorem underWay_step (hord : Orderly st) (hc : st.client = some c) (hsub : Subscribed s q c)
    (hf : f ∈ s.filters) (hlimit : f.limit = none) (hint : f.interestedInEvent e = true)
    (hstored : Stored f e st) (hlasts : fd.Lasts e st a) (hkept : fd.Kept s.id q st a)
    (hconn : fd.Connected q a) (htaken : fd.Served s) (hallow : fd.Allowed e st a)
    (hopen : Open (fd.step st a).1) (h : UnderWay s q f e st) :
    delivery s e ∈ (fd.step st a).2 ∨ UnderWay s q f e (fd.step st a).1 := by
  have hb := (hord.client c hc).booked
  have hint' : s.interestedInEvent e = true := List.any_eq_true.mpr ⟨f, hf, hint⟩
  have hclient : ∀ {g : Client → Client × List Effect}, Open (onClient st g).1 →
      ((g c).1.session.isOpen = true → Holds s q f e st.chan c →
        delivery s e ∈ (g c).2 ∨ Holds s q f e st.chan (g c).1) →
      delivery s e ∈ (onClient st g).2 ∨ UnderWay s q f e (onClient st g).1 := by
    intro g hopen hg
    obtain ⟨hc', hsent⟩ := onClient_of_client (f := g) hc
    rw [hsent, UnderWay, outbox_onClient, chan_onClient]
    rcases h with hout | ⟨c₀, hc₀, hholds⟩
    · exact .inr (.inl hout)
    · obtain rfl := Option.some.inj (hc₀.symm.trans hc)
      exact (hg (hopen _ hc') hholds).imp_right fun hh => .inr ⟨_, hc', hh⟩
  cases a with
  | write r wrapped =>
    refine .inr (h.imp_left fun hout => ?_)
    exact mem_outbox_commit.mpr (.inl hout)
  | verify m e' wrapped =>
    refine .inr (h.imp_left fun hout => ?_)
    exact mem_outbox_commit.mpr (.inl hout)
  | publish k =>
    refine .inr ?_
    rw [step]
    rcases hk : st.outbox[k]? with _ | e'
    · exact h
    · rcases h with hout | ⟨c₀, hc₀, hholds⟩
      · obtain ⟨n, hn⟩ := List.mem_iff_getElem?.mp hout
        by_cases heq : n = k
        · -- the receiver was there before this broadcast
          subst heq
          obtain rfl := Option.some.inj (hk.symm.trans hn)
          exact .inr ⟨c, hc, .broadcast (hord.client c hc).next_le Broadcast.Chan.getElem?_send_tail⟩
        · exact .inl (List.mem_eraseIdx_iff_getElem?.mpr ⟨n, heq, hn⟩)
      · refine .inr ⟨c₀, hc₀, ?_⟩
        cases hholds with
        | broadcast hn he => exact .broadcast hn (Broadcast.Chan.getElem?_send he e')
        | result hr => exact .result hr
        | thread ht hf => exact .thread ht hf
  | maintain op other => exact .inr h
  | connect uuid =>
    rw [step, hc]
    exact .inr h
  | turn i =>
    refine hclient hopen fun hopen hholds => .inr ?_
    split_ifs at hopen ⊢
    · exact hholds.congr rfl rfl
        (subscribed_took hb hsub (hkept c hc).1 (hkept c hc).2 hopen).2
    · exact hholds
  | recvResult now failsAt =>
    exact hclient hopen fun hopen hholds => holds_recvResult hb hsub (hallow c hc) hopen hholds
  | recvBroadcast now failsAt =>
    exact hclient hopen fun hopen hholds =>
      holds_recvBroadcast hb hsub hint' (hallow c hc) (hkept c hc) hopen hholds
  | thread q' m =>
    refine hclient hopen fun _ hholds => .inr (holds_moveThread hsub hkept hconn htaken ?_ hholds)
    rintro now rfl
    exact mem_rows_of_stored hord hlimit (hlasts.2 now rfl) hstored

end UnderWay

/-! ## Whole runs -/

/-- Every step from here on meets a condition. -/
abbrev Along (fd : Feed) (C : State → Action fd.server.crypto → Prop) (st : State)
    (acts : List (Action fd.server.crypto)) : Prop :=
  Machine.Along (fun st a => (fd.step st a).1) C st acts

/-- The state some steps later. -/
abbrev later (fd : Feed) (st : State) (acts : List (Action fd.server.crypto)) : State :=
  Machine.run (fun st a => (fd.step st a).1) st acts

/-- One of the steps sends the event for the subscription. -/
def Delivered (fd : Feed) (s : Subscription) (e : Event) (st : State)
    (acts : List (Action fd.server.crypto)) : Prop :=
  ∃ mid a rest, acts = mid ++ a :: rest ∧ delivery s e ∈ (fd.step (fd.later st mid) a).2

section Runs

variable {s : Subscription} {q : Nat} {f : ReqFilter} {e : Event}
  {acts acts' : List (Action fd.server.crypto)}

theorem later_append : fd.later st (acts ++ acts') = fd.later (fd.later st acts) acts' :=
  Machine.run_append ..

theorem along_append {C : State → Action fd.server.crypto → Prop} : fd.Along C st (acts ++ acts') ↔
    fd.Along C st acts ∧ fd.Along C (fd.later st acts) acts' := Machine.along_append

theorem delivered_cons : fd.Delivered s e st (a :: acts) ↔
    delivery s e ∈ (fd.step st a).2 ∨ fd.Delivered s e (fd.step st a).1 acts := by
  refine ⟨?_, ?_⟩
  · rintro ⟨mid, a', rest, hsplit, hmem⟩
    rcases mid with _ | ⟨b, mid⟩
    · cases hsplit
      exact .inl hmem
    · cases hsplit
      exact .inr ⟨mid, a', rest, rfl, hmem⟩
  · rintro (hmem | ⟨mid, a', rest, rfl, hmem⟩)
    · exact ⟨[], a, acts, rfl, hmem⟩
    · exact ⟨a :: mid, a', rest, rfl, hmem⟩

/-- More steps before. -/
theorem Delivered.append (h : fd.Delivered s e (fd.later st acts) acts') :
    fd.Delivered s e st (acts ++ acts') := by
  induction acts generalizing st with
  | nil => exact h
  | cons a acts ih => exact delivered_cons.mpr (.inr (ih h))

theorem stored_run (hord : Orderly st)
    (hkind : e.isReplaceable = false ∧ e.isParamReplaceable = false)
    (hlasts : fd.Along (fd.Lasts e) st acts) (h : Stored f e st) :
    Stored f e (fd.later st acts) := by
  induction acts generalizing st with
  | nil => exact h
  | cons a acts ih => exact ih (orderly_step hord a) hlasts.2 (stored_step hord hkind hlasts.1 h)

theorem subscribed_run (hord : Orderly st) (hkept : fd.Along (fd.Kept s.id q) st acts)
    (hopen : Open (fd.later st acts)) (hc : st.client = some c) (h : Subscribed s q c) :
    ∃ c', (fd.later st acts).client = some c' ∧ Subscribed s q c' := by
  induction acts generalizing st c with
  | nil => exact ⟨c, hc, h⟩
  | cons a acts ih =>
    obtain ⟨c', hc', h'⟩ := subscribed_step hord hkept.1 (open_of_run hopen) hc h
    exact ih (orderly_step hord a) hkept.2 hopen hc' h'

/-- What is under way is not drained. -/
theorem not_drained (h : UnderWay s q f e st) : ¬ Drained st q := by
  intro hd
  rcases h with hout | ⟨c₀, hc₀, hholds⟩
  · rw [hd.outbox] at hout
    cases hout
  · cases hholds with
    | broadcast hn he =>
      have hlt := (List.getElem?_eq_some_iff.mp he).1
      exact absurd (hn.trans_lt hlt) (not_lt.mpr (hd.next c₀ hc₀))
    | result hr =>
      rw [hd.results c₀ hc₀] at hr
      cases hr
    | thread ht hf =>
      rw [hd.thread c₀ hc₀] at ht
      cases ht

/-- An event that is under way is delivered before everything is drained. -/
theorem delivered_of_underWay (hord : Orderly st) (hc : st.client = some c)
    (hsub : Subscribed s q c) (hf : f ∈ s.filters) (hlimit : f.limit = none)
    (hint : f.interestedInEvent e = true)
    (hkind : e.isReplaceable = false ∧ e.isParamReplaceable = false) (hstored : Stored f e st)
    (hlasts : fd.Along (fd.Lasts e) st acts) (hkept : fd.Along (fd.Kept s.id q) st acts)
    (hconn : ∀ a ∈ acts, fd.Connected q a) (htaken : fd.Served s)
    (hallow : fd.Along (fd.Allowed e) st acts) (hopen : Open (fd.later st acts))
    (hdrained : Drained (fd.later st acts) q) (h : UnderWay s q f e st) :
    fd.Delivered s e st acts := by
  induction acts generalizing st c with
  | nil => exact absurd hdrained (not_drained h)
  | cons a acts ih =>
    have hstep : Open (fd.step st a).1 := open_of_run hopen
    obtain ⟨c', hc', hsub'⟩ := subscribed_step hord hkept.1 hstep hc hsub
    have hrest : ∀ b ∈ acts, fd.Connected q b := fun b hb => hconn b (List.mem_cons_of_mem _ hb)
    rcases underWay_step hord hc hsub hf hlimit hint hstored hlasts.1 hkept.1
      (hconn a (List.mem_cons_self ..)) htaken hallow.1 hstep h with hsent | hnext
    · exact delivered_cons.mpr (.inl hsent)
    · exact delivered_cons.mpr (.inr (ih (orderly_step hord a) hc' hsub'
        (stored_step hord hkind hlasts.1 hstored) hlasts.2 hkept.2 hrest hallow.2 hopen hdrained
        hnext))

/-! ### Where it starts -/

/-- A commit stores the event, and it is broadcast next. -/
theorem of_commits {r : Round} {wrapped : r.event.Wrapped fd.server.crypto}
    (h : fd.Commits st r)
    (hkind : r.event.isReplaceable = false ∧ r.event.isParamReplaceable = false) :
    (∃ row ∈ (fd.step st (.write r wrapped)).1.db.events, row.content = r.event.serialized) ∧
      r.event ∈ (fd.step st (.write r wrapped)).1.outbox := by
  obtain ⟨hwritten, updated, hok, hnew⟩ := h
  refine ⟨?_, mem_outbox_commit.mpr (.inr ?_)⟩
  · have hdb : (fd.step st (.write r wrapped)).1.db = (fd.writeEvent st.db r.event r.write).2 :=
      if_pos (List.any_eq_true.mpr ⟨_, hwritten, rfl⟩)
    rw [hdb]
    rcases hw : r.write with err | n
    · rw [hw] at hok
      cases hok
    · rw [hw, writeEvent] at hok
      rw [writeEvent]
      rcases hp : Sqlite.persistEvent fd.eng st.db r.event with err | ⟨updated', db'⟩
      · rw [hp] at hok
        cases hok
      · rw [hp] at hok
        cases hok
        exact Sqlite.exists_row_of_persistEvent hp hnew hkind
  · obtain ⟨x, hx, hout⟩ := List.mem_filterMap.mp hwritten
    cases x <;> cases hout
    exact List.mem_filterMap.mpr ⟨_, DbWriter.broadcast_of_written hx hok hnew, rfl⟩

/-- A subscription is registered before its query starts. -/
theorem subscribed_of_takesUp {chan : Broadcast.Chan Event} {i : Input}
    (h : Client.Orderly chan c) (htakes : TakesUp fd.server c.session i s)
    (hneeds : s.needsHistoricalEvents = true) :
    Subscribed s c.session.nextQuery (c.took (fd.server.step c.session i)).1 ∧
      (c.took (fd.server.step c.session i)).1.threads.lookup c.session.nextQuery =
        some (.spawn s) := by
  have hstep := step_of_takesUp htakes
  have hsession : (c.took (fd.server.step c.session i)).1.session = c.session.withQuery s :=
    congrArg Prod.fst hstep
  have hthread : (c.took (fd.server.step c.session i)).1.threads.lookup c.session.nextQuery =
      some (.spawn s) := by
    rw [threads_took_of_takesUp htakes, if_pos hneeds, AList.lookup_insert]
  refine ⟨⟨?_, ?_, ?_, fun t ht => ?_⟩, hthread⟩
  · rw [hsession]
    exact AList.lookup_insert _
  · rw [hsession]
    exact AList.lookup_insert _
  · -- its channel is new
    rw [mem_cancelled_took, hstep, List.mem_append]
    rintro (hold | hnew | hnew)
    · exact absurd (h.cancelled htakes.isOpen _ hold) (lt_irrefl _)
    · obtain ⟨q, hq, heq⟩ := mem_cancelOf.mp hnew
      cases heq
      exact absurd (h.booked.numbered _ _ hq) (lt_irrefl _)
    · split_ifs at hnew
      · cases List.mem_singleton.mp hnew
  · rw [hthread] at ht
    cases ht
    exact ⟨rfl, fun _ hf => hf⟩

end Runs

/-! ## The subscription and the event

The two come in either order. If the commit is first, the query finds the event; if the
subscription is first, the broadcast does. -/

/-- A subscription of a client, and an event that is committed in the same run. The relay may
start on any database it has written. -/
structure Watch (fd : Feed) where
  ops : List Sqlite.Op
  sub : Subscription
  filter : ReqFilter
  round : Round
  wrapped : round.event.Wrapped fd.server.crypto
  client : Client
  /-- the turn that receives the REQ, and the steps around it -/
  req : Input
  before : List (Action fd.server.crypto)
  after : List (Action fd.server.crypto)
  /-- the steps around the commit -/
  earlier : List (Action fd.server.crypto)
  rest : List (Action fd.server.crypto)
  same_run : before ++ .turn req :: after = earlier ++ .write round wrapped :: rest
  connected : (fd.run (Sqlite.run fd.eng ops) before).client = some client
  takesUp : TakesUp fd.server client.session req sub
  filter_mem : filter ∈ sub.filters
  no_limit : filter.limit = none
  commits : fd.Commits (fd.run (Sqlite.run fd.eng ops) earlier) round
  /-- the event replaces no other -/
  kind : round.event.isReplaceable = false ∧ round.event.isParamReplaceable = false
  lasts : fd.Along (fd.Lasts round.event) (fd.run (Sqlite.run fd.eng ops) earlier)
    (.write round wrapped :: rest)
  interested : filter.interestedInEvent round.event = true
  /-- its row meets the condition of the filter's statement -/
  selected : ∀ r ∈ (fd.run (Sqlite.run fd.eng ops) (earlier ++ [.write round wrapped])).db.events,
    r.content = round.event.serialized → ∃ now, (queryFromFilter filter now).selects
      (fd.run (Sqlite.run fd.eng ops) (earlier ++ [.write round wrapped])).db r = true
  kept : fd.Along (fd.Kept sub.id client.session.nextQuery)
    (fd.run (Sqlite.run fd.eng ops) (before ++ [.turn req])) after
  isOpen : Open (fd.run (Sqlite.run fd.eng ops) (before ++ .turn req :: after))
  drained : Drained (fd.run (Sqlite.run fd.eng ops) (before ++ .turn req :: after))
    client.session.nextQuery

namespace Watch

variable {fd : Feed} (x : fd.Watch)

/-- The state when the REQ arrives. -/
abbrev asked : State := fd.run (Sqlite.run fd.eng x.ops) x.before

/-- The state after its turn. -/
abbrev answered : State := fd.run (Sqlite.run fd.eng x.ops) (x.before ++ [.turn x.req])

/-- The state before and after the commit. -/
abbrev submitted : State := fd.run (Sqlite.run fd.eng x.ops) x.earlier

/-- The state right after the event is written. -/
abbrev committed : State :=
  fd.run (Sqlite.run fd.eng x.ops) (x.earlier ++ [.write x.round x.wrapped])

theorem orderly (acts : List (Action fd.server.crypto)) :
    Orderly (fd.run (Sqlite.run fd.eng x.ops) acts) :=
  orderly_run (orderly_start (Sqlite.run_coherent fd.eng x.ops))

theorem answered_eq : x.answered = (fd.step x.asked (.turn x.req)).1 := Machine.run_concat ..

theorem committed_eq : x.committed = (fd.step x.submitted (.write x.round x.wrapped)).1 :=
  Machine.run_concat ..

theorem stored_committed : Stored x.filter x.round.event x.committed := by
  obtain ⟨⟨row, hrow, hcontent⟩, -⟩ := @of_commits fd x.submitted x.round x.wrapped x.commits x.kind
  rw [← committed_eq] at hrow
  exact ⟨row, hrow, hcontent, x.selected row hrow hcontent⟩

/-- After its turn the subscription is open and its query is to be run. -/
theorem subscribed_answered : ∃ c, x.answered.client = some c ∧
    Subscribed x.sub x.client.session.nextQuery c ∧
      c.threads.lookup x.client.session.nextQuery = some (.spawn x.sub) := by
  have hneeds : x.sub.needsHistoricalEvents = true :=
    List.any_eq_true.mpr ⟨x.filter, x.filter_mem, by rw [x.no_limit]; rfl⟩
  have hext : x.req.turn.isExternal = true := by
    have hrec := x.takesUp.received_ne
    rcases hturn : x.req.turn with _ | _ | _ | _ | _ | m
    case queryResult => exact absurd (by rw [hturn]; rfl) hrec
    case broadcast => exact absurd (by rw [hturn]; rfl) hrec
    all_goals rfl
  obtain ⟨hsub, hthread⟩ := subscribed_of_takesUp
    ((x.orderly x.before).client _ x.connected) x.takesUp hneeds
  refine ⟨_, ?_, hsub, hthread⟩
  rw [answered_eq, step, (onClient_of_client x.connected).1, if_pos hext]

/-- The run after the REQ. -/
theorem later_answered : fd.later x.answered x.after =
    fd.run (Sqlite.run fd.eng x.ops) (x.before ++ .turn x.req :: x.after) := by
  rw [List.append_cons]
  exact later_append.symm

/-- The commit comes before or after the REQ. -/
theorem order_cases :
    (∃ mid, x.before = x.earlier ++ .write x.round x.wrapped :: mid ∧
      x.rest = mid ++ .turn x.req :: x.after) ∨
    ∃ mid, x.earlier = x.before ++ .turn x.req :: mid ∧
      x.after = mid ++ .write x.round x.wrapped :: x.rest := by
  rcases List.append_eq_append_iff.mp x.same_run with ⟨mid, hsplit, hrun⟩ | ⟨mid, hsplit, hrun⟩
  · rcases mid with _ | ⟨a, mid⟩
    · cases hrun
    · obtain ⟨rfl, hafter⟩ := List.cons.inj hrun
      exact .inr ⟨mid, hsplit, hafter⟩
  · rcases mid with _ | ⟨a, mid⟩
    · cases hrun
    · obtain ⟨rfl, hrest⟩ := List.cons.inj hrun
      exact .inl ⟨mid, hsplit, hrest⟩

/-- The event was committed before the REQ: the query is to find it. -/
theorem underWay_of_before {mid : List (Action fd.server.crypto)}
    (hbefore : x.before = x.earlier ++ .write x.round x.wrapped :: mid)
    (hrest : x.rest = mid ++ .turn x.req :: x.after) :
    Stored x.filter x.round.event x.answered ∧
      fd.Along (fd.Lasts x.round.event) x.answered x.after ∧
      UnderWay x.sub x.client.session.nextQuery x.filter x.round.event x.answered := by
  have hanswered : x.answered = fd.later x.committed (mid ++ [.turn x.req]) := by
    rw [answered, hbefore, List.append_cons x.earlier, List.append_assoc]
    exact later_append
  have hlasts : fd.Along (fd.Lasts x.round.event) x.committed
      ((mid ++ [.turn x.req]) ++ x.after) := by
    rw [List.append_assoc, List.singleton_append, ← hrest, committed_eq]
    exact x.lasts.2
  obtain ⟨hmid, hafter⟩ := along_append.mp hlasts
  refine ⟨?_, ?_, .inr ?_⟩
  · rw [hanswered]
    exact stored_run (x.orderly _) x.kind hmid x.stored_committed
  · rw [hanswered]
    exact hafter
  · obtain ⟨c, hc, -, hthread⟩ := x.subscribed_answered
    exact ⟨c, hc, .thread hthread (.inl x.filter_mem)⟩

/-- The event was committed after the REQ: it is broadcast to the subscription. -/
theorem subscribed_of_after {mid : List (Action fd.server.crypto)}
    (hearlier : x.earlier = x.before ++ .turn x.req :: mid)
    (hafter : x.after = mid ++ .write x.round x.wrapped :: x.rest) :
    x.committed = fd.later x.answered (mid ++ [.write x.round x.wrapped]) ∧
      ∃ c, x.committed.client = some c ∧ Subscribed x.sub x.client.session.nextQuery c := by
  have hcommitted : x.committed = fd.later x.answered (mid ++ [.write x.round x.wrapped]) := by
    rw [committed, hearlier, List.append_cons x.before, List.append_assoc]
    exact later_append
  refine ⟨hcommitted, ?_⟩
  have hkept := x.kept
  have hopen := x.isOpen
  rw [← x.later_answered] at hopen
  rw [hafter, List.append_cons mid] at hkept hopen
  obtain ⟨c, hc, hsub, -⟩ := x.subscribed_answered
  rw [later_append] at hopen
  rw [hcommitted]
  exact subscribed_run (x.orderly _) (along_append.mp hkept).1 (open_of_run hopen) hc hsub

end Watch

/-- **No event falls between the query and the live feed.** A client asks for events without a
limit, and an event that one of its filters wants, live and stored, is committed before or
after. When everything is handled the connection has sent it for the subscription, if the query
got a database connection, SQLite took its statements, and the gate for private events let the
event pass. -/
theorem no_event_lost (fd : Feed) (x : fd.Watch)
    (hconn : ∀ a ∈ x.after, fd.Connected x.client.session.nextQuery a) (htaken : fd.Served x.sub)
    (hallow : fd.Along (fd.Allowed x.round.event) x.answered x.after) :
    fd.Delivered x.sub x.round.event x.answered x.after := by
  have hopen := x.isOpen
  have hdrained := x.drained
  rw [← x.later_answered] at hopen hdrained
  have hkept := x.kept
  rcases x.order_cases with ⟨mid, hbefore, hrest⟩ | ⟨mid, hearlier, hafter⟩
  · obtain ⟨c, hc, hsub, -⟩ := x.subscribed_answered
    obtain ⟨hstored, hlasts, hunder⟩ := x.underWay_of_before hbefore hrest
    exact delivered_of_underWay (x.orderly _) hc hsub x.filter_mem x.no_limit x.interested x.kind
      hstored hlasts hkept hconn htaken hallow hopen hdrained hunder
  · obtain ⟨hcommitted, c, hc, hsub⟩ := x.subscribed_of_after hearlier hafter
    have hout : x.round.event ∈ x.committed.outbox := by
      rw [x.committed_eq]
      exact (of_commits x.commits x.kind).2
    have hlasts : fd.Along (fd.Lasts x.round.event) x.committed x.rest := by
      rw [x.committed_eq]
      exact x.lasts.2
    have hconn' : ∀ a ∈ x.rest, fd.Connected x.client.session.nextQuery a := fun a ha =>
      hconn a (hafter ▸ List.mem_append_right _ (List.mem_cons_of_mem _ ha))
    rw [hafter, List.append_cons mid] at hallow hkept hopen hdrained ⊢
    rw [along_append, ← hcommitted] at hallow hkept
    rw [later_append, ← hcommitted] at hopen hdrained
    refine Delivered.append ?_
    rw [← hcommitted]
    exact delivered_of_underWay (x.orderly _) hc hsub x.filter_mem x.no_limit x.interested x.kind
      x.stored_committed hlasts hkept.2 hconn' htaken hallow.2 hopen hdrained (.inl hout)

/-! ## A client that waits for a gift wrap

The run satisfies the premises with the gate for private events open, and with the gate closed
nothing is delivered. -/

/-- A filter for gift wraps. -/
def wrapFilter : ReqFilter := { ReqFilter.initial with kinds := some [1059] }

/-- A client that asks for its wraps. -/
def wrapSub : Subscription := ⟨"inbox", [wrapFilter]⟩

/-- A relay with or without the gate for private events. -/
noncomputable def wrapFeed (nip42Dms : Bool) : Feed := sampleFeed nip42Dms [sampleWrap]

/-- A gift wrap reaches the writer. -/
def wrapRound : Round :=
  { DbWriter.lookupError with
    submitted := { DbWriter.lookupError.submitted with event := sampleWrap.event.buildIndex } }

theorem wrapRound_wrapped (nip42Dms : Bool) :
    wrapRound.event.Wrapped (wrapFeed nip42Dms).server.crypto := by
  have hval : (sampleCmd sampleWrap).event.validate (Recorded.crypto [sampleWrap]) = .ok () :=
    Recorded.validated (by decide) (by simp)
  refine ⟨sampleCmd sampleWrap, ⟨rfl, rfl⟩, ?_⟩
  change EventWrapper.from (Recorded.crypto [sampleWrap]) _ = _
  simp only [EventWrapper.from, hval]
  rfl

/-- The query of the client finds nothing. -/
def wrapQuery (crypto : Crypto) : List (Action crypto) :=
  [.thread 0 .start, .thread 0 (.prepare 1700000090), .thread 0 .finish,
    .recvResult 1700000091 none]

/-- Then the gift wrap is written and broadcast. -/
noncomputable def wrapSteps (nip42Dms : Bool) : List (Action (wrapFeed nip42Dms).server.crypto) :=
  .connect sampleChallenge :: .turn (reqInput wrapSub) :: wrapQuery _ ++
    [.write wrapRound (wrapRound_wrapped nip42Dms), .publish 0]

/-- The state after some of the steps. -/
noncomputable def wrapState (nip42Dms : Bool) (n : Nat) : State :=
  (wrapFeed nip42Dms).run (Sqlite.run (wrapFeed nip42Dms).eng []) ((wrapSteps nip42Dms).take n)

set_option maxRecDepth 4000 in
/-- The client waits for the broadcast. -/
theorem wrapState_waits (nip42Dms : Bool) : ∃ c, (wrapState nip42Dms 8).client = some c ∧
    (wrapState nip42Dms 8).chan.recv c.next = .got wrapRound.event ∧
    (wrapState nip42Dms 8).chan.tail ≤ c.next + 1 ∧ c.results = [] ∧ c.threads.lookup 0 = none ∧
    c.session.isOpen = true ∧ c.session.conn.authPubkey = none := by
  have hchan : (wrapState nip42Dms 8).chan = ⟨16384, [wrapRound.event]⟩ := rfl
  rw [hchan]
  exact ⟨_, rfl, rfl, le_rfl, rfl, rfl, rfl, rfl⟩

/-- The row of the gift wrap is visible, and the statement selects it. -/
theorem wrapState_stored (nip42Dms : Bool) : ∀ r ∈ (wrapState nip42Dms 7).db.events,
    r.hidden = false ∧
      (queryFromFilter wrapFilter 1700000090).selects (wrapState nip42Dms 7).db r = true := by
  have hall : ((wrapState nip42Dms 7).db.events.all fun r => !r.hidden &&
      (queryFromFilter wrapFilter 1700000090).selects (wrapState nip42Dms 7).db r) = true := by
    cases nip42Dms <;> decide +kernel
  intro r hr
  have hr := List.all_eq_true.mp hall r hr
  simpa using hr

/-- The state after the last turn of the client. -/
noncomputable def wrapEnd (nip42Dms : Bool) : State × List Effect :=
  (wrapFeed nip42Dms).step (wrapState nip42Dms 8) (.recvBroadcast 1700000093 none)

/-- The end of the watch, seen from before its last steps. -/
theorem wrapEnd_eq {nip42Dms : Bool} {c : Client} (hc : (wrapState nip42Dms 8).client = some c) :
    wrapEnd nip42Dms =
      ({ wrapState nip42Dms 8 with client := some { c with next := c.next + 1 } },
        (wrapFeed nip42Dms).server.onBroadcast c.session.conn wrapRound.event) := by
  obtain ⟨c', hc', hrecv, -, -, -, hopen, -⟩ := wrapState_waits nip42Dms
  obtain rfl := Option.some.inj (hc.symm.trans hc')
  simp only [wrapEnd, step, onClient, hc, recvBroadcast_of_got hrecv hopen]

/-- The client and the gift wrap. -/
noncomputable def wrapWatch (nip42Dms : Bool) : (wrapFeed nip42Dms).Watch where
  ops := []
  sub := wrapSub
  filter := wrapFilter
  round := wrapRound
  wrapped := wrapRound_wrapped nip42Dms
  client := .start ((wrapFeed nip42Dms).server.start sampleChallenge) 0
  req := reqInput wrapSub
  before := [.connect sampleChallenge]
  after := wrapQuery _ ++ [.write wrapRound (wrapRound_wrapped nip42Dms), .publish 0,
    .recvBroadcast 1700000093 none]
  earlier := .connect sampleChallenge :: .turn (reqInput wrapSub) :: wrapQuery _
  rest := [.publish 0, .recvBroadcast 1700000093 none]
  same_run := rfl
  connected := rfl
  takesUp := by
    refine ⟨rfl, ?_, rfl⟩
    rintro (hdup | ⟨hlimit, -⟩ | ⟨err, herr⟩)
    · cases hdup
    · cases hlimit
    · cases herr
  filter_mem := List.mem_singleton_self _
  no_limit := rfl
  commits := ⟨List.mem_cons_self .., 1, rfl, one_ne_zero⟩
  kind := ⟨by decide, by decide⟩
  lasts := by
    have hvis : ∀ row ∈ (wrapState nip42Dms 7).db.events, row.hidden = false :=
      fun row hrow => (wrapState_stored nip42Dms row hrow).1
    refine ⟨⟨fun row hrow _ => hvis row hrow, fun now h => by cases h⟩,
      ⟨fun row hrow _ => hvis row hrow, fun now h => by cases h⟩,
      ⟨fun row hrow _ => hvis row ?_, fun now h => by cases h⟩, trivial⟩
    rw [step, db_onClient] at hrow
    exact hrow
  interested := by decide
  selected := fun r hr _ => ⟨1700000090, (wrapState_stored nip42Dms r hr).2⟩
  kept := by
    refine ⟨fun _ => (by decide), fun _ => (by decide), fun _ => (by decide), trivial, trivial,
      trivial, fun c hc hlags => ?_, trivial⟩
    obtain ⟨c', hc', hrecv, -⟩ := wrapState_waits nip42Dms
    obtain rfl := Option.some.inj (hc.symm.trans hc')
    have hlagged : (wrapState nip42Dms 8).chan.recv c.next = .lagged _ :=
      Broadcast.Chan.recv_of_lags hlags
    rw [hrecv] at hlagged
    cases hlagged
  isOpen := by
    obtain ⟨c, hc, -, -, -, -, hopen, -⟩ := wrapState_waits nip42Dms
    change Open (wrapEnd nip42Dms).1
    rw [wrapEnd_eq hc]
    intro c' hc'
    cases hc'
    exact hopen
  drained := by
    obtain ⟨c, hc, -, htail, hresults, hthreads, -⟩ := wrapState_waits nip42Dms
    change Drained (wrapEnd nip42Dms).1 0
    rw [wrapEnd_eq hc]
    refine ⟨rfl, fun c' hc' => ?_, fun c' hc' => ?_, fun c' hc' => ?_⟩ <;> cases hc'
    · exact hresults
    · exact htail
    · exact hthreads

theorem wrapWatch_connected (nip42Dms : Bool) : ∀ a ∈ (wrapWatch nip42Dms).after,
    (wrapFeed nip42Dms).Connected (wrapWatch nip42Dms).client.session.nextQuery a := by
  intro a ha
  simp only [wrapWatch, wrapQuery, List.cons_append, List.nil_append, List.mem_cons,
    List.not_mem_nil, or_false] at ha
  rcases ha with rfl | rfl | rfl | rfl | rfl | rfl | rfl
  all_goals first | trivial | exact fun _ => by decide

theorem wrapWatch_served (nip42Dms : Bool) : (wrapFeed nip42Dms).Served wrapSub := by
  intro f hf now
  obtain rfl := List.mem_singleton.mp hf
  rw [Sqlite.taken_iff rfl]
  exact ⟨(by decide : Sqlite.paramCount wrapFilter ≤ 32766), fun _ hlim => (by cases hlim), rfl⟩

/-- Without the gate everything is allowed. -/
theorem along_allowed {e : Event} {st : State}
    {acts : List (Action (wrapFeed false).server.crypto)} :
    (wrapFeed false).Along ((wrapFeed false).Allowed e) st acts :=
  Machine.along_of_forall fun _ a _ => by cases a <;> first | trivial | exact fun _ _ => rfl

/-- Without the gate the client gets the gift wrap. -/
theorem wrap_delivered : (wrapFeed false).Delivered wrapSub wrapRound.event
    (wrapWatch false).answered (wrapWatch false).after :=
  no_event_lost (wrapFeed false) (wrapWatch false) (wrapWatch_connected false)
    (wrapWatch_served false) along_allowed

/-- With it a client that is not authenticated does not. -/
theorem wrapWatch_withheld : ¬ (wrapFeed true).Delivered wrapSub wrapRound.event
    (wrapWatch true).answered (wrapWatch true).after := by
  intro h
  rcases delivered_cons.mp h with h | h
  · cases h
  rcases delivered_cons.mp h with h | h
  · cases h
  rcases delivered_cons.mp h with h | h
  · cases h
  rcases delivered_cons.mp h with h | h
  · -- the end of the query
    cases List.mem_singleton.mp h
  rcases delivered_cons.mp h with h | h
  · cases h
  rcases delivered_cons.mp h with h | h
  · cases h
  rcases delivered_cons.mp h with h | h
  · obtain ⟨c, hc, -, -, -, -, -, hauth⟩ := wrapState_waits true
    have hsent : delivery wrapSub wrapRound.event ∈ (wrapEnd true).2 := h
    rw [wrapEnd_eq hc] at hsent
    obtain ⟨x, -, hx⟩ := List.mem_flatMap.mp hsent
    rw [Server.deliver] at hx
    split_ifs at hx with hboth
    · obtain ⟨pubkey, hpubkey, -⟩ := allowedToSend_private rfl (readBack_eventStr wrapRound.event)
        rfl (Bool.and_eq_true_iff.mp hboth).2
      rw [hauth] at hpubkey
      cases hpubkey
    · cases hx
  · obtain ⟨mid, a, rest, hnil, -⟩ := h
    cases mid <;> cases hnil

/-! ## A client that comes too late for the broadcast

The gift wrap is written and broadcast before the client connects, so only its query can bring
it. The query ends without it when there is no database connection to be had, and when SQLite
refuses the statement. -/

/-- A subscription to the gift wraps for these recipients. -/
def lateSub (recipients : Finset String) : Subscription :=
  ⟨"inbox", [recipientFilter [1059] recipients]⟩

/-- The gift wrap is written and broadcast, and a client connects. -/
noncomputable def lateBefore : List (Action (wrapFeed false).server.crypto) :=
  [.write wrapRound (wrapRound_wrapped false), .publish 0, .connect sampleChallenge]

/-- The relay after the REQ and some more steps. -/
noncomputable def lateState (recipients : Finset String)
    (after : List (Action (wrapFeed false).server.crypto)) : State :=
  (wrapFeed false).run (Sqlite.run (wrapFeed false).eng [])
    (lateBefore ++ .turn (reqInput (lateSub recipients)) :: after)

/-- A step that leaves the tables alone. -/
def Action.isQuiet {crypto : Crypto} : Action crypto → Bool
  | .write _ _ => false
  | .verify _ _ _ => false
  | .maintain _ _ => false
  | _ => true

theorem db_step_of_quiet (h : a.isQuiet = true) : (fd.step st a).1.db = st.db := by
  cases a with
  | write r wrapped => cases h
  | verify m e wrapped => cases h
  | maintain op other => cases h
  | publish k =>
    rw [step]
    rcases st.outbox[k]? with _ | e <;> rfl
  | connect uuid =>
    rw [step]
    rcases st.client with _ | c <;> rfl
  | turn i => exact db_onClient _ _
  | recvResult now failsAt => exact db_onClient _ _
  | recvBroadcast now failsAt => exact db_onClient _ _
  | thread q m => exact db_onClient _ _

/-- An event without expiration lasts while the tables stay as they are. -/
theorem lasts_of_quiet {e : Event} {acts : List (Action fd.server.crypto)}
    (hquiet : ∀ a ∈ acts, a.isQuiet = true) (hexp : e.expiration = none)
    (hvis : ∀ row ∈ st.db.events, row.hidden = false) : fd.Along (fd.Lasts e) st acts := by
  induction acts generalizing st with
  | nil => trivial
  | cons a acts ih =>
    have hdb : (fd.step st a).1.db = st.db := db_step_of_quiet (hquiet a (List.mem_cons_self ..))
    refine ⟨⟨fun row hrow _ => hvis row (hdb ▸ hrow), fun now _ => by rw [hexp]; rfl⟩, ?_⟩
    exact ih (fun b hb => hquiet b (List.mem_cons_of_mem _ hb)) fun row hrow => hvis row (hdb ▸ hrow)

/-- A step of the query's thread that is no abort, or a turn for a row. -/
def Action.isQuery {crypto : Crypto} : Action crypto → Bool
  | .thread 0 m => m ≠ .abort
  | .recvResult _ _ => true
  | _ => false

/-- The relay after the write. -/
noncomputable def lateWritten : State :=
  (wrapFeed false).run (Sqlite.run (wrapFeed false).eng [])
    [.write wrapRound (wrapRound_wrapped false)]

/-- The tags of the gift wrap name its recipient. -/
theorem wrapRound_tags : wrapRound.event.tags = ["p" :: sampleRecipient :: []] := rfl

/-- Nothing in the late client's tables is hidden. -/
theorem lateWritten_visible : ∀ r ∈ lateWritten.db.events, r.hidden = false := by
  have hall : (lateWritten.db.events.all fun r => !r.hidden) = true := by
    decide +kernel
  intro r hr
  simpa using List.all_eq_true.mp hall r hr

/-- The gift wrap meets the condition of the statement. -/
theorem lateWritten_selected {recipients : Finset String} (hmem : sampleRecipient ∈ recipients)
    (r : EventRow) (hr : r ∈ lateWritten.db.events)
    (hcontent : r.content = wrapRound.event.serialized) (now : Nat) :
    (queryFromFilter (recipientFilter [1059] recipients) now).selects lateWritten.db r = true := by
  have hcoh : lateWritten.db.Coherent :=
    (orderly_run (orderly_start (Sqlite.run_coherent (wrapFeed false).eng []))).coherent
  have hexp : r.expiresAt = none := by
    rw [(hcoh r hr).expiresAt, hcontent]
    rfl
  exact selects_giftWrap hcoh hr ((hcoh r hr).rowOf hcontent) wrapRound_tags
    (List.mem_singleton_self _) hmem (lateWritten_visible r hr) hexp

/-- The client and the gift wrap, when the steps after the REQ are those of the query. -/
noncomputable def lateWatch {recipients : Finset String} (hmem : sampleRecipient ∈ recipients)
    (after : List (Action (wrapFeed false).server.crypto))
    (hquery : ∀ a ∈ after, a.isQuery = true) (hopen : Open (lateState recipients after))
    (hdrained : Drained (lateState recipients after) 0) : (wrapFeed false).Watch where
  ops := []
  sub := lateSub recipients
  filter := recipientFilter [1059] recipients
  round := wrapRound
  wrapped := wrapRound_wrapped false
  client := .start ((wrapFeed false).server.start sampleChallenge) 1
  req := reqInput (lateSub recipients)
  before := lateBefore
  after := after
  earlier := []
  rest := .publish 0 :: .connect sampleChallenge :: .turn (reqInput (lateSub recipients)) :: after
  same_run := rfl
  connected := rfl
  takesUp := by
    refine ⟨rfl, ?_, rfl⟩
    rintro (hdup | ⟨hlimit, -⟩ | ⟨err, herr⟩)
    · cases hdup
    · cases hlimit
    · have hlen : ¬ MAX_SUBSCRIPTION_ID_LEN < byteLen (lateSub recipients).getId :=
        (by decide : ¬ MAX_SUBSCRIPTION_ID_LEN < byteLen "inbox")
      rw [ClientConn.subscribe, if_neg hlen] at herr
      cases herr
  filter_mem := List.mem_singleton_self _
  no_limit := rfl
  commits := ⟨List.mem_cons_self .., 1, rfl, one_ne_zero⟩
  kind := ⟨by decide, by decide⟩
  lasts := by
    refine ⟨⟨fun row hrow _ => lateWritten_visible row hrow, fun now h => by cases h⟩, ?_⟩
    refine lasts_of_quiet (fun a ha => ?_) rfl lateWritten_visible
    rcases List.mem_cons.mp ha with rfl | ha
    · rfl
    rcases List.mem_cons.mp ha with rfl | ha
    · rfl
    rcases List.mem_cons.mp ha with rfl | ha
    · rfl
    have hstep := hquery a ha
    cases a <;> first | rfl | cases hstep
  interested := by
    obtain ⟨ec, hec, hwrap⟩ := wrapRound_wrapped false
    exact interested_giftWrap hec hwrap wrapRound_tags (List.mem_singleton_self _) hmem
  selected := fun r hr hcontent => ⟨0, lateWritten_selected hmem r hr hcontent 0⟩
  kept := by
    refine Machine.along_of_forall fun _ a ha => ?_
    have hstep := hquery a ha
    cases a with
    | thread q m =>
      intro hq
      obtain rfl : q = 0 := hq
      simpa [Action.isQuery] using hstep
    | recvResult now failsAt => trivial
    | _ => cases hstep
  isOpen := hopen
  drained := hdrained

/-- Steps of the query's thread send nothing. -/
theorem effects_thread (st : State) (q : Nat) (m : QueryThread.Move) :
    (fd.step st (.thread q m)).2 = [] := by
  rw [step, onClient]
  rcases st.client with _ | c
  · rfl
  · change (fd.moveThread st.db q m c).2 = []
    rw [moveThread]
    rcases c.threads.lookup q with _ | t <;> rfl

/-- A thread that ends without a word. -/
theorem moveThread_ends {db : Db} {q : Nat} {m : QueryThread.Move} {t : QueryThread}
    (ht : c.threads.lookup q = some t) (hends : ∀ b, t.advance fd.eng db b m = (none, none)) :
    (fd.moveThread db q m c).1 = { c with threads := c.threads.erase q } := by
  simp only [moveThread, ht, hends, Option.elim_none, Option.toList_none, List.append_nil]

/-- There is no database connection: the query ends at once. -/
def withoutConnection (crypto : Crypto) : List (Action crypto) :=
  [.thread 0 .noConnection, .thread 0 .finish, .recvResult 1700000093 none]

set_option maxRecDepth 4000 in
/-- The query without connection ends with nothing. -/
theorem withoutConnection_ends : ∃ c,
    (lateState {sampleRecipient} (withoutConnection _)).client = some c ∧
      (lateState {sampleRecipient} (withoutConnection _)).outbox = [] ∧
      (lateState {sampleRecipient} (withoutConnection _)).chan.tail ≤ c.next ∧ c.results = [] ∧
      c.threads.lookup 0 = none ∧ c.session.isOpen = true :=
  ⟨_, rfl, rfl, le_rfl, rfl, rfl, rfl⟩

/-- The statement for the crowd is prepared. -/
def untilRefused (crypto : Crypto) : List (Action crypto) :=
  [.thread 0 .start, .thread 0 (.prepare 1700000093)]

/-- The thread when it has started. -/
def crowdThread : QueryThread where
  sub := lateSub sampleCrowd
  started := true
  filters := [recipientFilter [1059] sampleCrowd]
  rows := []
  rowCount := 0

set_option maxRecDepth 4000 in
/-- The query for the crowd has started. -/
theorem lateState_started : ∃ c, (lateState sampleCrowd [.thread 0 .start]).client = some c ∧
    (lateState sampleCrowd [.thread 0 .start]).outbox = [] ∧
    (lateState sampleCrowd [.thread 0 .start]).chan.tail ≤ c.next ∧ c.results = [] ∧
    c.threads.lookup 0 = some crowdThread ∧ c.session.isOpen = true :=
  ⟨_, rfl, rfl, le_rfl, rfl, rfl, rfl⟩

theorem untilRefused_ends : ∃ c, (lateState sampleCrowd (untilRefused _)).client = some c ∧
    (lateState sampleCrowd (untilRefused _)).outbox = [] ∧
    (lateState sampleCrowd (untilRefused _)).chan.tail ≤ c.next ∧ c.results = [] ∧
    c.threads.lookup 0 = none ∧ c.session.isOpen = true := by
  obtain ⟨c, hc, hout, htail, hresults, hthread, hopen⟩ := lateState_started
  have hstep : lateState sampleCrowd (untilRefused _) =
      ((wrapFeed false).step (lateState sampleCrowd [.thread 0 .start])
        (.thread 0 (.prepare 1700000093))).1 := by
    rw [lateState, untilRefused, List.append_cons, List.append_cons]
    exact (Machine.run_concat ..).trans (by rw [List.append_assoc]; rfl)
  have hrefused : (queryFromFilter (recipientFilter [1059] sampleCrowd) 1700000093).taken
      (wrapFeed false).eng = false := sampleCrowd_refused 1700000093
  have hadvance : ∀ db b, crowdThread.advance (wrapFeed false).eng db b (.prepare 1700000093) =
      (none, none) := fun db b => advance_refused rfl rfl rfl hrefused
  rw [hstep]
  refine ⟨{ c with threads := c.threads.erase 0 }, ?_, ?_, ?_, hresults, AList.lookup_erase .., hopen⟩
  · rw [step, (onClient_of_client hc).1]
    exact congrArg some (moveThread_ends hthread (hadvance _))
  · rw [step, outbox_onClient]
    exact hout
  · rw [step, chan_onClient]
    exact htail

/-- What has ended is drained. -/
theorem drained_of_ends {st : State} {q : Nat} (h : ∃ c, st.client = some c ∧ st.outbox = [] ∧
    st.chan.tail ≤ c.next ∧ c.results = [] ∧ c.threads.lookup q = none ∧
    c.session.isOpen = true) : Open st ∧ Drained st q := by
  obtain ⟨c, hc, hout, htail, hresults, hthread, hopen⟩ := h
  have hclient : ∀ c', st.client = some c' → c' = c := fun c' hc' =>
    Option.some.inj (hc'.symm.trans hc)
  refine ⟨fun c' hc' => hclient c' hc' ▸ hopen, hout, fun c' hc' => ?_, fun c' hc' => ?_,
    fun c' hc' => ?_⟩ <;> rw [hclient c' hc'] <;> assumption

/-- A client that gets no database connection. -/
noncomputable def unconnectedWatch : (wrapFeed false).Watch :=
  lateWatch (Finset.mem_singleton_self sampleRecipient) (withoutConnection _) (by decide)
    (drained_of_ends withoutConnection_ends).1 (drained_of_ends withoutConnection_ends).2

/-- A client whose statement is refused. -/
noncomputable def refusedWatch : (wrapFeed false).Watch :=
  lateWatch mem_sampleCrowd (untilRefused _) (by decide) (drained_of_ends untilRefused_ends).1
    (drained_of_ends untilRefused_ends).2

/-- The end of a query is no delivery. -/
theorem unconnected_withheld : ¬ (wrapFeed false).Delivered unconnectedWatch.sub
    unconnectedWatch.round.event unconnectedWatch.answered unconnectedWatch.after := by
  intro h
  rcases delivered_cons.mp h with h | h
  · rw [effects_thread] at h
    cases h
  rcases delivered_cons.mp h with h | h
  · rw [effects_thread] at h
    cases h
  rcases delivered_cons.mp h with h | h
  · cases List.mem_singleton.mp h
  · obtain ⟨mid, a, rest, hnil, -⟩ := h
    cases mid <;> cases hnil

/-- A thread that ends sends nothing. -/
theorem refused_withheld : ¬ (wrapFeed false).Delivered refusedWatch.sub refusedWatch.round.event
    refusedWatch.answered refusedWatch.after := by
  intro h
  rcases delivered_cons.mp h with h | h
  · rw [effects_thread] at h
    cases h
  rcases delivered_cons.mp h with h | h
  · rw [effects_thread] at h
    cases h
  · obtain ⟨mid, a, rest, hnil, -⟩ := h
    cases mid <;> cases hnil

/-- Of the connection, the statement and the gate none can fail: with any one of them the client
may wait for the gift wrap in vain. -/
theorem wrap_withheld :
    ((∀ a ∈ (wrapWatch true).after,
        (wrapFeed true).Connected (wrapWatch true).client.session.nextQuery a) ∧
      (wrapFeed true).Served (wrapWatch true).sub ∧
      ¬ (wrapFeed true).Delivered (wrapWatch true).sub (wrapWatch true).round.event
        (wrapWatch true).answered (wrapWatch true).after) ∧
    ((wrapFeed false).Served unconnectedWatch.sub ∧
      (wrapFeed false).Along ((wrapFeed false).Allowed unconnectedWatch.round.event)
        unconnectedWatch.answered unconnectedWatch.after ∧
      ¬ (wrapFeed false).Delivered unconnectedWatch.sub unconnectedWatch.round.event
        unconnectedWatch.answered unconnectedWatch.after) ∧
    ((∀ a ∈ refusedWatch.after,
        (wrapFeed false).Connected refusedWatch.client.session.nextQuery a) ∧
      (wrapFeed false).Along ((wrapFeed false).Allowed refusedWatch.round.event)
        refusedWatch.answered refusedWatch.after ∧
      ¬ (wrapFeed false).Delivered refusedWatch.sub refusedWatch.round.event
        refusedWatch.answered refusedWatch.after) := by
  refine ⟨⟨wrapWatch_connected true, wrapWatch_served true, wrapWatch_withheld⟩,
    ⟨?_, along_allowed, unconnected_withheld⟩, ⟨?_, along_allowed, refused_withheld⟩⟩
  · intro f hf now
    obtain rfl := List.mem_singleton.mp hf
    rw [Sqlite.taken_iff rfl]
    exact (taken_recipientFilter (Finset.mem_singleton_self _)).mpr
      ⟨by rw [Finset.card_singleton]; decide, rfl⟩
  · intro a ha
    rcases List.mem_cons.mp ha with rfl | ha
    · exact fun _ => by decide
    · obtain rfl := List.mem_singleton.mp ha
      exact fun _ => by decide

end Feed

end Floonet
