import Floonet.Lib.Broadcast
import Floonet.Server.Bookkeeping
import Floonet.Server.PrivateMessages
import Floonet.Sqlite.Rows
import Floonet.Writer.Pipeline
import Floonet.Writer.Verification

/-!
# Stored queries and the live feed

A connection between its two sources of events. A REQ that is taken up starts a database
thread, which runs a statement for each filter on the database as it is at that moment and
puts the rows into the result queue of the connection (`query_subscription`). The writer and
the verifier commit events and then broadcast them, and the connection has a receiver from
its start on. All of them take their steps in any order.

The result queue is not bounded here: a full queue makes a thread wait, or give up.
-/

namespace Floonet

open Sqlite (Db EventRow queryFromFilter)

/-! ## The thread of a query

A query runs on a thread of its own: it takes a connection, prepares one statement for each filter
and sends the rows one by one, while the session may cancel it. -/

/-- A database thread of `query_subscription`, between two of its steps. -/
structure QueryThread where
  sub : Subscription
  /-- it has got past the waiting in front of the database -/
  started : Bool
  /-- the filters whose statement is still to be prepared -/
  filters : List ReqFilter
  /-- the rows left of the statement that runs -/
  rows : List EventRow
  rowCount : Nat

namespace QueryThread

/-- The thread of a subscription when it is spawned. -/
def spawn (s : Subscription) : QueryThread where
  sub := s
  started := false
  filters := s.filters
  rows := []
  rowCount := 0

/-- What a thread does next. -/
inductive Move where
  /-- check if the client still wants the results, and get a database connection -/
  | start
  /-- the same, but there is no connection to be had -/
  | noConnection
  /-- run the statement of the next filter, at this time -/
  | prepare (unixTime : Nat)
  /-- send a row -/
  | row
  /-- all filters are done -/
  | finish
  /-- the load is shed, a checkpoint is due, the client is slow, or a statement fails -/
  | abort
  deriving DecidableEq

/-- A step of the thread: what is left of it, and what it sends. A thread that cannot make
the move stays as it is, and a statement that SQLite refuses is the end of it. -/
def advance (eng : Sql.Engine) (db : Db) (cancelled : Bool) (t : QueryThread) :
    Move → Option QueryThread × Option QueryResult
  | .start =>
    if t.started then (some t, none)
    else if cancelled then (none, none)
    else (some { t with started := true }, none)
  | .noConnection =>
    if t.started then (some t, none)
    else if cancelled then (none, none)
    else (some { t with started := true, filters := [] }, none)
  | .prepare unixTime =>
    match t.started, t.rows, t.filters with
    | true, [], f :: rest =>
      if (queryFromFilter f unixTime).taken eng then
        (some { t with filters := rest, rows := (queryFromFilter f unixTime).rows eng db }, none)
      else (none, none)
    | _, _, _ => (some t, none)
  | .row =>
    match t.rows with
    | [] => (some t, none)
    | r :: rest =>
      -- check if this is still active; every 100 rows
      if t.rowCount % 100 = 0 ∧ cancelled = true then (none, none)
      else (some { t with rows := rest, rowCount := t.rowCount + 1 },
        some ⟨t.sub.getId, r.content.eventStr⟩)
  | .finish =>
    match t.started, t.rows, t.filters with
    | true, [], [] => (none, some ⟨t.sub.getId, "EOSE"⟩)
    | _, _, _ => (some t, none)
  | .abort => (none, none)

end QueryThread

/-! ## A client -/

/-- A client connection, its queues, and its queries. -/
structure Client where
  session : Session
  /-- the oneshot channels that hold a message -/
  cancelled : List Nat
  /-- the threads that have not ended, by the number of their channel -/
  threads : AList fun _ : Nat => QueryThread
  /-- `query_rx` -/
  results : List QueryResult
  /-- `bcast_rx` -/
  next : Nat

/-- A client that has just connected. -/
def Client.start (session : Session) (next : Nat) : Client where
  session := session
  cancelled := []
  threads := ∅
  results := []
  next := next

/-- The channel a turn sends a message on. -/
def Effect.cancelled? : Effect → Option Nat
  | .cancel q => some q
  | _ => none

/-- A query that is started. -/
def Effect.spawnInto (threads : AList fun _ : Nat => QueryThread) :
    Effect → AList fun _ : Nat => QueryThread
  | .query q s => threads.insert q (.spawn s)
  | _ => threads

/-- The client after a turn of its loop. -/
def Client.took (c : Client) (out : Session × List Effect) : Client × List Effect :=
  ({ c with
      session := out.1
      cancelled := c.cancelled ++ out.2.filterMap Effect.cancelled?
      threads := out.2.foldl Effect.spawnInto c.threads }, out.2)

/-- What the turn received comes from neither of the two queues. -/
def Turn.isExternal : Turn → Bool
  | .queryResult _ => false
  | .broadcast _ => false
  | _ => true

/-! ## The system -/

/-- The configuration of the relay, and its database engine. -/
structure Feed extends Pipeline where
  eng : Sql.Engine
  /-- `limits.broadcast_buffer` -/
  broadcastBuffer : Nat

namespace Feed

/-- The tables, what is committed and not yet broadcast, the channel and the client under watch. -/
structure State where
  db : Db
  /-- the events that were committed and are broadcast next -/
  outbox : List Event
  chan : Broadcast.Chan Event
  client : Option Client

/-- A step of the writer, of the verifier, of the client's connection or of one of its query
threads. -/
inductive Action (crypto : Crypto) where
  /-- a round of the writer, up to its broadcast -/
  | write (r : Round) (wrapped : r.event.Wrapped crypto)
  /-- a metadata event with the verifier, up to its broadcast -/
  | verify (c : MetadataCheck) (e : Event) (wrapped : e.Wrapped crypto)
  | publish (k : Nat)
  /-- another call on the tables: the expiry sweep, verification records -/
  | maintain (op : Sqlite.Op) (other : ∀ e, op ≠ .persistEvent e)
  | connect (uuid : String)
  /-- a turn of the connection that takes nothing from its two queues -/
  | turn (i : Input)
  | recvResult (now : Nat) (failsAt : Option Nat)
  | recvBroadcast (now : Nat) (failsAt : Option Nat)
  | thread (q : Nat) (m : QueryThread.Move)

variable (fd : Feed)

/-- `write_event` on the database as it is; the call may also fail before it gets there. -/
def writeEvent (db : Db) (e : Event) (attempt : Except Payment.RepoError Nat) :
    Except Payment.RepoError Nat × Db :=
  match attempt with
  | .error err => (.error err, db)
  | .ok _ =>
    match Sqlite.persistEvent fd.eng db e with
    | .ok (updated, db') => (.ok updated, db')
    | .error _ => (.error .other, db)

/-- What a task does with its event: commit it if it came to that, and broadcast it next. -/
def commit (st : State) (db : Db) (outlets : List Pipeline.Outlet) : State where
  db := if outlets.any fun | .written _ => true | .broadcast _ => false then db else st.db
  outbox := st.outbox ++ outlets.filterMap fun | .broadcast e => some e | .written _ => none
  chan := st.chan
  client := st.client

/-- The round of the writer on the database as it is. -/
def outletsOf (st : State) (r : Round) : List Pipeline.Outlet :=
  Pipeline.writerOutlets
    (fd.writer.round { r with write := (fd.writeEvent st.db r.event r.write).1 }).1

/-- A step of the connection, if there is one. -/
def onClient (st : State) (f : Client → Client × List Effect) : State × List Effect :=
  match st.client with
  | none => (st, [])
  | some c => ({ st with client := some (f c).1 }, (f c).2)

/-- The next row or end of a query. -/
def recvResult (now : Nat) (failsAt : Option Nat) (c : Client) : Client × List Effect :=
  match c.results with
  | [] => (c, [])
  | r :: rest =>
    { c with results := rest }.took (fd.server.step c.session ⟨.queryResult r, now, failsAt⟩)

/-- The next broadcast. The branch is not taken when messages were missed. -/
def recvBroadcast (chan : Broadcast.Chan Event) (now : Nat) (failsAt : Option Nat) (c : Client) :
    Client × List Effect :=
  match chan.recv c.next with
  | .empty => (c, [])
  | .lagged next => ({ c with next }, [])
  | .got e =>
    { c with next := c.next + 1 }.took (fd.server.step c.session ⟨.broadcast e, now, failsAt⟩)

/-- A step of one of the threads. -/
def moveThread (db : Db) (q : Nat) (m : QueryThread.Move) (c : Client) : Client × List Effect :=
  match c.threads.lookup q with
  | none => (c, [])
  | some t =>
    let (t', sent) := t.advance fd.eng db (c.cancelled.contains q) m
    ({ c with
        threads := t'.elim (c.threads.erase q) (c.threads.insert q)
        results := c.results ++ sent.toList }, [])

/-- One step of one task, and what the connection did in it. -/
def step (st : State) : Action fd.server.crypto → State × List Effect
  | .write r _ => (commit st (fd.writeEvent st.db r.event r.write).2 (fd.outletsOf st r), [])
  | .verify c e _ =>
    let (write, db) := fd.writeEvent st.db e c.write
    (commit st db (Pipeline.verifierOutlets
      (onMetadata fd.writer.settings.verifiedUsers fd.reader { c with write } e)), [])
  | .publish k =>
    match st.outbox[k]? with
    | none => (st, [])
    | some e => ({ st with outbox := st.outbox.eraseIdx k, chan := st.chan.send e }, [])
  | .maintain op _ => ({ st with db := op.apply fd.eng st.db }, [])
  | .connect uuid =>
    match st.client with
    | some _ => (st, [])
    | none =>
      ({ st with client := some (.start (fd.server.start uuid) st.chan.subscribe) }, [])
  | .turn i =>
    onClient st fun c => if i.turn.isExternal then c.took (fd.server.step c.session i) else (c, [])
  | .recvResult now failsAt => onClient st (fd.recvResult now failsAt)
  | .recvBroadcast now failsAt => onClient st (fd.recvBroadcast st.chan now failsAt)
  | .thread q m => onClient st (fd.moveThread st.db q m)

/-- The relay starts on a database. -/
def start (db : Db) : State where
  db := db
  outbox := []
  chan := .new fd.broadcastBuffer
  client := none

/-- The state after a sequence of steps. -/
def run (db : Db) (acts : List (Action fd.server.crypto)) : State :=
  Machine.run (fun st a => (fd.step st a).1) (fd.start db) acts

/-! ## What the steps can do

A step of the system is a call on the database, a step of a client, or a step of one of its
threads. Each leaves the rest of the system alone. -/

section Steps

variable {fd} {st : State} {c : Client} {i : Input} {db : Db} {e : Event}

/-- A call of `write_event` writes the event, or leaves the tables alone. -/
theorem writeEvent_cases (fd : Feed) (db : Db) (e : Event) (attempt : Except Payment.RepoError Nat) :
    (fd.writeEvent db e attempt).2 = db ∨
      (fd.writeEvent db e attempt).2 = Sqlite.write fd.eng db e := by
  rcases attempt with err | n
  · exact .inl rfl
  · rw [writeEvent, Sqlite.write]
    rcases Sqlite.persistEvent fd.eng db e with err | ⟨updated, db'⟩
    · exact .inl rfl
    · exact .inr rfl

@[simp] theorem db_onClient (st : State) (f : Client → Client × List Effect) :
    (onClient st f).1.db = st.db := by
  rw [onClient]
  rcases st.client with _ | c <;> rfl

@[simp] theorem outbox_onClient (st : State) (f : Client → Client × List Effect) :
    (onClient st f).1.outbox = st.outbox := by
  rw [onClient]
  rcases st.client with _ | c <;> rfl

@[simp] theorem chan_onClient (st : State) (f : Client → Client × List Effect) :
    (onClient st f).1.chan = st.chan := by
  rw [onClient]
  rcases st.client with _ | c <;> rfl

theorem onClient_of_client {f : Client → Client × List Effect} (hc : st.client = some c) :
    (onClient st f).1.client = some (f c).1 ∧ (onClient st f).2 = (f c).2 := by
  rw [onClient, hc]
  exact ⟨rfl, rfl⟩

/-- A commit writes the tables or nothing. -/
theorem db_commit (st : State) (db : Db) (outlets : List Pipeline.Outlet) :
    (commit st db outlets).db = st.db ∨ (commit st db outlets).db = db := by
  rw [commit]
  split_ifs
  · exact .inr rfl
  · exact .inl rfl

theorem mem_outbox_commit {outlets : List Pipeline.Outlet} :
    e ∈ (commit st db outlets).outbox ↔ e ∈ st.outbox ∨ .broadcast e ∈ outlets := by
  rw [commit, List.mem_append, List.mem_filterMap]
  refine or_congr_right ⟨?_, fun h => ⟨_, h, rfl⟩⟩
  rintro ⟨o, ho, heq⟩
  cases o <;> cases heq
  exact ho

/-- A turn that leaves the queries alone starts none. -/
theorem foldl_spawnInto {effects : List Effect} (h : ∀ q s, Effect.query q s ∉ effects)
    (threads : AList fun _ : Nat => QueryThread) :
    effects.foldl Effect.spawnInto threads = threads := by
  induction effects with
  | nil => rfl
  | cons x rest ih =>
    have hx : Effect.spawnInto threads x = threads := by
      cases x with
      | query q s => exact absurd (List.mem_cons_self ..) (h q s)
      | _ => rfl
    rw [List.foldl_cons, hx]
    exact ih fun q s hmem => h q s (List.mem_cons_of_mem _ hmem)

/-- A quiet step leaves the query threads. -/
theorem threads_took_of_quiet {out : Session × List Effect} (h : Quiet c.session out.1 out.2) :
    (c.took out).1.threads = c.threads :=
  foldl_spawnInto h.no_query c.threads

/-- A REQ that is taken up starts a thread if it asks for stored events. -/
theorem threads_took_of_takesUp {s : Subscription} (h : TakesUp fd.server c.session i s) :
    (c.took (fd.server.step c.session i)).1.threads =
      if s.needsHistoricalEvents then c.threads.insert c.session.nextQuery (.spawn s)
      else c.threads := by
  have hcancel : ∀ q s', Effect.query q s' ∉ c.session.cancelOf s.id := by
    intro q s' hmem
    obtain ⟨q', -, hq'⟩ := mem_cancelOf.mp hmem
    cases hq'
  rw [step_of_takesUp h, Client.took, List.foldl_append, foldl_spawnInto hcancel]
  split_ifs <;> rfl

theorem threads_took_of_closes {id : String} (h : Closes fd.server c.session i id) :
    (c.took (fd.server.step c.session i)).1.threads = c.threads := by
  rw [step_of_closes h]
  refine foldl_spawnInto (fun q s hmem => ?_) _
  obtain ⟨q', -, hq'⟩ := mem_cancelOf.mp hmem
  cases hq'

/-- A message on the channel of a query. -/
theorem mem_cancelled_took {out : Session × List Effect} {q : Nat} :
    q ∈ (c.took out).1.cancelled ↔ q ∈ c.cancelled ∨ .cancel q ∈ out.2 := by
  rw [Client.took, List.mem_append, List.mem_filterMap]
  refine or_congr_right ⟨?_, fun h => ⟨_, h, rfl⟩⟩
  rintro ⟨x, hx, heq⟩
  cases x <;> cases heq
  exact hx

/-! ### Deliveries -/

/-- A turn that leaves the loop running was carried out in full. -/
theorem step_of_open {sv : Server} {s s' : Session} {effects : List Effect}
    (hturn : sv.onTurn s i.now i.turn = some (s', effects))
    (hopen : (sv.step s i).1.isOpen = true) : sv.step s i = (s', effects) := by
  rcases Server.step_cases sv s i with ⟨hcl, hs⟩ | ⟨-, hnone, -⟩ | ⟨s'', effects', -, hst, hs⟩
  · rw [hs, hcl] at hopen
    cases hopen
  · rw [hturn] at hnone
    cases hnone
  · rw [hturn] at hst
    cases hst
    rcases hs with hs | ⟨sent, -, -, hs⟩
    · exact hs
    · rw [hs] at hopen
      cases hopen

/-- The text of an event is not the mark of a query's end. -/
theorem eventStr_ne_eose (e : Event) : e.eventStr ≠ "EOSE" := by
  intro h
  have hhead := congrArg (fun s => s.toList.head?) h
  rw [Event.eventStr, Json.toText, String.toList_ofList, Event.toJson, Json.render,
    List.head?_cons] at hhead
  exact absurd (Option.some.inj hhead) (by decide)

variable {now : Nat} {failsAt : Option Nat} {r : QueryResult} {rest : List QueryResult}

/-- A row at the head of the queue goes out, when the gate lets it pass and the loop goes on. -/
theorem sent_recvResult (hr : c.results = r :: rest) (hne : r.event ≠ "EOSE")
    (hallow : fd.server.allowedToSend r.event c.session.conn = true)
    (hopen : (fd.recvResult now failsAt c).1.session.isOpen = true) :
    .send (.event (withoutQuotes r.subId) r.event) ∈ (fd.recvResult now failsAt c).2 := by
  have hturn : fd.server.onTurn c.session now (.queryResult r) =
      some (c.session, [.send (.event (withoutQuotes r.subId) r.event)]) := by
    rw [Server.onTurn, Server.onQueryResult, if_neg hne, if_pos hallow]
  simp only [recvResult, hr] at hopen ⊢
  have hstep := step_of_open (i := ⟨.queryResult r, now, failsAt⟩) hturn hopen
  rw [Client.took, hstep]
  exact List.mem_singleton_self _

/-- A turn that sends a row or an end leaves the loop running. -/
theorem isOpen_recvResult (h : c.session.isOpen = true) :
    (fd.recvResult now none c).1.session.isOpen = true := by
  rcases hr : c.results with _ | ⟨r, rest⟩
  · rw [recvResult, hr]
    exact h
  · simp only [recvResult, hr, Client.took]
    rw [Server.step_of_onTurn (i := ⟨.queryResult r, now, none⟩) h rfl rfl]
    exact h

/-- What a turn for a broadcast does when nothing fails. -/
theorem recvBroadcast_of_got {chan : Broadcast.Chan Event} (hrecv : chan.recv c.next = .got e)
    (hopen : c.session.isOpen = true) : fd.recvBroadcast chan now none c =
      ({ c with next := c.next + 1 }, fd.server.onBroadcast c.session.conn e) := by
  have hsend : ∀ x ∈ fd.server.onBroadcast c.session.conn e, ∃ f, x = .send f := by
    intro x hx
    obtain ⟨y, -, hy⟩ := List.mem_flatMap.mp hx
    rw [Server.deliver] at hy
    split_ifs at hy
    · exact ⟨_, List.mem_singleton.mp hy⟩
    · cases hy
  have hcancelled : (fd.server.onBroadcast c.session.conn e).filterMap Effect.cancelled? = [] := by
    refine List.filterMap_eq_nil_iff.mpr fun x hx => ?_
    obtain ⟨f, rfl⟩ := hsend x hx
    rfl
  have hthreads := foldl_spawnInto (fun q s hmem => by
    obtain ⟨f, hf⟩ := hsend _ hmem
    cases hf) c.threads
  simp only [recvBroadcast, hrecv, Client.took]
  rw [Server.step_of_onTurn (i := ⟨.broadcast e, now, none⟩) hopen rfl rfl, hcancelled, hthreads,
    List.append_nil]

/-- A broadcast goes out to a subscription that is interested. -/
theorem sent_recvBroadcast {chan : Broadcast.Chan Event} {id : String} {sub : Subscription}
    (hrecv : chan.recv c.next = .got e)
    (hsub : c.session.conn.subscriptions.lookup id = some sub)
    (hint : sub.interestedInEvent e = true)
    (hallow : fd.server.allowedToSend e.eventStr c.session.conn = true)
    (hopen : (fd.recvBroadcast chan now failsAt c).1.session.isOpen = true) :
    .send (.event (withoutQuotes id) e.eventStr) ∈ (fd.recvBroadcast chan now failsAt c).2 := by
  simp only [recvBroadcast, hrecv] at hopen ⊢
  have hstep := step_of_open (i := ⟨.broadcast e, now, failsAt⟩) rfl hopen
  rw [Client.took, hstep]
  refine List.mem_flatMap.mpr ⟨⟨id, sub⟩, AList.mem_lookup_iff.mp hsub, ?_⟩
  rw [Server.deliver, hint, hallow]
  exact List.mem_singleton_self _

end Steps

/-! ## A relay for samples -/

/-- A relay that serves the samples, with or without the gate for private messages. -/
noncomputable def sampleFeed (nip42Dms : Bool) (rs : List Recorded) : Feed where
  server := { sampleServer rs with settings := { (sampleServer rs).settings with nip42Dms } }
  writer := { DbWriter.verifiedOnly with
    settings := { DbWriter.verifiedOnly.settings with
      nip42Auth := true
      verifiedUsers := { DbWriter.verifiedOnly.settings.verifiedUsers with mode := .disabled } } }
  reader := Verification.sampleReader
  same := rfl
  eng := Sql.Engine.inOrder 32766
  broadcastBuffer := 16384

/-- A REQ arrives. -/
def reqInput (s : Subscription) : Input where
  turn := .wsNext (.text 60 (some (.subMsg s)))
  now := 1700000090

/-- A CLOSE arrives. -/
def closeInput (id : String) : Input where
  turn := .wsNext (.text 16 (some (.closeMsg ⟨"CLOSE", id⟩)))
  now := 1700000091

/-- A client connects and asks, and its first query finds a row. -/
def asksAndFinds (crypto : Crypto) (s : Subscription) : List (Action crypto) :=
  [.connect sampleChallenge, .turn (reqInput s), .thread 0 .start, .thread 0 (.prepare 1700000090),
    .thread 0 .row]

end Feed

end Floonet
