import Floonet.Admission
import Floonet.Conn
import Floonet.Delegation
import Floonet.Notice

/-!
# The event loop of a client connection

`nostr_server` is one loop around a `select!`. Each turn of it takes what one of its
branches received (`Turn`), and answers with the effects it has outside the connection,
in order: messages on the socket, queries started and cancelled, events handed to the
database writer. The rate limiter only delays a turn, so it is left out.

A send that fails ends the loop on the spot, with the rest of the turn undone
(`transmit`). When the loop ends the running queries are told to stop.

The subscriptions are met in the order of their list; the source iterates a hash map,
which has no order of its own.
-/

namespace Floonet

open Hex (Bytes)

/-! ## What comes in and what goes out

A turn is one branch of the `select!` with what it received. Its effects are listed in order,
since the first send that fails ends the loop after those before it. -/

/-- The settings the loop reads. -/
structure ServerSettings extends Settings where
  /-- `authorization.nip42_dms` -/
  nip42Dms : Bool
  /-- `info.relay_url` -/
  relayUrl : Option String
  /-- `options.reject_future_seconds` -/
  rejectFutureSeconds : Option Nat
  /-- `limits.limit_scrapers` -/
  limitScrapers : Bool
  /-- `limits.max_event_bytes` -/
  maxEventBytes : Option Nat

/-- What is known of a client when it connects. -/
structure ClientInfo where
  remoteIp : String
  userAgent : Option String
  origin : Option String

/-- Event submitted from a network connection to the database writer. -/
structure SubmittedEvent where
  event : Event
  sourceIp : String
  origin : Option String
  userAgent : Option String
  authPubkey : Option Bytes

/-- Serialized event associated with a specific subscription request. -/
structure QueryResult where
  subId : String
  event : String
  deriving DecidableEq

/-- Close command in network format. -/
structure CloseCmd where
  cmd : String
  id : String

/-- A CLOSE command is that of its tag. -/
def Close.from (cc : CloseCmd) : Except Error Close :=
  if cc.cmd = "CLOSE" then .ok ⟨cc.id⟩ else .error .commandUnknownError

/-- Nostr protocol messages from a client. -/
inductive NostrMessage where
  /-- `EVENT` and `AUTH` messages -/
  | eventMsg (ec : EventCmd)
  /-- a `REQ` message -/
  | subMsg (s : Subscription)
  /-- a `CLOSE` message -/
  | closeMsg (cc : CloseCmd)

/-- Why a text is not a message. -/
inductive MessageError where
  | eventMaxLengthError (size : Nat)
  | protoParseError

/-- `convert_to_msg`, from the length of the text and what it deserializes to. -/
def convertToMsg (len : Nat) (parsed : Option NostrMessage) (maxBytes : Option Nat) :
    Except MessageError NostrMessage :=
  match parsed with
  | none => .error .protoParseError
  | some (.eventMsg ec) =>
    if maxBytes.any fun maxSize => maxSize < len && 0 < maxSize then
      .error (.eventMaxLengthError len)
    else .ok (.eventMsg ec)
  | some m => .ok m

/-- `ws_stream.next()`. -/
inductive WsNext where
  | text (len : Nat) (parsed : Option NostrMessage)
  | binary
  | pingPong
  | tooLarge (size maxSize : Nat)
  /-- a close, an error, or the end of the stream -/
  | gone

/-- A branch of the `select!`, with what it received. -/
inductive Turn where
  | shutdown
  /-- the ping interval, and whether the client has been quiet for too long -/
  | ping (quiet : Bool)
  | notice (n : Notice)
  | queryResult (r : QueryResult)
  | broadcast (e : Event)
  | wsNext (m : WsNext)

/-- One turn, with the clock and the first of its sends that fails. -/
structure Input where
  turn : Turn
  now : Nat
  failsAt : Option Nat := none

/-- A message on the socket. -/
inductive Frame where
  | ping
  | notice (n : Notice)
  | eose (subId : String)
  | event (subId event : String)
  deriving DecidableEq

/-- What a turn does outside the connection. A query is named by the number of its
oneshot channel. -/
inductive Effect where
  | send (f : Frame)
  | cancel (query : Nat)
  | query (query : Nat) (s : Subscription)
  | submit (s : SubmittedEvent)

/-- An effect that has nothing to do with queries. -/
def Effect.Plain : Effect → Prop
  | .send _ => True
  | .submit _ => True
  | _ => False

/-! ## State -/

/-- The state of the loop. -/
structure Session where
  conn : ClientConn
  /-- the channel to cancel the query of a subscription -/
  runningQueries : AList fun _ : String => Nat
  /-- the number of the next oneshot channel -/
  nextQuery : Nat
  isOpen : Bool

/-- The configured server and the code from outside the repository that a connection
runs. -/
structure Server where
  settings : ServerSettings
  client : ClientInfo
  crypto : Crypto
  /-- the decoder of npub strings -/
  bech32 : String → Option Bytes
  /-- the host of a URL -/
  hostStr : String → Option String
  /-- `serde_json::from_str::<Event>` -/
  fromStr : String → Option Event
  /-- what was serialized is read back -/
  fromStr_eventStr : ∀ e : Event, e.createdAt < 2 ^ 64 → e.kind < 2 ^ 64 →
    fromStr e.eventStr = some e.serialized

namespace Session

/-- The loop has ended. -/
def close (st : Session) : Session := { st with isOpen := false }

/-- Connection cleanup: ensure any still running queries are terminated. -/
def cancelAll (st : Session) : List Effect :=
  st.runningQueries.entries.map fun q => .cancel q.2

/-- A CLOSE message. -/
def onClose (st : Session) (cc : CloseCmd) : Session × List Effect :=
  match Close.from cc with
  | .ok c =>
    ({ st with conn := st.conn.unsubscribe c, runningQueries := st.runningQueries.erase c.id },
      ((st.runningQueries.lookup c.id).map Effect.cancel).toList)
  | .error _ => (st, [.send (.notice (.message "could not parse command"))])

end Session

/-- The text of an error of `EventWrapper::from`. -/
def Error.text : Error → String
  | eventInvalidSignature => "Event invalid signature"
  | eventInvalidId => "Event invalid id"
  | eventMalformedPubkey => "Event malformed pubkey"
  | eventCouldNotCanonicalize => "Event could not canonicalize"
  | commandUnknownError => "Command unknown"
  | delegationParseError => "Delegation parse error"

/-- `str::replace` of `"` by nothing. -/
def withoutQuotes (s : String) : String := String.ofList (s.toList.filter (· ≠ Json.quote))

/-- Kinds whose events only go to their parties: direct messages and gift wraps. -/
def Event.isPrivate (e : Event) : Bool := e.kind == 4 || e.kind == 44 || e.kind == 1059

namespace Server

variable (sv : Server)

/-- The admission pipeline built at start-up. -/
def admission : Admission := .fromSettings sv.bech32 sv.settings.toSettings

/-- The state when the loop starts; `uuid` is the challenge, which is sent when
authentication is on. -/
def start (uuid : String) : Session where
  conn := if sv.settings.nip42Auth then ClientConn.new.generateAuthChallenge uuid
    else ClientConn.new
  runningQueries := ∅
  nextQuery := 0
  isOpen := true

/-! ## Deliveries -/

/-- May this event go out on this connection? -/
def allowedToSend (eventStr : String) (conn : ClientConn) : Bool :=
  if sv.settings.nip42Dms then
    match sv.fromStr eventStr with
    | some event =>
      if event.isPrivate then
        match conn.authPubkey, (event.tagValuesByName "p").head? with
        | some authPubkey, some recipientPubkey =>
          recipientPubkey == authPubkey || event.pubkey == authPubkey
        | _, _ => false
      else true
    | none => false
  else true

/-- The database informed us of a query result we asked for. -/
def onQueryResult (conn : ClientConn) (r : QueryResult) : List Effect :=
  let subesc := withoutQuotes r.subId
  if r.event = "EOSE" then [.send (.eose subesc)]
  else if sv.allowedToSend r.event conn then [.send (.event subesc r.event)]
  else []

/-- What one subscription gets of an event broadcast to all clients. -/
def deliver (conn : ClientConn) (e : Event) (s : String) (sub : Subscription) : List Effect :=
  if sub.interestedInEvent e && sv.allowedToSend e.eventStr conn then
    [.send (.event (withoutQuotes s) e.eventStr)]
  else []

/-- An event has been broadcast to all clients. -/
def onBroadcast (conn : ClientConn) (e : Event) : List Effect :=
  conn.subscriptions.entries.flatMap fun x => sv.deliver conn e x.1 x.2

/-! ## Messages of the client -/

/-- An EVENT that was parsed and validated. -/
def onEvent (st : Session) (now : Nat) (e : Event) : List Effect :=
  if e.isExpired now then
    [.send (.notice (.invalid e.id "The event has already expired"))]
  else if e.isValidTimestamp now sv.settings.rejectFutureSeconds then
    match sv.admission.check e st.conn.authPubkey with
    | .allow =>
      [.submit { event := e, sourceIp := sv.client.remoteIp, origin := sv.client.origin,
                 userAgent := sv.client.userAgent,
                 authPubkey := st.conn.authPubkey.bind Hex.decode }]
    | .deny reason authRequired =>
      [.send (.notice (if authRequired then .authRequired e.id reason else .blocked e.id reason))]
  else
    match sv.settings.rejectFutureSeconds with
    | some futSec => [.send (.notice (.invalid e.id
        ("The event created_at field is out of the acceptable range (+" ++ toString futSec ++
          "sec) for this relay.")))]
    | none => []

/-- An AUTH message. -/
def onAuth (st : Session) (now : Nat) (evid : String) (event : Event) : Session × List Effect :=
  if sv.settings.nip42Auth then
    match sv.settings.relayUrl with
    | none => (st, [])
    | some relay =>
      match st.conn.authenticate sv.crypto sv.hostStr now event relay with
      | (conn, .ok ()) => ({ st with conn }, [.send (.notice (.saved event.id))])
      | (conn, .error e) => ({ st with conn },
          [.send (.notice (.restricted event.id ("authentication error: " ++ e.text)))])
  else (st, [.send (.notice (.invalid evid Error.commandUnknownError.text))])

/-- A REQ message. -/
def onReq (st : Session) (s : Subscription) : Session × List Effect :=
  -- do nothing if the sub already exists
  if st.conn.hasSubscription s then (st, [])
  else if sv.settings.limitScrapers && s.isScraper then (st, [.send (.eose s.id)])
  else
    let q := st.nextQuery
    match st.conn.subscribe s with
    | (conn, .ok ()) =>
      -- if there was a previous query running with the same name, cancel it
      ({ st with conn, runningQueries := st.runningQueries.insert s.id q, nextQuery := q + 1 },
        ((st.runningQueries.lookup s.id).map Effect.cancel).toList ++
          if s.needsHistoricalEvents then [.query q s] else [])
    | (conn, .error e) => ({ st with conn, nextQuery := q + 1 },
        [.send (.notice (.message ("Subscription error: " ++ e.text)))])

/-- A message from the client; `none` when the conversion of an event panics, which ends
the task. -/
def onMessage (st : Session) (now : Nat) : NostrMessage → Option (Session × List Effect)
  | .eventMsg ec =>
    match EventWrapper.from sv.crypto ec with
    | .ok (.wrappedEvent e) => some (st, sv.onEvent st now e)
    | .ok (.wrappedAuth event) => some (sv.onAuth st now ec.event.id event)
    | .err e => some (st, [.send (.notice (.invalid ec.event.id e.text))])
    | .panic => none
  | .subMsg s => some (sv.onReq st s)
  | .closeMsg cc => some (st.onClose cc)

/-- What arrives on the socket; `none` ends the loop. -/
def onWsNext (st : Session) (now : Nat) : WsNext → Option (Session × List Effect)
  | .text len parsed =>
    match convertToMsg len parsed sv.settings.maxEventBytes with
    | .ok m => sv.onMessage st now m
    | .error (.eventMaxLengthError _) =>
      some (st, [.send (.notice (.message "event exceeded max size"))])
    | .error .protoParseError => some (st, [.send (.notice (.message "could not parse command"))])
  | .binary => some (st, [.send (.notice (.message "binary messages are not accepted"))])
  | .pingPong => some (st, [])
  | .tooLarge size maxSize => some (st, [.send (.notice (.message
      ("message too large (" ++ toString size ++ " > " ++ toString maxSize ++ ")")))])
  | .gone => none

/-! ## The loop -/

/-- What a branch does; `none` ends the loop. -/
def onTurn (st : Session) (now : Nat) : Turn → Option (Session × List Effect)
  | .shutdown => none
  | .ping quiet => if quiet then none else some (st, [.send .ping])
  | .notice n => some (st, [.send (.notice n)])
  | .queryResult r => some (st, sv.onQueryResult st.conn r)
  | .broadcast e => some (st, sv.onBroadcast st.conn e)
  | .wsNext m => sv.onWsNext st now m

/-- The effects up to the first send that fails, and whether none does. -/
def transmit : Option Nat → List Effect → List Effect × Bool
  | _, [] => ([], true)
  | some 0, .send f :: _ => ([.send f], false)
  | some (k + 1), .send f :: rest =>
    let (sent, ok) := transmit (some k) rest
    (.send f :: sent, ok)
  | k, e :: rest =>
    let (sent, ok) := transmit k rest
    (e :: sent, ok)

/-- One turn of the loop. -/
def step (st : Session) (i : Input) : Session × List Effect :=
  if st.isOpen then
    match sv.onTurn st i.now i.turn with
    | none => (st.close, st.cancelAll)
    | some (st', effects) =>
      match transmit i.failsAt effects with
      | (sent, true) => (st', sent)
      | (sent, false) => (st'.close, sent ++ st'.cancelAll)
  else (st, [])

/-- The connection after a sequence of turns. -/
def run (uuid : String) (is : List Input) : Session :=
  Machine.run (fun st i => (sv.step st i).1) (sv.start uuid) is

/-! ## What a turn can do -/

section Step

variable {sv} {st st' : Session} {i : Input} {effects : List Effect}

/-- All effects happen, or those up to a failing send. -/
theorem transmit_cases (k : Option Nat) (effects : List Effect) :
    transmit k effects = (effects, true) ∨ ∃ sent, sent <+: effects ∧
      (∃ f, Effect.send f ∈ sent) ∧ transmit k effects = (sent, false) := by
  have hcons : ∀ (e : Effect) {rest : List Effect} {k : Option Nat},
      (transmit k rest = (rest, true) ∨ ∃ sent, sent <+: rest ∧
        (∃ f, Effect.send f ∈ sent) ∧ transmit k rest = (sent, false)) →
      (e :: (transmit k rest).1, (transmit k rest).2) = (e :: rest, true) ∨
        ∃ sent, sent <+: e :: rest ∧ (∃ f, Effect.send f ∈ sent) ∧
          (e :: (transmit k rest).1, (transmit k rest).2) = (sent, false) := by
    rintro e rest k (h | ⟨sent, hp, ⟨f, hf⟩, h⟩)
    · exact .inl (by rw [h])
    · exact .inr ⟨e :: sent, List.cons_prefix_cons.mpr ⟨rfl, hp⟩,
        ⟨f, List.mem_cons_of_mem _ hf⟩, by rw [h]⟩
  fun_induction transmit k effects with
  | case1 => exact .inl rfl
  | case2 f rest => exact .inr ⟨[.send f], ⟨rest, rfl⟩, ⟨f, List.mem_singleton_self _⟩, rfl⟩
  | case3 k f rest sent ok h ih =>
    have := hcons (.send f) ih
    rwa [h] at this
  | case4 k e rest _ _ sent ok h ih =>
    have := hcons e ih
    rwa [h] at this

/-- What a turn comes to: the loop is over, ends, or one branch is carried out, in full or
up to a send that fails. -/
theorem step_cases (sv : Server) (st : Session) (i : Input) :
    (st.isOpen = false ∧ sv.step st i = (st, [])) ∨
    (st.isOpen = true ∧ sv.onTurn st i.now i.turn = none ∧
      sv.step st i = (st.close, st.cancelAll)) ∨
    ∃ st' effects, st.isOpen = true ∧ sv.onTurn st i.now i.turn = some (st', effects) ∧
      (sv.step st i = (st', effects) ∨
        ∃ sent, sent <+: effects ∧ (∃ f, Effect.send f ∈ sent) ∧
          sv.step st i = (st'.close, sent ++ st'.cancelAll)) := by
  rw [step]
  split_ifs with hopen
  · rcases hturn : sv.onTurn st i.now i.turn with _ | ⟨st', effects⟩
    · exact .inr (.inl ⟨hopen, rfl, rfl⟩)
    · refine .inr (.inr ⟨st', effects, hopen, rfl, ?_⟩)
      rcases transmit_cases i.failsAt effects with h | ⟨sent, hp, hf, h⟩
      · exact .inl (by simp only [h])
      · exact .inr ⟨sent, hp, hf, by simp only [h]⟩
  · exact .inl ⟨by simpa using hopen, rfl⟩

@[simp] theorem transmit_none (effects : List Effect) : transmit none effects = (effects, true) := by
  induction effects with
  | nil => rfl
  | cons e rest ih => cases e <;> simp [transmit, ih]

/-- A turn whose sends succeed is carried out in full. -/
theorem step_of_onTurn (hopen : st.isOpen = true)
    (hturn : sv.onTurn st i.now i.turn = some (st', effects)) (hok : i.failsAt = none) :
    sv.step st i = (st', effects) := by
  rw [step, if_pos hopen, hturn]
  simp only [hok, transmit_none]

/-- Apart from the clean-up, an effect is one of the branch of the turn. -/
theorem effect_of_step {x : Effect} (hx : ∀ q, x ≠ .cancel q) (h : x ∈ (sv.step st i).2) :
    st.isOpen = true ∧
      ∃ st' effects, sv.onTurn st i.now i.turn = some (st', effects) ∧ x ∈ effects := by
  have hcancel : ∀ st : Session, x ∉ st.cancelAll := by
    intro st hmem
    obtain ⟨q, -, hq⟩ := List.mem_map.mp hmem
    exact hx _ hq.symm
  rcases step_cases sv st i with ⟨-, hs⟩ | ⟨-, -, hs⟩ | ⟨st', effects, hopen, hturn, hs⟩
  · rw [hs] at h
    cases h
  · rw [hs] at h
    exact absurd h (hcancel _)
  · refine ⟨hopen, st', effects, hturn, ?_⟩
    rcases hs with hs | ⟨sent, hp, -, hs⟩ <;> rw [hs] at h
    · exact h
    · rcases List.mem_append.mp h with h | h
      · exact hp.subset h
      · exact absurd h (hcancel _)

/-- A message is sent by the branch of the turn. -/
theorem send_of_step {f : Frame} (h : Effect.send f ∈ (sv.step st i).2) :
    st.isOpen = true ∧
      ∃ st' effects, sv.onTurn st i.now i.turn = some (st', effects) ∧ .send f ∈ effects :=
  effect_of_step (fun _ hq => by cases hq) h

/-! ### REQ -/

/-- The REQ is not taken up: it is a duplicate or a scraper, or the connection refuses
it. -/
def Refuses (sv : Server) (conn : ClientConn) (s : Subscription) : Prop :=
  conn.hasSubscription s = true ∨ (sv.settings.limitScrapers = true ∧ s.isScraper = true) ∨
    ∃ err, (conn.subscribe s).2 = .error err

/-- A refused subscription is answered with the end of stored events. -/
theorem onReq_of_refuses {s : Subscription} (st : Session) (h : sv.Refuses st.conn s) :
    (sv.onReq st s).1.conn = st.conn ∧ (sv.onReq st s).1.runningQueries = st.runningQueries ∧
      st.nextQuery ≤ (sv.onReq st s).1.nextQuery ∧
      ∀ e ∈ (sv.onReq st s).2, e = .send (.eose s.id) ∨ ∃ msg, e = .send (.notice (.message msg)) := by
  rw [onReq]
  by_cases hdup : st.conn.hasSubscription s = true
  · rw [if_pos hdup]
    exact ⟨rfl, rfl, le_rfl, fun _ h => absurd h List.not_mem_nil⟩
  · rw [if_neg hdup]
    by_cases hscraper : (sv.settings.limitScrapers && s.isScraper) = true
    · rw [if_pos hscraper]
      exact ⟨rfl, rfl, le_rfl, fun _ h => .inl (List.mem_singleton.mp h)⟩
    · rw [if_neg hscraper]
      rcases h with h | h | ⟨err, h⟩
      · exact absurd h hdup
      · exact absurd (by simpa using h) hscraper
      · have hsub : st.conn.subscribe s = (st.conn, .error err) :=
          Prod.ext (ClientConn.subscribe_error h) h
        rw [hsub]
        exact ⟨rfl, rfl, Nat.le_succ _, fun _ h => .inr ⟨_, List.mem_singleton.mp h⟩⟩

/-- A REQ that is taken up cancels the query stored under its id, and starts its own if
it asks for stored events. -/
theorem onReq_of_accepts {s : Subscription} (h : ¬ sv.Refuses st.conn s) :
    sv.onReq st s =
      ({ st with
          conn := (st.conn.subscribe s).1
          runningQueries := st.runningQueries.insert s.id st.nextQuery
          nextQuery := st.nextQuery + 1 },
        ((st.runningQueries.lookup s.id).map Effect.cancel).toList ++
          if s.needsHistoricalEvents then [.query st.nextQuery s] else []) := by
  rw [Refuses, not_or, not_or] at h
  obtain ⟨hdup, hscraper, herr⟩ := h
  rw [onReq, if_neg hdup, if_neg (by simpa using hscraper)]
  rcases hsub : st.conn.subscribe s with ⟨conn, err | ⟨⟩⟩
  · exact absurd ⟨err, by rw [hsub]⟩ herr
  · rfl

/-- A CLOSE is not understood, or it removes the subscription and cancels its query. -/
theorem onClose_cases (st : Session) (cc : CloseCmd) :
    st.onClose cc = (st, [.send (.notice (.message "could not parse command"))]) ∨
    st.onClose cc =
      ({ st with
          conn := st.conn.unsubscribe ⟨cc.id⟩
          runningQueries := st.runningQueries.erase cc.id },
        ((st.runningQueries.lookup cc.id).map Effect.cancel).toList) := by
  rw [Session.onClose, Close.from]
  split_ifs with hcmd
  · exact .inr rfl
  · exact .inl rfl

/-! ### Messages -/

/-- The message of a turn. -/
def received (sv : Server) : Turn → Option NostrMessage
  | .wsNext (.text len parsed) =>
    match convertToMsg len parsed sv.settings.maxEventBytes with
    | .ok m => some m
    | .error _ => none
  | _ => none

theorem onTurn_of_received {now : Nat} {turn : Turn} {m : NostrMessage}
    (h : sv.received turn = some m) : sv.onTurn st now turn = sv.onMessage st now m := by
  unfold received at h
  split at h
  · rename_i len parsed
    rcases hc : convertToMsg len parsed sv.settings.maxEventBytes with err | m' <;>
      simp only [hc, reduceCtorEq, Option.some.injEq] at h
    subst h
    simp only [onTurn, onWsNext, hc]
  · cases h

/-- The answers to an event are plain. -/
theorem plain_onEvent {now : Nat} {event : Event} : ∀ e ∈ sv.onEvent st now event, e.Plain := by
  intro e he
  rw [onEvent] at he
  split_ifs at he with hexp htime
  · rw [List.mem_singleton.mp he]
    trivial
  · rcases hc : sv.admission.check event st.conn.authPubkey with _ | ⟨reason, auth⟩ <;>
      rw [hc] at he <;> rw [List.mem_singleton.mp he] <;> trivial
  · rcases hs : sv.settings.rejectFutureSeconds with _ | futSec <;> rw [hs] at he
    · cases he
    · rw [List.mem_singleton.mp he]
      trivial

/-- An AUTH message is answered by a notice, and the connection authenticates or stays as it
is. -/
theorem onAuth_cases (sv : Server) (st : Session) (now : Nat) (evid : String) (event : Event) :
    (∀ e ∈ (sv.onAuth st now evid event).2, e.Plain) ∧
      ((sv.onAuth st now evid event).1 = st ∨ ∃ relay, sv.settings.nip42Auth = true ∧
        sv.settings.relayUrl = some relay ∧ (sv.onAuth st now evid event).1 =
          { st with
            conn := (st.conn.authenticate sv.crypto sv.hostStr now event relay).1 }) := by
  have hplain : ∀ (f : Frame), ∀ e ∈ [Effect.send f], e.Plain := by
    intro f e he
    rw [List.mem_singleton.mp he]
    trivial
  rw [onAuth]
  split_ifs with hnip42
  · rcases hrelay : sv.settings.relayUrl with _ | relay
    · exact ⟨fun _ h => absurd h List.not_mem_nil, .inl rfl⟩
    · rcases hauth : st.conn.authenticate sv.crypto sv.hostStr now event relay with
        ⟨conn, err | ⟨⟩⟩ <;> simp only [hauth] <;>
      exact ⟨hplain _, .inr ⟨relay, hnip42, rfl, by rw [hauth]⟩⟩
  · exact ⟨hplain _, .inl rfl⟩

/-- A branch handles a REQ or a CLOSE, or it leaves the queries alone; then the connection
stays as it is or was asked to authenticate. -/
theorem onTurn_cases {now : Nat} {turn : Turn} (h : sv.onTurn st now turn = some (st', effects)) :
    (∃ s, sv.received turn = some (.subMsg s) ∧ sv.onReq st s = (st', effects)) ∨
    (∃ cc, sv.received turn = some (.closeMsg cc) ∧ st.onClose cc = (st', effects)) ∨
    ((∀ e ∈ effects, e.Plain) ∧
      (st' = st ∨ ∃ ec relay, sv.received turn = some (.eventMsg ec) ∧ ec.cmd = "AUTH" ∧
        sv.settings.nip42Auth = true ∧ sv.settings.relayUrl = some relay ∧
        st' = { st with
          conn := (st.conn.authenticate sv.crypto sv.hostStr now ec.event relay).1 })) := by
  have hone : ∀ f : Frame, some (st, [Effect.send f]) = some (st', effects) →
      (∀ e ∈ effects, e.Plain) ∧ st' = st := by
    intro f hf
    cases hf
    refine ⟨fun e he => ?_, rfl⟩
    rw [List.mem_singleton.mp he]
    trivial
  rcases turn with _ | quiet | n | r | e | m
  · cases h
  · rw [onTurn] at h
    split_ifs at h
    exact .inr (.inr ((hone _ h).imp_right .inl))
  · exact .inr (.inr ((hone _ h).imp_right .inl))
  · cases h
    refine .inr (.inr ⟨fun e he => ?_, .inl rfl⟩)
    rw [onQueryResult] at he
    split_ifs at he
    · rw [List.mem_singleton.mp he]
      trivial
    · rw [List.mem_singleton.mp he]
      trivial
    · cases he
  · cases h
    refine .inr (.inr ⟨fun eff he => ?_, .inl rfl⟩)
    obtain ⟨x, -, hx⟩ := List.mem_flatMap.mp he
    rw [deliver] at hx
    split_ifs at hx
    · rw [List.mem_singleton.mp hx]
      trivial
    · cases hx
  · cases m with
    | text len parsed =>
      rcases hc : convertToMsg len parsed sv.settings.maxEventBytes with (size | _) | m <;>
        simp only [onTurn, onWsNext, hc] at h
      · exact .inr (.inr ((hone _ h).imp_right .inl))
      · exact .inr (.inr ((hone _ h).imp_right .inl))
      · have hrec : sv.received (.wsNext (.text len parsed)) = some m := by
          simp only [received, hc]
        rcases m with ec | s | cc <;> simp only [onMessage, Option.some.injEq] at h
        · rcases hw : EventWrapper.from sv.crypto ec with (e | event) | err | _ <;>
            simp only [hw, Option.some.injEq, reduceCtorEq] at h
          · cases h
            exact .inr (.inr ⟨plain_onEvent, .inl rfl⟩)
          · obtain ⟨hcmd, rfl⟩ := EventWrapper.from_eq_wrappedAuth hw
            obtain ⟨hplain, hst⟩ := onAuth_cases sv st now ec.event.id ec.event
            rw [h] at hplain hst
            refine .inr (.inr ⟨hplain, hst.imp_right ?_⟩)
            rintro ⟨relay, hnip42, hrelay, heq⟩
            exact ⟨ec, relay, hrec, hcmd, hnip42, hrelay, heq⟩
          · exact .inr (.inr ((hone _ (congrArg some h)).imp_right .inl))
        · exact .inl ⟨s, hrec, h⟩
        · exact .inr (.inl ⟨cc, hrec, h⟩)
    | gone => cases h
    | pingPong =>
      cases h
      exact .inr (.inr ⟨fun _ h => absurd h List.not_mem_nil, .inl rfl⟩)
    | _ => exact .inr (.inr ((hone _ h).imp_right .inl))

/-! ### Answers to the client's messages carry no event -/

section Answers

variable {now : Nat} {subId text : String}

theorem event_notMem_onEvent {e : Event} :
    Effect.send (.event subId text) ∉ sv.onEvent st now e := by
  rw [onEvent]
  split_ifs with hexp htime
  · simp
  · rcases sv.admission.check e st.conn.authPubkey with _ | ⟨reason, auth⟩ <;> simp
  · rcases sv.settings.rejectFutureSeconds with _ | futSec <;> simp

theorem event_notMem_onAuth {evid : String} {event : Event} :
    Effect.send (.event subId text) ∉ (sv.onAuth st now evid event).2 := by
  rw [onAuth]
  split_ifs with hauth
  · rcases sv.settings.relayUrl with _ | relay
    · exact List.not_mem_nil
    · simp only
      rcases st.conn.authenticate sv.crypto sv.hostStr now event relay with ⟨conn, err | ⟨⟩⟩ <;> simp
  · simp

theorem event_notMem_onReq {s : Subscription} :
    Effect.send (.event subId text) ∉ (sv.onReq st s).2 := by
  by_cases hs : sv.Refuses st.conn s
  · intro hmem
    rcases (onReq_of_refuses st hs).2.2.2 _ hmem with h | ⟨msg, h⟩ <;> cases h
  · rw [onReq_of_accepts hs, List.mem_append, Option.mem_toList, Option.map_eq_some_iff]
    rintro (⟨q, -, hq⟩ | hq)
    · cases hq
    · split_ifs at hq <;> simp at hq

theorem event_notMem_onClose {cc : CloseCmd} :
    Effect.send (.event subId text) ∉ (st.onClose cc).2 := by
  rcases onClose_cases st cc with h | h
  · rw [h]
    simp
  · rw [h, Option.mem_toList, Option.map_eq_some_iff]
    rintro ⟨q, -, hq⟩
    cases hq

theorem event_notMem_onWsNext {m : WsNext} (h : sv.onWsNext st now m = some (st', effects)) :
    Effect.send (.event subId text) ∉ effects := by
  cases m with
  | text len parsed =>
    rcases hc : convertToMsg len parsed sv.settings.maxEventBytes with (size | _) | m <;>
      simp only [onWsNext, hc] at h
    · cases h
      simp
    · cases h
      simp
    · rcases m with ec | s | cc <;> simp only [onMessage, Option.some.injEq] at h
      · rcases hw : EventWrapper.from sv.crypto ec with (e | event) | err | _ <;>
          simp only [hw, Option.some.injEq, reduceCtorEq] at h
        · cases h
          exact event_notMem_onEvent
        · rw [← show _ = effects from congrArg Prod.snd h]
          exact event_notMem_onAuth
        · cases h
          simp
      · rw [← show _ = effects from congrArg Prod.snd h]
        exact event_notMem_onReq
      · rw [← show _ = effects from congrArg Prod.snd h]
        exact event_notMem_onClose
  | gone => cases h
  | _ =>
    cases h
    simp

end Answers

/-- The two ways an event goes out: as a row of a query, or live to a subscription that is
interested. Both pass the same gate. -/
theorem event_of_step {subId text : String}
    (h : Effect.send (.event subId text) ∈ (sv.step st i).2) :
    sv.allowedToSend text st.conn = true ∧
    ((∃ r, i.turn = .queryResult r ∧ subId = withoutQuotes r.subId ∧ text = r.event) ∨
      ∃ e s sub, i.turn = .broadcast e ∧ ⟨s, sub⟩ ∈ st.conn.subscriptions.entries ∧
        sub.interestedInEvent e = true ∧ subId = withoutQuotes s ∧ text = e.eventStr) := by
  obtain ⟨-, st', effects, hturn, hmem⟩ := send_of_step h
  rcases hi : i.turn with _ | quiet | n | r | e | m <;> rw [hi, onTurn] at hturn
  · cases hturn
  · split_ifs at hturn
    cases hturn
    simp at hmem
  · cases hturn
    simp at hmem
  · cases hturn
    rw [onQueryResult] at hmem
    split_ifs at hmem with heose hallow
    · simp at hmem
    · simp only [List.mem_singleton, Effect.send.injEq, Frame.event.injEq] at hmem
      obtain ⟨rfl, rfl⟩ := hmem
      exact ⟨hallow, .inl ⟨r, rfl, rfl, rfl⟩⟩
    · cases hmem
  · cases hturn
    obtain ⟨⟨s, sub⟩, hs, hmem⟩ := List.mem_flatMap.mp hmem
    rw [deliver] at hmem
    split_ifs at hmem with hd
    · simp only [List.mem_singleton, Effect.send.injEq, Frame.event.injEq] at hmem
      obtain ⟨rfl, rfl⟩ := hmem
      rw [Bool.and_eq_true] at hd
      exact ⟨hd.2, .inr ⟨e, s, sub, rfl, hs, hd.1, rfl, rfl⟩⟩
    · cases hmem
  · exact absurd hmem (event_notMem_onWsNext hturn)

/-! ### Submissions -/

/-- What is submitted passed the checks of the connection. -/
theorem submit_of_onEvent {now : Nat} {e : Event} {s : SubmittedEvent}
    (h : Effect.submit s ∈ sv.onEvent st now e) :
    s.event = e ∧ e.isExpired now = false ∧
      e.isValidTimestamp now sv.settings.rejectFutureSeconds = true ∧
      sv.admission.check e st.conn.authPubkey = .allow := by
  rw [onEvent] at h
  split_ifs at h with hexp htime
  · simp at h
  · rcases hc : sv.admission.check e st.conn.authPubkey with _ | ⟨reason, auth⟩ <;> rw [hc] at h
    · rw [List.mem_singleton, Effect.submit.injEq] at h
      exact ⟨by rw [h], by simpa using hexp, htime, rfl⟩
    · simp at h
  · rcases hs : sv.settings.rejectFutureSeconds with _ | futSec <;> rw [hs] at h <;> simp at h

theorem submit_notMem_onReq {s : Subscription} {ev : SubmittedEvent} :
    Effect.submit ev ∉ (sv.onReq st s).2 := by
  by_cases hs : sv.Refuses st.conn s
  · intro hmem
    rcases (onReq_of_refuses st hs).2.2.2 _ hmem with h | ⟨msg, h⟩ <;> cases h
  · rw [onReq_of_accepts hs, List.mem_append, Option.mem_toList, Option.map_eq_some_iff]
    rintro (⟨q, -, hq⟩ | hq)
    · cases hq
    · split_ifs at hq <;> simp at hq

theorem submit_notMem_onClose {cc : CloseCmd} {ev : SubmittedEvent} :
    Effect.submit ev ∉ (st.onClose cc).2 := by
  rcases onClose_cases st cc with h | h
  · rw [h]
    simp
  · rw [h, Option.mem_toList, Option.map_eq_some_iff]
    rintro ⟨q, -, hq⟩
    cases hq

theorem submit_notMem_onAuth {now : Nat} {evid : String} {event : Event} {ev : SubmittedEvent} :
    Effect.submit ev ∉ (sv.onAuth st now evid event).2 := by
  rw [onAuth]
  split_ifs with hauth
  · rcases sv.settings.relayUrl with _ | relay
    · exact List.not_mem_nil
    · simp only
      rcases st.conn.authenticate sv.crypto sv.hostStr now event relay with ⟨conn, err | ⟨⟩⟩ <;> simp
  · simp

/-- An event reaches the database writer only from an EVENT message that was parsed,
validated and admitted. -/
theorem submit_of_step {s : SubmittedEvent} (h : Effect.submit s ∈ (sv.step st i).2) :
    ∃ ec, sv.received i.turn = some (.eventMsg ec) ∧
      EventWrapper.from sv.crypto ec = .ok (.wrappedEvent s.event) ∧
      s.event.isExpired i.now = false ∧
      s.event.isValidTimestamp i.now sv.settings.rejectFutureSeconds = true ∧
      sv.admission.check s.event st.conn.authPubkey = .allow := by
  obtain ⟨-, st', effects, hturn, hmem⟩ := effect_of_step (fun _ hq => by cases hq) h
  have hrec : ∃ m, sv.received i.turn = some m := by
    rcases hi : i.turn with _ | quiet | n | r | e | m <;> rw [hi, onTurn] at hturn
    · cases hturn
    · split_ifs at hturn
      cases hturn
      simp at hmem
    · cases hturn
      simp at hmem
    · cases hturn
      rw [onQueryResult] at hmem
      split_ifs at hmem <;> simp at hmem
    · cases hturn
      obtain ⟨x, -, hx⟩ := List.mem_flatMap.mp hmem
      rw [deliver] at hx
      split_ifs at hx <;> simp at hx
    · cases m with
      | text len parsed =>
        rcases hc : convertToMsg len parsed sv.settings.maxEventBytes with (size | _) | m <;>
          simp only [onWsNext, hc] at hturn
        · cases hturn
          simp at hmem
        · cases hturn
          simp at hmem
        · exact ⟨m, by simp only [received, hc]⟩
      | gone => cases hturn
      | _ =>
        cases hturn
        simp at hmem
  obtain ⟨m, hm⟩ := hrec
  rw [onTurn_of_received hm] at hturn
  rcases m with ec | req | cc <;> simp only [onMessage, Option.some.injEq] at hturn
  · rcases hw : EventWrapper.from sv.crypto ec with (e | event) | err | _ <;>
      simp only [hw, Option.some.injEq, reduceCtorEq] at hturn
    · cases hturn
      obtain ⟨rfl, hexp, htime, hadm⟩ := submit_of_onEvent hmem
      exact ⟨ec, hm, hw, hexp, htime, hadm⟩
    · rw [← show _ = effects from congrArg Prod.snd hturn] at hmem
      exact absurd hmem submit_notMem_onAuth
    · cases hturn
      simp at hmem
  · rw [← show _ = effects from congrArg Prod.snd hturn] at hmem
    exact absurd hmem submit_notMem_onReq
  · rw [← show _ = effects from congrArg Prod.snd hturn] at hmem
    exact absurd hmem submit_notMem_onClose

end Step

end Server

end Floonet
