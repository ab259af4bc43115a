import Mathlib.Data.List.AList
import Floonet.Lib.Machine
import Floonet.Subscription

/-!
# Client connection state

`ClientConn` keeps the open subscriptions of one client and the state of its NIP-42
authentication. `subscribe` and `authenticate` change the connection in place and may
fail, so each returns the connection next to its result.

The challenge is sent once, when the connection starts. From there the state machine
has one move: a call of `authenticate` with an event that passes every check sets the
pubkey (`authenticate_cases`), and nothing changes it afterwards.
-/

namespace Floonet

/-- A subscription identifier has a maximum length. -/
def MAX_SUBSCRIPTION_ID_LEN : Nat := 256

/-- Why a call on the connection fails. -/
inductive ConnError where
  | subIdMaxLengthError
  | subMaxExceededError
  | authFailure
  deriving DecidableEq

/-- The text of the error. -/
def ConnError.text : ConnError → String
  | subIdMaxLengthError => "Subscription identifier max length exceeded"
  | subMaxExceededError => "Maximum concurrent subscription count reached"
  | authFailure => "Invalid AUTH message"

/-- NIP-42 authentication state. -/
inductive Nip42AuthState where
  /-- the client is not authenticated yet -/
  | noAuth
  /-- the AUTH challenge sent -/
  | challenge (sent : String)
  /-- the client is authenticated -/
  | authPubkey (pubkey : String)
  deriving DecidableEq

/-- State for a client connection. -/
structure ClientConn where
  /-- the current set of active client subscriptions -/
  subscriptions : AList fun _ : String => Subscription
  /-- per-connection maximum concurrent subscriptions -/
  maxSubs : Nat
  /-- NIP-42 AUTH -/
  auth : Nip42AuthState

/-- Subscription close request. -/
structure Close where
  /-- the subscription identifier being closed -/
  id : String

namespace ClientConn

/-- Create a new, empty connection state. -/
def new : ClientConn where
  subscriptions := ∅
  maxSubs := 32
  auth := .noAuth

/-- Check if the given subscription already exists. -/
def hasSubscription (conn : ClientConn) (sub : Subscription) : Bool :=
  conn.subscriptions.entries.any fun x => x.2 = sub

/-- The authenticated public key. -/
def authPubkey (conn : ClientConn) : Option String :=
  match conn.auth with
  | .authPubkey pubkey => some pubkey
  | _ => none

/-- The challenge that was sent and not answered yet. -/
def authChallenge (conn : ClientConn) : Option String :=
  match conn.auth with
  | .challenge sent => some sent
  | _ => none

/-- Add a new subscription for this connection. -/
def subscribe (conn : ClientConn) (s : Subscription) : ClientConn × Except ConnError Unit :=
  let k := s.getId
  let subIdLen := byteLen k
  if MAX_SUBSCRIPTION_ID_LEN < subIdLen then (conn, .error .subIdMaxLengthError)
  -- check if an existing subscription exists, and replace if so
  else if k ∈ conn.subscriptions then
    ({ conn with subscriptions := (conn.subscriptions.erase k).insert k s }, .ok ())
  else if conn.maxSubs ≤ conn.subscriptions.keys.length then (conn, .error .subMaxExceededError)
  else ({ conn with subscriptions := conn.subscriptions.insert k s }, .ok ())

/-- Remove the subscription for this connection. -/
def unsubscribe (conn : ClientConn) (c : Close) : ClientConn :=
  { conn with subscriptions := conn.subscriptions.erase c.id }

@[simp] theorem subscriptions_unsubscribe (conn : ClientConn) (c : Close) :
    (conn.unsubscribe c).subscriptions = conn.subscriptions.erase c.id := rfl

/-- Remember the challenge, a fresh UUID. -/
def generateAuthChallenge (conn : ClientConn) (uuid : String) : ClientConn :=
  { conn with auth := .challenge uuid }

/-! ## Authentication -/

/-- One turn of the loop over the tags, for the tag of one name: its value in a tag of two
elements overrides what was received before. -/
def readTag (name : String) (received : Option String) (tag : List String) : Option String :=
  if tag.length = 2 ∧ tag.head? = some name then tag[1]? else received

/-- The `challenge` and the `relay` that the loop over the tags ends with. -/
def authTags (event : Event) : Option String × Option String :=
  event.tags.foldl
    (fun received tag => (readTag "challenge" received.1 tag, readTag "relay" received.2 tag))
    (none, none)

/-- `curr_time - 600` on a `u64`. -/
def pastCutoff (currTime : Nat) : Nat :=
  if 600 ≤ currTime then currTime - 600 else 2 ^ 64 + currTime - 600

variable (crypto : Crypto) (hostStr : String → Option String)

/-- Answer to an AUTH message that arrives at `currTime`; `hostStr` is the host of a
URL. -/
def authenticate (conn : ClientConn) (currTime : Nat) (event : Event) (relayUrl : String) :
    ClientConn × Except ConnError Unit :=
  match conn.auth with
  -- already authenticated
  | .authPubkey _ => (conn, .ok ())
  -- unexpected AUTH request
  | .noAuth => (conn, .error .authFailure)
  | .challenge sentChallenge =>
    match event.validate crypto with
    | .error _ => (conn, .error .authFailure)
    | .ok () =>
      if event.kind ≠ 22242 then (conn, .error .authFailure)
      else if event.createdAt < pastCutoff currTime ∨ currTime + 600 < event.createdAt then
        (conn, .error .authFailure)
      else
        match (authTags event).1 with
        | none => (conn, .error .authFailure)
        | some receivedChallenge =>
          if receivedChallenge ≠ sentChallenge then (conn, .error .authFailure)
          else
            match (authTags event).2.bind hostStr, hostStr relayUrl with
            | some receivedRelay, some ourRelay =>
              if receivedRelay ≠ ourRelay then (conn, .error .authFailure)
              else ({ conn with auth := .authPubkey event.pubkey }, .ok ())
            | _, _ => (conn, .error .authFailure)

/-! ## The subscription map -/

theorem insert_erase (m : AList fun _ : String => Subscription) (k : String) (s : Subscription) :
    (m.erase k).insert k s = m.insert k s := by
  refine AList.ext ?_
  rw [AList.entries_insert, AList.entries_insert]
  exact congrArg _ (List.kerase_of_notMem_keys (List.notMem_keys_kerase k m.nodupKeys))

/-- A refused subscription leaves the connection as it was. -/
theorem subscribe_error {conn : ClientConn} {s : Subscription} {err : ConnError}
    (h : (conn.subscribe s).2 = .error err) : (conn.subscribe s).1 = conn := by
  rw [subscribe] at h ⊢
  split_ifs with hlen hmem hroom
  · rfl
  · rw [if_neg hlen, if_pos hmem] at h
    cases h
  · rfl
  · rw [if_neg hlen, if_neg hmem, if_neg hroom] at h
    cases h

/-- A subscription that is taken up has a short id, which is open already or finds room. -/
theorem subscribe_ok {conn : ClientConn} {s : Subscription}
    (h : ∀ err, (conn.subscribe s).2 ≠ .error err) :
    byteLen s.id ≤ MAX_SUBSCRIPTION_ID_LEN ∧
      (s.id ∈ conn.subscriptions ∨ conn.subscriptions.keys.length < conn.maxSubs) ∧
      conn.subscribe s = ({ conn with subscriptions := conn.subscriptions.insert s.id s }, .ok ()) := by
  rw [subscribe, Subscription.getId] at h ⊢
  split_ifs at h ⊢ with hlen hmem hroom
  · exact absurd rfl (h _)
  · refine ⟨not_lt.mp hlen, .inl hmem, ?_⟩
    rw [insert_erase]
  · exact absurd rfl (h _)
  · exact ⟨not_lt.mp hlen, .inr (not_le.mp hroom), rfl⟩

/-- A subscription has no bearing on the authentication. -/
theorem auth_subscribe (conn : ClientConn) (s : Subscription) :
    (conn.subscribe s).1.auth = conn.auth := by
  rw [subscribe]
  split_ifs <;> rfl

/-! ## The tags of an AUTH event -/

/-- The last two-element tag of this name carries this value. -/
def LastTag (tags : List (List String)) (name value : String) : Prop :=
  ∃ pre post, tags = pre ++ [name, value] :: post ∧ ∀ v, [name, v] ∉ post

section LastTag

variable {tags : List (List String)} {tag : List String} {name value : String}

/-- A tag of two elements and its name. -/
theorem twoElements_iff :
    (tag.length = 2 ∧ tag.head? = some name) ↔ ∃ v, tag = [name, v] := by
  match tag with
  | [] => simp
  | [_] => simp
  | [n, v] => simp [eq_comm]
  | _ :: _ :: _ :: _ => simp

/-- What the last tag of a list is, seen from its end. -/
theorem lastTag_concat_iff :
    LastTag (tags ++ [tag]) name value ↔
      tag = [name, value] ∨ (LastTag tags name value ∧ ∀ v, tag ≠ [name, v]) := by
  refine ⟨?_, ?_⟩
  · rintro ⟨pre, post, h, hpost⟩
    rcases List.eq_nil_or_concat post with rfl | ⟨post, t, rfl⟩
    · exact .inl (List.append_inj_right' h rfl |> List.cons.inj).1
    · rw [List.concat_eq_append, ← List.cons_append, ← List.append_assoc] at h
      obtain ⟨htags, ht⟩ := List.append_inj' h rfl
      obtain rfl := (List.cons.inj ht).1
      rw [List.concat_eq_append] at hpost
      refine .inr ⟨⟨pre, post, htags, fun v hv => ?_⟩, fun v hv => ?_⟩
      · exact hpost v (List.mem_append_left _ hv)
      · exact hpost v (hv ▸ List.mem_append_right _ (List.mem_singleton_self _))
  · rintro (rfl | ⟨⟨pre, post, rfl, hpost⟩, hne⟩)
    · exact ⟨tags, [], rfl, fun _ => List.not_mem_nil⟩
    · refine ⟨pre, post ++ [tag], by simp, fun v hv => ?_⟩
      rcases List.mem_append.mp hv with hv | hv
      · exact hpost v hv
      · exact hne v (List.mem_singleton.mp hv).symm

/-- The loop ends with the value of the last tag. -/
theorem foldl_readTag : tags.foldl (readTag name) none = some value ↔ LastTag tags name value := by
  induction tags using List.reverseRecOn with
  | nil =>
    simp only [List.foldl_nil, reduceCtorEq, false_iff]
    rintro ⟨pre, post, h, -⟩
    exact absurd h.symm (by simp)
  | append_singleton tags tag ih =>
    rw [List.foldl_append, List.foldl_cons, List.foldl_nil, readTag, lastTag_concat_iff]
    split_ifs with h
    · obtain ⟨v, rfl⟩ := twoElements_iff.mp h
      simp
    · have hne : ∀ v, tag ≠ [name, v] := fun v hv => h (twoElements_iff.mpr ⟨v, hv⟩)
      rw [ih]
      exact ⟨fun hl => .inr ⟨hl, hne⟩, fun hor => hor.elim (fun heq => absurd heq (hne _)) And.left⟩

end LastTag

/-- The two tags are read one by one, each by the last tag of its name. -/
theorem authTags_eq (event : Event) :
    authTags event = (event.tags.foldl (readTag "challenge") none,
      event.tags.foldl (readTag "relay") none) := by
  have hgen : ∀ (tags : List (List String)) (a b : Option String),
      tags.foldl (fun received tag =>
        (readTag "challenge" received.1 tag, readTag "relay" received.2 tag)) (a, b) =
        (tags.foldl (readTag "challenge") a, tags.foldl (readTag "relay") b) := by
    intro tags
    induction tags with
    | nil => exact fun _ _ => rfl
    | cons tag tags ih => exact fun a b => ih _ _
  exact hgen _ _ _

/-! ## What is accepted -/

variable {crypto hostStr}

/-- What an AUTH event has to bring for a challenge and a relay URL. -/
structure Answers (crypto : Crypto) (hostStr : String → Option String)
    (challenge relayUrl : String) (currTime : Nat) (event : Event) : Prop where
  validated : event.Validated crypto
  kind : event.kind = 22242
  recent : currTime ≤ event.createdAt + 600 ∧ event.createdAt ≤ currTime + 600
  challenge : LastTag event.tags "challenge" challenge
  relay : ∃ url host, LastTag event.tags "relay" url ∧ hostStr url = some host ∧
    hostStr relayUrl = some host

variable (crypto hostStr) in
/-- A call changes nothing, or it accepts the answer to the challenge. -/
theorem authenticate_cases (conn : ClientConn) (currTime : Nat) (event : Event)
    (relayUrl : String) :
    (authenticate crypto hostStr conn currTime event relayUrl).1 = conn ∨
    ∃ challenge, conn.auth = .challenge challenge ∧
      Answers crypto hostStr challenge relayUrl currTime event ∧
      authenticate crypto hostStr conn currTime event relayUrl =
        ({ conn with auth := .authPubkey event.pubkey }, .ok ()) := by
  rw [authenticate, authTags_eq]
  rcases hauth : conn.auth with _ | challenge | pubkey
  · exact .inl rfl
  · rcases hval : event.validate crypto with err | ⟨⟩
    · exact .inl rfl
    · simp only
      split_ifs with hkind htime
      · exact .inl rfl
      · exact .inl rfl
      · rcases hc : event.tags.foldl (readTag "challenge") none with _ | received
        · exact .inl rfl
        · simp only
          split_ifs with hne
          · exact .inl rfl
          · obtain rfl := not_not.mp hne
            rcases hr : (event.tags.foldl (readTag "relay") none).bind hostStr with _ | received'
            · exact .inl rfl
            · rcases ho : hostStr relayUrl with _ | ourRelay
              · exact .inl rfl
              · simp only
                split_ifs with hhost
                · exact .inl rfl
                · obtain rfl := not_not.mp hhost
                  obtain ⟨url, hurl, hhost⟩ := Option.bind_eq_some_iff.mp hr
                  refine .inr ⟨received, rfl, ⟨hval, not_not.mp hkind, ?_, foldl_readTag.mp hc,
                    url, received', foldl_readTag.mp hurl, hhost, ho⟩, rfl⟩
                  rw [pastCutoff] at htime
                  split_ifs at htime <;> omega
  · exact .inl rfl

variable (crypto hostStr) in
/-- Authentication has no part in the subscriptions. -/
theorem authenticate_subscriptions (conn : ClientConn) (currTime : Nat) (event : Event)
    (relayUrl : String) :
    (authenticate crypto hostStr conn currTime event relayUrl).1.subscriptions =
        conn.subscriptions ∧
      (authenticate crypto hostStr conn currTime event relayUrl).1.maxSubs = conn.maxSubs := by
  rcases authenticate_cases crypto hostStr conn currTime event relayUrl with hc | ⟨challenge, -, -, hok⟩
  · rw [hc]
    exact ⟨rfl, rfl⟩
  · rw [hok]
    exact ⟨rfl, rfl⟩

/-- An error leaves the connection as it was. -/
theorem authenticate_error {conn : ClientConn} {currTime : Nat} {event : Event}
    {relayUrl : String} {err : ConnError}
    (h : (authenticate crypto hostStr conn currTime event relayUrl).2 = .error err) :
    (authenticate crypto hostStr conn currTime event relayUrl).1 = conn := by
  rcases authenticate_cases crypto hostStr conn currTime event relayUrl with hc | ⟨challenge, -, -, hok⟩
  · exact hc
  · rw [hok] at h
    cases h

/-- An authenticated connection stays as it is. -/
theorem authenticate_of_authPubkey {conn : ClientConn} {pubkey : String}
    (h : conn.authPubkey = some pubkey) (currTime : Nat) (event : Event) (relayUrl : String) :
    (authenticate crypto hostStr conn currTime event relayUrl).1 = conn := by
  rcases authenticate_cases crypto hostStr conn currTime event relayUrl with hc | ⟨challenge, hauth, -⟩
  · exact hc
  · rw [authPubkey, hauth] at h
    cases h

/-- The answer to the challenge is accepted. -/
theorem authenticate_of_answers {conn : ClientConn} {challenge relayUrl : String}
    {currTime : Nat} {event : Event} (hauth : conn.auth = .challenge challenge)
    (hclock : 600 ≤ currTime) (h : Answers crypto hostStr challenge relayUrl currTime event) :
    authenticate crypto hostStr conn currTime event relayUrl =
      ({ conn with auth := .authPubkey event.pubkey }, .ok ()) := by
  obtain ⟨hval, hkind, hrecent, hchallenge, url, host, hurl, hhost, hours⟩ := h
  have htime : ¬ (event.createdAt < pastCutoff currTime ∨ currTime + 600 < event.createdAt) := by
    rw [pastCutoff, if_pos hclock]
    omega
  rw [Event.Validated] at hval
  rw [authenticate, hauth, authTags_eq, foldl_readTag.mpr hchallenge, foldl_readTag.mpr hurl]
  simp only [hval, hkind, htime, Option.bind_some, hhost, hours, ne_eq, not_true_eq_false,
    if_false]

/-! ## Sequences of calls -/

/-- One AUTH message and the clock when it arrives. -/
structure AuthCall where
  currTime : Nat
  event : Event

variable (crypto hostStr) in
/-- A call of `authenticate`. -/
def AuthCall.answer (relayUrl : String) (conn : ClientConn) (call : AuthCall) :
    ClientConn × Except ConnError Unit :=
  authenticate crypto hostStr conn call.currTime call.event relayUrl

variable (crypto hostStr) in
/-- The connection after its challenge was generated and a sequence of calls was made. -/
def authRun (relayUrl challenge : String) (calls : List AuthCall) : ClientConn :=
  Machine.run (fun conn call => (call.answer crypto hostStr relayUrl conn).1)
    (new.generateAuthChallenge challenge) calls

/-- Where the authentication can be: the challenge is unanswered, or a call answered it. -/
def Answered (crypto : Crypto) (hostStr : String → Option String) (relayUrl challenge : String)
    (calls : List AuthCall) (auth : Nip42AuthState) : Prop :=
  auth = .challenge challenge ∨ ∃ call ∈ calls, auth = .authPubkey call.event.pubkey ∧
    Answers crypto hostStr challenge relayUrl call.currTime call.event

/-- Over any calls, an authenticated key has answered a challenge of this connection. -/
theorem authRun_answered (relayUrl challenge : String) (calls : List AuthCall) :
    Answered crypto hostStr relayUrl challenge calls
      (authRun crypto hostStr relayUrl challenge calls).auth := by
  refine Machine.history (P := fun calls conn =>
    Answered crypto hostStr relayUrl challenge calls (auth conn)) (.inl rfl) ?_ calls
  intro pre call ih
  generalize Machine.run _ _ pre = conn at ih ⊢
  have hmono : Answered crypto hostStr relayUrl challenge (pre ++ [call]) conn.auth := by
    rcases ih with h | ⟨c, hc, h⟩
    · exact .inl h
    · exact .inr ⟨c, List.mem_append_left _ hc, h⟩
  rcases authenticate_cases crypto hostStr conn call.currTime call.event relayUrl with
    hsame | ⟨challenge', hauth, hans, hok⟩
  · rw [AuthCall.answer, hsame]
    exact hmono
  · -- an accepted call answered the challenge that is still pending
    rcases ih with h | ⟨c, -, h, -⟩
    · obtain rfl : challenge' = challenge := by
        rw [hauth] at h
        exact Nip42AuthState.challenge.inj h
      rw [AuthCall.answer, hok]
      exact .inr ⟨call, List.mem_append_right _ (List.mem_singleton_self _), rfl, hans⟩
    · rw [hauth] at h
      cases h

/-- Once authenticated, a connection stays so, with the same key. -/
theorem authPubkey_later {relayUrl challenge pubkey : String} {calls : List AuthCall}
    (h : (authRun crypto hostStr relayUrl challenge calls).authPubkey = some pubkey)
    (later : List AuthCall) :
    (authRun crypto hostStr relayUrl challenge (calls ++ later)).authPubkey = some pubkey := by
  rw [authRun, Machine.run_append]
  refine Machine.invariant (P := fun conn => authPubkey conn = some pubkey) ?_ h
  intro conn call _ hconn
  rw [AuthCall.answer, authenticate_of_authPubkey hconn]
  exact hconn

/-- **NIP-42.** Over any sequence of AUTH messages on a connection with one challenge: the
pubkey that is set signed an event that answers the challenge, it never changes, and a
failed call changes nothing. -/
theorem nip42_authentication (crypto : Crypto) (hostStr : String → Option String)
    (relayUrl challenge : String) (calls : List AuthCall) :
    (∀ pubkey, (authRun crypto hostStr relayUrl challenge calls).authPubkey = some pubkey →
      ∃ call ∈ calls, call.event.pubkey = pubkey ∧
        Answers crypto hostStr challenge relayUrl call.currTime call.event) ∧
    (∀ pubkey later, (authRun crypto hostStr relayUrl challenge calls).authPubkey = some pubkey →
      (authRun crypto hostStr relayUrl challenge (calls ++ later)).authPubkey = some pubkey) ∧
    ∀ (call : AuthCall) err,
      (call.answer crypto hostStr relayUrl
        (authRun crypto hostStr relayUrl challenge calls)).2 = .error err →
      (call.answer crypto hostStr relayUrl
        (authRun crypto hostStr relayUrl challenge calls)).1.auth =
          (authRun crypto hostStr relayUrl challenge calls).auth := by
  refine ⟨?_, ?_, ?_⟩
  · intro pubkey h
    rcases authRun_answered relayUrl challenge calls with hauth | ⟨call, hc, hauth, hans⟩
    · rw [authPubkey, hauth] at h
      cases h
    · rw [authPubkey, hauth, Option.some.injEq] at h
      exact ⟨call, hc, h, hans⟩
  · exact fun pubkey later h => authPubkey_later h later
  · intro call err h
    rw [AuthCall.answer, authenticate_error h]

end ClientConn

end Floonet
