import Floonet.Recorded
import Floonet.Server.Connection

/-!
# Private messages reach only their parties

Direct messages and gift wraps go out through one gate, `allowedToSend`, on both delivery
paths. With `nip42_dms` the gate compares the authenticated pubkey of the connection with
the author and the first recipient of the event. The pubkey is the one of the NIP-42 state
machine: `Authenticated` traces it back to the AUTH message that was accepted on this
connection.
-/

namespace Floonet

open ClientConn (Answers)

variable {sv : Server} {st : Session}

/-! ## The gate

The gate looks at the authenticated key of the connection when an event is about to be sent, for
stored and live events alike. -/

/-- What the gate asks of a private event it lets through. -/
theorem allowedToSend_private (hdms : sv.settings.nip42Dms = true) {text : String} {e : Event}
    {conn : ClientConn} (hread : sv.fromStr text = some e) (hk : e.isPrivate = true)
    (h : sv.allowedToSend text conn = true) :
    ∃ pubkey, conn.authPubkey = some pubkey ∧
      (e.pubkey = pubkey ∨ (e.tagValuesByName "p").head? = some pubkey) := by
  simp only [Server.allowedToSend, hdms, hread, hk, if_true] at h
  rcases hauth : conn.authPubkey with _ | pubkey
  · simp [hauth] at h
  · rcases hp : (e.tagValuesByName "p").head? with _ | recipient
    · simp [hauth, hp] at h
    · simp only [hauth, hp, Bool.or_eq_true, beq_iff_eq] at h
      refine ⟨pubkey, rfl, ?_⟩
      rcases h with rfl | h
      · exact .inr rfl
      · exact .inl h

/-! ## Who the connection is authenticated as

By induction on the turns: the challenge is the one the connection started with, and the
authenticated key is that of an accepted AUTH event that answered it. -/

/-- In this sequence of turns an AUTH event signed by the pubkey was accepted. -/
def Authenticated (sv : Server) (uuid : String) (is : List Input) (pubkey : String) : Prop :=
  ∃ pre i post ec relay, is = pre ++ i :: post ∧ sv.received i.turn = some (.eventMsg ec) ∧
    ec.cmd = "AUTH" ∧ ec.event.pubkey = pubkey ∧
    Answers sv.crypto sv.hostStr uuid relay i.now ec.event ∧
    sv.settings.relayUrl = some relay ∧
    ((sv.run uuid pre).conn.authenticate sv.crypto sv.hostStr i.now ec.event relay).2 = .ok ()

theorem Authenticated.concat {uuid pubkey : String} {is : List Input}
    (h : Authenticated sv uuid is pubkey) (i : Input) :
    Authenticated sv uuid (is ++ [i]) pubkey := by
  obtain ⟨pre, j, post, ec, relay, rfl, h⟩ := h
  exact ⟨pre, j, post ++ [i], ec, relay, by simp, h⟩

/-- The challenge is the one the connection started with, and an authenticated pubkey
answered it. -/
structure AuthState (sv : Server) (uuid : String) (is : List Input) (st : Session) : Prop where
  challenge : ∀ sent, st.conn.auth = .challenge sent → sent = uuid
  pubkey : ∀ pubkey, st.conn.authPubkey = some pubkey → Authenticated sv uuid is pubkey

/-- What a turn does to the authentication of the connection. -/
theorem auth_step (sv : Server) (st : Session) (i : Input) :
    (sv.step st i).1.conn.auth = st.conn.auth ∨
    ∃ ec relay, sv.received i.turn = some (.eventMsg ec) ∧ ec.cmd = "AUTH" ∧
      sv.settings.relayUrl = some relay ∧ (sv.step st i).1.conn.auth =
        (st.conn.authenticate sv.crypto sv.hostStr i.now ec.event relay).1.auth := by
  rcases Server.step_cases sv st i with ⟨-, hs⟩ | ⟨-, -, hs⟩ | ⟨st', effects, -, hturn, hs⟩
  · exact .inl (by rw [hs])
  · exact .inl (by rw [hs]; rfl)
  · have heq : (sv.step st i).1.conn.auth = st'.conn.auth := by
      rcases hs with hs | ⟨sent, -, -, hs⟩ <;> rw [hs]
      rfl
    rw [heq]
    rcases Server.onTurn_cases hturn with ⟨s, -, hreq⟩ | ⟨cc, -, hcl⟩ | ⟨-, hst⟩
    · refine .inl ?_
      rw [← show _ = st' from congrArg Prod.fst hreq]
      by_cases href : sv.Refuses st.conn s
      · rw [(Server.onReq_of_refuses st href).1]
      · rw [Server.onReq_of_accepts href]
        exact ClientConn.auth_subscribe ..
    · refine .inl ?_
      rw [← show _ = st' from congrArg Prod.fst hcl]
      rcases Server.onClose_cases st cc with h | h <;> rw [h]
      rfl
    · rcases hst with rfl | ⟨ec, relay, hrec, hcmd, -, hrelay, rfl⟩
      · exact .inl rfl
      · exact .inr ⟨ec, relay, hrec, hcmd, hrelay, rfl⟩

theorem authState_run (sv : Server) (uuid : String) (is : List Input) :
    AuthState sv uuid is (sv.run uuid is) := by
  refine Machine.history (P := AuthState sv uuid) ⟨?_, ?_⟩ ?_ is
  · intro sent h
    rw [Server.start] at h
    split_ifs at h
    · exact (Nip42AuthState.challenge.inj h).symm
    · cases h
  · intro pubkey h
    rw [Server.start] at h
    split_ifs at h <;> cases h
  · intro pre i ih
    change AuthState sv uuid pre (sv.run uuid pre) at ih
    change AuthState sv uuid (pre ++ [i]) (sv.step (sv.run uuid pre) i).1
    have hkept : ∀ st : Session, st.conn.auth = (sv.run uuid pre).conn.auth →
        AuthState sv uuid (pre ++ [i]) st := by
      intro st hauth
      refine ⟨fun sent h => ih.challenge sent (hauth ▸ h), fun pubkey h => ?_⟩
      refine (ih.pubkey pubkey ?_).concat i
      rwa [ClientConn.authPubkey, hauth] at h
    rcases auth_step sv (sv.run uuid pre) i with h | ⟨ec, relay, hrec, hcmd, hrelay, h⟩
    · exact hkept _ h
    · rcases ClientConn.authenticate_cases sv.crypto sv.hostStr
          (sv.run uuid pre).conn i.now ec.event relay with hc | ⟨challenge, hauth, hans, hok⟩
      · exact hkept _ (by rw [h, hc])
      · obtain rfl := ih.challenge _ hauth
        rw [hok] at h
        refine ⟨fun sent hsent => ?_, fun pubkey hpk => ?_⟩
        · rw [h] at hsent
          cases hsent
        · rw [ClientConn.authPubkey, h] at hpk
          exact ⟨pre, i, [], ec, relay, rfl, hrec, hcmd, Option.some.inj hpk, hans, hrelay,
            by rw [hok]⟩

/-- **Private messages.** With `nip42_dms`, in any sequence of turns: an event of kind 4, 44
or 1059 goes out only while the connection is authenticated as its author or as its first
recipient, who signed an AUTH event that was accepted on this connection. The event is what
the text in the message reads back as. -/
theorem private_messages_gated (sv : Server) (uuid : String) (is : List Input) (i : Input)
    (subId text : String) (e : Event) (hdms : sv.settings.nip42Dms = true)
    (hsent : .send (.event subId text) ∈ (sv.step (sv.run uuid is) i).2)
    (hread : sv.fromStr text = some e.serialized)
    (hkind : e.kind = 4 ∨ e.kind = 44 ∨ e.kind = 1059) :
    ∃ pubkey, (sv.run uuid is).conn.authPubkey = some pubkey ∧
      (e.pubkey = pubkey ∨ (e.tagValuesByName "p").head? = some pubkey) ∧
      Authenticated sv uuid is pubkey := by
  have hk : e.serialized.isPrivate = true := by
    rw [Event.isPrivate, Bool.or_eq_true, Bool.or_eq_true, or_assoc]
    simpa [Event.serialized] using hkind
  obtain ⟨hallow, -⟩ := Server.event_of_step hsent
  obtain ⟨pubkey, hauth, hparty⟩ := allowedToSend_private hdms hread hk hallow
  exact ⟨pubkey, hauth, hparty, (authState_run sv uuid is).pubkey pubkey hauth⟩

/-! ## A recipient who authenticates -/

/-- The answer of a recipient to a challenge. -/
def sampleAuth : Recorded where
  id := 0xb0eff42ddb912fba2dbab944acdf170e8d64887432bfa5ea9cf763424352557a
  pubkey := 0xacd484e2f0c7f65309ad178a9f559abde09796974c57e714c35f110dfc27ccbe
  sigR := 0x7e2b67e9c0bf18ef9854275df1596acf1e3a482a886a5c8e3b9b8f69b79ff499
  sigS := 0x455ed2d04386f0d16f1120388e476e0304f877a9b0238b9b12c581298950af31
  createdAt := 1700000100
  kind := 22242
  tags :=
    [["relay", "wss://relay.floonet.example/"],
      ["challenge", "1f0c6a34-5a2e-4c8e-9b7d-2f6d0a1e8c55"]]
  content := ""

/-- A direct message to this recipient. -/
def sampleDirect : Recorded where
  id := 0x804593c8b97dc1d1e548fd3a2f2359391256e9d49b825b10a9b14ba5ea740391
  pubkey := 0x5cbdf0646e5db4eaa398f365f2ea7a0e3d419b7e0330e39ce92bddedcac4f9bc
  sigR := 0x6e9865b6e02fd38df1788a6d46a84587bd6e1453915431d9de449cfb97cd2e7a
  sigS := 0x12ff109cf8c44ffcb854ef292a2ffa5e3a0f6b039edc2ea14fa8be531f110bd4
  createdAt := 1700000090
  kind := 4
  tags := [["p", "acd484e2f0c7f65309ad178a9f559abde09796974c57e714c35f110dfc27ccbe"]]
  content := "c2VjcmV0?iv=bm9uY2U="

open Classical in
/-- The deserializer on the texts the serializer writes. -/
noncomputable def readBack (s : String) : Option Event :=
  if h : ∃ e : Event, e.eventStr = s then some h.choose.serialized else none

/-- An event reads back as it was serialized. -/
theorem readBack_eventStr (e : Event) : readBack e.eventStr = some e.serialized := by
  have h : ∃ f : Event, f.eventStr = e.eventStr := ⟨e, rfl⟩
  rw [readBack, dif_pos h, Event.serialized_of_eventStr h.choose_spec]

/-- A relay that gates private messages, with the library on recorded events. -/
noncomputable def sampleServer (rs : List Recorded) : Server where
  settings := { Settings.default with
    nip42Auth := true
    nip42Dms := true
    relayUrl := some "wss://relay.floonet.example/"
    rejectFutureSeconds := some 1800
    limitScrapers := false
    maxEventBytes := some 131072 }
  client := { remoteIp := "192.0.2.7", userAgent := none, origin := none }
  crypto := Recorded.crypto rs
  bech32 _ := none
  hostStr s := if s = "wss://relay.floonet.example/" then some "relay.floonet.example" else none
  fromStr := readBack
  fromStr_eventStr e _ _ := readBack_eventStr e

/-- The challenge of the sample connection. -/
def sampleChallenge : String := "1f0c6a34-5a2e-4c8e-9b7d-2f6d0a1e8c55"

/-- The AUTH message arrives. -/
def sampleAuthInput : Input where
  turn := .wsNext (.text 400 (some (.eventMsg { cmd := "AUTH", event := sampleAuth.event })))
  now := 1700000103

/-- A query returns the direct message. -/
def sampleDirectInput : Input where
  turn := .queryResult { subId := "dm", event := sampleDirect.event.eventStr }
  now := 1700000104

theorem sampleDirect_delivered :
    ∃ pubkey, ((sampleServer [sampleAuth]).run sampleChallenge
        [sampleAuthInput]).conn.authPubkey = some pubkey ∧
      (sampleDirect.event.pubkey = pubkey ∨
        (sampleDirect.event.tagValuesByName "p").head? = some pubkey) ∧
      Authenticated (sampleServer [sampleAuth]) sampleChallenge [sampleAuthInput] pubkey := by
  have hread := readBack_eventStr sampleDirect.event
  have hauth : ((sampleServer [sampleAuth]).run sampleChallenge
      [sampleAuthInput]).conn.authPubkey = some sampleAuth.event.pubkey := by
    decide +kernel
  have hallow : (sampleServer [sampleAuth]).allowedToSend sampleDirect.event.eventStr
      ((sampleServer [sampleAuth]).run sampleChallenge [sampleAuthInput]).conn = true := by
    rw [Server.allowedToSend, show (sampleServer [sampleAuth]).fromStr = readBack from rfl,
      hread, hauth]
    decide +kernel
  refine private_messages_gated _ _ _ sampleDirectInput "dm" sampleDirect.event.eventStr _ rfl
    ?_ hread (.inl rfl)
  have hsent : (sampleServer [sampleAuth]).onQueryResult
      ((sampleServer [sampleAuth]).run sampleChallenge [sampleAuthInput]).conn
      { subId := "dm", event := sampleDirect.event.eventStr } =
      [.send (.event "dm" sampleDirect.event.eventStr)] := by
    rw [Server.onQueryResult, if_neg (by decide +kernel), if_pos hallow]
    rfl
  have hturn : (sampleServer [sampleAuth]).onTurn
      ((sampleServer [sampleAuth]).run sampleChallenge [sampleAuthInput])
      sampleDirectInput.now sampleDirectInput.turn =
      some ((sampleServer [sampleAuth]).run sampleChallenge [sampleAuthInput],
        [.send (.event "dm" sampleDirect.event.eventStr)]) := by
    rw [← hsent]
    rfl
  rw [Server.step_of_onTurn (by decide +kernel) hturn rfl]
  exact List.mem_singleton_self _

end Floonet
