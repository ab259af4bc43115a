import Floonet.Writer.Pipeline
import Floonet.Sqlite.GiftWrap
import Floonet.Payment.InvoicePage
import Floonet.Server.PrivateMessages
import Floonet.Writer.Answers
import Floonet.Writer.Verification

/-!
# Tag conditions and the producers of broadcast events

A live event is matched by its tag index alone, and the index is built on demand. The
producers of broadcast events are the database writer and the verifier, whose events came
through a connection, and the payment module, whose direct messages are made by the nostr
library and converted. Over all producers a tag condition sees what a scan of the tags sees,
but for the events of the payment module that have a tag to be seen.
-/

namespace Floonet

open NameAuthority (Keys)

/-! ## The scan of the tags

The live match looks into the tag index, the stored tags are a list. For an event whose index was
built from its tags the two agree; without an index nothing is found. -/

/-- A tag of this name with this second element. -/
def Event.Tagged (e : Event) (c : Char) (v : String) : Prop :=
  ∃ rest, (String.singleton c :: v :: rest) ∈ e.tags

/-- What a condition asks of the tags of its name. -/
def Event.Meets (e : Event) (c : Char) : TagOperand → Prop
  | .and vs => (∃ v, e.Tagged c v) ∧ ∀ v ∈ vs, e.Tagged c v
  | .or vs => ∃ v ∈ vs, e.Tagged c v

/-- Every tag condition is met by the tags themselves. -/
def ReqFilter.TagScan (f : ReqFilter) (e : Event) : Prop :=
  ∀ map, f.tags = some map → ∀ key val, map.lookup key = some val → e.Meets key val

/-- The one condition of a map with one entry. -/
theorem eq_of_lookup_singleton {c key : Char} {op val : TagOperand}
    (h : (Finmap.singleton c op : Finmap fun _ : Char => TagOperand).lookup key = some val) :
    key = c ∧ val = op := by
  obtain rfl : key = c := (Finmap.mem_singleton _ _ _).mp (Finmap.mem_of_lookup_eq_some h)
  rw [Finmap.lookup_singleton_eq] at h
  exact ⟨rfl, (Option.some.inj h).symm⟩

namespace Event

variable {e : Event} {c : Char} {v : String}

/-- The tags that are searched are those of one character. -/
theorem mem_searchableTags_iff : (String.singleton c, v) ∈ e.searchableTags ↔ e.Tagged c v := by
  rw [searchableTags, List.mem_filterMap]
  refine ⟨?_, ?_⟩
  · rintro ⟨t, ht, heq⟩
    rcases t with _ | ⟨name, _ | ⟨value, rest⟩⟩
    · cases heq
    · cases heq
    · rw [searchable] at heq
      split_ifs at heq
      cases heq
      exact ⟨rest, ht⟩
  · rintro ⟨rest, ht⟩
    refine ⟨_, ht, ?_⟩
    have hchar : singleCharTagname (String.singleton c) = some c :=
      singleCharTagname_eq_some.mpr (by simp)
    rw [searchable, hchar]
    rfl

/-- With its index an event is matched as its tags are. -/
theorem Indexed.intersect_iff_meets (h : e.Indexed) (op : TagOperand) :
    e.genericTagValIntersect c op = true ↔ e.Meets c op := by
  rw [h.genericTagValIntersect]
  rcases op with vs | vs <;> simp only [Meets, mem_searchableTags_iff]

theorem Indexed.tagMatch_iff (h : e.Indexed) (f : ReqFilter) :
    f.tagMatch e = true ↔ f.TagScan e := by
  simp only [ReqFilter.tagMatch_iff, ReqFilter.TagScan, h.intersect_iff_meets]

/-- Without an index no condition is met. -/
theorem intersect_of_tagidx_none (h : e.tagidx = none) (op : TagOperand) :
    e.genericTagValIntersect c op = false := by
  rw [genericTagValIntersect, h]

/-- An event without index is matched as its tags are if there is no tag to be seen. -/
theorem tagMatch_iff_tagScan_of_tagidx_none (h : e.tagidx = none) :
    (∀ f : ReqFilter, f.tagMatch e = true ↔ f.TagScan e) ↔ ∀ c v, ¬ e.Tagged c v := by
  refine ⟨fun hall c v htag => ?_, fun hnone f => ?_⟩
  · -- the filter that asks for just this tag
    let f : ReqFilter := { ReqFilter.initial with tags := some (Finmap.singleton c (.or {v})) }
    have hscan : f.TagScan e := by
      rintro map hmap key val hval
      cases hmap
      obtain ⟨rfl, rfl⟩ := eq_of_lookup_singleton hval
      exact ⟨v, Finset.mem_singleton_self v, htag⟩
    have hmatch := ReqFilter.tagMatch_iff.mp ((hall f).mpr hscan) _ rfl c (.or {v})
      Finmap.lookup_singleton_eq
    rw [intersect_of_tagidx_none h] at hmatch
    cases hmatch
  · have hmeets : ∀ c op, ¬ e.Meets c op := by
      rintro c (vs | vs)
      · rintro ⟨⟨v, hv⟩, -⟩
        exact hnone c v hv
      · rintro ⟨v, -, hv⟩
        exact hnone c v hv
    simp only [ReqFilter.tagMatch_iff, ReqFilter.TagScan, intersect_of_tagidx_none h, hmeets,
      Bool.false_eq_true]

/-- The author of the delegation is no part of the index. -/
theorem Indexed.delegatedBy (h : e.Indexed) (d : Option String) :
    ({ e with delegatedBy := d } : Event).Indexed := by
  rw [Indexed] at h ⊢
  refine h.trans ?_
  rw [buildIndex, buildIndex]
  by_cases ht : e.tags.isEmpty = true
  · rw [if_pos ht, if_pos ht]
  · rw [if_neg ht, if_neg ht]

end Event

/-- A converted event has its index, when the deserializer left it none. -/
theorem EventWrapper.indexed {crypto : Crypto} {ec : EventCmd} {e : Event} (hec : ec.Deserialized)
    (h : EventWrapper.from crypto ec = .ok (.wrappedEvent e)) : e.Indexed := by
  obtain ⟨-, d, -, rfl⟩ := EventWrapper.from_eq_wrappedEvent h
  exact (Event.indexed_buildIndex hec.2).delegatedBy d

/-! ## The direct messages of the payment module

The payment module converts the events of the library itself and publishes them without the
writer, so nobody builds their index. -/

/-- An event of the nostr library, its fields as texts. -/
structure NostrEvent where
  id : String
  pubkey : String
  createdAt : Nat
  kind : Nat
  tags : List (List String)
  content : String
  sig : String

/-- `From<nostr::Event>` -/
def Event.ofNostr (nostrEvent : NostrEvent) : Event where
  id := nostrEvent.id
  pubkey := nostrEvent.pubkey
  delegatedBy := none
  createdAt := nostrEvent.createdAt
  kind := nostrEvent.kind
  tags := nostrEvent.tags
  content := nostrEvent.content
  sig := nostrEvent.sig
  tagidx := none

namespace Payment

/-- What the payment module makes its messages with. -/
structure Messenger where
  /-- the keys of the relay, when a secret key is configured -/
  nostrKeys : Option String
  keys : Keys
  /-- `EventBuilder::new_encrypted_direct_msg` and `to_event`, from the keys to a receiver; the
  number stands for the clock and the random vector -/
  newEncryptedDirectMsg : String → String → String → Nat → Option NostrEvent
  termsMessage : String

/-- What one call meets outside. -/
structure MessageRound where
  messageNonce : Nat
  invoiceNonce : Nat
  /-- `write_event` of the one and of the other succeeds -/
  messageWritten : Bool
  invoiceWritten : Bool

/-- What the payment module does with a message. -/
inductive MessageEffect where
  | writeEvent (e : Event)
  | broadcast (e : Event)

/-- Sends Nostr DM to pubkey that requested invoice: two events, the terms followed by the
bolt11 invoice. -/
def Messenger.sendAdmissionMessage (ms : Messenger) (pubkey : String) (info : InvoiceInfo)
    (r : MessageRound) : List MessageEffect × Bool :=
  let events := do
    let nostrKeys ← ms.nostrKeys
    let key ← ms.keys.fromPkStr pubkey
    let messageEvent ← ms.newEncryptedDirectMsg nostrKeys key ms.termsMessage r.messageNonce
    let invoiceEvent ← ms.newEncryptedDirectMsg nostrKeys key info.bolt11 r.invoiceNonce
    pure (Event.ofNostr messageEvent, Event.ofNostr invoiceEvent)
  match events with
  | none => ([], false)
  | some (message, invoice) =>
    if !r.messageWritten then ([.writeEvent message], false)
    else if !r.invoiceWritten then ([.writeEvent message, .writeEvent invoice], false)
    else ([.writeEvent message, .writeEvent invoice, .broadcast message, .broadcast invoice], true)

/-- With the library and the database at its side both messages are sent. -/
theorem sendAdmissionMessage_of_written {ms : Messenger} {pubkey : String} {info : InvoiceInfo}
    {r : MessageRound} {nostrKeys key : String} {m i : NostrEvent}
    (hkeys : ms.nostrKeys = some nostrKeys) (hkey : ms.keys.fromPkStr pubkey = some key)
    (hterms : ms.newEncryptedDirectMsg nostrKeys key ms.termsMessage r.messageNonce = some m)
    (hbolt : ms.newEncryptedDirectMsg nostrKeys key info.bolt11 r.invoiceNonce = some i)
    (hm : r.messageWritten = true) (hi : r.invoiceWritten = true) :
    ms.sendAdmissionMessage pubkey info r =
      ([.writeEvent (.ofNostr m), .writeEvent (.ofNostr i), .broadcast (.ofNostr m),
        .broadcast (.ofNostr i)], true) := by
  rw [Messenger.sendAdmissionMessage]
  simp [hkeys, hkey, hterms, hbolt, hm, hi]

/-- A message that is broadcast was converted from an event of the library. -/
theorem ofNostr_of_broadcast {ms : Messenger} {pubkey : String} {info : InvoiceInfo}
    {r : MessageRound} {e : Event} (h : .broadcast e ∈ (ms.sendAdmissionMessage pubkey info r).1) :
    ∃ n, e = Event.ofNostr n := by
  rw [Messenger.sendAdmissionMessage] at h
  rcases hkeys : ms.nostrKeys with _ | nostrKeys
  · simp [hkeys] at h
  rcases hkey : ms.keys.fromPkStr pubkey with _ | key
  · simp [hkeys, hkey] at h
  rcases hterms : ms.newEncryptedDirectMsg nostrKeys key ms.termsMessage r.messageNonce with _ | m
  · simp [hkeys, hkey, hterms] at h
  rcases hbolt : ms.newEncryptedDirectMsg nostrKeys key info.bolt11 r.invoiceNonce with _ | i
  · simp [hkeys, hkey, hterms, hbolt] at h
  simp only [hkeys, hkey, hterms, hbolt, Option.bind_eq_bind, Option.bind_some,
    Option.pure_def] at h
  -- only when both are written are they sent
  split_ifs at h
  · simp at h
  · simp at h
  · rcases List.mem_cons.mp h with h | h
    · cases h
    rcases List.mem_cons.mp h with h | h
    · cases h
    rcases List.mem_cons.mp h with h | h
    · cases h
      exact ⟨m, rfl⟩
    · cases List.mem_singleton.mp h
      exact ⟨i, rfl⟩

/-! ## All producers

Every event on the channel comes from the relay, where the connection has built its index, or from
the payment module, where nobody has. -/

/-- The relay with its payment module. -/
structure Producers where
  pipeline : Pipeline
  messenger : Messenger

/-- An event on the broadcast channel. -/
inductive Sent where
  /-- from the writer or the verifier -/
  | relay (e : Event)
  /-- from the payment module -/
  | message (e : Event)

/-- The event on the channel. -/
def Sent.event : Sent → Event
  | .relay e => e
  | .message e => e

/-- It comes from the payment module. -/
def Sent.isMessage : Sent → Bool
  | .relay _ => false
  | .message _ => true

namespace Producers

/-- A step of the relay, or a message to an applicant. -/
inductive Action where
  | relay (a : Pipeline.Action)
  | message (pubkey : String) (info : InvoiceInfo) (r : MessageRound)

variable (pr : Producers)

/-- The events on the channel after a step of the relay. -/
def relaySent (outlets : List Pipeline.Outlet) : List Sent :=
  outlets.filterMap fun
    | .broadcast e => some (.relay e)
    | .written _ => none

/-- The events on the channel after a call of the payment module. -/
def messageSent (effects : List MessageEffect) : List Sent :=
  effects.filterMap fun
    | .broadcast e => some (.message e)
    | .writeEvent _ => none

/-- One step of one task; the payment module keeps no state of the others. -/
def step (st : Pipeline.State) : Action → Pipeline.State × List Sent
  | .relay a => ((pr.pipeline.step st a).1, relaySent (pr.pipeline.step st a).2)
  | .message pubkey info r => (st, messageSent (pr.messenger.sendAdmissionMessage pubkey info r).1)

/-- The relay after its steps. -/
def run (acts : List Action) : Pipeline.State :=
  Machine.run (fun st a => (pr.step st a).1) pr.pipeline.start acts

/-- The steps of the relay. -/
def relayActions (acts : List Action) : List Pipeline.Action :=
  acts.filterMap fun
    | .relay a => some a
    | .message _ _ _ => none

/-- What arrives on a socket was read by the deserializer, which skips the index. -/
def Wire (acts : List Action) : Prop :=
  ∀ i input len ec, .relay (.turn i input) ∈ acts →
    input.turn = .wsNext (.text len (some (.eventMsg ec))) → ec.Deserialized

variable {pr} {acts : List Action}

/-- The steps of the relay among all steps. -/
theorem mem_relayActions {a : Pipeline.Action} : a ∈ relayActions acts ↔ .relay a ∈ acts := by
  rw [relayActions, List.mem_filterMap]
  refine ⟨?_, fun h => ⟨_, h, rfl⟩⟩
  rintro ⟨x, hx, heq⟩
  cases x <;> cases heq
  exact hx

/-- The payment module leaves the relay as it is. -/
theorem run_eq (pr : Producers) (acts : List Action) :
    pr.run acts = pr.pipeline.run (relayActions acts) := by
  refine Machine.history (P := fun acts st => st = pr.pipeline.run (relayActions acts)) rfl
    (fun acts a h => ?_) acts
  change Machine.run _ pr.pipeline.start acts = _ at h
  change (pr.step (Machine.run _ pr.pipeline.start acts) a).1 = _
  rw [h]
  cases a with
  | relay a =>
    have happend : relayActions (acts ++ [.relay a]) = relayActions acts ++ [a] := by
      simp [relayActions]
    rw [happend, Pipeline.run, Pipeline.run, Machine.run_concat]
    rfl
  | message pubkey info r =>
    have happend : relayActions (acts ++ [.message pubkey info r]) = relayActions acts := by
      simp [relayActions]
    rw [happend]
    rfl

/-- A message that is let through is the one that was parsed. -/
theorem msg_of_convertToMsg {len : Nat} {parsed : Option NostrMessage} {maxBytes : Option Nat}
    {m : NostrMessage} (h : convertToMsg len parsed maxBytes = .ok m) : parsed = some m := by
  unfold convertToMsg at h
  split at h <;> try split_ifs at h
  all_goals cases h
  all_goals rfl

theorem wsNext_of_received {sv : Server} {turn : Turn} {ec : EventCmd}
    (h : sv.received turn = some (.eventMsg ec)) :
    ∃ len, turn = .wsNext (.text len (some (.eventMsg ec))) := by
  unfold Server.received at h
  split at h
  · rename_i len parsed
    refine ⟨len, ?_⟩
    rcases hc : convertToMsg len parsed sv.settings.maxEventBytes with err | m <;>
      simp only [hc, reduceCtorEq, Option.some.injEq] at h
    subst h
    rw [msg_of_convertToMsg hc]
  · cases h

/-- What the relay broadcasts came through a connection, and has its index. -/
theorem indexed_of_relay (hwire : Wire acts) {a : Pipeline.Action} {e : Event}
    (h : .relay e ∈ (pr.step (pr.run acts) (.relay a)).2) : e.Indexed := by
  obtain ⟨o, ho, heq⟩ := List.mem_filterMap.mp h
  rw [run_eq] at ho
  obtain ⟨pre, i, input, post, c, ec, hacts, -, hrec, hwrap, -⟩ := Pipeline.vetted_of_step ho
  obtain ⟨len, hturn⟩ := wsNext_of_received hrec
  have hmem : .relay (.turn i input) ∈ acts := mem_relayActions.mp (by rw [hacts]; simp)
  have hev : o.event = e := by
    cases o <;> cases heq
    rfl
  rw [← hev]
  exact EventWrapper.indexed (hwire i input len ec hmem hturn) hwrap

/-- A message has no index. -/
theorem tagidx_of_message {a : Action} {e : Event}
    (h : .message e ∈ (pr.step (pr.run acts) a).2) : e.tagidx = none := by
  cases a with
  | relay a =>
    obtain ⟨o, -, heq⟩ := List.mem_filterMap.mp h
    cases o <;> cases heq
  | message pubkey info r =>
    obtain ⟨x, hx, heq⟩ := List.mem_filterMap.mp h
    cases x <;> cases heq
    obtain ⟨n, rfl⟩ := ofNostr_of_broadcast hx
    rfl

/-- **Tag subscriptions and broadcast events.** In every run of the producers, an event on the
channel is matched by all tag conditions as a scan of its tags would match it, if and only if
it is not from the payment module or has no tag to be seen. -/
theorem tagMatch_iff_tagScan (pr : Producers) (acts : List Action) (a : Action) (s : Sent)
    (hwire : Wire acts) (hs : s ∈ (pr.step (pr.run acts) a).2) :
    (∀ f : ReqFilter, f.tagMatch s.event = true ↔ f.TagScan s.event) ↔
      s.isMessage = false ∨ ∀ c v, ¬ s.event.Tagged c v := by
  cases s with
  | relay e =>
    have hindexed : e.Indexed := by
      cases a with
      | relay a => exact indexed_of_relay hwire hs
      | message pubkey info r =>
        obtain ⟨x, -, heq⟩ := List.mem_filterMap.mp hs
        cases x <;> cases heq
    exact iff_of_true hindexed.tagMatch_iff (.inl rfl)
  | message e =>
    have hscan := Event.tagMatch_iff_tagScan_of_tagidx_none (tagidx_of_message hs)
    exact hscan.trans ⟨.inr, fun h => h.resolve_left (by simp [Sent.isMessage])⟩

/-! ## A message the applicant does not see -/

open Page (samplePage)
open Sqlite (sampleWrap)

/-- The terms of service for the applicant of the sample page. -/
def sampleTerms : NostrEvent where
  id := "f416288a6dff9cfaa59d10fa9cb3e5b5a54fb246f7899c1e1bfb14c73055e87c"
  pubkey := "774ae7f858a9411e5ef4246b70c65aac5649980be5c17891bbec17895da008cb"
  createdAt := 1700000130
  kind := 4
  tags := [["p", samplePage.pubkey]]
  content := "3q2+7w3q2+7wAAAAAAAAAA==?iv=AAECAwQFBgcICQoLDA0ODw=="
  sig :=
    "7b321624a7ef45e587e395efdbbcf6449eba61e4aa73f52bf6dfc72bc5711689" ++
      "e859a6ee3a4001e08c85f1fd4a2a5782b65f80d2b3d597350af5c260121a9db6"

/-- The invoice. -/
def sampleInvoice : NostrEvent where
  id := "ad8cd13a3dfdb17dd5bfedca5e3955fddcb1bb658c2823c3567702305c86c102"
  pubkey := "774ae7f858a9411e5ef4246b70c65aac5649980be5c17891bbec17895da008cb"
  createdAt := 1700000130
  kind := 4
  tags := [["p", samplePage.pubkey]]
  content := "yv66vsr+ur4BAQEBAQEBAQ==?iv=EBESExQVFhcYGRobHB0eHw=="
  sig :=
    "9c3501223403bcb272aba02c09fd8c317caca2a99a03069e04d5ba8e367b3728" ++
      "352dceb1c9da049c2418bf679ed9f9365ba21e51641780eef5d0a42cbcdd9608"

/-- A relay that is paid and writes to its applicants. -/
noncomputable def sampleProducers : Producers where
  pipeline :=
    { server := { sampleServer [sampleWrap] with
        settings := { (sampleServer []).settings with payToRelayEnabled := true } }
      writer := { DbWriter.verifiedOnly with
        settings := { DbWriter.verifiedOnly.settings with
          toSettings := { (sampleServer []).settings with payToRelayEnabled := true }
          verifiedUsers := { DbWriter.verifiedOnly.settings.verifiedUsers with mode := .disabled }
          signUps := true
          directMessage := true } }
      reader := Verification.sampleReader
      same := rfl }
  messenger :=
    { nostrKeys := some "000000000000000000000000000000000000000000000000000000000000000b"
      keys := NameAuthority.sampleKeys
      newEncryptedDirectMsg := fun _ _ content _ =>
        some (if content = "The terms." then sampleTerms else sampleInvoice)
      termsMessage := "The terms." }

/-- The payment module writes to the applicant. -/
def sampleMessage : Action :=
  .message samplePage.pubkey
    ⟨samplePage.pubkey, "inv-1", "https://pay.example/inv-1", 1000, .unpaid, "admission"⟩
    ⟨1, 2, true, true⟩

/-- The applicant asks for what is addressed to it. -/
def sampleAddressed : ReqFilter :=
  { ReqFilter.initial with tags := some (Finmap.singleton 'p' (.or {samplePage.pubkey})) }

theorem sampleMessage_sent :
    .message (Event.ofNostr sampleTerms) ∈
      (sampleProducers.step (sampleProducers.run []) sampleMessage).2 := by
  have hkey : NameAuthority.sampleKeys.fromPkStr samplePage.pubkey = some samplePage.pubkey := by
    rw [show NameAuthority.sampleKeys.fromPkStr samplePage.pubkey =
      if NameAuthority.validPubkeyHex samplePage.pubkey then some samplePage.pubkey else none
      from rfl, if_pos (by decide +kernel)]
  refine List.mem_filterMap.mpr ⟨.broadcast (Event.ofNostr sampleTerms), ?_, rfl⟩
  rw [sendAdmissionMessage_of_written rfl hkey rfl rfl rfl rfl]
  exact List.mem_cons_of_mem _ (List.mem_cons_of_mem _ (List.mem_cons_self ..))

theorem sampleTerms_tagged : (Event.ofNostr sampleTerms).Tagged 'p' samplePage.pubkey :=
  ⟨[], List.mem_singleton_self _⟩

/-- Of the message to the applicant the filter of the applicant sees nothing. -/
theorem sampleMessage_unseen :
    .message (Event.ofNostr sampleTerms) ∈
        (sampleProducers.step (sampleProducers.run []) sampleMessage).2 ∧
      sampleAddressed.tagMatch (Event.ofNostr sampleTerms) = false ∧
      sampleAddressed.TagScan (Event.ofNostr sampleTerms) := by
  refine ⟨sampleMessage_sent, by decide +kernel, ?_⟩
  rintro map hmap key val hval
  cases hmap
  obtain ⟨rfl, rfl⟩ := eq_of_lookup_singleton hval
  exact ⟨_, Finset.mem_singleton_self _, sampleTerms_tagged⟩

/-- A client submits a gift wrap. -/
def sampleSubmits : List Action :=
  [.relay (.connect ⟨"192.0.2.7", none, none⟩ sampleChallenge),
    .relay (.turn 0
      { turn := .wsNext (.text 400 (some (.eventMsg ⟨"EVENT", sampleWrap.event⟩)))
        now := 1700000090 })]

/-- The writer takes it from an author that is admitted. -/
def sampleWrite : Action := .relay (.write { DbWriter.lookupError with balance := .ok (true, 10) })

set_option maxRecDepth 4000 in
theorem sampleWrap_sent :
    (sampleProducers.step (sampleProducers.run sampleSubmits) sampleWrite).2 =
      [.relay sampleWrap.event.buildIndex] := by
  rfl

/-- Every filter sees the gift wrap of the client, but not every filter the message of the payment
module. -/
theorem sampleMessage_tagMatch :
    (∀ f : ReqFilter, f.tagMatch sampleWrap.event.buildIndex = true ↔
      f.TagScan sampleWrap.event.buildIndex) ∧
    ¬ ∀ f : ReqFilter, f.tagMatch (Event.ofNostr sampleTerms) = true ↔
      f.TagScan (Event.ofNostr sampleTerms) := by
  refine ⟨?_, fun h => ?_⟩
  · have hsent : .relay sampleWrap.event.buildIndex ∈
        (sampleProducers.step (sampleProducers.run sampleSubmits) sampleWrite).2 :=
      sampleWrap_sent ▸ List.mem_singleton_self _
    refine (tagMatch_iff_tagScan sampleProducers sampleSubmits sampleWrite _ ?_ hsent).mpr (.inl rfl)
    intro i input len ec hmem hturn
    rcases List.mem_cons.mp hmem with h | h
    · cases h
    · cases List.mem_singleton.mp h
      cases hturn
      exact ⟨rfl, rfl⟩
  · have hiff := tagMatch_iff_tagScan sampleProducers [] sampleMessage
      (.message (Event.ofNostr sampleTerms)) (fun _ _ _ _ hmem => by cases hmem) sampleMessage_sent
    rcases hiff.mp h with hmessage | hnone
    · cases hmessage
    · exact hnone _ _ sampleTerms_tagged

end Producers

end Payment

end Floonet
