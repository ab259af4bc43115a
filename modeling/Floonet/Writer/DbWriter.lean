import Floonet.NameAuthority.Names
import Floonet.Nip05
import Floonet.Payment.Ledger
import Floonet.Server.Connection

/-!
# The database writer

`db_writer` takes the submitted events one after another. A round of its loop is a row of
checks, each of which may end the round with a notice to the client, followed by the
broadcast or the write and the charge. What the calls to the repository and to the
admission service return is part of the input of a round. The rate limiter only delays a
round, so of it only its construction is here.
-/

namespace Floonet

open NameAuthority (Keys)
open Payment (PaymentMessage RepoError)

/-- The settings `db_writer` reads. -/
structure WriterSettings extends Settings where
  /-- `limits.event_kind_blacklist` -/
  eventKindBlacklist : Option (List Nat)
  /-- `limits.messages_per_sec`, 32 bits -/
  messagesPerSec : Option Nat
  /-- `pay_to_relay.cost_per_event` -/
  costPerEvent : Nat
  /-- `pay_to_relay.sign_ups` -/
  signUps : Bool
  /-- `pay_to_relay.direct_message` -/
  directMessage : Bool
  verifiedUsers : VerifiedUsers
  /-- `grpc.event_admission_server` -/
  eventAdmissionServer : Option String

/-- The reply of the event admission service. -/
structure EventReply where
  permitted : Bool
  message : Option String

/-- One round of the loop: the event, and what it meets outside. -/
structure Round where
  /-- a shutdown was signalled before -/
  shutdown : Bool
  /-- nanoseconds since the epoch -/
  now : Nat
  submitted : SubmittedEvent
  /-- `get_account_balance` -/
  balance : Except RepoError (Bool × Nat)
  /-- `get_latest_user_verification` -/
  verification : Except RepoError VerificationRecord
  /-- `admit_event` -/
  decision : Except Unit EventReply
  /-- `write_event` -/
  write : Except RepoError Nat
  /-- `update_account_balance` -/
  charge : Except RepoError Unit

/-- The event of a round. -/
def Round.event (r : Round) : Event := r.submitted.event

/-- What the writer does outside. -/
inductive WriterEffect where
  /-- `notice_tx.try_send` -/
  | notice (n : Notice)
  /-- `payment_tx.send` -/
  | payment (m : PaymentMessage)
  | admitEvent (s : SubmittedEvent) (nip05Address : Option Nip05Name)
  /-- `metadata_tx.send` -/
  | metadata (e : Event)
  /-- `bcast_tx.send` -/
  | broadcast (e : Event)
  | writeEvent (e : Event)
  | updateAccountBalance (key : String) (positive : Bool) (newBalance : Nat)

/-- A request to another part of the relay, which leaves the events alone. -/
def WriterEffect.IsRequest : WriterEffect → Prop
  | .payment _ => True
  | .admitEvent _ _ => True
  | _ => False

/-- The event an effect passes on. -/
def WriterEffect.event? : WriterEffect → Option Event
  | .metadata e => some e
  | .broadcast e => some e
  | .writeEvent e => some e
  | _ => none

theorem WriterEffect.IsRequest.event? {x : WriterEffect} (h : x.IsRequest) : x.event? = none := by
  cases x with
  | payment m => rfl
  | admitEvent s address => rfl
  | _ => exact absurd h id

/-- How a round ends. -/
inductive Exit where
  | next
  /-- `?` on an error -/
  | err
  | panic
  deriving DecidableEq

/-- What a round did, and how it ended. -/
abbrev Ended : Type := List WriterEffect × Exit

/-- A notice, and on to the next event. -/
def refuse {α : Type} (n : Notice) : Except Ended α := .error ([.notice n], .next)

/-- The settings of the writer, and the keys it parses. -/
structure DbWriter where
  settings : WriterSettings
  keys : Keys

namespace DbWriter

variable (w : DbWriter) (r : Round)

/-! ## The checks -/

/-- The kind is on the blacklist. -/
def blacklistRefuses (e : Event) : Bool :=
  w.settings.eventKindBlacklist.any fun kinds => kinds.contains e.kind

/-- There is an allowlist, and the kind is not on it. -/
def allowlistRefuses (e : Event) : Bool :=
  w.settings.eventKindAllowlist.any fun kinds => !kinds.contains e.kind

/-- Check that event kind isn't blacklisted, and is allowlisted. -/
def kindCheck : Except Ended Unit :=
  if w.blacklistRefuses r.event then
    refuse (.blocked r.event.id "event kind is blocked by relay")
  else if w.allowlistRefuses r.event then
    refuse (.blocked r.event.id "event kind is blocked by relay")
  else .ok ()

/-- The author is on the whitelist. -/
def listed (e : Event) : Bool :=
  w.settings.pubkeyWhitelist.any fun allowed => allowed.contains e.pubkey

/-- Without payments the whitelist is a list of who can post. -/
def whitelistRefuses (e : Event) : Bool :=
  !w.settings.payToRelayEnabled && w.settings.pubkeyWhitelist.isSome && !w.listed e

/-- Check that the author may post; the balance is returned when posting is paid for. When
pay to relay is enabled the whitelist is a list of who can post for free. -/
def authorCheck : Except Ended (Option Nat) :=
  if !w.settings.payToRelayEnabled then
    if w.whitelistRefuses r.event then
      refuse (.blocked r.event.id "pubkey is not allowed to publish to this relay")
    else .ok none
  else if w.listed r.event then .ok none
  else
    match w.keys.fromPkStr r.event.pubkey with
    -- `unwrap`
    | none => .error ([], .panic)
    | some _ =>
      match r.balance with
      | .ok (userAdmitted, balance) =>
        if !userAdmitted then
          .error ([.payment (.checkAccount r.event.pubkey),
            .notice (.blocked r.event.id "User is not admitted")], .next)
        else if balance < w.settings.costPerEvent then
          refuse (.blocked r.event.id "Insufficient balance")
        else .ok (some balance)
      | .error .noRows =>
        .error ((if w.settings.signUps && w.settings.directMessage then
            [.payment (.newAccount r.event.pubkey)] else []) ++
          [.notice (.error r.event.id "Pubkey not registered")], .next)
      | .error .other =>
        refuse (.error r.event.id "relay experienced an error checking your admission status")

/-- The verification of the author, for use in the check and by the admission service. -/
def validation : Option (Except RepoError VerificationRecord) :=
  if w.settings.verifiedUsers.isActive then some r.verification else none

/-- Check for NIP-05 verification. -/
def nip05Check : Except Ended Unit :=
  if w.settings.verifiedUsers.isEnabled then
    match w.validation r with
    | some (.ok uv) =>
      match uv.isValid r.now w.settings.verifiedUsers with
      | .ok true => .ok ()
      | .ok false => refuse (.blocked r.event.id
          "NIP-05 verification is no longer valid (expired/wrong domain)")
      | _ => .error ([], .panic)
    | some (.error .noRows) =>
      refuse (.blocked r.event.id "NIP-05 verification needed to publish events")
    -- logged, and nothing else
    | some (.error .other) => .error ([], .next)
    | none => .ok ()
  else .ok ()

/-- Check with the event admission service, if one is defined. A failed call counts as
permission. -/
def grpcCheck : Except Ended (List WriterEffect) :=
  match w.settings.eventAdmissionServer with
  | none => .ok []
  | some _ =>
    let address := (w.validation r).bind fun v => v.toOption.map VerificationRecord.name
    let call := .admitEvent r.submitted address
    match r.decision with
    | .ok reply =>
      if reply.permitted then .ok [call]
      else .error ([call, .notice (.blocked r.event.id (reply.message.getD ""))], .next)
    | .error () => .ok [call]

/-- All checks in order. -/
def checks : Except Ended (Option Nat × List WriterEffect) := do
  w.kindCheck r
  let balance ← w.authorCheck r
  w.nip05Check r
  let called ← w.grpcCheck r
  pure (balance, called)

/-! ## Publication -/

/-- Send any metadata events to the NIP-05 verifier. -/
def forward : List WriterEffect :=
  if w.settings.verifiedUsers.isActive && r.event.isKindMetadata then [.metadata r.event] else []

/-- Broadcast or persist the event, and whether it is new. -/
def store : List WriterEffect × Bool :=
  if r.event.isEphemeral then ([.broadcast r.event, .notice (.saved r.event.id)], true)
  else
    match r.write with
    | .ok updated =>
      if updated = 0 then ([.writeEvent r.event, .notice (.duplicate r.event.id)], false)
      else ([.writeEvent r.event, .broadcast r.event, .notice (.saved r.event.id)], true)
    | .error _ =>
      ([.writeEvent r.event, .notice (.error r.event.id
        "relay experienced an error trying to publish the latest event")], false)

/-- Reduce the balance of the author by the cost of the event. -/
def chargeAuthor (balance : Option Nat) (written : Bool) : Ended :=
  if written && w.settings.payToRelayEnabled && 0 < w.settings.costPerEvent && balance.isSome then
    match w.keys.fromPkStr r.event.pubkey with
    | none => ([], .err)
    | some key =>
      ([.updateAccountBalance key false w.settings.costPerEvent],
        if r.charge.isOk then .next else .err)
  else ([], .next)

/-- One round of the loop. -/
def round : Ended :=
  match w.checks r with
  | .error ended => ended
  | .ok (balance, called) =>
    let (stored, written) := store r
    let (charged, exit) := w.chargeAuthor r balance written
    (called ++ w.forward r ++ stored ++ charged, exit)

/-! ## The loop -/

/-- Why the writer stopped. -/
inductive Stop where
  /-- the channel has closed -/
  | closed
  | shutdown
  | err
  | panic
  deriving DecidableEq

/-- The rounds of the loop up to its end. -/
def loop : List Round → List (List WriterEffect) × Stop
  | [] => ([], .closed)
  | r :: rest =>
    if r.shutdown then ([], .shutdown)
    else
      match w.round r with
      | (effects, .next) => (effects :: (loop rest).1, (loop rest).2)
      | (effects, .err) => ([effects], .err)
      | (effects, .panic) => ([effects], .panic)

/-- `NonZeroU32::new(rps * 60).unwrap()` fails: the product wraps to zero. -/
def quotaPanics : Bool :=
  w.settings.messagesPerSec.any fun rps => 0 < rps && rps * 60 % 2 ^ 32 == 0

/-- Run the writer on a sequence of events. -/
def dbWriter (rounds : List Round) : List (List WriterEffect) × Stop :=
  if w.quotaPanics then ([], .panic) else w.loop rounds

/-! ## What a round can do -/

/-- The kind is neither blacklisted nor missing from the allowlist. -/
def KindAccepted : Prop :=
  w.blacklistRefuses r.event = false ∧ w.allowlistRefuses r.event = false

/-- The author has to pay for the event. -/
def Pays : Prop := w.settings.payToRelayEnabled = true ∧ w.listed r.event = false

/-- The author may post, and can pay where that is asked for. -/
def AuthorAccepted : Prop :=
  w.whitelistRefuses r.event = false ∧
    (w.Pays r → (w.keys.fromPkStr r.event.pubkey).isSome ∧
      ∃ balance, r.balance = .ok (true, balance) ∧ w.settings.costPerEvent ≤ balance)

/-- The author is verified, where that is asked for. -/
def Verified : Prop :=
  w.settings.verifiedUsers.isEnabled = true →
    ∃ uv, r.verification = .ok uv ∧ uv.isValid r.now w.settings.verifiedUsers = .ok true

/-- The admission service did not reject the event. -/
def Permitted : Prop :=
  w.settings.eventAdmissionServer.isSome → ∀ reply, r.decision = .ok reply → reply.permitted = true

/-- The checks let the event pass. -/
structure Passes : Prop where
  kind : w.KindAccepted r
  author : w.AuthorAccepted r
  verified : w.Verified r
  permitted : w.Permitted r

/-- The event is refused with one notice, and the loop goes on. -/
def RefusedBy (e : Event) (ended : Ended) : Prop :=
  ∃ requests res, ended = (requests ++ [.notice (.eventResult res)], .next) ∧ res.id = e.id ∧
    res.status.toBool = false ∧ ∀ x ∈ requests, x.IsRequest

/-- The pubkey of an author who has to pay does not parse. -/
def Unparsed : Prop := w.Pays r ∧ w.keys.fromPkStr r.event.pubkey = none

/-- Whether the author is verified cannot be told. -/
def LookupFails : Prop :=
  w.settings.verifiedUsers.isEnabled = true ∧
    (r.verification = .error .other ∨
      ∃ uv, r.verification = .ok uv ∧ uv.isValid r.now w.settings.verifiedUsers = .panic)

/-- The round ends without a notice. -/
def Silent : Prop :=
  w.KindAccepted r ∧ (w.Unparsed r ∨ (w.AuthorAccepted r ∧ w.LookupFails r))

section Cases

variable {w r}

/-- A refusal is one notice and nothing else. -/
theorem refusedBy_notice {e : Event} (calls : List WriterEffect) (hcalls : ∀ x ∈ calls, x.IsRequest)
    {res : EventResult} (hid : res.id = e.id) (hstatus : res.status.toBool = false) :
    RefusedBy e (calls ++ [.notice (.eventResult res)], .next) :=
  ⟨calls, res, rfl, hid, hstatus, hcalls⟩

theorem kindCheck_cases (w : DbWriter) (r : Round) :
    (w.KindAccepted r ∧ w.kindCheck r = .ok ()) ∨
    (¬ w.KindAccepted r ∧ ∃ ended, w.kindCheck r = .error ended ∧ RefusedBy r.event ended) := by
  rw [KindAccepted, kindCheck]
  by_cases hblack : w.blacklistRefuses r.event = true
  · rw [if_pos hblack]
    exact .inr ⟨by simp [hblack], _, rfl, refusedBy_notice [] (by simp) rfl rfl⟩
  · rw [if_neg hblack]
    by_cases hallow : w.allowlistRefuses r.event = true
    · rw [if_pos hallow]
      exact .inr ⟨by simp [hallow], _, rfl, refusedBy_notice [] (by simp) rfl rfl⟩
    · rw [if_neg hallow]
      exact .inl ⟨⟨by simpa using hblack, by simpa using hallow⟩, rfl⟩

/-- The account of an author who has to pay has to be admitted and to hold the cost. -/
theorem not_authorAccepted (hpays : w.Pays r)
    (h : ∀ b, w.settings.costPerEvent ≤ b → r.balance ≠ .ok (true, b)) : ¬ w.AuthorAccepted r := by
  intro hacc
  obtain ⟨-, b, hb, hle⟩ := hacc.2 hpays
  exact h b hle hb

theorem authorCheck_cases (w : DbWriter) (r : Round) :
    (w.AuthorAccepted r ∧ ∃ balance, w.authorCheck r = .ok balance ∧ (balance.isSome ↔ w.Pays r)) ∨
    (¬ w.AuthorAccepted r ∧ w.Unparsed r ∧ w.authorCheck r = .error ([], .panic)) ∨
    (¬ w.AuthorAccepted r ∧ ¬ w.Unparsed r ∧
      ∃ ended, w.authorCheck r = .error ended ∧ RefusedBy r.event ended) := by
  rw [authorCheck]
  by_cases hpay : w.settings.payToRelayEnabled = true
  · have hwhite : w.whitelistRefuses r.event = false := by simp [whitelistRefuses, hpay]
    rw [if_neg (by simp [hpay])]
    by_cases hlisted : w.listed r.event = true
    · have hfree : ¬ w.Pays r := by simp [Pays, hlisted]
      rw [if_pos hlisted]
      exact .inl ⟨⟨hwhite, fun h => absurd h hfree⟩, none, rfl, by simp [hfree]⟩
    · have hpays : w.Pays r := ⟨hpay, by simpa using hlisted⟩
      rw [if_neg hlisted]
      rcases hkey : w.keys.fromPkStr r.event.pubkey with _ | key
      · refine .inr (.inl ⟨fun h => ?_, ⟨hpays, hkey⟩, rfl⟩)
        have := (h.2 hpays).1
        rw [hkey] at this
        cases this
      · have hparsed : ¬ w.Unparsed r := fun h => by rw [h.2] at hkey; cases hkey
        rcases hbal : r.balance with (_ | _) | ⟨admitted, balance⟩ <;> simp only
        · refine .inr (.inr ⟨not_authorAccepted hpays (by simp [hbal]), hparsed, _, rfl,
            refusedBy_notice _ ?_ rfl rfl⟩)
          split_ifs
          · simp [WriterEffect.IsRequest]
          · simp
        · exact .inr (.inr ⟨not_authorAccepted hpays (by simp [hbal]), hparsed, _, rfl,
            refusedBy_notice [] (by simp) rfl rfl⟩)
        · by_cases hadm : admitted = true
          · rw [if_neg (by simp [hadm])]
            by_cases hlow : balance < w.settings.costPerEvent
            · rw [if_pos hlow]
              refine .inr (.inr ⟨not_authorAccepted hpays fun b hle hb => ?_, hparsed, _, rfl,
                refusedBy_notice [] (by simp) rfl rfl⟩)
              rw [hbal] at hb
              cases hb
              omega
            · rw [if_neg hlow]
              refine .inl ⟨⟨hwhite, fun _ => ⟨by simp [hkey], balance, ?_, by omega⟩⟩, _, rfl, ?_⟩
              · rw [hbal, hadm]
              · simp [hpays]
          · rw [if_pos (by simp [hadm])]
            refine .inr (.inr ⟨not_authorAccepted hpays fun b _ hb => ?_, hparsed, _, rfl,
              refusedBy_notice [.payment _] (by simp [WriterEffect.IsRequest]) rfl rfl⟩)
            rw [hbal] at hb
            cases hb
            exact hadm rfl
  · have hfree : ¬ w.Pays r := fun h => hpay h.1
    have hparsed : ¬ w.Unparsed r := fun h => hfree h.1
    rw [if_pos (by simp [hpay])]
    by_cases hwhite : w.whitelistRefuses r.event = true
    · rw [if_pos hwhite]
      refine .inr (.inr ⟨fun h => ?_, hparsed, _, rfl, refusedBy_notice [] (by simp) rfl rfl⟩)
      rw [h.1] at hwhite
      cases hwhite
    · rw [if_neg hwhite]
      exact .inl ⟨⟨by simpa using hwhite, fun h => absurd h hfree⟩, none, rfl, by simp [hfree]⟩

theorem not_verified (hon : w.settings.verifiedUsers.isEnabled = true)
    (h : ∀ uv, r.verification = .ok uv →
      uv.isValid r.now w.settings.verifiedUsers ≠ .ok true) : ¬ w.Verified r := by
  intro hver
  obtain ⟨uv, huv, hvalid⟩ := hver hon
  exact h uv huv hvalid

theorem not_lookupFails (hother : r.verification ≠ .error .other)
    (h : ∀ uv, r.verification = .ok uv →
      uv.isValid r.now w.settings.verifiedUsers ≠ .panic) : ¬ w.LookupFails r := by
  rintro ⟨-, hfail | ⟨uv, huv, hpanic⟩⟩
  · exact hother hfail
  · exact h uv huv hpanic

theorem nip05Check_cases (w : DbWriter) (r : Round) :
    (w.Verified r ∧ w.nip05Check r = .ok ()) ∨
    (¬ w.Verified r ∧ w.LookupFails r ∧
      ∃ exit, w.nip05Check r = .error ([], exit) ∧ exit ≠ .err) ∨
    (¬ w.Verified r ∧ ¬ w.LookupFails r ∧
      ∃ ended, w.nip05Check r = .error ended ∧ RefusedBy r.event ended) := by
  rw [nip05Check]
  by_cases hon : w.settings.verifiedUsers.isEnabled = true
  · have hactive : w.settings.verifiedUsers.isActive = true := by
      rw [VerifiedUsers.isActive, ← VerifiedUsers.isEnabled, hon, Bool.true_or]
    rw [if_pos hon, validation, if_pos hactive]
    rcases hv : r.verification with (_ | _) | uv <;> simp only
    · exact .inr (.inr ⟨not_verified hon (by simp [hv]), not_lookupFails (by simp [hv])
        (by simp [hv]), _, rfl, refusedBy_notice [] (by simp) rfl rfl⟩)
    · exact .inr (.inl ⟨not_verified hon (by simp [hv]), ⟨hon, .inl hv⟩, _, rfl, by decide⟩)
    · rcases hvalid : uv.isValid r.now w.settings.verifiedUsers with (_ | _) | ⟨⟨⟩⟩ | _ <;> simp only
      · exact .inr (.inr ⟨not_verified hon (by simp [hv, hvalid]), not_lookupFails (by simp [hv])
          (by simp [hv, hvalid]), _, rfl, refusedBy_notice [] (by simp) rfl rfl⟩)
      · exact .inl ⟨fun _ => ⟨uv, hv, hvalid⟩, trivial⟩
      · exact .inr (.inl ⟨not_verified hon (by simp [hv, hvalid]), ⟨hon, .inr ⟨uv, hv, hvalid⟩⟩,
          _, rfl, by decide⟩)
  · rw [if_neg hon]
    exact .inl ⟨fun h => absurd h hon, rfl⟩

theorem grpcCheck_cases (w : DbWriter) (r : Round) :
    (w.Permitted r ∧ ∃ called, w.grpcCheck r = .ok called ∧ ∀ x ∈ called, x.IsRequest) ∨
    (¬ w.Permitted r ∧ ∃ ended, w.grpcCheck r = .error ended ∧ RefusedBy r.event ended) := by
  rw [Permitted, grpcCheck]
  rcases w.settings.eventAdmissionServer with _ | server
  · exact .inl ⟨by simp, [], rfl, by simp⟩
  · rcases hd : r.decision with _ | reply <;> simp only
    · exact .inl ⟨by simp, _, rfl, by simp [WriterEffect.IsRequest]⟩
    · by_cases hp : reply.permitted = true
      · rw [if_pos hp]
        exact .inl ⟨by simp [hp], _, rfl, by simp [WriterEffect.IsRequest]⟩
      · rw [if_neg hp]
        exact .inr ⟨by simp [hp], _, rfl,
          refusedBy_notice [_] (by simp [WriterEffect.IsRequest]) rfl rfl⟩

/-- **What a round can do.** The checks let the event pass and it is published; or it is
refused with a notice; or the round ends without one. -/
theorem round_cases (w : DbWriter) (r : Round) :
    (w.Passes r ∧ ¬ w.Silent r ∧ ∃ balance called, (balance.isSome ↔ w.Pays r) ∧
      (∀ x ∈ called, x.IsRequest) ∧
      w.round r = (called ++ w.forward r ++ (store r).1 ++
        (w.chargeAuthor r balance (store r).2).1, (w.chargeAuthor r balance (store r).2).2)) ∨
    (¬ w.Passes r ∧ ¬ w.Silent r ∧ RefusedBy r.event (w.round r)) ∨
    (¬ w.Passes r ∧ w.Silent r ∧ ∃ exit, w.round r = ([], exit) ∧ exit ≠ .err) := by
  have hround : ∀ ended, w.checks r = .error ended → w.round r = ended := by
    intro ended h
    rw [round, h]
  rcases kindCheck_cases w r with ⟨hkind, hk⟩ | ⟨hkind, ended, hk, href⟩
  · rcases authorCheck_cases w r with ⟨hauthor, balance, ha, hbal⟩ | ⟨hauthor, hun, ha⟩ |
      ⟨hauthor, hun, ended, ha, href⟩
    · have hparsed : ¬ w.Unparsed r := by
        intro h
        have := (hauthor.2 h.1).1
        rw [h.2] at this
        cases this
      rcases nip05Check_cases w r with ⟨hver, hn⟩ | ⟨hver, hl, exit, hn, hexit⟩ |
        ⟨hver, hl, ended, hn, href⟩
      · have hl : ¬ w.Silent r := by
          rintro ⟨-, h | ⟨-, hon, h⟩⟩
          · exact hparsed h
          · obtain ⟨uv, huv, hvalid⟩ := hver hon
            rcases h with h | ⟨uv', h, hvalid'⟩ <;> rw [huv] at h <;> cases h
            rw [hvalid] at hvalid'
            cases hvalid'
        rcases grpcCheck_cases w r with ⟨hperm, called, hg, hreq⟩ | ⟨hperm, ended, hg, href⟩
        · refine .inl ⟨⟨hkind, hauthor, hver, hperm⟩, hl, balance, called, hbal, hreq, ?_⟩
          rw [round, checks, hk, ha, hn, hg]
          rfl
        · refine .inr (.inl ⟨fun h => hperm h.permitted, hl, ?_⟩)
          rw [hround ended (by rw [checks, hk, ha, hn, hg]; rfl)]
          exact href
      · refine .inr (.inr ⟨fun h => hver h.verified, ⟨hkind, .inr ⟨hauthor, hl⟩⟩, exit, ?_, hexit⟩)
        exact hround _ (by rw [checks, hk, ha, hn]; rfl)
      · refine .inr (.inl ⟨fun h => hver h.verified, ?_, ?_⟩)
        · rintro ⟨-, h | ⟨-, h⟩⟩
          · exact hparsed h
          · exact hl h
        · rw [hround ended (by rw [checks, hk, ha, hn]; rfl)]
          exact href
    · refine .inr (.inr ⟨fun h => hauthor h.author, ⟨hkind, .inl hun⟩, .panic, ?_, by decide⟩)
      exact hround _ (by rw [checks, hk, ha]; rfl)
    · refine .inr (.inl ⟨fun h => hauthor h.author, ?_, ?_⟩)
      · rintro ⟨-, h | ⟨h, -⟩⟩
        · exact hun h
        · exact hauthor h
      · rw [hround ended (by rw [checks, hk, ha]; rfl)]
        exact href
  · refine .inr (.inl ⟨fun h => hkind h.kind, fun h => hkind h.1, ?_⟩)
    rw [hround ended (by rw [checks, hk]; rfl)]
    exact href

/-! ### The events a round passes on -/

theorem event_of_forward {x : WriterEffect} {e : Event} (hx : x ∈ w.forward r)
    (he : x.event? = some e) : e = r.event := by
  rw [forward] at hx
  split_ifs at hx
  · rw [List.mem_singleton.mp hx] at he
    exact (Option.some.inj he).symm
  · cases hx

theorem event_of_store {x : WriterEffect} {e : Event} (hx : x ∈ (store r).1)
    (he : x.event? = some e) : e = r.event := by
  have hout : ∀ n, x = .writeEvent r.event ∨ x = .broadcast r.event ∨ x = .notice n →
      e = r.event := by
    rintro n (rfl | rfl | rfl)
    · exact (Option.some.inj he).symm
    · exact (Option.some.inj he).symm
    · cases he
  rw [store] at hx
  split_ifs at hx
  · rcases List.mem_pair.mp hx with h | h
    · exact hout (.authChallenge "") (.inr (.inl h))
    · exact hout _ (.inr (.inr h))
  · rcases hw : r.write with err | updated <;> simp only [hw] at hx
    · rcases List.mem_pair.mp hx with h | h
      · exact hout (.authChallenge "") (.inl h)
      · exact hout _ (.inr (.inr h))
    · split_ifs at hx
      · rcases List.mem_pair.mp hx with h | h
        · exact hout (.authChallenge "") (.inl h)
        · exact hout _ (.inr (.inr h))
      · rcases List.mem_cons.mp hx with h | h
        · exact hout (.authChallenge "") (.inl h)
        · rcases List.mem_pair.mp h with h | h
          · exact hout (.authChallenge "") (.inr (.inl h))
          · exact hout _ (.inr (.inr h))

theorem event?_of_chargeAuthor {x : WriterEffect} {balance : Option Nat} {written : Bool}
    (h : x ∈ (w.chargeAuthor r balance written).1) : x.event? = none := by
  rw [chargeAuthor] at h
  split at h
  · rcases hkey : w.keys.fromPkStr r.event.pubkey with _ | key <;> rw [hkey] at h
    · cases h
    · rw [List.mem_singleton.mp h]
      rfl
  · cases h

/-- A round passes on its own event, and only when the checks let it pass. -/
theorem event_of_round {x : WriterEffect} {e : Event} (hx : x ∈ (w.round r).1)
    (he : x.event? = some e) : e = r.event ∧ w.Passes r := by
  rcases round_cases w r with ⟨hp, -, balance, called, -, hreq, hr⟩ |
    ⟨-, -, requests, res, hr, -, -, hreq⟩ | ⟨-, -, exit, hr, -⟩ <;> rw [hr] at hx
  · refine ⟨?_, hp⟩
    rcases List.mem_append.mp hx with hx | hx
    · rcases List.mem_append.mp hx with hx | hx
      · rcases List.mem_append.mp hx with hx | hx
        · rw [(hreq x hx).event?] at he
          cases he
        · exact event_of_forward hx he
      · exact event_of_store hx he
    · rw [event?_of_chargeAuthor hx] at he
      cases he
  · rcases List.mem_append.mp hx with hx | hx
    · rw [(hreq x hx).event?] at he
      cases he
    · rw [List.mem_singleton.mp hx] at he
      cases he
  · cases hx

/-- What a round adds to the database it broadcasts. -/
theorem broadcast_of_written {e : Event} {updated : Nat} (h : .writeEvent e ∈ (w.round r).1)
    (hwrite : r.write = .ok updated) (hnew : updated ≠ 0) : .broadcast r.event ∈ (w.round r).1 := by
  obtain ⟨-, hp⟩ := event_of_round h rfl
  rcases round_cases w r with ⟨-, -, balance, called, -, -, hr⟩ | ⟨hnot, -⟩ | ⟨hnot, -⟩
  · have hstore : WriterEffect.broadcast r.event ∈ (store r).1 := by
      rw [store]
      split_ifs
      · exact List.mem_cons_self ..
      · simp only [hwrite, if_neg hnew]
        exact List.mem_cons_of_mem _ (List.mem_cons_self ..)
    rw [hr]
    exact List.mem_append_left _ (List.mem_append_right _ hstore)
  · exact absurd hp hnot
  · exact absurd hp hnot

end Cases

end DbWriter

end Floonet
