import Floonet.Sqlite.Lookup
import Floonet.Sqlite.Verification
import Floonet.Writer.Answers
import Floonet.Writer.Pipeline

/-!
# Who can become verified

Verification records are made by the verifier, from the metadata events the writer forwards.
When verification is required the writer checks the author's record before it forwards
anything, so it forwards only for authors who have a valid record already. An empty
`user_verification` table stays empty.
-/

namespace Floonet

open Payment (RepoError)
open Sqlite (Db getLatestUserVerification getOldestUserVerification)

/-- The writer and the verifier on one SQLite database. -/
structure Verification where
  writer : DbWriter
  reader : Nip05Reader
  engine : Sql.Engine

namespace Verification

/-- The tables and the queue of the verifier. -/
structure State where
  db : Db
  /-- the metadata events the verifier has not received yet -/
  metadata : List Event

/-- A step of the writer or of the verifier. -/
inductive Action where
  /-- a round of the writer; its reads and its write go to the database, or fail -/
  | write (r : Round) (readFails writeFails : Bool)
  /-- the verifier takes the next metadata event -/
  | verify (web : UserWebVerificationStatus) (now : Nat) (readFails writeFails recordFails : Bool)
  /-- the verifier checks the oldest record; `stamp` is the time it notes down -/
  | reverify (web : UserWebVerificationStatus) (now stamp : Nat) (fails : Bool)
  /-- the verifier lags and loses the oldest metadata event -/
  | lag

variable (vf : Verification)

/-- The `[verified_users]` settings. -/
def users : VerifiedUsers := vf.writer.settings.verifiedUsers

/-- The latest verification of a pubkey. -/
def lookup (db : Db) (pubKey : String) : Except RepoError VerificationRecord :=
  getLatestUserVerification vf.engine vf.reader.isAlphanumeric db pubKey

/-- What `write_event` returns. -/
def written (db : Db) (e : Event) : Except RepoError Nat :=
  match Sqlite.persistEvent vf.engine db e with
  | .ok (updated, _) => .ok updated
  | .error _ => .error .other

/-- The result of a call, or its failure. -/
def failing {α : Type} (fails : Bool) (result : Except RepoError α) : Except RepoError α :=
  if fails then .error .other else result

/-- The round as the database answers it. -/
def answered (db : Db) (r : Round) (readFails writeFails : Bool) : Round :=
  { r with
    verification := failing readFails (vf.lookup db r.event.pubkey)
    write := failing writeFails (vf.written db r.event) }

/-- What the writer changes in the database. -/
def applyWriter (writeFails : Bool) (db : Db) : WriterEffect → Db
  | .writeEvent e => if writeFails then db else Sqlite.write vf.engine db e
  | _ => db

/-- What the verifier changes in the database. -/
def applyVerifier (now : Nat) (writeFails recordFails : Bool) (db : Db) : VerifierEffect → Db
  | .writeEvent e => if writeFails then db else Sqlite.write vf.engine db e
  | .createVerificationRecord eventId name =>
    if recordFails then db else Sqlite.createVerificationRecord db eventId name now
  | .broadcast _ => db

/-- Reverify the oldest user verification record. -/
def doReverify (db : Db) (web : UserWebVerificationStatus) (now stamp : Nat) (fails : Bool) : Db :=
  -- default to 6hrs between re-checking an account
  let reverifyDur := vf.users.verifyUpdateFrequencyDuration.getD (60 * 60 * 6 * 1000000000)
  if VerificationRecord.subPanics now reverifyDur || fails then db
  else
    match getOldestUserVerification vf.engine vf.reader.isAlphanumeric db
        ((now - reverifyDur) / 1000000000) with
    | .error _ => db
    | .ok v =>
      match getWebVerification vf.users v.name web with
      | .verified => Sqlite.updateVerificationTimestamp db v.rowid stamp
      | .unverified => Sqlite.deleteVerification db v.rowid
      | .domainNotAllowed | .unknown =>
        if vf.users.maxConsecutiveFailures ≤ v.failureCount then
          Sqlite.deleteVerification db v.rowid
        else Sqlite.failVerification db v.rowid stamp

/-- One step of one of the two tasks. -/
def step (st : State) : Action → State
  | .write r readFails writeFails =>
    let (effects, _) := vf.writer.round (vf.answered st.db r readFails writeFails)
    { db := effects.foldl (vf.applyWriter writeFails) st.db
      metadata := st.metadata ++ Pipeline.forwarded effects }
  | .verify web now readFails writeFails recordFails =>
    match st.metadata with
    | [] => st
    | e :: rest =>
      let check : MetadataCheck :=
        { latest := failing readFails (vf.lookup st.db e.pubkey)
          web := web
          write := failing writeFails (vf.written st.db e) }
      { db := (onMetadata vf.users vf.reader check e).foldl
          (vf.applyVerifier now writeFails recordFails) st.db
        metadata := rest }
  | .reverify web now stamp fails => { st with db := vf.doReverify st.db web now stamp fails }
  | .lag => { st with metadata := st.metadata.tail }

/-- The state after a sequence of steps. -/
def run (st : State) (acts : List Action) : State := Machine.run vf.step st acts

/-! ## Forwarding

A metadata event is forwarded by the writer after the checks. In mode enabled the author must be
verified before, so the first event of an author never gets there. -/

variable {vf}

/-- What the writer forwards passed its checks. -/
theorem forward_iff {w : DbWriter} {r : Round} (hactive : w.settings.verifiedUsers.isActive = true)
    (hk : r.event.isKindMetadata = true) : .metadata r.event ∈ (w.round r).1 ↔ w.Passes r := by
  refine ⟨fun h => (DbWriter.event_of_round h rfl).2, fun hp => ?_⟩
  rcases DbWriter.round_cases w r with ⟨-, -, balance, called, -, -, hr⟩ | ⟨hnot, -⟩ | ⟨hnot, -⟩
  · rw [hr, DbWriter.forward, if_pos (by rw [hactive, hk]; rfl)]
    simp
  · exact absurd hp hnot
  · exact absurd hp hnot

/-! ## An empty table -/

/-- Nobody is verified. -/
theorem not_passes (hon : vf.users.isEnabled = true) {st : State} {r : Round}
    (h : st.db.userVerification = []) (readFails writeFails : Bool) :
    ¬ vf.writer.Passes (vf.answered st.db r readFails writeFails) := by
  intro hp
  obtain ⟨uv, huv, -⟩ := hp.verified hon
  simp only [answered, failing, lookup, Sqlite.getLatestUserVerification_nil h] at huv
  split_ifs at huv

/-- A round for an author who may not publish changes nothing. -/
theorem step_write_of_not_passes {st : State} {r : Round} {readFails writeFails : Bool}
    (h : ¬ vf.writer.Passes (vf.answered st.db r readFails writeFails)) :
    vf.step st (.write r readFails writeFails) = st := by
  have hnone : ∀ x ∈ (vf.writer.round (vf.answered st.db r readFails writeFails)).1,
      x.event? = none := by
    intro x hx
    rcases hev : x.event? with _ | e
    · rfl
    · exact absurd (DbWriter.event_of_round hx hev).2 h
  have hdb : ∀ effects : List WriterEffect, (∀ x ∈ effects, x.event? = none) →
      effects.foldl (vf.applyWriter writeFails) st.db = st.db := by
    intro effects
    induction effects with
    | nil => exact fun _ => rfl
    | cons x rest ih =>
      intro hall
      rw [List.forall_mem_cons] at hall
      have hx : vf.applyWriter writeFails st.db x = st.db := by
        cases x with
        | writeEvent e => cases hall.1
        | _ => rfl
      rw [List.foldl_cons, hx]
      exact ih hall.2
  have hfwd : Pipeline.forwarded
      (vf.writer.round (vf.answered st.db r readFails writeFails)).1 = [] := by
    refine List.eq_nil_iff_forall_not_mem.mpr fun e he => ?_
    cases hnone _ (Pipeline.mem_forwarded.mp he)
  simp only [step, hdb _ hnone, hfwd, List.append_nil]

/-- With verification required, an empty table and an empty queue are a dead end. -/
theorem step_of_nil (hon : vf.users.isEnabled = true) {st : State}
    (h : st.db.userVerification = []) (hm : st.metadata = []) (a : Action) :
    vf.step st a = st := by
  cases a with
  | write r readFails writeFails => exact step_write_of_not_passes (not_passes hon h _ _)
  | verify web now readFails writeFails recordFails => rw [step, hm]
  | reverify web now stamp fails =>
    have hdb : vf.doReverify st.db web now stamp fails = st.db := by
      rw [doReverify]
      split_ifs
      · rfl
      · obtain ⟨err, herr⟩ := Sqlite.getOldestUserVerification_nil vf.engine
          vf.reader.isAlphanumeric h
          ((now - vf.users.verifyUpdateFrequencyDuration.getD (60 * 60 * 6 * 1000000000)) /
            1000000000)
        simp only [herr]
    rw [step, hdb]
  | lag => rw [step, hm, List.tail_nil, ← hm]

/-- Where nobody is verified and nothing is queued, nothing happens. -/
theorem run_of_nil (hon : vf.users.isEnabled = true) {st : State}
    (h : st.db.userVerification = []) (hm : st.metadata = []) (acts : List Action) :
    vf.run st acts = st :=
  Machine.invariant (P := fun t => t = st) (fun t a _ ht => by rw [ht]; exact step_of_nil hon h hm a)
    rfl

/-- **Only the verified become verified.** With verification required, a kind-0 event that passes
the other checks, with an address or without, is forwarded to the verifier exactly when the
latest record of its author is there, can be read and is valid. From an empty table no step of
the writer or the verifier changes anything. -/
theorem forwarded_iff_verified (vf : Verification) (hon : vf.users.isEnabled = true) :
    (∀ (db : Db) (r : Round), r.verification = vf.lookup db r.event.pubkey →
      r.event.isKindMetadata = true → vf.writer.KindAccepted r → vf.writer.AuthorAccepted r →
      vf.writer.Permitted r →
      (.metadata r.event ∈ (vf.writer.round r).1 ↔
        ∃ uv, vf.lookup db r.event.pubkey = .ok uv ∧ uv.isValid r.now vf.users = .ok true)) ∧
    ∀ db acts, db.userVerification = [] → vf.run ⟨db, []⟩ acts = ⟨db, []⟩ := by
  refine ⟨fun db r hlookup hmeta hkind hauthor hperm => ?_, fun db acts h => ?_⟩
  · have hactive : vf.users.isActive = true := by
      rw [VerifiedUsers.isActive, ← VerifiedUsers.isEnabled, hon, Bool.true_or]
    rw [forward_iff hactive hmeta, ← hlookup]
    exact ⟨fun hp => hp.verified hon, fun h => ⟨hkind, hauthor, fun _ => h, hperm⟩⟩
  · exact run_of_nil hon h rfl acts

/-! ## An author without a record -/

/-- The profiles of the samples. -/
def sampleReader : Nip05Reader where
  isAlphanumeric := Char.isAlphanum
  fromStr s :=
    if s = Sqlite.sampleMetadata.content then
      some (.object [("nip05", .string "bob@example.com")])
    else none

/-- A relay that publishes for verified authors only. -/
def verifiedOnly : Verification where
  writer := DbWriter.verifiedOnly
  reader := sampleReader
  engine := Sql.Engine.inOrder 32766

/-- The profile of an author arrives. -/
def profileRound (db : Db) : Round :=
  { DbWriter.lookupError with verification := verifiedOnly.lookup db Sqlite.sampleMetadata.event.pubkey }

/-- The database of a verified author. -/
def verifiedDb : Db := Sqlite.run (Sql.Engine.inOrder 32766) Sqlite.sampleVerified

/-- The record of this author. -/
def verifiedRecord : VerificationRecord where
  rowid := 1
  name := ⟨"bob", "example.com"⟩
  address := Sqlite.sampleMetadata.event.pubkey
  event := Sqlite.sampleMetadata.event.id
  eventCreated := 1700000060
  lastSuccess := some 1700000070
  lastFailure := none
  failureCount := 0

/-- The profile of a verified author is forwarded; on an empty database it changes
nothing. -/
theorem profile_forwarded :
    .metadata (profileRound verifiedDb).event ∈
        (verifiedOnly.writer.round (profileRound verifiedDb)).1 ∧
      verifiedOnly.run ⟨Db.empty, []⟩ [.write (profileRound Db.empty) false false] =
        ⟨Db.empty, []⟩ := by
  have h := forwarded_iff_verified verifiedOnly (by decide)
  refine ⟨(h.1 verifiedDb (profileRound verifiedDb) rfl (by decide)
    ⟨by decide, by decide⟩ ⟨by decide, fun hp => ?_⟩ (fun hs => absurd hs (by decide))).mpr
    ⟨verifiedRecord, ?_, by decide +kernel⟩, h.2 _ _ rfl⟩
  · cases hp.1
  · decide +kernel

/-- The profile of an author without a record goes nowhere. -/
theorem profile_not_forwarded :
    (profileRound Db.empty).verification =
        verifiedOnly.lookup Db.empty (profileRound Db.empty).event.pubkey ∧
      ((profileRound Db.empty).event.getNip05Addr verifiedOnly.reader).isSome ∧
      verifiedOnly.writer.KindAccepted (profileRound Db.empty) ∧
      verifiedOnly.writer.AuthorAccepted (profileRound Db.empty) ∧
      verifiedOnly.writer.Permitted (profileRound Db.empty) ∧
      .metadata (profileRound Db.empty).event ∉
        (verifiedOnly.writer.round (profileRound Db.empty)).1 := by
  refine ⟨rfl, by decide +kernel, ⟨by decide, by decide⟩, ⟨by decide, fun h => ?_⟩, ?_, ?_⟩
  · cases h.1
  · exact fun h => absurd h (by decide)
  · have hround : (verifiedOnly.writer.round (profileRound Db.empty)).1 =
        [.notice (.blocked Sqlite.sampleMetadata.event.id
          "NIP-05 verification needed to publish events")] := rfl
    rw [hround]
    simp

end Verification

end Floonet
