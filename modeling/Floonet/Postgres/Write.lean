import Floonet.Lib.Outcome
import Floonet.Postgres.Schema

/-!
# The Postgres write path

`writeEvent` is `PostgresRepo::write_event`, statement by statement. An error or a
panic drops the transaction, so the database is as before.

What can go wrong on the way is part of the model: `Utc.timestamp_opt(…).unwrap()`
panics outside the years of chrono, the server refuses times before 4714 BC, kinds
beyond four bytes, a `NULL` id or key, a NUL character in a name and a tag that
does not fit an index page, and `IN ()` does not parse.
-/

namespace Floonet.Postgres

open Hex (Bytes)

/-- Why a statement fails. -/
inductive PgError where
  | datetimeFieldOverflow
  | numericValueOutOfRange
  | notNullViolation
  | characterNotInRepertoire
  /-- an index row exceeds the size of a btree page -/
  | programLimitExceeded
  | syntaxError
  /-- more parameters than one statement may bind -/
  | tooManyParameters
  deriving DecidableEq

/-- What the statements leave to the server. -/
structure Server extends Sql.Engine where
  /-- the row fits the pages of the indexes on `tag` -/
  indexable : TagRow → Bool

/-- A server that meets rows in insertion order, binds what the wire protocol can
count, and takes tag values that fit a third of a page with the key beside them. -/
def Server.inOrder : Server where
  toEngine := Sql.Engine.inOrder 65535
  indexable t := (t.value.elim 0 List.length) + (t.valueHex.elim 0 List.length) ≤ 2600

variable (server : Server)

/-! ## Parameters -/

/-- `DateTime::<Utc>::MIN_UTC` and `MAX_UTC`, in seconds. -/
def minUtc : Int := -8334601228800

@[inherit_doc minUtc] def maxUtc : Int := 8210266876799

/-- `Utc.timestamp_opt(secs, 0)`. -/
def timestampOpt (secs : Int) : Option Int :=
  if minUtc ≤ secs ∧ secs ≤ maxUtc then some secs else none

/-- The first `timestamptz`, in 4714 BC. The last one is beyond `maxUtc`. -/
def minTimestamptz : Int := -210866803200

/-- The server reads a time. -/
def readTimestamptz (t : Int) : Outcome PgError Int :=
  if minTimestamptz ≤ t then .ok t else .err .datetimeFieldOverflow

/-- `Utc.timestamp_opt(e.created_at as i64, 0).unwrap()`, bound and read. -/
def createdAtParam (e : Event) : Outcome PgError Int := do
  let t ← Outcome.unwrap (timestampOpt (asI64 e.createdAt))
  readTimestamptz t

/-- The expiration, bound and read; `NULL` when there is none or chrono does not
know it. -/
def expiresAtParam (e : Event) : Outcome PgError (Option Int) :=
  match e.expiration.bind fun x => timestampOpt (asI64 x) with
  | some t => do
    let t ← readTimestamptz t
    pure (some t)
  | none => pure none

/-- `e.kind as i64` assigned to an `integer` column. -/
def kindParam (e : Event) : Outcome PgError Int :=
  if -2 ^ 31 ≤ asI64 e.kind ∧ asI64 e.kind < 2 ^ 31 then .ok (asI64 e.kind)
  else .err .numericValueOutOfRange

/-- `str::as_bytes`. -/
def asBytes (s : String) : Bytes := s.toList.flatMap String.utf8EncodeChar

/-- The text goes to the `value_hex` column. -/
def storedAsHex (v : String) : Bool := isLowerHex v && byteLen v % 2 == 0

/-! ## The refusing queries

The lookups come before the insert. A row that is found ends the write without an error, so the
caller is told that nothing was new. -/

/-- `SELECT e.id FROM event e WHERE e.pub_key=$1 AND e.kind=$2 AND e.created_at >= $3`,
before its `LIMIT 1`. -/
def newerReplaceable (db : Db) (pubKey : Option Bytes) (kind createdAt : Int) : List EventRow :=
  db.events.filter fun r =>
    some r.pubKey == pubKey && r.kind == kind && decide (createdAt ≤ r.createdAt)

/-- A `d` tag with this value, in the column the value is stored in. -/
def dTagIs (d : String) (t : TagRow) : Bool :=
  t.name == "d" &&
    if storedAsHex d then sqlEq t.valueHex (Hex.decode d) else sqlEq t.value (some (asBytes d))

/-- The join the parameterized-replaceable statements are built on: `event e LEFT
JOIN tag t ON e.id=t.event_id WHERE e.pub_key=… AND e.kind=… AND t.name='d' AND …`. -/
def paramRows (db : Db) (pubKey : Option Bytes) (kind : Int) (d : String) :
    List (EventRow × Option TagRow) :=
  (Sql.leftJoin (fun r t => r.id == t.eventId) db.events db.tags).filter fun rt =>
    rt.2.any fun t => some rt.1.pubKey == pubKey && rt.1.kind == kind && dTagIs d t

/-- Some stored event would hide this one, so it is not even inserted. -/
def shadowed (db : Db) (e : Event) : Outcome PgError Bool := do
  let pubKey := Hex.decode e.pubkey
  let newer ←
    if e.isReplaceable then do
      let createdAt ← createdAtParam e
      pure !(newerReplaceable db pubKey (asI64 e.kind) createdAt).isEmpty
    else pure false
  if newer then pure true
  else
    match e.distinctParam with
    | some d => do
      let createdAt ← createdAtParam e
      pure !((paramRows db pubKey (asI64 e.kind) d).filter fun rt =>
        decide (createdAt ≤ rt.1.createdAt)).isEmpty
    | none => pure false

/-! ## Insert -/

/-- The row of `INSERT INTO "event"`. -/
def eventRow (e : Event) : Outcome PgError EventRow := do
  let createdAt ← createdAtParam e
  let expiresAt ← expiresAtParam e
  let kind ← kindParam e
  match Hex.decode e.id, Hex.decode e.pubkey with
  | some id, some pubKey =>
    .ok
      { id, pubKey, createdAt, expiresAt, kind
        content := e.serialized
        hidden := false
        delegatedBy := e.delegatedBy.bind Hex.decode }
  | _, _ => .err .notNullViolation

/-- The row of `INSERT INTO tag` for one name and value. -/
def tagRow (id : Bytes) (nv : String × String) : TagRow where
  eventId := id
  name := nv.1
  value := if storedAsHex nv.2 then none else some (asBytes nv.2)
  valueHex := if storedAsHex nv.2 then Hex.decode nv.2 else none

/-- The rows of the tag loop: one for each searchable tag, repetitions included. -/
def tagRows (id : Bytes) (e : Event) : List TagRow := e.searchableTags.map (tagRow id)

/-- Why the server refuses a tag row. -/
def refusal (t : TagRow) : Option PgError :=
  if t.name.toList.contains (Char.ofNat 0) then some .characterNotInRepertoire
  else if server.indexable t then none
  else some .programLimitExceeded

theorem eventId_of_mem_tagRows {id : Bytes} {e : Event} :
    ∀ t ∈ tagRows id e, t.eventId = id := by
  intro t ht
  obtain ⟨nv, -, rfl⟩ := List.mem_map.mp ht
  rfl

/-- The event and its tags inserted, the id being new. -/
def inserted (db : Db) (e : Event) (row : EventRow)
    (hnew : row.id ∉ db.events.map EventRow.id) : Db :=
  db.insert row (tagRows row.id e) hnew eventId_of_mem_tagRows

/-! ## Clean-up

After the insert the older rows of a replaceable event are deleted, through the author and kind or
through the `d` tags. -/

/-- `DELETE FROM "event" WHERE kind=$1 and pub_key = $2 and id not in (select id from
"event" where kind=$1 and pub_key=$2 order by created_at desc limit 1)`. -/
def deleteOlderReplaceable (db : Db) (kind : Int) (pubKey : Bytes) : Db :=
  let top := ((Sql.orderByDesc server.toEngine EventRow.createdAt
    (db.events.filter fun r => r.kind == kind && r.pubKey == pubKey)).take 1).map EventRow.id
  db.deleteEvents fun r => r.kind == kind && r.pubKey == pubKey && !top.contains r.id

/-- `DELETE FROM event WHERE kind=$1 AND pub_key=$2 AND id IN (SELECT e.id … ORDER BY
created_at DESC OFFSET 1)`. -/
def deleteOlderParam (db : Db) (kind : Int) (pubKey : Bytes) (d : String) : Db :=
  let older := ((Sql.orderByDesc server.toEngine
    (fun rt : EventRow × Option TagRow => rt.1.createdAt)
    (paramRows db (some pubKey) kind d)).drop 1).map fun rt => rt.1.id
  db.deleteEvents fun r => r.kind == kind && r.pubKey == pubKey && older.contains r.id

/-- Both clean-ups, each behind its guard. -/
def cleaned (db : Db) (e : Event) (pubKey : Bytes) : Db :=
  let db :=
    if e.isReplaceable then deleteOlderReplaceable server db (asI64 e.kind) pubKey else db
  match e.distinctParam with
  | some d => deleteOlderParam server db (asI64 e.kind) pubKey d
  | none => db

/-! ## Deletion events

A deletion hides what its tags name; any other event is checked against the deletions stored
before. Gift wraps are left out of both. -/

/-- The ids a kind-5 event names: its `e` values that are 64 hex characters of
either case, decoded. -/
def deletionIds (e : Event) : List Bytes :=
  ((e.tagValuesByName "e").filter fun x => isHex x && byteLen x == 64).filterMap Hex.decode

/-- `kind != 5 AND kind != 1059 AND pub_key = … AND id IN (…)`. -/
def deletionTarget (pubKey : Bytes) (ids : List Bytes) (r : EventRow) : Bool :=
  r.kind != 5 && r.kind != 1059 && r.pubKey == pubKey && ids.contains r.id

/-- `SELECT e.id FROM "event" e LEFT JOIN tag t ON e.id = t.event_id WHERE
e.pub_key = $1 AND t."name" = 'e' AND e.kind = 5 AND t.value = $2 LIMIT 1` returns a
row. -/
def deletionRecorded (db : Db) (pubKey id : Bytes) : Bool :=
  !((Sql.leftJoin (fun r t => r.id == t.eventId) db.events db.tags).filter fun rt =>
    rt.2.any fun t => rt.1.pubKey == pubKey && t.name == "e" && rt.1.kind == 5 &&
      sqlEq t.value (some id)).isEmpty

/-- The end of the transaction: hide what a deletion names, or hide the new
event when a deletion for it is already recorded. Kind 1059 takes part in
neither. -/
def applyDeletions (db : Db) (e : Event) (row : EventRow) : Outcome PgError (Nat × Db) :=
  if e.kind = 5 then
    if deletionIds e = [] then .err .syntaxError
    else if server.maxVariables < 1 + (deletionIds e).length then .err .tooManyParameters
    else .ok (1, db.hideEvents (deletionTarget row.pubKey (deletionIds e)))
  else if e.kind ≠ 1059 then
    if deletionRecorded db row.pubKey row.id then .ok (0, db.hideEvents fun r => r.id == row.id)
    else .ok (1, db)
  else .ok (1, db)

/-- Persist an event to the database, returning rows added and the database
after the transaction. -/
def writeEvent (db : Db) (e : Event) : Outcome PgError (Nat × Db) := do
  let shadow ← shadowed db e
  if shadow then pure (0, db)
  else
    let row ← eventRow e
    -- ignore if the event hash is a duplicate
    if hnew : row.id ∈ db.events.map EventRow.id then pure (0, db)
    else
      match (tagRows row.id e).findSome? (refusal server) with
      | some err => .err err
      | none =>
        applyDeletions server (cleaned server (inserted db e row hnew) e row.pubKey) e row

/-- The database after a call of `writeEvent`, whatever it returned. -/
def write (db : Db) (e : Event) : Db :=
  match writeEvent server db e with
  | .ok (_, db') => db'
  | _ => db

end Floonet.Postgres
