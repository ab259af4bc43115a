import Floonet.Sqlite.Schema

/-!
# The SQLite write path

`persistEvent` is `SqliteRepo::persist_event`, statement by statement: the two
queries that refuse an event because a newer one is stored, the insert of the
event and its tag rows, the two clean-up deletes, and the deletion logic of kind
5 in both directions. `deleteExpired` is the periodic sweep.

`NULL` parameters are `none`, and `column = NULL` is never true. A `u64` beyond
the signed range cannot be bound: the refusing queries then fail, which their
callers take for "no row", and the insert fails with an error. An error or an
early return drops the transaction, so the database is as before.

The order of rows that compare equal and the limit on statement variables are the
engine's (`Sql.Engine`).
-/

namespace Floonet.Sqlite

open Hex (Bytes)

variable (eng : Sql.Engine)

/-- Why a write fails. -/
inductive SqlError where
  /-- a `u64` parameter beyond `i64::MAX` -/
  | toSqlConversionFailure
  /-- more `?` variables than the engine prepares -/
  | tooManyVariables
  deriving DecidableEq

/-! ## The refusing queries -/

/-- `SELECT e.id FROM event e WHERE e.author=? AND e.kind=? AND e.created_at >= ?`,
before its `LIMIT 1`. -/
def newerReplaceable (db : Db) (author : Option Bytes) (kind createdAt : Nat) : List EventRow :=
  if fitsI64 kind && fitsI64 createdAt then
    db.events.filter fun r =>
      some r.author == author && r.kind == kind && decide (createdAt ≤ r.createdAt)
  else []

/-- The join both parameterized-replaceable statements are built on:
`event e LEFT JOIN tag t ON e.id=t.event_id WHERE e.author=? AND e.kind=? AND
t.name='d' AND t.value=?`. One row for each matching tag row. -/
def paramRows (db : Db) (author : Option Bytes) (kind : Nat) (d : String) :
    List (EventRow × Option TagRow) :=
  (Sql.leftJoin (fun r t => r.id == t.eventId) db.events db.tags).filter fun rt =>
    rt.2.any fun t => some rt.1.author == author && rt.1.kind == kind && t.name == "d" &&
      t.value == d

/-- `paramRows` with `AND e.created_at >= ?`, before its `LIMIT 1`. -/
def newerParam (db : Db) (author : Option Bytes) (kind createdAt : Nat) (d : String) :
    List (EventRow × Option TagRow) :=
  if fitsI64 kind && fitsI64 createdAt then
    (paramRows db author kind d).filter fun rt => createdAt ≤ rt.1.createdAt
  else []

/-- Some stored event would hide this one, so it is not even inserted. -/
def shadowed (db : Db) (e : Event) : Bool :=
  (e.isReplaceable &&
    !(newerReplaceable db (Hex.decode e.pubkey) e.kind e.createdAt).isEmpty) ||
  match e.distinctParam with
  | some d => !(newerParam db (Hex.decode e.pubkey) e.kind e.createdAt d).isEmpty
  | none => false

/-! ## Insert -/

/-- The integers of the insert can be bound. -/
def representable (e : Event) : Bool :=
  fitsI64 e.createdAt && fitsI64 e.kind && e.expiration.all fitsI64

/-- The row of `INSERT OR IGNORE INTO event`. -/
def eventRow (id : Nat) (hash author : Bytes) (e : Event) : EventRow where
  id := id
  eventHash := hash
  createdAt := e.createdAt
  expiresAt := e.expiration
  author := author
  delegatedBy := e.delegatedBy.bind Hex.decode
  kind := e.kind
  hidden := false
  content := e.serialized

/-- The row of `INSERT OR IGNORE INTO tag` for one name and value. -/
def tagRow (id : Nat) (e : Event) (nv : String × String) : TagRow where
  eventId := id
  name := nv.1
  value := nv.2
  createdAt := e.createdAt
  kind := e.kind

/-- The rows of the tag loop: one for each searchable tag, repetitions included. -/
def tagRows (id : Nat) (e : Event) : List TagRow := e.searchableTags.map (tagRow id e)

theorem nextRowid_notMem (db : Db) : db.nextRowid ∉ db.events.map EventRow.id := by
  intro h
  obtain ⟨r, hr, he⟩ := List.mem_map.mp h
  have := db.lt_nextRowid hr
  omega

/-- The event and its tags inserted, `event_hash` being new. -/
def inserted (db : Db) (e : Event) (hash author : Bytes)
    (hnew : hash ∉ db.events.map EventRow.eventHash) : Db :=
  db.insert (eventRow db.nextRowid hash author e) (tagRows db.nextRowid e)
    (nextRowid_notMem db) hnew (fun t ht => by
      obtain ⟨nv, -, rfl⟩ := List.mem_map.mp ht
      rfl)

/-! ## Clean-up

After the insert the events that the new one replaces are deleted, and their tag rows and
verification records go with them. -/

/-- `DELETE FROM event WHERE kind=? and author=? and id NOT IN (SELECT id FROM
event WHERE kind=? AND author=? ORDER BY created_at DESC LIMIT 1)`. -/
def deleteOlderReplaceable (db : Db) (kind : Nat) (author : Bytes) : Db :=
  let top := ((Sql.orderByDesc eng EventRow.createdAt
    (db.events.filter fun r => r.kind == kind && r.author == author)).take 1).map EventRow.id
  db.deleteEvents fun r => r.kind == kind && r.author == author && !top.contains r.id

/-- The ids of `SELECT e.id … ORDER BY t.created_at DESC LIMIT -1 OFFSET 1`. -/
def olderParam (db : Db) (kind : Nat) (author : Bytes) (d : String) : List Nat :=
  ((Sql.orderByDesc eng (fun rt : EventRow × Option TagRow => (rt.2.map TagRow.createdAt).getD 0)
    (paramRows db (some author) kind d)).drop 1).map fun rt => rt.1.id

/-- `DELETE FROM event WHERE kind=? AND author=? AND id IN (…)`. -/
def deleteOlderParam (db : Db) (kind : Nat) (author : Bytes) (d : String) : Db :=
  db.deleteEvents fun r =>
    r.kind == kind && r.author == author && (olderParam eng db kind author d).contains r.id

/-- Both clean-ups, each behind its guard. -/
def cleaned (db : Db) (e : Event) (author : Bytes) : Db :=
  let db := if e.isReplaceable then deleteOlderReplaceable eng db e.kind author else db
  match e.distinctParam with
  | some d => deleteOlderParam eng db e.kind author d
  | none => db

/-! ## Deletion events

A deletion hides the events it names. Any other event is hidden when a deletion of it is stored,
which is looked up by the text of its id. -/

/-- The hashes a kind-5 event names: its `e` values that are 64 hex characters
of either case, decoded. -/
def deletionHashes (e : Event) : List Bytes :=
  ((e.tagValuesByName "e").filter fun x => isHex x && byteLen x == 64).filterMap Hex.decode

/-- `kind!=5 AND kind!=1059 AND author=? AND event_hash IN (…)`. -/
def deletionTarget (author : Bytes) (hashes : List Bytes) (r : EventRow) : Bool :=
  r.kind != 5 && r.kind != 1059 && r.author == author && hashes.contains r.eventHash

/-- `SELECT e.id FROM event e WHERE e.author=? AND e.id IN (SELECT t.event_id FROM
tag t WHERE t.name='e' AND t.kind=5 AND t.value=?) LIMIT 1` returns a row. -/
def deletionRecorded (db : Db) (author : Bytes) (id : String) : Bool :=
  db.events.any fun r => r.author == author &&
    ((db.tags.filter fun t => t.name == "e" && t.kind == 5 && t.value == id).map
      TagRow.eventId).contains r.id

/-- The end of the transaction: hide what a deletion names, or hide the new
event when a deletion for it is already recorded. Kind 1059 takes part in
neither. -/
def applyDeletions (db : Db) (e : Event) (author : Bytes) (evId : Nat) :
    Except SqlError (Nat × Db) :=
  if e.kind = 5 then
    -- the author and one variable for each hash
    if eng.maxVariables < 1 + (deletionHashes e).length then .error .tooManyVariables
    else .ok (1, db.hideEvents (deletionTarget author (deletionHashes e)))
  else if e.kind ≠ 1059 then
    if deletionRecorded db author e.id then .ok (0, db.hideEvents fun r => r.id == evId)
    else .ok (1, db)
  else .ok (1, db)

/-- Persist an event to the database, returning rows added and the database
after the transaction. -/
def persistEvent (db : Db) (e : Event) : Except SqlError (Nat × Db) :=
  if shadowed db e then .ok (0, db)
  else if !representable e then .error .toSqlConversionFailure
  else
    match Hex.decode e.id, Hex.decode e.pubkey with
    | some hash, some author =>
      -- ignore if the event hash is a duplicate
      if hnew : hash ∈ db.events.map EventRow.eventHash then .ok (0, db)
      else
        applyDeletions eng (cleaned eng (inserted db e hash author hnew) e author) e author
          db.nextRowid
    -- `NOT NULL` fails on the hash or the author, and `OR IGNORE` skips the row
    | _, _ => .ok (0, db)

/-- The database after a call of `persistEvent`, whatever it returned. -/
def write (db : Db) (e : Event) : Db :=
  match persistEvent eng db e with
  | .ok (_, db') => db'
  | .error _ => db

/-- Execute a query to delete all expired events. A clock beyond the signed
range cannot be bound, and then nothing is deleted. -/
def deleteExpired (db : Db) (now : Nat) : Db :=
  -- `expires_at <= ?` is not true of `NULL`
  db.deleteEvents fun r => fitsI64 now && r.expiresAt.any fun exp => decide (exp ≤ now)

end Floonet.Sqlite
