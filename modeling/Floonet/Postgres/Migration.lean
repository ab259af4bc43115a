import Mathlib.Data.List.Lex
import Floonet.Lib.Crash
import Floonet.Lib.Transaction
import Floonet.Postgres.Write

/-!
# The Postgres migrations

A start of the relay runs the migrations whose serial number is not recorded yet, each of them in
a transaction with the record (`runMigration`). The tags are rebuilt between the second and the
third, in a transaction of its own (`rebuildTags`): only in the start that has just run the second.

The catalog has the tables and columns the statements depend on, and the rows a migration reads
or changes. The indexes on other tables and the columns of `event` that no migration reads are
left out.
-/

namespace Floonet.Postgres

open Hex (Bytes)

/-! ## The catalog -/

/-- A row of table `event`, as the migrations read it. -/
structure StoredEvent where
  id : Bytes
  content : Bytes

/-- The indexes on table `tag`. -/
inductive TagIndex where
  | eventId
  | value
  | valueHex
  /-- `UNIQUE (event_id, "name", value, value_hex)` -/
  | unique
  deriving DecidableEq

/-- What no migration touches once it is there. -/
inductive Relation where
  | userVerification
  | account
  | status
  | invoice
  deriving DecidableEq

/-- The tables of the database, as far as the migrations look at them. -/
structure Catalog where
  /-- the serial numbers in table `migrations`, if it is there -/
  migrations : Option (List Nat)
  event : Option (List StoredEvent)
  /-- the rows of table `tag`; a column it does not have yet is `NULL` -/
  tag : Option (List TagRow)
  /-- `tag` has the column `value_hex` -/
  valueHex : Bool
  /-- `tag.value` may be `NULL` -/
  valueNullable : Bool
  indexes : List TagIndex
  /-- `event` has the column `expires_at` -/
  expiresAt : Bool
  relations : List Relation

/-- The catalog before the first start. -/
def Catalog.new : Catalog where
  migrations := none
  event := none
  tag := none
  valueHex := false
  valueNullable := false
  indexes := []
  expiresAt := false
  relations := []

/-- What the statements of a migration leave to the server. -/
structure MigrationServer extends Sql.Engine where
  /-- the row fits the pages of the index -/
  fits : TagIndex → TagRow → Bool
  /-- a `NULL` always does -/
  fits_null : ∀ t, t.valueHex = none → fits .valueHex t = true

/-- Values fit a third of a page with the key beside them. -/
def fitsPage : TagIndex → TagRow → Bool
  | .eventId, _ => true
  | .value, t => t.value.elim 0 List.length ≤ 2600
  | .valueHex, t => t.valueHex.elim 0 List.length ≤ 2600
  | .unique, t => t.value.elim 0 List.length + t.valueHex.elim 0 List.length ≤ 2600

/-- A server that meets rows in insertion order. -/
def MigrationServer.inOrder : MigrationServer where
  toEngine := Sql.Engine.inOrder 65535
  fits := fitsPage
  fits_null t h := by simp [fitsPage, h]

/-- Why a statement of a migration fails. -/
inductive DdlError where
  | duplicateObject
  | undefinedObject
  | uniqueViolation
  | notNullViolation
  | foreignKeyViolation
  | characterNotInRepertoire
  /-- an index row exceeds the size of a btree page -/
  | programLimitExceeded
  deriving DecidableEq

/-- How a start gives up: most errors are unwrapped, those of the rebuild are returned. -/
inductive StartFailure where
  | panic
  | err
  deriving DecidableEq

/-- A statement of a migration: it changes the catalog or fails. -/
abbrev DdlStatement : Type := Catalog → Except DdlError Catalog

/-- The program of a start. -/
abbrev PgStart := Crash.Prog Catalog StartFailure

variable (server : MigrationServer)

/-! ## Statements -/

/-- `CREATE TABLE "event" (…)`. -/
def createEvent : DdlStatement := fun c =>
  match c.event with
  | some _ => .error .duplicateObject
  | none => .ok { c with event := some [] }

/-- `CREATE TABLE "tag" (…)`. -/
def createTag : DdlStatement := fun c =>
  match c.event, c.tag with
  | none, _ => .error .undefinedObject
  | some _, some _ => .error .duplicateObject
  | some _, none => .ok { c with tag := some [] }

/-- `CREATE TABLE …` or `CREATE TYPE …`. -/
def createRelation (r : Relation) : DdlStatement := fun c =>
  if r ∈ c.relations then .error .duplicateObject
  else .ok { c with relations := c.relations ++ [r] }

/-- `CREATE INDEX … ON tag …`. -/
def createIndex (idx : TagIndex) : DdlStatement := fun c =>
  match c.tag with
  | none => .error .undefinedObject
  | some rows =>
    if idx = .valueHex ∧ c.valueHex = false then .error .undefinedObject
    else if idx ∈ c.indexes then .error .duplicateObject
    else if rows.all (server.fits idx) then .ok { c with indexes := c.indexes ++ [idx] }
    else .error .programLimitExceeded

/-- `ALTER TABLE tag ADD COLUMN value_hex bytea`. -/
def addValueHex : DdlStatement := fun c =>
  match c.tag with
  | none => .error .undefinedObject
  | some rows =>
    if c.valueHex then .error .duplicateObject
    else .ok { c with tag := some (rows.map fun t => { t with valueHex := none }), valueHex := true }

/-- `ALTER TABLE tag ALTER COLUMN value DROP NOT NULL`. -/
def dropNotNull : DdlStatement := fun c =>
  match c.tag with
  | none => .error .undefinedObject
  | some _ => .ok { c with valueNullable := true }

/-- `ALTER TABLE tag ADD CONSTRAINT … UNIQUE (event_id, "name", value, value_hex)`. -/
def addUnique : DdlStatement := fun c =>
  match c.tag with
  | none => .error .undefinedObject
  | some rows =>
    if c.valueHex = false then .error .undefinedObject
    else if .unique ∈ c.indexes then .error .duplicateObject
    else if ¬ rows.Pairwise fun t s => t.conflicts s = false then .error .uniqueViolation
    else if rows.all (server.fits .unique) then
      .ok { c with indexes := c.indexes ++ [.unique] }
    else .error .programLimitExceeded

/-- `ALTER TABLE event ADD COLUMN expires_at timestamp(0) with time zone`. -/
def addExpiresAt : DdlStatement := fun c =>
  match c.event with
  | none => .error .undefinedObject
  | some _ =>
    if c.expiresAt then .error .duplicateObject else .ok { c with expiresAt := true }

/-! ## The migrations -/

/-- The tables of events and tags. -/
def m001 : List DdlStatement :=
  [createEvent, createTag, createIndex server .eventId, createIndex server .value,
    createRelation .userVerification]

/-- Hex values of tags get a column of their own. -/
def m002 : List DdlStatement := [addValueHex, dropNotNull, createIndex server .valueHex]

/-- No tag twice. -/
def m003 : List DdlStatement := [addUnique server]

/-- Events can expire. -/
def m004 : List DdlStatement := [addExpiresAt]

/-- Accounts and invoices. -/
def m005 : List DdlStatement :=
  [createRelation .account, createRelation .status, createRelation .invoice]

/-- Running a migration was either unnecessary, or completed. -/
inductive MigrationResult where
  | upgraded
  | notNeeded
  deriving DecidableEq

/-- `CREATE TABLE IF NOT EXISTS migrations (serial_number bigint)`. -/
def prepareMigrationsTable : PgStart Unit :=
  Crash.Prog.commit fun c => .ok ((), { c with migrations := some (c.migrations.getD []) })

/-- `INSERT INTO migrations VALUES ($1)`. -/
def recordSerial (serial : Nat) : DdlStatement := fun c =>
  match c.migrations with
  | none => .error .undefinedObject
  | some serials => .ok { c with migrations := some (serials ++ [serial]) }

/-- The statements between `begin` and `commit`. -/
def migrate (serial : Nat) (sql : List DdlStatement) : DdlStatement := fun c =>
  (sql ++ [recordSerial serial]).foldlM (fun c statement => statement c) c

/-- The transaction, with the `unwrap` of its errors. -/
def migrateTx (serial : Nat) (sql : List DdlStatement) (c : Catalog) :
    Except StartFailure (Unit × Catalog) :=
  match migrate serial sql c with
  | .ok c => .ok ((), c)
  | .error _ => .error .panic

/-- Run the transaction of a migration that is not recorded yet. -/
def migrateUnless (serial : Nat) (sql : List DdlStatement) (serials : List Nat) :
    PgStart MigrationResult :=
  if 0 < serials.count serial then pure .notNeeded
  else do
    Crash.Prog.commit (migrateTx serial sql)
    pure .upgraded

/-- A migration runs once, with its serial number noted down. -/
def runMigration (serial : Nat) (sql : List DdlStatement) : PgStart MigrationResult := do
  let c ← Crash.Prog.read
  match c.migrations with
  | none => Crash.Prog.throw .panic
  | some serials => migrateUnless serial sql serials

/-! ## The rebuild of the tags -/

/-- `String::from_utf8(…).unwrap()` and `serde_json::from_str(…)?`. -/
def readEvent (fromStr : String → Option Event) (content : Bytes) : Except StartFailure Event :=
  match String.fromUTF8? content.toByteArray with
  | none => .error .panic
  | some s =>
    match fromStr s with
    | none => .error .err
    | some e => .ok e

/-- `INSERT INTO tag (…) VALUES (…) ON CONFLICT DO NOTHING`. -/
def insertTag (c : Catalog) (t : TagRow) (rows : List TagRow) :
    Except DdlError (List TagRow) :=
  if c.valueHex = false then .error .undefinedObject
  else if t.value = none ∧ c.valueNullable = false then .error .notNullViolation
  else if t.name.toList.contains (Char.ofNat 0) then .error .characterNotInRepertoire
  else if (c.event.getD []).all fun r => r.id ≠ t.eventId then .error .foreignKeyViolation
  else if ¬ c.indexes.all fun idx => server.fits idx t then .error .programLimitExceeded
  else if .unique ∈ c.indexes ∧ rows.any t.conflicts then .ok rows
  else .ok (rows ++ [t])

/-- One turn of the inner loop, over a tag of more than one element. -/
def rebuildTag (c : Catalog) (eventId : Bytes) (t : List String) :
    Sql.Tx (List TagRow) StartFailure Unit := fun rows =>
  match t with
  | tagname :: tagval :: _ =>
    if (singleCharTagname tagname).isNone then .ok ((), rows)
    else
      -- insert as BLOB if we can restore it losslessly
      let row : TagRow :=
        if byteLen tagval % 2 == 0 && isLowerHex tagval then
          { eventId, name := tagname, value := none, valueHex := Hex.decode tagval }
        else { eventId, name := tagname, value := some (asBytes tagval), valueHex := none }
      match insertTag server c row rows with
      | .ok rows => .ok ((), rows)
      | .error _ => .error .err
  | _ => .ok ((), rows)

/-- One turn of the outer loop. -/
def rebuildEvent (fromStr : String → Option Event) (c : Catalog) (r : StoredEvent) :
    Sql.Tx (List TagRow) StartFailure Unit := fun rows =>
  match readEvent fromStr r.content with
  | .error failure => .error failure
  | .ok e => (e.tags.filter fun x => 1 < x.length).forM (rebuildTag server c r.id) rows

/-- The loop over all events, from an empty table. -/
def rebuilt (fromStr : String → Option Event) (c : Catalog) (events : List StoredEvent) :
    Except StartFailure (Unit × List TagRow) :=
  (Sql.orderByAsc server.toEngine (fun r : StoredEvent => r.id.map UInt8.toNat) events).forM
    (rebuildEvent server fromStr c) []

/-- The transaction of the rebuild. -/
def rebuildTx (fromStr : String → Option Event) (c : Catalog) :
    Except StartFailure (Unit × Catalog) :=
  match c.event, c.tag with
  | some events, some _ =>
    match rebuilt server fromStr c events with
    | .ok ((), rows) => .ok ((), { c with tag := some rows })
    | .error failure => .error failure
  | _, none => .error .err
  | none, some _ => .error .panic

/-- All tags are written anew, in one transaction. -/
def rebuildTags (fromStr : String → Option Event) : PgStart Unit :=
  Crash.Prog.commit (rebuildTx server fromStr)

/-- `SELECT max(serial_number) FROM migrations`. -/
def currentVersion : PgStart Nat := do
  let c ← Crash.Prog.read
  match c.migrations.bind List.max? with
  | some n => pure n
  | none => Crash.Prog.throw .panic

/-- Execute all migrations on the database. -/
def runMigrations (fromStr : String → Option Event) : PgStart Nat := do
  prepareMigrationsTable
  let _ ← runMigration 1 (m001 server)
  let m002Result ← runMigration 2 (m002 server)
  if m002Result = .upgraded then rebuildTags server fromStr
  let _ ← runMigration 3 (m003 server)
  let _ ← runMigration 4 m004
  let _ ← runMigration 5 m005
  currentVersion

end Floonet.Postgres
