import Floonet.Lib.Crash
import Floonet.Sqlite.TagMigration

/-!
# The upgrade of a database file

A start of the relay brings the file from the version it finds to the current one, through
every version in between (`upgradeDb`). Most migrations are batches of statements, each of
which is committed for itself; the ones that walk over rows are one transaction. The power can
go off in front of every commit, and the next start goes by the version it finds.

Indexes, pragmas other than `user_version`, and `VACUUM` are left out: they hold no rows, and
the statements for them can be repeated.
-/

namespace Floonet.Sqlite

open Hex (Bytes)

/-! ## The file -/

/-- The columns that later versions added to table `event`. -/
structure Columns where
  hidden : Bool
  delegatedBy : Bool
  expiresAt : Bool
  deriving DecidableEq

/-- A row of table `event`. A column the table does not have yet is `NULL`. -/
structure FileRow where
  id : Nat
  eventHash : Bytes
  createdAt : Int
  author : Bytes
  kind : Int
  /-- the serialized event object -/
  content : String
  hidden : Option Bool
  delegatedBy : Option Bytes
  expiresAt : Option Int

/-- A row of the tables `event_ref` and `pubkey_ref` of the first versions. -/
structure RefRow where
  eventId : Nat
  referenced : Bytes

/-- A file of any version. -/
structure File where
  userVersion : Nat
  /-- table `event`, if it is there -/
  columns : Option Columns
  events : List FileRow
  eventRef : Option (List RefRow)
  pubkeyRef : Option (List RefRow)
  tag : Option TagTable
  userVerification : Option (List VerificationRow)
  /-- whether these tables are there; no migration touches their rows -/
  account : Bool
  invoice : Bool
  nameClaims : Bool
  id_nodup : (events.map FileRow.id).Nodup

namespace File

/-- The file before the first start. -/
def new : File where
  userVersion := 0
  columns := none
  events := []
  eventRef := none
  pubkeyRef := none
  tag := none
  userVerification := none
  account := false
  invoice := false
  nameClaims := false
  id_nodup := List.nodup_nil

/-- `UPDATE event SET …`, for columns other than the key. -/
def mapEvents (f : File) (g : FileRow → FileRow) (hid : ∀ r, (g r).id = r.id) : File :=
  { f with
    events := f.events.map g
    id_nodup := by
      rw [List.map_map]
      exact (List.map_congr_left fun r _ => hid r) ▸ f.id_nodup }

/-- `DELETE FROM event WHERE …`, with the rows of the other tables that refer to these events. -/
def deleteEvents (f : File) (p : FileRow → Bool) : File :=
  let stays := fun id => f.events.any fun r => !p r && r.id == id
  { f with
    events := f.events.filter fun r => !p r
    eventRef := f.eventRef.map fun rows => rows.filter fun x => stays x.eventId
    pubkeyRef := f.pubkeyRef.map fun rows => rows.filter fun x => stays x.eventId
    tag := f.tag.map fun
      | .v15 rows => .v15 (rows.filter fun t => stays t.eventId)
      | .v16 rows => .v16 (rows.filter fun t => stays t.eventId)
    userVerification := f.userVerification.map fun rows =>
      rows.filter fun v => stays v.metadataEvent
    id_nodup := (List.Sublist.map _ List.filter_sublist).nodup f.id_nodup }

end File

/-! ## Statements -/

/-- Why a statement of an upgrade fails. -/
inductive UpgradeError where
  | duplicateColumn
  | noSuchTable
  | migration (err : MigrationError)
  deriving DecidableEq

/-- A statement that is committed for itself. -/
abbrev Statement : Type := File → Except UpgradeError File

/-- The statements of a transaction. -/
abbrev Upgrade := Sql.Tx File UpgradeError

/-- How a start gives up: in a batch it panics, from a transaction it returns the error. -/
inductive Failure where
  | panic
  | err (e : UpgradeError)
  deriving DecidableEq

/-- The program of a start. -/
abbrev Start := Crash.Prog File Failure

/-- `PRAGMA user_version = n`. -/
def setVersion (n : Nat) : Statement := fun f => .ok { f with userVersion := n }

/-- `ALTER TABLE event ADD …`. There is no `IF NOT EXISTS` for columns. -/
def addColumn (has : Columns → Bool) (add : Columns → Columns) (null : FileRow → FileRow)
    (hid : ∀ r, (null r).id = r.id) : Statement := fun f =>
  match f.columns with
  | none => .error .noSuchTable
  | some c =>
    if has c then .error .duplicateColumn
    else .ok { f.mapEvents null hid with columns := some (add c) }

/-- `ALTER TABLE event ADD hidden INTEGER`. -/
def addHidden : Statement :=
  addColumn Columns.hidden (fun c => { c with hidden := true })
    (fun r => { r with hidden := none }) fun _ => rfl

/-- `ALTER TABLE event ADD delegated_by BLOB`. -/
def addDelegatedBy : Statement :=
  addColumn Columns.delegatedBy (fun c => { c with delegatedBy := true })
    (fun r => { r with delegatedBy := none }) fun _ => rfl

/-- `ALTER TABLE event ADD COLUMN expires_at INTEGER`. -/
def addExpiresAt : Statement :=
  addColumn Columns.expiresAt (fun c => { c with expiresAt := true })
    (fun r => { r with expiresAt := none }) fun _ => rfl

/-- `UPDATE event SET hidden=FALSE`. -/
def showAll : Statement := fun f =>
  .ok (f.mapEvents (fun r => { r with hidden := some false }) fun _ => rfl)

/-- `DELETE FROM event WHERE HIDDEN=true`. -/
def deleteHidden : Statement := fun f => .ok (f.deleteEvents fun r => r.hidden == some true)

/-- `CREATE TABLE IF NOT EXISTS event (…)`, with all columns. -/
def createEvent : Statement := fun f =>
  .ok { f with columns := some (f.columns.getD ⟨true, true, true⟩) }

/-- `CREATE TABLE IF NOT EXISTS tag (…)`, as either version declares it. -/
def createTag (t : TagTable) : Statement := fun f => .ok { f with tag := some (f.tag.getD t) }

/-- `CREATE TABLE IF NOT EXISTS user_verification (…)`. -/
def createUserVerification : Statement := fun f =>
  .ok { f with userVerification := some (f.userVerification.getD []) }

/-- `CREATE TABLE IF NOT EXISTS account (…)`. -/
def createAccount : Statement := fun f => .ok { f with account := true }

/-- `CREATE TABLE IF NOT EXISTS invoice (…)`. -/
def createInvoice : Statement := fun f => .ok { f with invoice := true }

/-- `CREATE TABLE IF NOT EXISTS name_claims (…)`. -/
def createNameClaims : Statement := fun f => .ok { f with nameClaims := true }

/-- `DROP TABLE IF EXISTS event_ref`. -/
def dropEventRef : Statement := fun f => .ok { f with eventRef := none }

/-- `DROP TABLE IF EXISTS pubkey_ref`. -/
def dropPubkeyRef : Statement := fun f => .ok { f with pubkeyRef := none }

/-- `Connection::execute_batch`, with the `panic!` on its error. -/
def executeBatch (statements : List Statement) : Start Unit :=
  Crash.Prog.batch (fun _ => .panic) statements

/-- A transaction up to its `commit`, with the `?` on its errors. -/
def inTransaction (body : Upgrade Unit) : Start Unit :=
  Crash.Prog.commit fun f =>
    match body f with
    | .ok ((), f') => .ok ((), f')
    | .error e => .error (.err e)

/-! ## The transactions

Four migrations run in a transaction that loops over rows of the file. What does not read or does
not fit gives the transaction up. -/

/-- A new row of table `tag` before version 16. -/
def insertTag15 (row : TagRow15) : Upgrade Unit := fun f =>
  match f.tag with
  | some (.v15 rows) =>
    if row.eventId ∈ f.events.map FileRow.id then
      .ok ((), { f with tag := some (.v15 (rows ++ [row])) })
    else .error (.migration .foreignKey)
  | some (.v16 _) => .error (.migration .noSuchColumn)
  | none => .error .noSuchTable

/-- `select event_id, "e", lower(hex(referenced_event)) from event_ref union select event_id,
"p", lower(hex(referenced_pubkey)) from pubkey_ref`. -/
def refTags (es ps : List RefRow) : List (Nat × String × String) :=
  (es.map (fun x => (x.eventId, "e", Hex.encode x.referenced)) ++
    ps.map fun x => (x.eventId, "p", Hex.encode x.referenced)).dedup

/-- This will leave behind p/e tags that were non-hex, but they are invalid anyways. -/
def insertRef (x : Nat × String × String) : Upgrade Unit :=
  if isLowerHex x.2.2 then
    insertTag15 ⟨x.1, some x.2.1, none, Hex.decode x.2.2⟩
  else pure ()

/-- Iterate over every event/pubkey tag. -/
def copyRefs : Upgrade Unit := do
  let f ← get
  match f.eventRef, f.pubkeyRef with
  | some es, some ps => (refTags es ps).forM insertRef
  | _, _ => throw .noSuchTable

/-- One turn of the inner loop of the rebuild, over a tag of more than one element. -/
def insertTagOf15 (eventId : Nat) (t : List String) : Upgrade Unit :=
  match t with
  | tagname :: tagval :: _ =>
    if (singleCharTagname tagname).isNone then pure ()
    -- insert as BLOB if we can restore it losslessly
    else if byteLen tagval % 2 == 0 && isLowerHex tagval then
      insertTag15 ⟨eventId, some tagname, none, Hex.decode tagval⟩
    else insertTag15 ⟨eventId, some tagname, some tagval, none⟩
  | _ => pure ()

/-- One turn of the outer loop of the rebuild. -/
def rebuildRow (fromStr : String → Option Event) (row : FileRow) : Upgrade Unit :=
  match fromStr row.content with
  | some e => (e.tags.filter fun x => 1 < x.length).forM (insertTagOf15 row.id)
  | none => throw (.migration .serdeJson)

/-- `DELETE FROM tag`. -/
def clearTags : Upgrade Unit := fun f =>
  match f.tag with
  | some (.v15 _) => .ok ((), { f with tag := some (.v15 []) })
  | some (.v16 _) => .ok ((), { f with tag := some (.v16 []) })
  | none => .error .noSuchTable

/-- `PRAGMA user_version = n` in a transaction. -/
def setVersionTx (n : Nat) : Upgrade Unit := modify fun f => { f with userVersion := n }

/-- The transaction of `mig_5_to_6`. -/
def rebuildTags (eng : Sql.Engine) (fromStr : String → Option Event) : Upgrade Unit := do
  clearTags
  let f ← get
  (Sql.orderByAsc eng FileRow.id f.events).forM (rebuildRow fromStr)
  setVersionTx 6

/-- `kind in (0,3,41) or (kind>=10000 and kind<20000)`. -/
def replaceableRow (r : FileRow) : Bool :=
  r.kind == 0 || r.kind == 3 || r.kind == 41 || (10000 ≤ r.kind && r.kind < 20000)

/-- `UPDATE event SET hidden=TRUE WHERE hidden!=TRUE and kind=? and author=? and id NOT IN
(SELECT id FROM event WHERE kind=? AND author=? ORDER BY created_at DESC LIMIT 1)`. -/
def hideOlder (eng : Sql.Engine) (x : Int × Bytes) : Upgrade Unit := modify fun f =>
  let top := ((Sql.orderByDesc eng FileRow.createdAt
    (f.events.filter fun r => r.kind == x.1 && r.author == x.2)).take 1).map FileRow.id
  f.mapEvents (fun r =>
    if r.hidden == some false && r.kind == x.1 && r.author == x.2 && !top.contains r.id then
      { r with hidden := some true }
    else r) fun r => by split_ifs <;> rfl

/-- The transaction of `mig_11_to_12`. -/
def hideReplaced (eng : Sql.Engine) : Upgrade Unit := do
  let f ← get
  ((Sql.orderByAsc eng FileRow.id (f.events.filter replaceableRow)).map fun r =>
    (r.kind, r.author)).forM (hideOlder eng)
  setVersionTx 12

/-- The columns of version 15. -/
def FileRow.row15 (r : FileRow) : EventRow15 where
  id := r.id
  eventHash := r.eventHash
  createdAt := r.createdAt
  author := r.author
  delegatedBy := r.delegatedBy
  kind := r.kind
  hidden := r.hidden == some true
  content := r.content

/-- The tables of version 15. -/
def File.database (f : File) (tags : TagTable) : Database where
  userVersion := f.userVersion
  events := f.events.map FileRow.row15
  tags := tags
  userVerification := f.userVerification.getD []
  id_nodup := by
    rw [List.map_map]
    exact f.id_nodup

/-- The transaction of `mig_15_to_16`. -/
def recreate (eng : Sql.Engine) (fromStr : String → Option Event) : Upgrade Unit := fun f =>
  match f.tag with
  | none => .error .noSuchTable
  | some tags =>
    match mig15To16 eng fromStr (f.database tags) with
    | (.ok _, db) => .ok ((), { f with userVersion := db.userVersion, tag := some db.tags })
    | (.error e, _) => .error (.migration e)

/-! ## The migrations -/

/-- Latest database version. -/
def DB_VERSION : Nat := 19

/-- A new file gets all tables at once. -/
def migInit : Start Nat := do
  executeBatch [setVersion DB_VERSION, createEvent, createTag (.v16 []), createUserVerification,
    createAccount, createInvoice, createNameClaims]
  pure DB_VERSION

/-- Events can be hidden. -/
def mig1To2 : Start Nat := do
  executeBatch [addHidden, showAll, setVersion 2]
  pure 2

/-- One table of tags takes the place of two tables of references. -/
def mig2To3 : Start Nat := do
  executeBatch [createTag (.v15 []), setVersion 3]
  inTransaction copyRefs
  pure 3

/-- User verification. -/
def mig3To4 : Start Nat := do
  executeBatch [createUserVerification, setVersion 4]
  pure 4

/-- The tables of references go. -/
def mig4To5 : Start Nat := do
  executeBatch [dropEventRef, dropPubkeyRef, setVersion 5]
  pure 5

/-- The tags are rebuilt from the events. -/
def mig5To6 (eng : Sql.Engine) (fromStr : String → Option Event) : Start Nat := do
  inTransaction (rebuildTags eng fromStr)
  pure 6

/-- Delegated events. -/
def mig6To7 : Start Nat := do
  executeBatch [addDelegatedBy, setVersion 7]
  pure 7

/-- A migration that changes nothing but indexes. -/
def migIndexes (n : Nat) : Start Nat := do
  executeBatch [setVersion n]
  pure n

/-- Indexes only, as up to version 11. -/
def mig7To8 : Start Nat := migIndexes 8

/-- Indexes only. -/
def mig8To9 : Start Nat := migIndexes 9

/-- Indexes only. -/
def mig9To10 : Start Nat := migIndexes 10

/-- Indexes only. -/
def mig10To11 : Start Nat := migIndexes 11

/-- Replaced events are hidden. -/
def mig11To12 (eng : Sql.Engine) : Start Nat := do
  inTransaction (hideReplaced eng)
  pure 12

/-- Indexes only. -/
def mig12To13 : Start Nat := migIndexes 13

/-- Indexes only. -/
def mig13To14 : Start Nat := migIndexes 14

/-- Hidden events go. -/
def mig14To15 : Start Nat := do
  executeBatch [setVersion 15]
  -- clear out hidden events
  executeBatch [deleteHidden]
  pure 15

/-- `mig_15_to_16` in a start. -/
def mig15To16Start (eng : Sql.Engine) (fromStr : String → Option Event) : Start Nat := do
  inTransaction (recreate eng fromStr)
  pure 16

/-- Events can expire. -/
def mig16To17 : Start Nat := do
  executeBatch [addExpiresAt, setVersion 17]
  pure 17

/-- Accounts and invoices. -/
def mig17To18 : Start Nat := do
  executeBatch [createInvoice, createAccount, setVersion 18]
  pure 18

/-- Claims of names. -/
def mig18To19 : Start Nat := do
  executeBatch [createNameClaims, setVersion 19]
  pure 19

/-- `if curr_version == n { curr_version = … }`. -/
def whenAt (n : Nat) (mig : Start Nat) (currVersion : Nat) : Start Nat :=
  if currVersion = n then mig else pure currVersion

/-- The migrations in the order they are tried, each with the version it is for. -/
def migrations (eng : Sql.Engine) (fromStr : String → Option Event) : List (Nat × Start Nat) :=
  [(0, migInit), (1, mig1To2), (2, mig2To3), (3, mig3To4), (4, mig4To5), (5, mig5To6 eng fromStr),
    (6, mig6To7), (7, mig7To8), (8, mig8To9), (9, mig9To10), (10, mig10To11),
    (11, mig11To12 eng), (12, mig12To13), (13, mig13To14), (14, mig14To15),
    (15, mig15To16Start eng fromStr), (16, mig16To17), (17, mig17To18), (18, mig18To19)]

/-- Upgrade DB to latest version. -/
def upgradeDb (eng : Sql.Engine) (fromStr : String → Option Event) : Start Nat := do
  let f ← Crash.Prog.read
  -- newer than what this code understands
  if DB_VERSION < f.userVersion then Crash.Prog.throw .panic
  else
    let _ ← (migrations eng fromStr).foldlM (fun v x => whenAt x.1 x.2 v) f.userVersion
    pure DB_VERSION

end Floonet.Sqlite
