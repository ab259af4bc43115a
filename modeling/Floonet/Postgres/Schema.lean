import Floonet.Lib.Sql
import Floonet.Event

/-!
# The Postgres schema

The tables `event` and `tag` as the migrations leave them. Events are keyed by
their hash, times are `timestamptz` and the kind is a four-byte integer. A tag row
keeps its value in one of two columns: `value_hex` when the text is lower-case hex
of even length, `value` with the UTF-8 bytes otherwise.

As for SQLite, a `Db` carries the constraints: the primary key of `event` and the
foreign key of `tag`, which cascades. The unique constraint on `tag` is left to
the insert, where `ON CONFLICT … DO NOTHING` answers it. Columns nothing reads
back (`first_seen`, `tag.id`) are left out, and so is `user_verification`, which
the write path touches only through the cascade.
-/

namespace Floonet.Postgres

open Hex (Bytes)

/-- A row of table `event`. -/
structure EventRow where
  /-- `id bytea`, the primary key -/
  id : Bytes
  pubKey : Bytes
  /-- in seconds since 1970, as all times here -/
  createdAt : Int
  expiresAt : Option Int
  kind : Int
  /-- the serialized event object -/
  content : Event
  hidden : Bool
  delegatedBy : Option Bytes

/-- A row of table `tag`. -/
structure TagRow where
  /-- references `event(id)`, cascading -/
  eventId : Bytes
  name : String
  value : Option Bytes
  valueHex : Option Bytes
  deriving DecidableEq

/-- `a = b` on nullable columns, which is not true of `NULL`. -/
def sqlEq (a b : Option Bytes) : Bool := a.any fun x => b == some x

/-- The two rows violate `UNIQUE (event_id, "name", value, value_hex)` together. -/
def TagRow.conflicts (t s : TagRow) : Bool :=
  t.eventId == s.eventId && t.name == s.name && sqlEq t.value s.value &&
    sqlEq t.valueHex s.valueHex

/-- A database that satisfies the constraints of the schema. -/
structure Db where
  events : List EventRow
  tags : List TagRow
  id_nodup : (events.map EventRow.id).Nodup
  tag_fk : ∀ t ∈ tags, ∃ r ∈ events, r.id = t.eventId

namespace Db

/-- The database the migrations leave. -/
def empty : Db where
  events := []
  tags := []
  id_nodup := List.nodup_nil
  tag_fk := fun _ h => absurd h List.not_mem_nil

/-! ## Insert

The uniqueness of tag rows is a field, so an insert carries the proof that a conflicting row is
left out. Columns that are `NULL` never conflict. -/

/-- `INSERT INTO tag … ON CONFLICT … DO NOTHING`. -/
def insertTag (tags : List TagRow) (row : TagRow) : List TagRow :=
  if tags.any row.conflicts then tags else tags ++ [row]

/-- A tag row was there or is new. -/
theorem mem_of_mem_foldl_insertTag (rows : List TagRow) :
    ∀ (tags : List TagRow) (t : TagRow), t ∈ rows.foldl insertTag tags → t ∈ tags ∨ t ∈ rows := by
  induction rows with
  | nil => exact fun tags t ht => Or.inl ht
  | cons row rows ih =>
    intro tags t ht
    rcases ih _ t ht with ht | ht
    · rw [insertTag] at ht
      split_ifs at ht with hc
      · exact Or.inl ht
      · rcases List.mem_append.mp ht with ht | ht
        · exact Or.inl ht
        · exact Or.inr (List.mem_cons.mpr (Or.inl (List.mem_singleton.mp ht)))
    · exact Or.inr (List.mem_cons_of_mem _ ht)

/-- A row with a `NULL` in one of the two value columns is always added, also
when the same row is there already. -/
theorem foldl_insertTag {rows : List TagRow}
    (hnull : ∀ t ∈ rows, t.value = none ∨ t.valueHex = none) (tags : List TagRow) :
    rows.foldl insertTag tags = tags ++ rows := by
  induction rows generalizing tags with
  | nil => rw [List.foldl_nil, List.append_nil]
  | cons row rows ih =>
    have hno : tags.any row.conflicts = false := by
      rw [List.any_eq_false]
      intro s _
      rcases hnull row List.mem_cons_self with h | h <;> simp [TagRow.conflicts, sqlEq, h]
    rw [List.foldl_cons, insertTag, hno, if_neg Bool.false_ne_true,
      ih (fun t ht => hnull t (List.mem_cons_of_mem _ ht)), List.append_assoc,
      List.singleton_append]

/-- A new row of `event`, then its rows of `tag`, one statement each. -/
def insert (db : Db) (row : EventRow) (tags : List TagRow)
    (hid : row.id ∉ db.events.map EventRow.id) (htags : ∀ t ∈ tags, t.eventId = row.id) : Db where
  events := db.events ++ [row]
  tags := tags.foldl insertTag db.tags
  id_nodup := by
    rw [List.map_append]
    exact List.Nodup.append db.id_nodup (List.nodup_singleton _) (by simpa using hid)
  tag_fk := by
    intro t ht
    rcases mem_of_mem_foldl_insertTag tags db.tags t ht with ht | ht
    · obtain ⟨r, hr, he⟩ := db.tag_fk t ht
      exact ⟨r, List.mem_append_left _ hr, he⟩
    · exact ⟨row, List.mem_append_right _ (List.mem_singleton.mpr rfl), (htags t ht).symm⟩

@[simp] theorem mem_insert {db : Db} {row : EventRow} {tags : List TagRow}
    {hid : row.id ∉ db.events.map EventRow.id} {htags : ∀ t ∈ tags, t.eventId = row.id}
    {r : EventRow} : r ∈ (db.insert row tags hid htags).events ↔ r ∈ db.events ∨ r = row := by
  simp [insert]

/-! ## Delete -/

/-- `DELETE FROM "event" WHERE …`, with the tag rows of the deleted events. -/
def deleteEvents (db : Db) (p : EventRow → Bool) : Db where
  events := db.events.filter fun r => !p r
  tags := db.tags.filter fun t => db.events.any fun r => !p r && r.id == t.eventId
  id_nodup := (List.Sublist.map _ List.filter_sublist).nodup db.id_nodup
  tag_fk := by
    intro t ht
    obtain ⟨r, hr, hp⟩ := List.any_eq_true.mp (List.mem_filter.mp ht).2
    rw [Bool.and_eq_true] at hp
    exact ⟨r, List.mem_filter.mpr ⟨hr, hp.1⟩, by simpa using hp.2⟩

/-! ## Hide -/

/-- Set `hidden = 1::bit(1)` where `p` holds. -/
def hideRow (p : EventRow → Bool) (r : EventRow) : EventRow :=
  if p r then { r with hidden := true } else r

section HideRow

variable (p : EventRow → Bool) (r : EventRow)

@[simp] theorem hideRow_id : (hideRow p r).id = r.id := by
  rw [hideRow]; split <;> rfl

@[simp] theorem hideRow_pubKey : (hideRow p r).pubKey = r.pubKey := by
  rw [hideRow]; split <;> rfl

@[simp] theorem hideRow_kind : (hideRow p r).kind = r.kind := by
  rw [hideRow]; split <;> rfl

@[simp] theorem hideRow_hidden : (hideRow p r).hidden = (r.hidden || p r) := by
  rw [hideRow]
  split <;> rename_i h <;> simp [h]

end HideRow

/-- `UPDATE "event" SET hidden = 1::bit(1) WHERE …`. -/
def hideEvents (db : Db) (p : EventRow → Bool) : Db where
  events := db.events.map (hideRow p)
  tags := db.tags
  id_nodup := by
    rw [List.map_map]
    exact (List.map_congr_left fun r _ => hideRow_id p r) ▸ db.id_nodup
  tag_fk := by
    intro t ht
    obtain ⟨r, hr, he⟩ := db.tag_fk t ht
    exact ⟨hideRow p r, List.mem_map_of_mem hr, by rw [hideRow_id, he]⟩

@[simp] theorem mem_hideEvents {db : Db} {p : EventRow → Bool} {r : EventRow} :
    r ∈ (db.hideEvents p).events ↔ ∃ s ∈ db.events, hideRow p s = r := by
  simp [hideEvents]

@[simp] theorem hideEvents_tags (db : Db) (p : EventRow → Bool) :
    (db.hideEvents p).tags = db.tags := rfl

/-- The same events are stored, hidden or not. -/
@[simp] theorem hideEvents_ids (db : Db) (p : EventRow → Bool) :
    (db.hideEvents p).events.map EventRow.id = db.events.map EventRow.id := by
  rw [hideEvents, List.map_map]
  exact List.map_congr_left fun r _ => hideRow_id p r

end Db

end Floonet.Postgres
