import Floonet.Lib.Sql
import Floonet.Event

/-!
# The SQLite schema

The three tables the write path touches, as `INIT_SQL` of schema version 19
declares them: `event`, `tag` and `user_verification`. A `Db` carries the
constraints of the schema, so a database that breaks one cannot be built: the
integer primary keys, the unique index on `event_hash`, and the two foreign keys
into `event`, which are enforced (`PRAGMA foreign_keys = ON`) and cascade on
delete.

Columns nothing in the repository reads back (`first_seen`, `tag.id`,
`tag.value_hex`) are left out. The `content` column holds the event as
`serde_json` writes it, kept here as the event itself.
-/

namespace Floonet.Sqlite

open Hex (Bytes)

/-- A row of table `event`. -/
structure EventRow where
  /-- `id INTEGER PRIMARY KEY` -/
  id : Nat
  /-- `event_hash BLOB NOT NULL`, under a unique index -/
  eventHash : Bytes
  createdAt : Nat
  expiresAt : Option Nat
  author : Bytes
  delegatedBy : Option Bytes
  kind : Nat
  hidden : Bool
  /-- the serialized event object -/
  content : Event

/-- A row of table `tag`. -/
structure TagRow where
  /-- references `event(id)`, cascading -/
  eventId : Nat
  name : String
  value : String
  createdAt : Nat
  kind : Nat
  deriving DecidableEq

/-- A row of table `user_verification`. -/
structure VerificationRow where
  id : Nat
  /-- references `event(id)`, cascading -/
  metadataEvent : Nat
  name : String
  verifiedAt : Option Nat
  failedAt : Option Nat
  failureCount : Nat
  deriving DecidableEq

/-- A database that satisfies the constraints of the schema. -/
structure Db where
  events : List EventRow
  tags : List TagRow
  userVerification : List VerificationRow
  id_nodup : (events.map EventRow.id).Nodup
  hash_nodup : (events.map EventRow.eventHash).Nodup
  verification_id_nodup : (userVerification.map VerificationRow.id).Nodup
  tag_fk : ∀ t ∈ tags, ∃ r ∈ events, r.id = t.eventId
  verification_fk : ∀ v ∈ userVerification, ∃ r ∈ events, r.id = v.metadataEvent

namespace Db

/-- The database `mig_init` leaves. -/
def empty : Db where
  events := []
  tags := []
  userVerification := []
  id_nodup := List.nodup_nil
  hash_nodup := List.nodup_nil
  verification_id_nodup := List.nodup_nil
  tag_fk := fun _ h => absurd h List.not_mem_nil
  verification_fk := fun _ h => absurd h List.not_mem_nil

/-- Databases are determined by their tables. -/
theorem ext {db db' : Db} (he : db.events = db'.events) (ht : db.tags = db'.tags)
    (hv : db.userVerification = db'.userVerification) : db = db' := by
  cases db; cases db'
  subst he; subst ht; subst hv
  rfl

/-- An id belongs to at most one row. -/
theorem eq_of_id_eq (db : Db) {r s : EventRow} (hr : r ∈ db.events) (hs : s ∈ db.events)
    (h : r.id = s.id) : r = s :=
  List.inj_on_of_nodup_map db.id_nodup hr hs h

/-- The rowid of the next insert: one more than the largest in use. -/
def nextRowid (db : Db) : Nat := (db.events.map EventRow.id).foldr max 0 + 1

theorem le_foldr_max (l : List Nat) : ∀ n ∈ l, n ≤ l.foldr max 0 := by
  induction l with
  | nil => exact fun n hn => absurd hn List.not_mem_nil
  | cons m l ih =>
    intro n hn
    rw [List.foldr_cons]
    rcases List.mem_cons.mp hn with rfl | hn
    · exact Nat.le_max_left _ _
    · exact Nat.le_trans (ih n hn) (Nat.le_max_right _ _)

theorem lt_nextRowid (db : Db) {r : EventRow} (hr : r ∈ db.events) : r.id < db.nextRowid :=
  Nat.lt_succ_of_le (le_foldr_max _ _ (List.mem_map_of_mem hr))

/-- The tag rows of one event. -/
def tagsOf (db : Db) (id : Nat) : List TagRow := db.tags.filter fun t => t.eventId == id

/-! ## Insert -/

/-- `INSERT INTO event` of a row with a fresh id and hash, then of its tag rows.
The same transaction inserts both, so the foreign key is never open. -/
def insert (db : Db) (row : EventRow) (tags : List TagRow)
    (hid : row.id ∉ db.events.map EventRow.id)
    (hhash : row.eventHash ∉ db.events.map EventRow.eventHash)
    (htags : ∀ t ∈ tags, t.eventId = row.id) : Db where
  events := db.events ++ [row]
  tags := db.tags ++ tags
  userVerification := db.userVerification
  id_nodup := by
    rw [List.map_append]
    exact List.Nodup.append db.id_nodup (List.nodup_singleton _) (by simpa using hid)
  hash_nodup := by
    rw [List.map_append]
    exact List.Nodup.append db.hash_nodup (List.nodup_singleton _) (by simpa using hhash)
  verification_id_nodup := db.verification_id_nodup
  tag_fk := by
    intro t ht
    rcases List.mem_append.mp ht with ht | ht
    · obtain ⟨r, hr, he⟩ := db.tag_fk t ht
      exact ⟨r, List.mem_append_left _ hr, he⟩
    · exact ⟨row, List.mem_append_right _ (List.mem_singleton.mpr rfl), (htags t ht).symm⟩
  verification_fk := by
    intro v hv
    obtain ⟨r, hr, he⟩ := db.verification_fk v hv
    exact ⟨r, List.mem_append_left _ hr, he⟩

section Insert

variable {db : Db} {row : EventRow} {tags : List TagRow}
  {hid : row.id ∉ db.events.map EventRow.id}
  {hhash : row.eventHash ∉ db.events.map EventRow.eventHash}
  {htags : ∀ t ∈ tags, t.eventId = row.id}

@[simp] theorem mem_insert {r : EventRow} :
    r ∈ (db.insert row tags hid hhash htags).events ↔ r ∈ db.events ∨ r = row := by
  simp [insert]

@[simp] theorem insert_tags : (db.insert row tags hid hhash htags).tags = db.tags ++ tags := rfl

@[simp] theorem insert_userVerification :
    (db.insert row tags hid hhash htags).userVerification = db.userVerification := rfl

theorem tagsOf_insert_self : (db.insert row tags hid hhash htags).tagsOf row.id = tags := by
  have hold : db.tags.filter (fun t => t.eventId == row.id) = [] := by
    rw [List.filter_eq_nil_iff]
    intro t ht heq
    obtain ⟨r, hr, he⟩ := db.tag_fk t ht
    exact hid (List.mem_map.mpr ⟨r, hr, he.trans (by simpa using heq)⟩)
  rw [tagsOf, insert_tags, List.filter_append, hold, List.nil_append, List.filter_eq_self]
  exact fun t ht => by simpa using htags t ht

theorem tagsOf_insert_of_ne {id : Nat} (h : id ≠ row.id) :
    (db.insert row tags hid hhash htags).tagsOf id = db.tagsOf id := by
  have hnew : tags.filter (fun t => t.eventId == id) = [] := by
    rw [List.filter_eq_nil_iff]
    intro t ht heq
    exact h ((by simpa using heq : t.eventId = id).symm.trans (htags t ht))
  rw [tagsOf, insert_tags, List.filter_append, hnew, List.append_nil, tagsOf]

end Insert

/-! ## Delete -/

/-- Some surviving row has this id. -/
def survives (db : Db) (p : EventRow → Bool) (id : Nat) : Bool :=
  db.events.any fun r => !p r && r.id == id

/-- `DELETE FROM event WHERE …`. Rows of `tag` and `user_verification` that
reference a deleted event go with it (`ON DELETE CASCADE`). -/
def deleteEvents (db : Db) (p : EventRow → Bool) : Db where
  events := db.events.filter fun r => !p r
  tags := db.tags.filter fun t => db.survives p t.eventId
  userVerification := db.userVerification.filter fun v => db.survives p v.metadataEvent
  id_nodup := (List.Sublist.map _ List.filter_sublist).nodup db.id_nodup
  hash_nodup := (List.Sublist.map _ List.filter_sublist).nodup db.hash_nodup
  verification_id_nodup := (List.Sublist.map _ List.filter_sublist).nodup db.verification_id_nodup
  tag_fk := by
    intro t ht
    obtain ⟨r, hr, hp⟩ := List.any_eq_true.mp (List.mem_filter.mp ht).2
    rw [Bool.and_eq_true] at hp
    exact ⟨r, List.mem_filter.mpr ⟨hr, hp.1⟩, by simpa using hp.2⟩
  verification_fk := by
    intro v hv
    obtain ⟨r, hr, hp⟩ := List.any_eq_true.mp (List.mem_filter.mp hv).2
    rw [Bool.and_eq_true] at hp
    exact ⟨r, List.mem_filter.mpr ⟨hr, hp.1⟩, by simpa using hp.2⟩

@[simp] theorem mem_deleteEvents {db : Db} {p : EventRow → Bool} {r : EventRow} :
    r ∈ (db.deleteEvents p).events ↔ r ∈ db.events ∧ p r = false := by
  simp [deleteEvents]

/-- A row survives when it is not deleted. -/
theorem survives_iff {db : Db} {p : EventRow → Bool} {r : EventRow} (hr : r ∈ db.events) :
    db.survives p r.id = true ↔ p r = false := by
  rw [survives, List.any_eq_true]
  refine ⟨?_, ?_⟩
  · rintro ⟨s, hs, hp⟩
    simp only [Bool.and_eq_true, Bool.not_eq_true', beq_iff_eq] at hp
    obtain rfl := db.eq_of_id_eq hs hr hp.2
    exact hp.1
  · exact fun hp => ⟨r, hr, by simp [hp]⟩

/-- A surviving event keeps all its tag rows. -/
theorem tagsOf_deleteEvents {db : Db} {p : EventRow → Bool} {r : EventRow}
    (hr : r ∈ db.events) (hp : p r = false) :
    (db.deleteEvents p).tagsOf r.id = db.tagsOf r.id := by
  rw [tagsOf, tagsOf, deleteEvents, List.filter_filter]
  refine List.filter_congr fun t _ => ?_
  by_cases h : t.eventId = r.id
  · rw [h, (survives_iff hr).mpr hp, Bool.and_true]
  · simp [h]

/-! ## Hide -/

/-- Set `hidden=TRUE` where `p` holds. -/
def hideRow (p : EventRow → Bool) (r : EventRow) : EventRow :=
  if p r then { r with hidden := true } else r

section HideRow

variable (p : EventRow → Bool) (r : EventRow)

@[simp] theorem hideRow_id : (hideRow p r).id = r.id := by rw [hideRow]; split <;> rfl

@[simp] theorem hideRow_eventHash : (hideRow p r).eventHash = r.eventHash := by
  rw [hideRow]; split <;> rfl

@[simp] theorem hideRow_createdAt : (hideRow p r).createdAt = r.createdAt := by
  rw [hideRow]; split <;> rfl

@[simp] theorem hideRow_expiresAt : (hideRow p r).expiresAt = r.expiresAt := by
  rw [hideRow]; split <;> rfl

@[simp] theorem hideRow_author : (hideRow p r).author = r.author := by
  rw [hideRow]; split <;> rfl

@[simp] theorem hideRow_delegatedBy : (hideRow p r).delegatedBy = r.delegatedBy := by
  rw [hideRow]; split <;> rfl

@[simp] theorem hideRow_kind : (hideRow p r).kind = r.kind := by rw [hideRow]; split <;> rfl

@[simp] theorem hideRow_content : (hideRow p r).content = r.content := by
  rw [hideRow]; split <;> rfl

@[simp] theorem hideRow_hidden : (hideRow p r).hidden = (r.hidden || p r) := by
  rw [hideRow]
  split
  · rename_i h; simp [h]
  · rename_i h; simp [h]

end HideRow

/-- `UPDATE event SET hidden=TRUE WHERE …`. -/
def hideEvents (db : Db) (p : EventRow → Bool) : Db where
  events := db.events.map (hideRow p)
  tags := db.tags
  userVerification := db.userVerification
  id_nodup := by
    rw [List.map_map]
    exact (List.map_congr_left fun r _ => hideRow_id p r) ▸ db.id_nodup
  hash_nodup := by
    rw [List.map_map]
    exact (List.map_congr_left fun r _ => hideRow_eventHash p r) ▸ db.hash_nodup
  verification_id_nodup := db.verification_id_nodup
  tag_fk := by
    intro t ht
    obtain ⟨r, hr, he⟩ := db.tag_fk t ht
    exact ⟨hideRow p r, List.mem_map_of_mem hr, by rw [hideRow_id, he]⟩
  verification_fk := by
    intro v hv
    obtain ⟨r, hr, he⟩ := db.verification_fk v hv
    exact ⟨hideRow p r, List.mem_map_of_mem hr, by rw [hideRow_id, he]⟩

@[simp] theorem mem_hideEvents {db : Db} {p : EventRow → Bool} {r : EventRow} :
    r ∈ (db.hideEvents p).events ↔ ∃ s ∈ db.events, hideRow p s = r := by
  simp [hideEvents]

@[simp] theorem hideEvents_tags (db : Db) (p : EventRow → Bool) :
    (db.hideEvents p).tags = db.tags := rfl

@[simp] theorem hideEvents_userVerification (db : Db) (p : EventRow → Bool) :
    (db.hideEvents p).userVerification = db.userVerification := rfl

@[simp] theorem tagsOf_hideEvents (db : Db) (p : EventRow → Bool) (id : Nat) :
    (db.hideEvents p).tagsOf id = db.tagsOf id := rfl

/-- Hiding nothing changes nothing. -/
theorem hideEvents_eq_self {db : Db} {p : EventRow → Bool} (h : ∀ r ∈ db.events, p r = false) :
    db.hideEvents p = db := by
  refine Db.ext ?_ rfl rfl
  refine (List.map_congr_left fun r hr => ?_).trans (List.map_id _)
  rw [hideRow, h r hr]
  rfl

/-! ## Verification records -/

/-- The database with other rows in `user_verification`. -/
def setVerifications (db : Db) (vs : List VerificationRow)
    (hid : (vs.map VerificationRow.id).Nodup)
    (hfk : ∀ v ∈ vs, ∃ r ∈ db.events, r.id = v.metadataEvent) : Db where
  events := db.events
  tags := db.tags
  userVerification := vs
  id_nodup := db.id_nodup
  hash_nodup := db.hash_nodup
  verification_id_nodup := hid
  tag_fk := db.tag_fk
  verification_fk := hfk

section SetVerifications

variable {db : Db} {vs : List VerificationRow} {hid : (vs.map VerificationRow.id).Nodup}
  {hfk : ∀ v ∈ vs, ∃ r ∈ db.events, r.id = v.metadataEvent}

@[simp] theorem setVerifications_events : (db.setVerifications vs hid hfk).events = db.events := rfl

@[simp] theorem setVerifications_tags : (db.setVerifications vs hid hfk).tags = db.tags := rfl

@[simp] theorem setVerifications_userVerification :
    (db.setVerifications vs hid hfk).userVerification = vs := rfl

end SetVerifications

end Db

end Floonet.Sqlite
