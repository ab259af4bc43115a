import Floonet.Sqlite.Schema

/-!
# The verification records

The four calls the NIP-05 verifier makes on `user_verification`. Times come from
the caller's clock. None of them touches an event or a tag row.
-/

namespace Floonet.Sqlite

/-- The rowid of the next verification record. -/
def nextVerificationId (db : Db) : Nat :=
  (db.userVerification.map VerificationRow.id).foldr max 0 + 1

theorem nextVerificationId_notMem (db : Db) :
    nextVerificationId db ∉ db.userVerification.map VerificationRow.id := by
  intro h
  have := Db.le_foldr_max _ _ h
  rw [nextVerificationId] at this
  omega

/-- The record inserted for a metadata row. -/
def newVerification (db : Db) (metadata : EventRow) (name : String) (now : Nat) :
    VerificationRow where
  id := nextVerificationId db
  metadataEvent := metadata.id
  name := name
  verifiedAt := some now
  failedAt := none
  failureCount := 0

/-- Create a new verification record connected to a specific event, then delete
everything else by this name. For an event that is not stored the subquery is
`NULL`, the insert fails and the transaction is dropped. -/
def createVerificationRecord (db : Db) (eventId name : String) (now : Nat) : Db :=
  match hf : db.events.find? fun r => some r.eventHash == Hex.decode eventId with
  | none => db
  | some metadata =>
    let new := newVerification db metadata name now
    db.setVerifications
      ((db.userVerification ++ [new]).filter fun v => !(v.name == name && v.id != new.id))
      (by
        refine (List.Sublist.map _ List.filter_sublist).nodup ?_
        rw [List.map_append]
        exact List.Nodup.append db.verification_id_nodup (List.nodup_singleton _)
          (by simpa [new, newVerification] using nextVerificationId_notMem db))
      (by
        intro v hv
        rcases List.mem_append.mp (List.mem_filter.mp hv).1 with hv | hv
        · exact db.verification_fk v hv
        · rw [List.mem_singleton.mp hv]
          exact ⟨metadata, List.mem_of_find?_eq_some hf, rfl⟩)

/-- `UPDATE user_verification SET … WHERE id=?`, for columns other than the keys.
An id beyond the signed range cannot be bound. -/
def updateVerification (db : Db) (id : Nat) (f : VerificationRow → VerificationRow)
    (hid : ∀ v, (f v).id = v.id) (hev : ∀ v, (f v).metadataEvent = v.metadataEvent) : Db :=
  let set := fun v => if fitsI64 id && v.id == id then f v else v
  db.setVerifications (db.userVerification.map set)
    (by
      have hset : ∀ v ∈ db.userVerification, (VerificationRow.id ∘ set) v = v.id := by
        intro v _
        simp only [set, Function.comp_apply]
        split
        · exact hid v
        · rfl
      rw [List.map_map, List.map_congr_left hset]
      exact db.verification_id_nodup)
    (by
      intro v hv
      obtain ⟨w, hw, rfl⟩ := List.mem_map.mp hv
      have hset : (set w).metadataEvent = w.metadataEvent := by
        simp only [set]
        split
        · exact hev w
        · rfl
      rw [hset]
      exact db.verification_fk w hw)

/-- Update verification timestamp and reset any failure count. -/
def updateVerificationTimestamp (db : Db) (id verifTime : Nat) : Db :=
  updateVerification db id (fun v => { v with verifiedAt := some verifTime, failureCount := 0 })
    (fun _ => rfl) (fun _ => rfl)

/-- Update verification record as failed. -/
def failVerification (db : Db) (id failTime : Nat) : Db :=
  updateVerification db id
    (fun v => { v with failedAt := some failTime, failureCount := v.failureCount + 1 })
    (fun _ => rfl) (fun _ => rfl)

/-- Delete verification record. -/
def deleteVerification (db : Db) (id : Nat) : Db :=
  db.setVerifications (db.userVerification.filter fun v => !(fitsI64 id && v.id == id))
    ((List.Sublist.map _ List.filter_sublist).nodup db.verification_id_nodup)
    (fun v hv => db.verification_fk v (List.mem_filter.mp hv).1)

/-! ## Events and tags are untouched -/

section Frame

variable (db : Db)

@[simp] theorem createVerificationRecord_events (eventId name : String) (now : Nat) :
    (createVerificationRecord db eventId name now).events = db.events := by
  rw [createVerificationRecord]
  split <;> rfl

@[simp] theorem createVerificationRecord_tags (eventId name : String) (now : Nat) :
    (createVerificationRecord db eventId name now).tags = db.tags := by
  rw [createVerificationRecord]
  split <;> rfl

end Frame

end Floonet.Sqlite
