import Floonet.Postgres.Write

/-!
# One write of a plain kind

A kind that is neither replaceable nor parameterized replaceable is not shadowed
and cleans nothing up. What is left of `writeEvent` is said once here: it goes
through exactly when every statement takes the event (`Storable`), and then the
database is that of `settled`.
-/

namespace Floonet.Postgres

open Hex (Bytes)

variable {server : Server} {db : Db} {e : Event} {id pubKey : Bytes}

/-- Every statement of a write takes the event. -/
structure Storable (server : Server) (e : Event) : Prop where
  createdAt : ∃ t, timestampOpt (asI64 e.createdAt) = some t ∧ minTimestamptz ≤ t
  expiresAt : ∀ t, (e.expiration.bind fun x => timestampOpt (asI64 x)) = some t →
    minTimestamptz ≤ t
  kind : -2 ^ 31 ≤ asI64 e.kind ∧ asI64 e.kind < 2 ^ 31
  tags : ∀ id, Hex.decode e.id = some id → ∀ t ∈ tagRows id e, refusal server t = none
  deletion : e.kind = 5 →
    deletionIds e ≠ [] ∧ 1 + (deletionIds e).length ≤ server.maxVariables

/-- The row of an event whose parameters are all in range. -/
def newRow (e : Event) (id pubKey : Bytes) : EventRow where
  id := id
  pubKey := pubKey
  createdAt := asI64 e.createdAt
  expiresAt := e.expiration.bind fun x => timestampOpt (asI64 x)
  kind := asI64 e.kind
  content := e.serialized
  hidden := false
  delegatedBy := e.delegatedBy.bind Hex.decode

@[simp] theorem newRow_id : (newRow e id pubKey).id = id := rfl

@[simp] theorem newRow_pubKey : (newRow e id pubKey).pubKey = pubKey := rfl

@[simp] theorem newRow_kind : (newRow e id pubKey).kind = asI64 e.kind := rfl

theorem timestampOpt_eq_some {s t : Int} (h : timestampOpt s = some t) : t = s := by
  rw [timestampOpt] at h
  split_ifs at h
  exact (Option.some.inj h).symm

theorem createdAtParam_eq_ok {t : Int} :
    createdAtParam e = .ok t ↔ timestampOpt (asI64 e.createdAt) = some t ∧ minTimestamptz ≤ t := by
  rw [createdAtParam]
  rcases timestampOpt (asI64 e.createdAt) with _ | s
  · simp [Outcome.unwrap]
  · simp only [Outcome.unwrap, Outcome.ok_bind, readTimestamptz, Option.some.injEq]
    split_ifs with h
    · rw [Outcome.ok.injEq]
      exact ⟨fun hst => ⟨hst, hst ▸ h⟩, fun hst => hst.1⟩
    · simp only [false_iff]
      rintro ⟨rfl, h'⟩
      exact h h'

/-- An expiration that the server takes, or none. -/
theorem expiresAtParam_eq_ok {o : Option Int} :
    expiresAtParam e = .ok o ↔ (e.expiration.bind fun x => timestampOpt (asI64 x)) = o ∧
      ∀ t, (e.expiration.bind fun x => timestampOpt (asI64 x)) = some t → minTimestamptz ≤ t := by
  rw [expiresAtParam]
  rcases e.expiration.bind fun x => timestampOpt (asI64 x) with _ | s
  · simp [pure]
  · simp only [readTimestamptz, Option.some.injEq, forall_eq']
    split_ifs with h
    · simp [pure, h]
    · simp [h]

theorem kindParam_eq_ok {k : Int} :
    kindParam e = .ok k ↔ asI64 e.kind = k ∧ -2 ^ 31 ≤ asI64 e.kind ∧ asI64 e.kind < 2 ^ 31 := by
  rw [kindParam]
  split_ifs with h
  · rw [Outcome.ok.injEq]
    exact ⟨fun hk => ⟨hk, h⟩, fun hk => hk.1⟩
  · simp only [false_iff]
    exact fun hk => h hk.2

/-- The insert binds the row of the event, or something is out of range. -/
theorem eventRow_eq_ok (hid : Hex.decode e.id = some id) (hpk : Hex.decode e.pubkey = some pubKey)
    {row : EventRow} :
    eventRow e = .ok row ↔ row = newRow e id pubKey ∧
      (∃ t, timestampOpt (asI64 e.createdAt) = some t ∧ minTimestamptz ≤ t) ∧
      (∀ t, (e.expiration.bind fun x => timestampOpt (asI64 x)) = some t → minTimestamptz ≤ t) ∧
      -2 ^ 31 ≤ asI64 e.kind ∧ asI64 e.kind < 2 ^ 31 := by
  refine ⟨?_, ?_⟩
  · intro h
    obtain ⟨t, ht, h⟩ := Outcome.bind_eq_ok h
    obtain ⟨o, ho, h⟩ := Outcome.bind_eq_ok h
    obtain ⟨k, hk, h⟩ := Outcome.bind_eq_ok h
    rw [createdAtParam_eq_ok] at ht
    rw [expiresAtParam_eq_ok] at ho
    rw [kindParam_eq_ok] at hk
    simp only [hid, hpk, Outcome.ok.injEq] at h
    refine ⟨?_, ⟨t, ht⟩, ho.2, hk.2⟩
    rw [← h, newRow, timestampOpt_eq_some ht.1, ho.1, hk.1]
  · rintro ⟨rfl, ⟨t, ht⟩, ho, hk⟩
    obtain rfl := timestampOpt_eq_some ht.1
    rw [eventRow, createdAtParam_eq_ok.mpr ht, Outcome.ok_bind,
      expiresAtParam_eq_ok.mpr ⟨rfl, ho⟩, Outcome.ok_bind, kindParam_eq_ok.mpr ⟨rfl, hk⟩,
      Outcome.ok_bind, hid, hpk, newRow]

/-- The database with the row and the tags of a new event. -/
def insertedNew (db : Db) (e : Event) (id pubKey : Bytes)
    (hnew : id ∉ db.events.map EventRow.id) : Db :=
  inserted db e (newRow e id pubKey) hnew

theorem insertedNew_events (hnew : id ∉ db.events.map EventRow.id) :
    (insertedNew db e id pubKey hnew).events = db.events ++ [newRow e id pubKey] := rfl

theorem mem_insertedNew (hnew : id ∉ db.events.map EventRow.id) {r : EventRow} :
    r ∈ (insertedNew db e id pubKey hnew).events ↔ r ∈ db.events ∨ r = newRow e id pubKey := by
  rw [insertedNew_events, List.mem_append, List.mem_singleton]

/-- One of the two value columns of a new tag row is `NULL`, so the unique
constraint never applies. -/
theorem inserted_tags {row : EventRow} (hnew : row.id ∉ db.events.map EventRow.id) :
    (inserted db e row hnew).tags = db.tags ++ tagRows row.id e := by
  refine Db.foldl_insertTag (fun t ht => ?_) db.tags
  obtain ⟨nv, -, rfl⟩ := List.mem_map.mp ht
  simp only [tagRow]
  split_ifs with h
  · exact Or.inl rfl
  · exact Or.inr rfl

theorem insertedNew_tags (hnew : id ∉ db.events.map EventRow.id) :
    (insertedNew db e id pubKey hnew).tags = db.tags ++ tagRows id e := inserted_tags _

/-- What the end of the transaction does when it does not fail. -/
def settled (db : Db) (e : Event) (row : EventRow) : Nat × Db :=
  if e.kind = 5 then (1, db.hideEvents (deletionTarget row.pubKey (deletionIds e)))
  else if e.kind ≠ 1059 ∧ deletionRecorded db row.pubKey row.id = true then
    (0, db.hideEvents fun r => r.id == row.id)
  else (1, db)

/-- Deletions are applied if they are all bound. -/
theorem applyDeletions_eq_ok {row : EventRow} {res : Nat × Db} :
    applyDeletions server db e row = .ok res ↔ res = settled db e row ∧
      (e.kind = 5 → deletionIds e ≠ [] ∧ 1 + (deletionIds e).length ≤ server.maxVariables) := by
  rw [applyDeletions, settled]
  by_cases h5 : e.kind = 5
  · simp only [h5, if_true, forall_const]
    by_cases hnil : deletionIds e = []
    · simp [hnil]
    · rw [if_neg hnil]
      split_ifs with hmax
      · simp only [false_iff]
        exact fun h => absurd h.2.2 (by omega)
      · rw [Outcome.ok.injEq]
        exact ⟨fun h => ⟨h.symm, hnil, by omega⟩, fun h => h.1.symm⟩
  · simp only [h5, if_false, false_implies, and_true]
    by_cases h1059 : e.kind = 1059
    · rw [if_neg (not_not.mpr h1059), if_neg (fun h => h.1 h1059), Outcome.ok.injEq, eq_comm]
    · rw [if_pos h1059]
      by_cases hrec : deletionRecorded db row.pubKey row.id = true
      · rw [if_pos hrec, if_pos ⟨h1059, hrec⟩, Outcome.ok.injEq, eq_comm]
      · rw [if_neg hrec, if_neg (fun h => hrec h.2), Outcome.ok.injEq, eq_comm]

theorem settled_ids (row : EventRow) :
    (settled db e row).2.events.map EventRow.id = db.events.map EventRow.id := by
  rw [settled]
  split_ifs
  · exact Db.hideEvents_ids db _
  · exact Db.hideEvents_ids db _
  · rfl

/-- Deletions are of a plain kind. -/
theorem plain_of_kind_five (h : e.kind = 5) :
    e.isReplaceable = false ∧ e.isParamReplaceable = false := by
  simp [Event.isReplaceable, Event.isParamReplaceable, h]

section Plain

variable (hrepl : e.isReplaceable = false) (hparam : e.isParamReplaceable = false)
  (hid : Hex.decode e.id = some id) (hpk : Hex.decode e.pubkey = some pubKey)
  (hnew : id ∉ db.events.map EventRow.id)

include hrepl hparam hid hpk

/-- **A write of a plain kind.** It goes through exactly when the event is
storable; nothing is shadowed and nothing is cleaned up. -/
theorem writeEvent_eq_ok {res : Nat × Db} :
    writeEvent server db e = .ok res ↔ Storable server e ∧
      res = settled (insertedNew db e id pubKey hnew) e (newRow e id pubKey) := by
  have hd : e.distinctParam = none := by simp [Event.distinctParam, hparam]
  have hshadow : shadowed db e = .ok false := by simp [shadowed, hrepl, hd, pure]
  have hclean : ∀ db', cleaned server db' e pubKey = db' := by
    intro db'
    simp [cleaned, hrepl, hd]
  have htail : eventRow e = .ok (newRow e id pubKey) →
      (writeEvent server db e = .ok res ↔
        (∀ t ∈ tagRows id e, refusal server t = none) ∧
        applyDeletions server (insertedNew db e id pubKey hnew) e (newRow e id pubKey) =
          .ok res) := by
    intro hrow
    have hnew' : (newRow e id pubKey).id ∉ db.events.map EventRow.id := hnew
    simp only [writeEvent, hshadow, hrow, Outcome.ok_bind, Bool.false_eq_true, if_false]
    rw [dif_neg hnew', newRow_id, newRow_pubKey]
    rcases href : (tagRows id e).findSome? (refusal server) with _ | err
    · rw [List.findSome?_eq_none_iff] at href
      simp only [hclean]
      exact ⟨fun h => ⟨href, h⟩, fun h => h.2⟩
    · refine ⟨fun h => (by cases h), ?_⟩
      rintro ⟨hall, -⟩
      rw [List.findSome?_eq_none_iff.mpr hall] at href
      cases href
  refine ⟨?_, ?_⟩
  · intro h
    obtain ⟨shadow, hs, h'⟩ := Outcome.bind_eq_ok h
    obtain rfl : false = shadow := Outcome.ok.inj (hshadow.symm.trans hs)
    obtain ⟨row, hrow, -⟩ := Outcome.bind_eq_ok h'
    obtain ⟨rfl, hc, hx, hk⟩ := (eventRow_eq_ok hid hpk).mp hrow
    obtain ⟨htags, happ⟩ := (htail hrow).mp h
    obtain ⟨hres, hdel⟩ := applyDeletions_eq_ok.mp happ
    refine ⟨⟨hc, hx, hk, fun id' hid' => ?_, hdel⟩, hres⟩
    obtain rfl : id = id' := Option.some.inj (hid.symm.trans hid')
    exact htags
  · rintro ⟨hs, rfl⟩
    have hrow := (eventRow_eq_ok hid hpk).mpr ⟨rfl, hs.createdAt, hs.expiresAt, hs.kind⟩
    exact (htail hrow).mpr ⟨hs.tags id hid, applyDeletions_eq_ok.mpr ⟨rfl, hs.deletion⟩⟩

/-- A storable event that is not in the way of anything is written. -/
theorem write_of_storable (hs : Storable server e) :
    write server db e =
      (settled (insertedNew db e id pubKey hnew) e (newRow e id pubKey)).2 := by
  rw [write, (writeEvent_eq_ok hrepl hparam hid hpk hnew).mpr ⟨hs, rfl⟩]

include hnew in
/-- A failed write leaves the database as it was. -/
theorem write_of_not_storable (hs : ¬ Storable server e) : write server db e = db := by
  rw [write]
  split
  · rename_i h
    exact absurd ((writeEvent_eq_ok hrepl hparam hid hpk hnew).mp h).1 hs
  · rfl

include hnew in
/-- A write adds its own id at most. -/
theorem mem_write_ids {i : Bytes} :
    i ∈ (write server db e).events.map EventRow.id ↔
      i ∈ db.events.map EventRow.id ∨ Storable server e ∧ i = id := by
  by_cases hs : Storable server e
  · rw [write_of_storable hrepl hparam hid hpk hnew hs, settled_ids, insertedNew_events,
      List.map_append, List.mem_append, List.map_singleton, newRow_id, List.mem_singleton]
    simp [hs]
  · rw [write_of_not_storable hrepl hparam hid hpk hnew hs]
    simp [hs]

end Plain

end Floonet.Postgres
