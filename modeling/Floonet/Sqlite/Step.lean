import Floonet.Sqlite.Persist

/-!
# What one write can do

Everything later modules know about `persistEvent` is said here once. A write
either changes nothing, or it is *accepted*: the new row joins the table, the
clean-up sweeps some rows of the event's own kind and author away
(`mem_cleaned`, `swept_le`), and the deletion logic hides some of what is left
(`persistEvent_of_accepts`). For replaceable kinds the sweep is exact
(`swept_replaceable`): the refusing query left only older rows, so the new row
is the one that stays.
-/

namespace Floonet.Sqlite

open Hex (Bytes)

variable {eng : Sql.Engine} {db : Db} {e : Event} {hash author : Bytes}

/-- The event passes every check up to the insert, and the insert adds a row. -/
structure Accepts (db : Db) (e : Event) (hash author : Bytes) : Prop where
  not_shadowed : shadowed db e = false
  representable : representable e = true
  decode_id : Hex.decode e.id = some hash
  decode_pubkey : Hex.decode e.pubkey = some author
  hash_new : hash ∉ db.events.map EventRow.eventHash

/-- No stored row has the hash of an accepted event. -/
theorem Accepts.ne_hash (h : Accepts db e hash author) {r : EventRow} (hr : r ∈ db.events) :
    Hex.decode e.id ≠ some r.eventHash := by
  intro heq
  rw [h.decode_id, Option.some.injEq] at heq
  exact h.hash_new (List.mem_map.mpr ⟨r, hr, heq.symm⟩)

/-- A kind-5 event that names more hashes than a statement takes variables. -/
def overLimit (eng : Sql.Engine) (e : Event) : Bool :=
  e.kind == 5 && decide (eng.maxVariables < 1 + (deletionHashes e).length)

/-- The write of this event cannot fail. -/
def storable (eng : Sql.Engine) (e : Event) : Bool := representable e && !overLimit eng e

/-- What is storable fits its columns and its statement. -/
theorem storable_iff : storable eng e = true ↔
    representable e = true ∧ overLimit eng e = false := by
  rw [storable, Bool.and_eq_true, Bool.not_eq_true']

/-- What the end of the transaction hides. -/
def hides (db : Db) (e : Event) (author : Bytes) (evId : Nat) (r : EventRow) : Bool :=
  if e.kind = 5 then deletionTarget author (deletionHashes e) r
  else e.kind != 1059 && deletionRecorded db author e.id && r.id == evId

/-- The row count reported for an accepted event. -/
def reported (db : Db) (e : Event) (author : Bytes) : Nat :=
  if e.kind ≠ 5 ∧ e.kind ≠ 1059 ∧ deletionRecorded db author e.id = true then 0 else 1

/-- The database of an accepted write. -/
def accepted (eng : Sql.Engine) (db : Db) (e : Event) (hash author : Bytes)
    (hnew : hash ∉ db.events.map EventRow.eventHash) : Db :=
  let c := cleaned eng (inserted db e hash author hnew) e author
  c.hideEvents (hides c e author db.nextRowid)

/-! ## The cases of a write

A write either fails, finds nothing new, or accepts the event. Later modules use this inversion
and the description of the accepted case, and never unfold the write. -/

/-- Deletions are refused as a whole, or hide what they hide. -/
theorem applyDeletions_eq (evId : Nat) :
    applyDeletions eng db e author evId =
      if overLimit eng e then .error .tooManyVariables
      else .ok (reported db e author, db.hideEvents (hides db e author evId)) := by
  rw [applyDeletions, overLimit, reported]
  have hnone : ∀ p : EventRow → Bool, (∀ r, p r = false) → db.hideEvents p = db :=
    fun p hp => Db.hideEvents_eq_self fun r _ => hp r
  by_cases h5 : e.kind = 5
  · have hh : hides db e author evId = deletionTarget author (deletionHashes e) := by
      funext r; rw [hides, if_pos h5]
    rw [hh]
    by_cases hl : eng.maxVariables < 1 + (deletionHashes e).length <;> simp [h5, hl]
  · by_cases h1059 : e.kind = 1059
    · rw [hnone (hides db e author evId) fun r => by simp [hides, h1059]]
      simp [h1059]
    · by_cases hd : deletionRecorded db author e.id = true
      · have hh : hides db e author evId = fun r => r.id == evId := by
          funext r; simp [hides, h5, h1059, hd]
        rw [hh]
        simp [h5, h1059, hd]
      · rw [hnone (hides db e author evId) fun r => by simp [hides, h5, hd]]
        simp [h5, h1059, hd]

/-- A write that passes the checks ends in the deletion logic. -/
theorem persistEvent_of_accepts (h : Accepts db e hash author) :
    persistEvent eng db e =
      if overLimit eng e then .error .tooManyVariables
      else .ok (reported (cleaned eng (inserted db e hash author h.hash_new) e author) e author,
        accepted eng db e hash author h.hash_new) := by
  rw [persistEvent, h.not_shadowed, h.representable]
  simp only [Bool.false_eq_true, if_false, Bool.not_true, h.decode_id, h.decode_pubkey]
  rw [dif_neg h.hash_new, applyDeletions_eq]
  rfl

/-- **The cases of a write**: an error, nothing new, or an accepted event. -/
theorem persistEvent_cases (eng : Sql.Engine) (db : Db) (e : Event) :
    (∃ err, persistEvent eng db e = .error err) ∨ persistEvent eng db e = .ok (0, db) ∨
      ∃ hash author, ∃ h : Accepts db e hash author, overLimit eng e = false ∧
        persistEvent eng db e =
          .ok (reported (cleaned eng (inserted db e hash author h.hash_new) e author) e author,
            accepted eng db e hash author h.hash_new) := by
  by_cases hs : shadowed db e = true
  · exact Or.inr (Or.inl (by rw [persistEvent, if_pos hs]))
  · by_cases hr : representable e = true
    · rcases hid : Hex.decode e.id with _ | hash
      · exact Or.inr (Or.inl (by simp [persistEvent, hs, hr, hid]))
      · rcases hpk : Hex.decode e.pubkey with _ | author
        · exact Or.inr (Or.inl (by simp [persistEvent, hs, hr, hid, hpk]))
        · by_cases hnew : hash ∈ db.events.map EventRow.eventHash
          · refine Or.inr (Or.inl ?_)
            simp only [persistEvent, hs, hr, hid, hpk, if_false, Bool.not_true,
              Bool.false_eq_true]
            rw [dif_pos hnew]
          · have hacc : Accepts db e hash author :=
              ⟨by simpa using hs, hr, hid, hpk, hnew⟩
            by_cases hl : overLimit eng e = true
            · exact Or.inl ⟨_, by rw [persistEvent_of_accepts hacc, if_pos hl]⟩
            · refine Or.inr (Or.inr ⟨hash, author, hacc, by simpa using hl, ?_⟩)
              rw [persistEvent_of_accepts hacc, if_neg hl]
    · exact Or.inl ⟨_, by rw [persistEvent, if_neg hs, if_pos (by simpa using hr)]⟩

/-- The database after a write: unchanged, or that of an accepted event. -/
theorem write_cases (eng : Sql.Engine) (db : Db) (e : Event) :
    write eng db e = db ∨
      ∃ hash author, ∃ h : Accepts db e hash author, overLimit eng e = false ∧
        write eng db e = accepted eng db e hash author h.hash_new := by
  rcases persistEvent_cases eng db e with ⟨err, h⟩ | h | ⟨hash, author, hacc, hl, h⟩
  · exact Or.inl (by rw [write, h])
  · exact Or.inl (by rw [write, h])
  · exact Or.inr ⟨hash, author, hacc, hl, by rw [write, h]⟩

/-- The database of an accepted write. -/
theorem write_of_accepts (h : Accepts db e hash author) (hl : overLimit eng e = false) :
    write eng db e = accepted eng db e hash author h.hash_new := by
  rw [write, persistEvent_of_accepts h, hl]
  rfl

/-- An event whose columns can be written and that nothing shadows is accepted,
or its hash is stored. -/
theorem accepts_or_stored (hs : shadowed db e = false) (hr : representable e = true)
    (hid : Hex.decode e.id = some hash) (hpk : Hex.decode e.pubkey = some author) :
    Accepts db e hash author ∨ ∃ r ∈ db.events, r.eventHash = hash := by
  by_cases hnew : hash ∈ db.events.map EventRow.eventHash
  · exact Or.inr (List.mem_map.mp hnew)
  · exact Or.inl ⟨hs, hr, hid, hpk, hnew⟩

/-- An empty store accepts everything it can bind. -/
theorem accepts_empty (hr : representable e = true) (hid : Hex.decode e.id = some hash)
    (hpk : Hex.decode e.pubkey = some author) : Accepts Db.empty e hash author := by
  refine ⟨?_, hr, hid, hpk, List.not_mem_nil⟩
  simp only [shadowed, newerReplaceable, newerParam]
  rcases e.distinctParam with _ | d <;> simp [Db.empty, paramRows, Sql.leftJoin]

/-! ## The new row -/

theorem mem_inserted (h : Accepts db e hash author) {r : EventRow} :
    r ∈ (inserted db e hash author h.hash_new).events ↔
      r ∈ db.events ∨ r = eventRow db.nextRowid hash author e :=
  Db.mem_insert

/-- A stored row never has the id of the next insert. -/
theorem ne_nextRowid {r : EventRow} (hr : r ∈ db.events) : r.id ≠ db.nextRowid :=
  Nat.ne_of_lt (db.lt_nextRowid hr)

/-! ## The sweep -/

/-- The rows of `db` that the clean-up after `e` deletes. -/
def swept (eng : Sql.Engine) (db : Db) (e : Event) (author : Bytes) (r : EventRow) : Bool :=
  r.kind == e.kind && r.author == author &&
    ((e.isReplaceable &&
      !(((Sql.orderByDesc eng EventRow.createdAt (db.events.filter fun r =>
        r.kind == e.kind && r.author == author)).take 1).map EventRow.id).contains r.id) ||
    match e.distinctParam with
    | some d => (olderParam eng db e.kind author d).contains r.id
    | none => false)

theorem isParamReplaceable_of_distinctParam {d : String} (h : e.distinctParam = some d) :
    e.isParamReplaceable = true := by
  rw [Event.distinctParam] at h
  by_contra hp
  rw [if_neg hp] at h
  cases h

/-- The two kinds of replacement never meet. -/
theorem distinctParam_of_isReplaceable (h : e.isReplaceable = true) : e.distinctParam = none := by
  rcases hd : e.distinctParam with _ | d
  · rfl
  · have h1 := Event.isReplaceable_iff.mp h
    have h2 := Event.isParamReplaceable_iff.mp (isParamReplaceable_of_distinctParam hd)
    omega

theorem exists_distinctParam (h : e.isParamReplaceable = true) : ∃ d, e.distinctParam = some d := by
  rw [Event.distinctParam]
  rw [if_pos h]
  split
  · exact ⟨_, rfl⟩
  · exact ⟨_, rfl⟩

/-- Both clean-ups are one delete. -/
theorem cleaned_eq : cleaned eng db e author = db.deleteEvents (swept eng db e author) := by
  unfold cleaned swept
  by_cases hr : e.isReplaceable = true
  · rw [distinctParam_of_isReplaceable hr]
    simp only [hr, if_true, Bool.true_and, Bool.or_false]
    rfl
  · simp only [hr, if_false, Bool.false_and, Bool.false_or, Bool.false_eq_true]
    rcases hd : e.distinctParam with _ | d
    · simp only [Bool.and_false]
      refine Db.ext ?_ ?_ ?_
      · simp [Db.deleteEvents]
      · refine (List.filter_eq_self.mpr fun t ht => ?_).symm
        obtain ⟨r, hr, he⟩ := db.tag_fk t ht
        rw [← he, Db.survives_iff hr]
      · refine (List.filter_eq_self.mpr fun v hv => ?_).symm
        obtain ⟨r, hr, he⟩ := db.verification_fk v hv
        rw [← he, Db.survives_iff hr]
    · rfl

/-- The rows after the clean-up. -/
theorem mem_cleaned {r : EventRow} :
    r ∈ (cleaned eng db e author).events ↔ r ∈ db.events ∧ swept eng db e author r = false := by
  rw [cleaned_eq, Db.mem_deleteEvents]

/-- Only rows of the event's own kind and author are swept, and only when that
kind is replaceable or parameterized replaceable. -/
theorem swept_le {r : EventRow} (h : swept eng db e author r = true) :
    r.kind = e.kind ∧ r.author = author ∧
      (e.isReplaceable = true ∨ e.isParamReplaceable = true) := by
  rw [swept] at h
  simp only [Bool.and_eq_true, beq_iff_eq, Bool.or_eq_true] at h
  refine ⟨h.1.1, h.1.2, ?_⟩
  rcases h.2 with h2 | h2
  · exact Or.inl h2.1
  · rcases hd : e.distinctParam with _ | d
    · rw [hd] at h2
      cases h2
    · exact Or.inr (isParamReplaceable_of_distinctParam hd)

/-- Before a replaceable event is accepted, every stored row of its kind and
author is older. -/
theorem createdAt_lt_of_accepts (h : Accepts db e hash author) (hr : e.isReplaceable = true)
    {r : EventRow} (hmem : r ∈ db.events) (hk : r.kind = e.kind) (ha : r.author = author) :
    r.createdAt < e.createdAt := by
  have hs := h.not_shadowed
  have hrep := h.representable
  rw [shadowed] at hs
  simp only [representable, Bool.and_eq_true] at hrep
  simp only [hr, Bool.true_and, Bool.or_eq_false_iff, Bool.not_eq_false', List.isEmpty_iff,
    newerReplaceable, hrep.1.1, hrep.1.2, Bool.and_self, if_true, h.decode_pubkey] at hs
  have := List.filter_eq_nil_iff.mp hs.1 r hmem
  simp only [hk, ha, beq_self_eq_true, Bool.true_and, decide_eq_true_eq, not_le] at this
  exact this

/-- A replaceable event that is newer than every stored row of its kind and
author is not refused. -/
theorem not_shadowed_of_newer (hr : e.isReplaceable = true)
    (hpk : Hex.decode e.pubkey = some author)
    (h : ∀ r ∈ db.events, r.author = author → r.kind = e.kind → r.createdAt < e.createdAt) :
    shadowed db e = false := by
  have hnone : newerReplaceable db (some author) e.kind e.createdAt = [] := by
    rw [newerReplaceable]
    split
    · rw [List.filter_eq_nil_iff]
      intro r hmem heq
      simp only [Bool.and_eq_true, beq_iff_eq, Option.some.injEq, decide_eq_true_eq] at heq
      have := h r hmem heq.1.1 heq.1.2
      omega
    · rfl
  rw [shadowed, distinctParam_of_isReplaceable hr, hpk, hnone]
  simp

/-- For a replaceable kind the sweep takes every older row and nothing else. -/
theorem swept_replaceable (h : Accepts db e hash author) (hr : e.isReplaceable = true)
    {r : EventRow} (hmem : r ∈ (inserted db e hash author h.hash_new).events) :
    swept eng (inserted db e hash author h.hash_new) e author r = true ↔
      r ≠ eventRow db.nextRowid hash author e ∧ r.kind = e.kind ∧ r.author = author := by
  have htop : (Sql.orderByDesc eng EventRow.createdAt
      ((inserted db e hash author h.hash_new).events.filter fun r =>
        r.kind == e.kind && r.author == author)).take 1 =
      [eventRow db.nextRowid hash author e] := by
    refine Sql.take_one_eq ?_ ?_
    · rw [List.mem_filter]
      exact ⟨(mem_inserted h).mpr (Or.inr rfl), by simp [eventRow]⟩
    · intro z hz hne
      rw [List.mem_filter] at hz
      simp only [Bool.and_eq_true, beq_iff_eq] at hz
      exact createdAt_lt_of_accepts h hr (((mem_inserted h).mp hz.1).resolve_right hne)
        hz.2.1 hz.2.2
  rw [swept]
  rw [distinctParam_of_isReplaceable hr, htop]
  simp only [hr, Bool.true_and, Bool.or_false, Bool.and_eq_true, beq_iff_eq, List.map_cons,
    List.map_nil, Bool.not_eq_true', List.contains_eq_mem, List.mem_singleton,
    decide_eq_false_iff_not]
  refine ⟨?_, ?_⟩
  · rintro ⟨⟨hk, ha⟩, hid⟩
    exact ⟨fun hn => hid (by rw [hn]), hk, ha⟩
  · rintro ⟨hne, hk, ha⟩
    refine ⟨⟨hk, ha⟩, fun hid => hne ?_⟩
    exact Db.eq_of_id_eq _ hmem ((mem_inserted h).mpr (Or.inr rfl)) hid

/-! ## The rows after an accepted write

A row afterwards was stored before or is the new one, was not swept, and its flag is as before
unless the end of the transaction hides it. -/

/-- Every row after an accepted write is a stored row or the new one, not swept,
with its hidden flag possibly set. -/
theorem mem_accepted (h : Accepts db e hash author) {r : EventRow} :
    r ∈ (accepted eng db e hash author h.hash_new).events ↔
      ∃ s, (s ∈ db.events ∨ s = eventRow db.nextRowid hash author e) ∧
        swept eng (inserted db e hash author h.hash_new) e author s = false ∧
        Db.hideRow (hides (cleaned eng (inserted db e hash author h.hash_new) e author) e author
          db.nextRowid) s = r := by
  simp only [accepted, Db.mem_hideEvents, mem_cleaned, mem_inserted h, and_assoc]

end Floonet.Sqlite
