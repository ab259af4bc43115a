import Floonet.Sqlite.Replaceable

/-!
# The bulk loader

`load` is the main loop of the `bulkloader` binary, and `writeEvent` its own copy of the write
path. Its statements date from an older schema: the inserts into `tag` name neither `kind` nor
`created_at`, which are `NOT NULL` today, so the first searchable tag of an event ends
`writeEvent` with an error. A failed statement is undone by itself; the row of the event stays,
the transaction goes on, and the main loop logs the error and commits.

So `load` never adds a tag row (`load_tags`), and of the clean-up of replaceable kinds it runs
only the turns of events without searchable tags (`loaded`). What one turn does is said once
(`loadEvent_cases`, `mem_loaded`).
-/

namespace Floonet.Sqlite

open Hex (Bytes)

variable {eng : Sql.Engine} {db : Db} {e : Event} {hash author : Bytes} {r : EventRow}

/-! ## The statements -/

/-- Why a statement of the loader fails. -/
inductive LoadError where
  /-- a `u64` parameter beyond `i64::MAX` -/
  | toSqlConversionFailure
  /-- a column of `tag` that is `NOT NULL` -/
  | notNull
  /-- `tag.event_id` refers to no event -/
  | foreignKey
  deriving DecidableEq

/-- The values of an `INSERT INTO tag`; a column that is not named is `NULL`. -/
structure TagColumns where
  eventId : Nat
  name : Option String
  value : Option String
  valueHex : Option Bytes
  createdAt : Option Nat
  kind : Option Nat
  deriving DecidableEq

/-- The database with one more tag row. -/
def Db.addTag (db : Db) (t : TagRow) (h : ∃ r ∈ db.events, r.id = t.eventId) : Db where
  events := db.events
  tags := db.tags ++ [t]
  userVerification := db.userVerification
  id_nodup := db.id_nodup
  hash_nodup := db.hash_nodup
  verification_id_nodup := db.verification_id_nodup
  tag_fk := by
    intro s hs
    rcases List.mem_append.mp hs with hs | hs
    · exact db.tag_fk s hs
    · rwa [List.mem_singleton.mp hs]
  verification_fk := db.verification_fk

/-- `INSERT INTO tag (…) VALUES (…)`, on the columns of schema version 19. -/
def insertTagColumns (db : Db) (c : TagColumns) : Except LoadError Db :=
  match c.createdAt, c.kind with
  | some createdAt, some kind =>
    if h : ∃ r ∈ db.events, r.id = c.eventId then
      match c.name, c.value with
      | some name, some value =>
        .ok (db.addTag { eventId := c.eventId, name, value, createdAt, kind } h)
      -- no statement looks at a row without name or text value
      | _, _ => .ok db
    else .error .foreignKey
  | _, _ => .error .notNull

/-- The row of `INSERT OR IGNORE INTO event`, which leaves out `expires_at`. -/
def loadedRow (id : Nat) (hash author : Bytes) (e : Event) : EventRow :=
  { eventRow id hash author e with expiresAt := none }

/-- The integers of the insert can be bound. -/
def bindable (e : Event) : Bool := fitsI64 e.createdAt && fitsI64 e.kind

/-! ## Writing one event

The loader has its own copy of the write path. Its insert of a tag leaves out two columns that are
`NOT NULL` by now, so an event with a searchable tag fails at the first one. -/

/-- The insert for one tag: as bytes if they can be restored losslessly, otherwise as text. -/
def tagColumns (eventId : Nat) (tagname tagval : String) : TagColumns :=
  if byteLen tagval % 2 = 0 ∧ isLowerHex tagval = true then
    { eventId, name := tagname, value := none, valueHex := Hex.decode tagval, createdAt := none
      kind := none }
  else
    { eventId, name := tagname, value := tagval, valueHex := none, createdAt := none
      kind := none }

/-- One turn of the tag loop. -/
def writeTag (db : Db) (eventId : Nat) (t : List String) : Except LoadError Db :=
  match t with
  | tagname :: tagval :: _ =>
    if (singleCharTagname tagname).isNone then .ok db
    else insertTagColumns db (tagColumns eventId tagname tagval)
  | _ => .ok db

/-- The tag loop, up to the first error; the database is what the statements before it left. -/
def writeTags (db : Db) (eventId : Nat) : List (List String) → Except LoadError Unit × Db
  | [] => (.ok (), db)
  | t :: ts =>
    match writeTag db eventId t with
    | .ok db => writeTags db eventId ts
    | .error err => (.error err, db)

/-- The event inserted without tags, `event_hash` being new. -/
def insertedAlone (db : Db) (e : Event) (hash author : Bytes)
    (hnew : hash ∉ db.events.map EventRow.eventHash) : Db :=
  db.insert (loadedRow db.nextRowid hash author e) [] (nextRowid_notMem db) hnew
    fun _ ht => absurd ht List.not_mem_nil

/-- Write an event and update the tag table. -/
def writeEvent (eng : Sql.Engine) (db : Db) (e : Event) : Except LoadError Nat × Db :=
  if !bindable e then (.error .toSqlConversionFailure, db)
  else
    match Hex.decode e.id, Hex.decode e.pubkey with
    | some hash, some author =>
      -- ignore if the event hash is a duplicate
      if hnew : hash ∈ db.events.map EventRow.eventHash then (.ok 0, db)
      else
        match writeTags (insertedAlone db e hash author hnew) db.nextRowid
            (e.tags.filter fun x => 1 < x.length) with
        | (.error err, db) => (.error err, db)
        | (.ok (), db) =>
          (.ok 1, if e.isReplaceable then deleteOlderReplaceable eng db e.kind author else db)
    -- `NOT NULL` fails on the hash or the author, and `OR IGNORE` skips the row
    | _, _ => (.ok 0, db)

/-- One event of the batch: ephemeral events are ignored, and errors logged. -/
def loadEvent (eng : Sql.Engine) (db : Db) (e : Event) : Db :=
  if e.isEphemeral then db else (writeEvent eng db e).2

/-- The database the main loop makes of the empty one. Where one batch ends and the next begins
is of no consequence, as every batch is committed. -/
def load (eng : Sql.Engine) (es : List Event) : Db := Machine.run (loadEvent eng) Db.empty es

/-! ## The tag loop -/

/-- The insert of a tag never names the columns that are `NOT NULL`. -/
theorem insertTagColumns_error (db : Db) (eventId : Nat) (tagname tagval : String) :
    insertTagColumns db (tagColumns eventId tagname tagval) = .error .notNull := by
  rw [tagColumns]
  split <;> rfl

theorem writeTag_eq (db : Db) (eventId : Nat) (t : List String) :
    writeTag db eventId t =
      if (Event.searchable t).isSome then .error .notNull else .ok db := by
  match t with
  | [] => rfl
  | [_] => rfl
  | tagname :: tagval :: _ =>
    rcases h : singleCharTagname tagname with _ | c
    · simp [writeTag, Event.searchable, h]
    · simp [writeTag, Event.searchable, h, insertTagColumns_error]

/-- The tag loop fails at the first searchable tag, and adds nothing. -/
theorem writeTags_eq (db : Db) (eventId : Nat) (ts : List (List String)) :
    writeTags db eventId ts =
      (if ts.filterMap Event.searchable = [] then .ok () else .error .notNull, db) := by
  induction ts with
  | nil => rfl
  | cons t ts ih =>
    rw [writeTags, writeTag_eq]
    rcases h : Event.searchable t with _ | nv
    · rw [List.filterMap_cons_none h]
      exact ih
    · rw [List.filterMap_cons_some h]
      rfl

/-- Tags of one element are not searchable anyway. -/
theorem filterMap_searchable (ts : List (List String)) :
    (ts.filter fun x => 1 < x.length).filterMap Event.searchable =
      ts.filterMap Event.searchable := by
  rw [List.filterMap_filter]
  refine List.filterMap_congr fun t _ => ?_
  match t with
  | [] => rfl
  | [_] => rfl
  | _ :: _ :: _ => rfl

/-! ## The cases of a turn -/

/-- The loader adds a row for the event. -/
structure Loads (db : Db) (e : Event) (hash author : Bytes) : Prop where
  not_ephemeral : e.isEphemeral = false
  bindable : bindable e = true
  decode_id : Hex.decode e.id = some hash
  decode_pubkey : Hex.decode e.pubkey = some author
  hash_new : hash ∉ db.events.map EventRow.eventHash

/-- The turn of this event deletes older events. -/
def cleansUp (e : Event) : Bool := e.searchableTags.isEmpty && e.isReplaceable

/-- The database after a turn that adds a row. -/
def loaded (eng : Sql.Engine) (db : Db) (e : Event) (hash author : Bytes)
    (hnew : hash ∉ db.events.map EventRow.eventHash) : Db :=
  let db := insertedAlone db e hash author hnew
  if cleansUp e then deleteOlderReplaceable eng db e.kind author else db

theorem loadEvent_of_loads (h : Loads db e hash author) :
    loadEvent eng db e = loaded eng db e hash author h.hash_new := by
  rw [loadEvent, h.not_ephemeral, writeEvent, h.bindable]
  simp only [Bool.false_eq_true, if_false, Bool.not_true, h.decode_id, h.decode_pubkey]
  rw [dif_neg h.hash_new, writeTags_eq, filterMap_searchable, ← Event.searchableTags, loaded,
    cleansUp]
  rcases htags : e.searchableTags with _ | ⟨nv, rest⟩
  · simp
  · simp

/-- A turn adds a row, or changes nothing. -/
theorem loadEvent_cases (eng : Sql.Engine) (db : Db) (e : Event) :
    loadEvent eng db e = db ∨ ∃ hash author, ∃ h : Loads db e hash author,
      loadEvent eng db e = loaded eng db e hash author h.hash_new := by
  by_cases heph : e.isEphemeral = true
  · exact .inl (if_pos heph)
  · by_cases hb : bindable e = true
    · rcases hid : Hex.decode e.id with _ | hash
      · exact .inl (by simp [loadEvent, writeEvent, heph, hb, hid])
      · rcases hpk : Hex.decode e.pubkey with _ | author
        · exact .inl (by simp [loadEvent, writeEvent, heph, hb, hid, hpk])
        · by_cases hnew : hash ∈ db.events.map EventRow.eventHash
          · refine .inl ?_
            simp only [loadEvent, writeEvent, heph, hb, hid, hpk, if_false, Bool.not_true,
              Bool.false_eq_true]
            rw [dif_pos hnew]
          · have h : Loads db e hash author := ⟨by simpa using heph, hb, hid, hpk, hnew⟩
            exact .inr ⟨hash, author, h, loadEvent_of_loads h⟩
    · exact .inl (by simp [loadEvent, writeEvent, heph, hb])

/-! ## The clean-up -/

/-- The delete keeps one row of its kind and author, none of them being newer, and every
other row. -/
theorem deleteOlderReplaceable_keeps (eng : Sql.Engine) {db : Db} (kind : Nat) (author : Bytes)
    (hr : r ∈ db.events) (hk : r.kind = kind) (ha : r.author = author) :
    ∃ top ∈ db.events, top.kind = kind ∧ top.author = author ∧
      (∀ s ∈ db.events, s.kind = kind → s.author = author → s.createdAt ≤ top.createdAt) ∧
      ∀ s, s ∈ (deleteOlderReplaceable eng db kind author).events ↔
        s ∈ db.events ∧ (s.kind = kind → s.author = author → s = top) := by
  have hgroup : ∀ s, s ∈ (db.events.filter fun r => r.kind == kind && r.author == author) ↔
      s ∈ db.events ∧ s.kind = kind ∧ s.author = author := by
    intro s
    rw [List.mem_filter, Bool.and_eq_true, beq_iff_eq, beq_iff_eq]
  rcases hord : Sql.orderByDesc eng EventRow.createdAt
      (db.events.filter fun r => r.kind == kind && r.author == author) with _ | ⟨top, rest⟩
  · have hmem : r ∈ Sql.orderByDesc eng EventRow.createdAt
        (db.events.filter fun r => r.kind == kind && r.author == author) :=
      Sql.mem_orderByDesc.mpr ((hgroup r).mpr ⟨hr, hk, ha⟩)
    rw [hord] at hmem
    exact absurd hmem List.not_mem_nil
  · obtain ⟨htop, hkt, hat⟩ := (hgroup top).mp
      (Sql.mem_orderByDesc.mp (hord ▸ List.mem_cons_self))
    refine ⟨top, htop, hkt, hat, ?_, ?_⟩
    · intro s hs hks has
      exact Sql.key_le_head hord s ((hgroup s).mpr ⟨hs, hks, has⟩)
    · intro s
      rw [deleteOlderReplaceable, hord, Db.mem_deleteEvents]
      refine and_congr_right fun hs => ?_
      rw [← Bool.not_eq_true, Bool.and_eq_true, Bool.and_eq_true, beq_iff_eq, beq_iff_eq]
      simp only [List.take_succ_cons, List.take_zero, List.map_cons, List.map_nil,
        Bool.not_eq_true', List.contains_eq_mem, List.mem_singleton, decide_eq_false_iff_not,
        not_and, not_not]
      refine ⟨fun h hks has => ?_, fun h hg => ?_⟩
      · exact db.eq_of_id_eq hs htop (h ⟨hks, has⟩)
      · rw [h hg.1 hg.2]

/-! ## The rows after a turn -/

theorem mem_insertedAlone (h : Loads db e hash author) :
    r ∈ (insertedAlone db e hash author h.hash_new).events ↔
      r ∈ db.events ∨ r = loadedRow db.nextRowid hash author e :=
  Db.mem_insert

/-- Every row is a stored one or the new one. -/
theorem of_mem_loaded (h : Loads db e hash author)
    (hr : r ∈ (loaded eng db e hash author h.hash_new).events) :
    r ∈ db.events ∨ r = loadedRow db.nextRowid hash author e := by
  rw [← mem_insertedAlone h]
  unfold loaded at hr
  split at hr
  · exact (Db.mem_deleteEvents.mp hr).1
  · exact hr

/-- A turn that cleans up leaves one row of the kind and author, none having been newer, and
every other row. -/
theorem loaded_cleansUp (eng : Sql.Engine) (h : Loads db e hash author) (hc : cleansUp e = true) :
    ∃ top, (top ∈ db.events ∨ top = loadedRow db.nextRowid hash author e) ∧
      top.kind = e.kind ∧ top.author = author ∧
      (∀ s, s ∈ db.events ∨ s = loadedRow db.nextRowid hash author e →
        s.kind = e.kind → s.author = author → s.createdAt ≤ top.createdAt) ∧
      ∀ s, s ∈ (loaded eng db e hash author h.hash_new).events ↔
        (s ∈ db.events ∨ s = loadedRow db.nextRowid hash author e) ∧
          (s.kind = e.kind → s.author = author → s = top) := by
  have hmem : ∀ s, s ∈ (insertedAlone db e hash author h.hash_new).events ↔
      s ∈ db.events ∨ s = loadedRow db.nextRowid hash author e := fun s => mem_insertedAlone h
  have hnew := (hmem _).mpr (Or.inr rfl)
  obtain ⟨top, htop, hk, ha, hle, hkeep⟩ :=
    deleteOlderReplaceable_keeps eng e.kind author hnew rfl rfl
  refine ⟨top, (hmem top).mp htop, hk, ha, fun s hs => hle s ((hmem s).mpr hs), fun s => ?_⟩
  rw [loaded, hc, ← hmem s, ← hkeep s]
  rfl

/-- A row of another kind or author than the turn cleans up stays. -/
theorem mem_loaded (h : Loads db e hash author)
    (hr : r ∈ db.events ∨ r = loadedRow db.nextRowid hash author e)
    (hother : cleansUp e = true → r.kind = e.kind → r.author ≠ author) :
    r ∈ (loaded eng db e hash author h.hash_new).events := by
  rcases hc : cleansUp e with _ | _
  · rw [loaded, hc]
    exact (mem_insertedAlone h).mpr hr
  · obtain ⟨top, -, -, -, -, hkeep⟩ := loaded_cleansUp eng h hc
    exact (hkeep r).mpr ⟨hr, fun hk ha => absurd ha (hother hc hk)⟩

/-- A row goes only where one that is not older stays. -/
theorem exists_mem_loaded (eng : Sql.Engine) (h : Loads db e hash author)
    (hr : r ∈ db.events ∨ r = loadedRow db.nextRowid hash author e) :
    ∃ s ∈ (loaded eng db e hash author h.hash_new).events, s.author = r.author ∧
      s.kind = r.kind ∧ r.createdAt ≤ s.createdAt := by
  by_cases hin : cleansUp e = true ∧ r.kind = e.kind ∧ r.author = author
  · obtain ⟨hc, hk, ha⟩ := hin
    obtain ⟨top, htop, hkt, hat, hle, hkeep⟩ := loaded_cleansUp eng h hc
    exact ⟨top, (hkeep top).mpr ⟨htop, fun _ _ => rfl⟩, hat.trans ha.symm, hkt.trans hk.symm,
      hle r hr hk ha⟩
  · refine ⟨r, mem_loaded h hr ?_, rfl, rfl, Nat.le_refl _⟩
    intro hc hk ha
    exact hin ⟨hc, hk, ha⟩

/-! ## Loaded databases -/

/-- The row of an event that is visible and never expires. -/
structure PlainRow (e : Event) (r : EventRow) : Prop extends RowOf e r where
  hidden : r.hidden = false
  expiresAt : r.expiresAt = none

/-- The new row is that of its event. -/
theorem plainRow_new (h : Loads db e hash author) :
    PlainRow e (loadedRow db.nextRowid hash author e) where
  content := rfl
  decode_id := h.decode_id
  decode_pubkey := h.decode_pubkey
  createdAt := rfl
  kind := rfl
  hidden := rfl
  expiresAt := rfl

theorem Db.deleteEvents_tags_nil {db : Db} (h : db.tags = []) (p : EventRow → Bool) :
    (db.deleteEvents p).tags = [] := by
  simp [Db.deleteEvents, h]

/-- No tag row is ever loaded. -/
theorem load_tags (eng : Sql.Engine) (es : List Event) : (load eng es).tags = [] := by
  refine Machine.invariant (P := fun db => Db.tags db = []) ?_ rfl
  intro db e _ htags
  rcases loadEvent_cases eng db e with heq | ⟨hash, author, h, heq⟩
  · rw [heq]
    exact htags
  · have hins : (insertedAlone db e hash author h.hash_new).tags = [] :=
      (List.append_nil db.tags).trans htags
    rw [heq, loaded]
    split
    · exact Db.deleteEvents_tags_nil hins _
    · exact hins

/-- Every loaded row is that of an event of the sequence. -/
theorem exists_plainRow_load {es : List Event} (hr : r ∈ (load eng es).events) :
    ∃ e ∈ es, bindable e = true ∧ PlainRow e r := by
  revert hr
  refine Machine.invariant (P := fun db => r ∈ Db.events db → ∃ e ∈ es, bindable e = true ∧
    PlainRow e r) ?_ (fun hr => absurd hr List.not_mem_nil)
  intro db e he ih hr
  rcases loadEvent_cases eng db e with heq | ⟨hash, author, h, heq⟩
  · exact ih (heq ▸ hr)
  · rcases of_mem_loaded h (heq ▸ hr) with hr | rfl
    · exact ih hr
    · exact ⟨e, he, h.bindable, plainRow_new h⟩

/-- A loaded row stays as long as no turn cleans up its kind and author. -/
theorem mem_run_loadEvent {es : List Event} (hr : r ∈ db.events)
    (hother : ∀ f ∈ es, bindable f = true → cleansUp f = true → r.kind = f.kind →
      Hex.decode f.pubkey ≠ some r.author) :
    r ∈ (Machine.run (loadEvent eng) db es).events := by
  refine Machine.invariant (P := fun db => r ∈ Db.events db) ?_ hr
  intro db f hf hr
  rcases loadEvent_cases eng db f with heq | ⟨hash, author, h, heq⟩
  · rw [heq]
    exact hr
  · rw [heq]
    refine mem_loaded h (Or.inl hr) fun hc hk ha => hother f hf h.bindable hc hk ?_
    rw [h.decode_pubkey, ha]

end Floonet.Sqlite
