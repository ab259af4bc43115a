import Mathlib
import Floonet.Lib.Transaction
import Floonet.Recorded
import Floonet.Sqlite.Answers
import Floonet.Sqlite.Expiry

/-!
# The migration of the tag table

Up to schema version 15 a tag value that looks like hex is stored as bytes, in a column of its
own; from version 16 on every value is text, and each row repeats the kind and the time of its
event. `mig15To16` drops the table and builds it anew from the `content` of every event, inside
one transaction.

The loop is another than the one of `persistEvent`, and the rows are the same
(`insertTags_eq`). A tag condition looks at the tags of a row as a collection
(`holds_of_tagsWritten`), so it cannot tell the rebuilt table from a written one. A whole
statement can: the migration after this one adds `expires_at` and fills it for no event, so
events that had an expiration before the upgrade are found after it (`sameTagAnswers_iff`).
-/

namespace Floonet.Sqlite

open Hex (Bytes)

/-! ## A database of schema version 15 -/

/-- A row of table `event` before `expires_at` was added. -/
structure EventRow15 where
  /-- `id INTEGER PRIMARY KEY`, which the engine counts from one -/
  id : Nat
  eventHash : Bytes
  createdAt : Int
  author : Bytes
  delegatedBy : Option Bytes
  kind : Int
  hidden : Bool
  /-- the serialized event object -/
  content : String

/-- A row of table `tag` up to version 15. -/
structure TagRow15 where
  eventId : Nat
  name : Option String
  value : Option String
  /-- the value, if it is lowercase hex -/
  valueHex : Option Bytes
  deriving DecidableEq

/-- Table `tag`, as either version declares it. -/
inductive TagTable where
  | v15 (rows : List TagRow15)
  | v16 (rows : List TagRow)
  deriving DecidableEq

/-- The file while it is upgraded. -/
structure Database where
  userVersion : Nat
  events : List EventRow15
  tags : TagTable
  userVerification : List VerificationRow
  id_nodup : (events.map EventRow15.id).Nodup

/-- Why a migration fails. -/
inductive MigrationError where
  /-- an integer that is no `u64` -/
  | integralValueOutOfRange
  /-- `content` is no event -/
  | serdeJson
  /-- table `tag` has no such column -/
  | noSuchColumn
  /-- `tag.event_id` refers to no event -/
  | foreignKey
  deriving DecidableEq

/-! ## The migration -/

/-- The statements of a migration. -/
abbrev Migration := Sql.Tx Database MigrationError

/-- `row.get` of a `u64`. -/
def getU64 (i : Int) : Migration Nat :=
  if 0 ≤ i then pure i.toNat else throw .integralValueOutOfRange

/-- `DROP TABLE tag; CREATE TABLE tag (…)`. -/
def recreateTags : Migration Unit := modify fun db => { db with tags := .v16 [] }

/-- `INSERT INTO tag (event_id, name, value, kind, created_at) VALUES (…)`. -/
def insertTag (row : TagRow) : Migration Unit := fun db =>
  match db.tags with
  | .v15 _ => .error .noSuchColumn
  | .v16 rows =>
    if row.eventId ∈ db.events.map EventRow15.id then
      .ok ((), { db with tags := .v16 (rows ++ [row]) })
    else .error .foreignKey

/-- One turn of the inner loop, over a tag of more than one element. -/
def insertTagOf (eventId kind createdAt : Nat) (t : List String) : Migration Unit :=
  match t with
  | tagname :: tagval :: _ =>
    if (singleCharTagname tagname).isNone then pure ()
    else insertTag { eventId, name := tagname, value := tagval, createdAt, kind }
  | _ => pure ()

/-- Look at each tag of an event, creating new tag entries if appropriate. -/
def insertTags (eventId kind createdAt : Nat) (e : Event) : Migration Unit :=
  (e.tags.filter fun x => 1 < x.length).forM (insertTagOf eventId kind createdAt)

/-- One turn of the outer loop. `fromStr` is `serde_json::from_str`. -/
def migrateRow (fromStr : String → Option Event) (row : EventRow15) : Migration Unit := do
  let kind ← getU64 row.kind
  let createdAt ← getU64 row.createdAt
  match fromStr row.content with
  | some e => insertTags row.id kind createdAt e
  | none => throw .serdeJson

/-- `PRAGMA user_version = 16`. -/
def setUserVersion (n : Nat) : Migration Unit := modify fun db => { db with userVersion := n }

/-- The statements between `transaction` and `commit`. -/
def mig15To16Body (eng : Sql.Engine) (fromStr : String → Option Event) : Migration Nat := do
  recreateTags
  let db ← get
  (Sql.orderByAsc eng EventRow15.id db.events).forM (migrateRow fromStr)
  setUserVersion 16
  pure 16

/-- `mig_15_to_16`. -/
def mig15To16 (eng : Sql.Engine) (fromStr : String → Option Event) (db : Database) :
    Except MigrationError Nat × Database :=
  Sql.transaction (mig15To16Body eng fromStr) db

variable {eng : Sql.Engine} {fromStr : String → Option Event} {db : Database} {rows : List TagRow}
  {e : Event} {eventId : Nat}

/-! ## The two loops

The loops of the migration and of the write path insert the same tag rows, except that the former
takes its columns from the stored row. -/

/-- The file with other rows in the rebuilt table. -/
def Database.withTags (db : Database) (rows : List TagRow) : Database :=
  { db with tags := .v16 rows }

/-- A tag of a stored event is inserted, if it is searchable. -/
theorem insertTagOf_eq (hid : eventId ∈ db.events.map EventRow15.id) {t : List String}
    (hlen : 1 < t.length) :
    insertTagOf eventId e.kind e.createdAt t (db.withTags rows) =
      .ok ((), db.withTags (rows ++ [t].filterMap fun t =>
        (Event.searchable t).map (tagRow eventId e))) := by
  match t, hlen with
  | tagname :: tagval :: _, _ =>
    rcases h : singleCharTagname tagname with _ | c
    · simp [insertTagOf, Event.searchable, h, pure, StateT.pure, Except.pure]
    · simp only [insertTagOf, Event.searchable, h, Option.isNone_some, Option.isSome_some,
        Bool.false_eq_true, if_false, if_true, Option.map_some, List.filterMap_cons,
        List.filterMap_nil]
      rw [insertTag]
      exact if_pos hid

/-- The loop over one event adds the rows `persistEvent` adds. -/
theorem insertTags_eq (hid : eventId ∈ db.events.map EventRow15.id) :
    insertTags eventId e.kind e.createdAt e (db.withTags rows) =
      .ok ((), db.withTags (rows ++ tagRows eventId e)) := by
  -- the rows so far are those of the tags done
  obtain ⟨s', hloop, rfl⟩ := Sql.forM_ok
    (insertTagOf eventId e.kind e.createdAt) (l := e.tags.filter fun x => 1 < x.length)
    (I := fun done s => s = db.withTags (rows ++ done.filterMap fun t =>
      (Event.searchable t).map (tagRow eventId e)))
    (by
      rintro done t s ht rfl
      have hlen : 1 < t.length := by simpa using (List.mem_filter.mp ht).2
      refine ⟨_, insertTagOf_eq hid hlen, ?_⟩
      rw [List.filterMap_append, List.append_assoc])
    (s := db.withTags rows) (by rw [List.filterMap_nil, List.append_nil])
  rw [insertTags, hloop, tagRows, Event.searchableTags, List.map_filterMap, List.filterMap_filter]
  congr 5
  funext t
  rcases t with _ | ⟨_, _ | ⟨_, _⟩⟩
  · rfl
  · rfl
  · rfl

/-- The content of a row is an event of the kind and time of its columns. -/
def EventRow15.Reads (fromStr : String → Option Event) (row : EventRow15) : Prop :=
  ∃ e, fromStr row.content = some e ∧ (e.kind : Int) = row.kind ∧
    (e.createdAt : Int) = row.createdAt

/-- What the tag loop of `persistEvent` adds for the event of a row. -/
def EventRow15.writtenTags (fromStr : String → Option Event) (row : EventRow15) : List TagRow :=
  (fromStr row.content).elim [] (tagRows row.id)

theorem getU64_natCast (n : Nat) (db : Database) : getU64 n db = .ok (n, db) := by
  rw [getU64, if_pos (Int.natCast_nonneg n)]
  rfl

/-- A turn over a row that reads adds the tag rows of its event. -/
theorem migrateRow_eq {row : EventRow15} (hrow : row ∈ db.events) (hreads : row.Reads fromStr) :
    migrateRow fromStr row (db.withTags rows) =
      .ok ((), db.withTags (rows ++ row.writtenTags fromStr)) := by
  obtain ⟨e, he, hkind, hcreated⟩ := hreads
  refine Sql.bind_eq_ok.mpr ⟨e.kind, _, hkind ▸ getU64_natCast .., ?_⟩
  refine Sql.bind_eq_ok.mpr ⟨e.createdAt, _, hcreated ▸ getU64_natCast .., ?_⟩
  rw [EventRow15.writtenTags, he]
  exact insertTags_eq (List.mem_map_of_mem hrow)

/-- A turn that comes through has read an event. -/
theorem isSome_of_migrateRow {row : EventRow15} {db db' : Database}
    (h : migrateRow fromStr row db = .ok ((), db')) : (fromStr row.content).isSome = true := by
  obtain ⟨kind, s, -, h⟩ := Sql.bind_eq_ok.mp h
  obtain ⟨createdAt, t, -, h⟩ := Sql.bind_eq_ok.mp h
  rcases he : fromStr row.content with _ | e
  · rw [he] at h
    cases h
  · rfl

/-! ## The whole migration

If the content of every row reads, the rebuilt table has the rows of the write path. Otherwise the
transaction is given up. -/

/-- Where every row reads, the table is rebuilt with the rows of `persistEvent`. -/
theorem mig15To16_ok (eng : Sql.Engine) (hreads : ∀ row ∈ db.events, row.Reads fromStr) :
    ∃ rows, mig15To16 eng fromStr db = (.ok 16, { db.withTags rows with userVersion := 16 }) ∧
      rows.Perm (db.events.flatMap (EventRow15.writtenTags fromStr)) := by
  have hmem : ∀ row ∈ Sql.orderByAsc eng EventRow15.id db.events, row ∈ db.events :=
    fun row => Sql.mem_orderByAsc.mp
  -- the table holds the tag rows of the events done
  obtain ⟨s', hloop, rfl⟩ := Sql.forM_ok (migrateRow fromStr)
    (l := Sql.orderByAsc eng EventRow15.id db.events)
    (I := fun done s => s = db.withTags (done.flatMap (EventRow15.writtenTags fromStr)))
    (by
      rintro done row s hrow rfl
      refine ⟨_, migrateRow_eq (hmem row hrow) (hreads row (hmem row hrow)), ?_⟩
      rw [List.flatMap_append, List.flatMap_singleton])
    (s := db.withTags []) rfl
  refine ⟨(Sql.orderByAsc eng EventRow15.id db.events).flatMap (EventRow15.writtenTags fromStr),
    Sql.transaction_ok ?_, ?_⟩
  · exact Sql.bind_eq_ok.mpr ⟨(), db.withTags [], rfl, Sql.bind_eq_ok.mpr
      ⟨db.withTags [], db.withTags [], rfl, Sql.bind_eq_ok.mpr ⟨(), _, hloop, rfl⟩⟩⟩
  · exact (Sql.orderByAsc_perm eng EventRow15.id db.events).flatMap_right _

/-- One row that is no event, and the database is as it was. -/
theorem mig15To16_error {row : EventRow15} (hrow : row ∈ db.events)
    (hnone : fromStr row.content = none) : ∃ err, mig15To16 eng fromStr db = (.error err, db) := by
  rcases hbody : mig15To16Body eng fromStr db with err | ⟨n, db'⟩
  · exact ⟨err, Sql.transaction_error hbody⟩
  · obtain ⟨_, s, hs, hbody⟩ := Sql.bind_eq_ok.mp hbody
    obtain ⟨db₁, t, ht, hbody⟩ := Sql.bind_eq_ok.mp hbody
    obtain ⟨_, u, hloop, -⟩ := Sql.bind_eq_ok.mp hbody
    cases hs
    cases ht
    have hread := Sql.forall_of_forM_ok (fun _ _ _ => isSome_of_migrateRow) hloop row
      (Sql.mem_orderByAsc.mpr hrow)
    rw [hnone] at hread
    cases hread

/-! ## Queries after the upgrade

The tag rows of an upgraded file are those of written events, and so is what a tag condition
finds. A statement also asks whether an event has expired, and that is a column: `persistEvent`
fills it from the `expiration` tag, an upgraded row has `NULL` there. The two answer alike as long
as no tag query can reach an event that expires. -/

/-- The row after the later migrations: `expires_at` is added, and `NULL`. -/
def EventRow15.upgraded (fromStr : String → Option Event) (row : EventRow15) : Option EventRow :=
  (fromStr row.content).map fun e =>
    { id := row.id
      eventHash := row.eventHash
      createdAt := row.createdAt.toNat
      expiresAt := none
      author := row.author
      delegatedBy := row.delegatedBy
      kind := row.kind.toNat
      hidden := row.hidden
      content := e }

/-- The tables the relay runs on, once a file of version 16 is brought to version 19. -/
structure Database.Upgraded (fromStr : String → Option Event) (db : Database) (up : Db) : Prop where
  events : up.events = db.events.filterMap (EventRow15.upgraded fromStr)
  tags : db.tags = .v16 up.tags
  userVerification : up.userVerification = db.userVerification

/-- The tag rows of every event are those `persistEvent` writes with it. -/
def Db.TagsWritten (db : Db) : Prop :=
  ∀ r ∈ db.events, (db.tagsOf r.id).Perm (tagRows r.id r.content)

/-- So they are in every database the write path keeps. -/
theorem Db.Coherent.tagsWritten {db : Db} (h : db.Coherent) : db.TagsWritten := by
  intro r hr
  rw [(h r hr).tagsOf]

/-- A tag condition does not look at the id of the event. -/
theorem matches_tagRow (c : TagClause) (i j : Nat) (e : Event) :
    (tagRows i e).any c.matches = (tagRows j e).any c.matches := by
  rw [tagRows, tagRows, List.any_map, List.any_map]
  rfl

/-- Where tag rows are as written, a tag condition depends on the event alone. -/
theorem holds_of_tagsWritten {up written : Db} (hup : up.TagsWritten) (hw : written.TagsWritten)
    {r s : EventRow} (hr : r ∈ up.events) (hs : s ∈ written.events) (h : s.content = r.content)
    (c : TagClause) : (Component.tag c).holds up r = (Component.tag c).holds written s := by
  rw [holds_tag_eq, holds_tag_eq, (hup r hr).any_eq, (hw s hs).any_eq, h]
  exact matches_tagRow c r.id s.id r.content

/-- The tags of a row are its own. -/
theorem eventId_of_mem_writtenTags {row : EventRow15} {t : TagRow}
    (h : t ∈ row.writtenTags fromStr) : t.eventId = row.id := by
  rw [EventRow15.writtenTags] at h
  rcases he : fromStr row.content with _ | e
  · rw [he] at h
    cases h
  · rw [he, Option.elim_some] at h
    obtain ⟨nv, -, rfl⟩ := List.mem_map.mp h
    rfl

/-- In the rebuilt table each event has the tag rows of its own turn. -/
theorem filter_writtenTags (fromStr : String → Option Event) {row : EventRow15}
    {l : List EventRow15} (hrow : row ∈ l) (hnd : (l.map EventRow15.id).Nodup) :
    (l.flatMap (EventRow15.writtenTags fromStr)).filter (fun t => t.eventId == row.id) =
      row.writtenTags fromStr := by
  have hother : ∀ s : EventRow15, s.id ≠ row.id →
      (s.writtenTags fromStr).filter (fun t => t.eventId == row.id) = [] := by
    intro s hne
    rw [List.filter_eq_nil_iff]
    intro t ht heq
    exact hne ((eventId_of_mem_writtenTags ht).symm.trans (beq_iff_eq.mp heq))
  have hself : (row.writtenTags fromStr).filter (fun t => t.eventId == row.id) =
      row.writtenTags fromStr :=
    List.filter_eq_self.mpr fun t ht => beq_iff_eq.mpr (eventId_of_mem_writtenTags ht)
  induction l with
  | nil => exact absurd hrow List.not_mem_nil
  | cons s l ih =>
    rw [List.map_cons, List.nodup_cons] at hnd
    rw [List.flatMap_cons, List.filter_append]
    rcases List.mem_cons.mp hrow with rfl | hrow
    · have hrest : (l.flatMap (EventRow15.writtenTags fromStr)).filter
          (fun t => t.eventId == row.id) = [] := by
        rw [List.filter_flatMap, List.flatMap_eq_nil_iff]
        exact fun s hs => hother s fun heq => hnd.1 (List.mem_map.mpr ⟨s, hs, heq⟩)
      rw [hself, hrest, List.append_nil]
    · have hne : s.id ≠ row.id := fun heq => hnd.1 (List.mem_map.mpr ⟨row, hrow, heq.symm⟩)
      rw [hother s hne, List.nil_append]
      exact ih hrow hnd.2

/-- After the upgrade the tag rows of every event are as if the event had been written. -/
theorem Database.Upgraded.tagsWritten {up : Db} (h : (db.withTags rows).Upgraded fromStr up)
    (hrows : rows.Perm (db.events.flatMap (EventRow15.writtenTags fromStr))) : up.TagsWritten := by
  intro r hr
  obtain rfl : rows = up.tags := TagTable.v16.inj h.tags
  rw [h.events] at hr
  obtain ⟨row, hrow, hup⟩ := List.mem_filterMap.mp hr
  obtain ⟨e, he, rfl⟩ := Option.map_eq_some_iff.mp hup
  have hself := filter_writtenTags fromStr hrow db.id_nodup
  rw [EventRow15.writtenTags, he, Option.elim_some] at hself
  rw [Db.tagsOf, ← hself]
  exact hrows.filter _

/-- What a row says of its event apart from when it expires. -/
def EventRow.shown (r : EventRow) : Event × Bytes × Bytes × Bool :=
  (r.content, r.eventHash, r.author, r.hidden)

/-- The two databases store the same events. -/
def SameEvents (up written : Db) : Prop :=
  written.events.map EventRow.shown = up.events.map EventRow.shown

/-- The filter asks for a value of a tag, under a letter a client can name. -/
def TagQuery (f : ReqFilter) : Prop :=
  ∃ map c val, f.tags = some map ∧ map.lookup c = some val ∧ val.values ≠ ∅ ∧ c.utf8Size = 1

/-- Tag queries have the same answers. -/
def SameTagAnswers (up written : Db) : Prop :=
  ∀ f, TagQuery f → ∀ now,
    answers up (queryFromFilter f now) = answers written (queryFromFilter f now)

/-- The event has a tag a client can ask for. -/
def HasLetterTag (e : Event) : Prop :=
  ∃ c v, c.utf8Size = 1 ∧ (String.singleton c, v) ∈ e.searchableTags

/-- No visible event of the file that a tag query can reach has an expiration. -/
def Database.NoneExpires (fromStr : String → Option Event) (db : Database) : Prop :=
  ∀ row ∈ db.events, row.hidden = false → ∀ e, fromStr row.content = some e → HasLetterTag e →
    e.expiration = none

section Answers

variable {up written : Db} {r s : EventRow} {f : ReqFilter} {now : Nat}

/-- Apart from the expiration, what a component says of a row it says of the written one. -/
theorem holds_of_shown (hup : up.TagsWritten) (hcoh : written.Coherent) (hr : r ∈ up.events)
    (hs : s ∈ written.events) (hkind : r.kind = r.content.kind)
    (hcreated : r.createdAt = r.content.createdAt) (hshown : s.shown = r.shown) {c : Component}
    (hc : ∀ t, c ≠ .unexpired t) : c.holds up r = c.holds written s := by
  simp only [EventRow.shown, Prod.mk.injEq] at hshown
  obtain ⟨hcontent, hhash, hauthor, -⟩ := hshown
  have hrow := hcoh s hs
  cases c with
  | author blobs => simp only [Component.holds, hauthor]
  | kind ks => simp only [Component.holds, hkind, hrow.kind, hcontent]
  | eventHash blobs => simp only [Component.holds, hhash]
  | never => rfl
  | tag c => exact holds_of_tagsWritten hup hcoh.tagsWritten hr hs hcontent c
  | since t => simp only [Component.holds, hcreated, hrow.createdAt, hcontent]
  | until_ t => simp only [Component.holds, hcreated, hrow.createdAt, hcontent]
  | unexpired t => exact absurd rfl (hc t)

/-- A row of an event without expiration is selected like the written one. -/
theorem selects_of_shown (hup : up.TagsWritten) (hcoh : written.Coherent) (hr : r ∈ up.events)
    (hs : s ∈ written.events) (hkind : r.kind = r.content.kind)
    (hcreated : r.createdAt = r.content.createdAt) (hshown : s.shown = r.shown)
    (hnull : r.expiresAt = none) (hexp : r.content.expiration = none) :
    (queryFromFilter f now).selects up r = (queryFromFilter f now).selects written s := by
  have hcontent : s.content = r.content := congrArg Prod.fst hshown
  have hnone : s.expiresAt = none := by rw [(hcoh s hs).expiresAt, hcontent, hexp]
  have hholds : Component.holds up r = Component.holds written s := by
    funext c
    by_cases hc : ∃ t, c = .unexpired t
    · obtain ⟨t, rfl⟩ := hc
      simp only [Component.holds, hnull, hnone]
    · exact holds_of_shown hup hcoh hr hs hkind hcreated hshown fun t ht => hc ⟨t, ht⟩
  have hhidden : s.hidden = r.hidden := congrArg (fun x => x.2.2.2) hshown
  rw [Query.selects, Query.selects, hholds, hhidden]

/-- A tag query selects rows of events with such a tag only. -/
theorem hasLetterTag_of_selects (hw : written.TagsWritten) (hs : s ∈ written.events)
    (hf : TagQuery f) (h : (queryFromFilter f now).selects written s = true) :
    HasLetterTag s.content := by
  obtain ⟨map, c, val, hmap, hl, hne, hc⟩ := hf
  rw [queryFromFilter] at h
  split_ifs at h
  · cases h
  · simp only [Query.selects, Bool.and_eq_true, List.all_append, holds_tagsComponents] at h
    obtain ⟨-, ⟨⟨⟨-, htags⟩, -⟩, -⟩, -⟩ := h
    have hall := htags map hmap c val hl
    have hsome : ∃ comp, comp ∈ tagComponents f c val := by
      obtain ⟨x, hx⟩ := Finset.nonempty_iff_ne_empty.mpr hne
      simp only [tagComponents, if_neg hne]
      cases val with
      | or v => exact ⟨_, List.mem_singleton_self _⟩
      | and v => exact ⟨_, List.mem_map_of_mem ((Finset.mem_sort _).mpr hx)⟩
    obtain ⟨comp, hcomp⟩ := hsome
    obtain ⟨clause, rfl, hname, -⟩ := mem_tagComponents hcomp
    have hholds := List.all_eq_true.mp hall _ hcomp
    rw [holds_tag_eq, (hw s hs).any_eq, List.any_eq_true] at hholds
    obtain ⟨t, ht, hmatch⟩ := hholds
    obtain ⟨⟨n, v⟩, hnv, rfl⟩ := List.mem_map.mp ht
    simp only [TagClause.matches, tagRow, Bool.and_eq_true, beq_iff_eq] at hmatch
    rw [hmatch.1.1.1.1, hname] at hnv
    exact ⟨c, v, hc, hnv⟩

/-- Rows that say the same one by one, and are selected alike, give the same events. -/
theorem map_filter_of_shown {l l' : List EventRow} {p p' : EventRow → Bool}
    (h : l'.map EventRow.shown = l.map EventRow.shown)
    (hp : ∀ r ∈ l, ∀ s ∈ l', s.shown = r.shown → p r = p' s) :
    (l.filter p).map EventRow.content = (l'.filter p').map EventRow.content := by
  induction l generalizing l' with
  | nil =>
    obtain rfl := List.map_eq_nil_iff.mp h
    rfl
  | cons r l ih =>
    obtain ⟨s, l', rfl, hs, hl⟩ := List.map_eq_cons_iff.mp h
    have hrest := ih hl fun a ha b hb => hp a (List.mem_cons_of_mem _ ha) b (List.mem_cons_of_mem _ hb)
    have hhead := hp r (List.mem_cons_self ..) s (List.mem_cons_self ..) hs
    have hcontent : s.content = r.content := congrArg Prod.fst hs
    rw [List.filter_cons, List.filter_cons, hhead]
    split_ifs
    · rw [List.map_cons, List.map_cons, hrest, hcontent]
    · exact hrest

/-- What an upgraded row is made from. -/
theorem Database.Upgraded.row_cases {db : Database} (h : db.Upgraded fromStr up)
    (hr : r ∈ up.events) : ∃ row ∈ db.events, fromStr row.content = some r.content ∧
      r.hidden = row.hidden ∧ r.expiresAt = none ∧ r.createdAt = row.createdAt.toNat ∧
        r.kind = row.kind.toNat := by
  rw [h.events] at hr
  obtain ⟨row, hrow, hup⟩ := List.mem_filterMap.mp hr
  obtain ⟨e, he, rfl⟩ := Option.map_eq_some_iff.mp hup
  exact ⟨row, hrow, he, rfl, rfl, rfl, rfl⟩

/-- **When an upgrade shows in the answers.** Against a database the relay has written with the
same events, tag queries answer alike exactly if none of them can reach an event that expires. -/
theorem sameTagAnswers_iff {db : Database} (hreads : ∀ row ∈ db.events, row.Reads fromStr)
    (hup : (db.withTags rows).Upgraded fromStr up)
    (hrows : rows.Perm (db.events.flatMap (EventRow15.writtenTags fromStr)))
    (hcoh : written.Coherent) (hsame : SameEvents up written) :
    SameTagAnswers up written ↔ db.NoneExpires fromStr := by
  have htags := hup.tagsWritten hrows
  -- kind and time of a row are those of its event
  have hcolumns : ∀ r ∈ up.events, r.kind = r.content.kind ∧ r.createdAt = r.content.createdAt := by
    intro r hr
    obtain ⟨row, hrow, he, -, -, hcreated, hkind⟩ := hup.row_cases hr
    obtain ⟨e, he', hk, hc⟩ := hreads row hrow
    obtain rfl := Option.some.inj (he'.symm.trans he)
    rw [hkind, hcreated, ← hk, ← hc]
    exact ⟨Int.toNat_natCast _, Int.toNat_natCast _⟩
  have htimes : TimesAgree up := fun r hr => (hcolumns r hr).2
  have htimes' : TimesAgree written := fun s hs => (hcoh s hs).createdAt
  refine ⟨fun h row hrow hvis e he htag => ?_, fun h f hf now => ?_⟩
  · obtain ⟨c, v, hc, hmem⟩ := htag
    rcases hexp : e.expiration with _ | exp
    · rfl
    -- the tag query finds the upgraded row at the time it expires
    obtain ⟨r, hr, rfl, hrvis, hrexp⟩ : ∃ r ∈ up.events, r.content = e ∧ r.hidden = false ∧
        r.expiresAt = none := by
      have hin := List.mem_filterMap.mpr
        ⟨row, hrow, (by rw [EventRow15.upgraded, he, Option.map_some] :
          row.upgraded fromStr = some _)⟩
      exact ⟨_, hup.events ▸ hin, rfl, hvis, rfl⟩
    have hsel : (queryFromFilter (tagFilter c v) exp).selects up r = true := by
      refine selects_tagFilter_iff.mpr ⟨hrvis, by rw [hrexp]; rfl, ?_⟩
      rw [List.all_eq_true]
      intro comp hcomp
      obtain ⟨clause, rfl, hname, hkinds, hsince, huntil, x, hx, hholds⟩ := mem_tagComponents hcomp
      obtain rfl := Finset.mem_singleton.mp hx
      rw [holds_tag_eq, (htags r hr).any_eq, List.any_eq_true]
      refine ⟨_, List.mem_map_of_mem hmem, ?_⟩
      rw [TagClause.matches, hkinds, hsince, huntil, hname]
      simpa [tagRow, tagFilter, ReqFilter.initial] using hholds
    have hquery : TagQuery (tagFilter c v) :=
      ⟨_, c, _, rfl, lookup_singleton_eq_some.mpr ⟨rfl, rfl⟩, Finset.singleton_ne_empty v, hc⟩
    have hperm := perm_of_answers_eq htimes htimes' (limit_queryFromFilter rfl) (h _ hquery exp)
    have hin : r.content ∈ selected up (queryFromFilter (tagFilter c v) exp) :=
      List.mem_map_of_mem (List.mem_filter.mpr ⟨hr, hsel⟩)
    -- so it would have to find the written one, which has expired
    obtain ⟨s, hs, hcontent⟩ := List.mem_map.mp (hperm.mem_iff.mp hin)
    obtain ⟨hs, hsel'⟩ := List.mem_filter.mp hs
    have hlive := (visible_of_selects hsel').2
    rw [(hcoh s hs).expiresAt, hcontent, hexp] at hlive
    simp at hlive
  · refine answers_eq_of_perm htimes htimes' (.of_eq ?_)
    refine map_filter_of_shown hsame fun r hr s hs hshown => ?_
    obtain ⟨row, hrow, he, hvis, hnull, -⟩ := hup.row_cases hr
    have hcontent : s.content = r.content := congrArg Prod.fst hshown
    by_cases hexp : r.content.expiration = none
    · exact selects_of_shown htags hcoh hr hs (hcolumns r hr).1 (hcolumns r hr).2 hshown hnull hexp
    -- an event that expires is hidden, or no tag query reaches it
    · have hnever : ∀ {db' : Db} {t : EventRow}, db'.TagsWritten → t ∈ db'.events →
          t.content = r.content → t.hidden = r.hidden →
          (queryFromFilter f now).selects db' t = false := by
        intro db' t hw ht hc hhid
        rw [Bool.eq_false_iff]
        intro hsel
        have htag := hasLetterTag_of_selects hw ht hf hsel
        rw [hc] at htag
        have hvisible := (visible_of_selects hsel).1
        exact hexp (h row hrow (hvis ▸ hhid ▸ hvisible) _ he htag)
      rw [hnever htags hr rfl rfl,
        hnever hcoh.tagsWritten hs hcontent (congrArg (fun x => x.2.2.2) hshown)]

end Answers

/-- The migration leaves the tag rows `persistEvent` would have written, on which every tag
condition finds what it finds on written tags; tag queries as a whole answer as if every event
had been written exactly if no event they can reach expires; and a row that is no event leaves
the file as it was. -/
theorem mig15To16_rebuilds (eng : Sql.Engine) (fromStr : String → Option Event) (db : Database) :
    ((∀ row ∈ db.events, row.Reads fromStr) → ∃ rows,
      mig15To16 eng fromStr db = (.ok 16, { db.withTags rows with userVersion := 16 }) ∧
        rows.Perm (db.events.flatMap (EventRow15.writtenTags fromStr)) ∧
        ∀ up : Db, (mig15To16 eng fromStr db).2.Upgraded fromStr up →
          ∀ written : Db, written.Coherent →
            (∀ r ∈ up.events, ∀ s ∈ written.events, s.content = r.content →
              ∀ c, (Component.tag c).holds up r = (Component.tag c).holds written s) ∧
            (SameEvents up written → (SameTagAnswers up written ↔ db.NoneExpires fromStr))) ∧
    ((∃ row ∈ db.events, fromStr row.content = none) →
      ∃ err, mig15To16 eng fromStr db = (.error err, db)) := by
  refine ⟨?_, ?_⟩
  · intro hreads
    obtain ⟨rows, hmig, hrows⟩ := mig15To16_ok eng hreads
    refine ⟨rows, hmig, hrows, ?_⟩
    intro up hup written hcoh
    have hup' : (db.withTags rows).Upgraded fromStr up := by
      rw [hmig] at hup
      exact ⟨hup.events, hup.tags, hup.userVerification⟩
    exact ⟨fun r hr s hs h c =>
        holds_of_tagsWritten (hup'.tagsWritten hrows) hcoh.tagsWritten hr hs h c,
      fun hsame => sameTagAnswers_iff hreads hup' hrows hcoh hsame⟩
  · rintro ⟨row, hrow, hnone⟩
    exact mig15To16_error hrow hnone

/-- A note with a repeated tag, a name of two bytes, and two tags no row is kept for. -/
def sampleTagged : Recorded where
  id := 0x84876021b154c8d00d8ea1ce55a99f61d7151348e1e92a52f7fdff1b56d1070f
  pubkey := 0x5cbdf0646e5db4eaa398f365f2ea7a0e3d419b7e0330e39ce92bddedcac4f9bc
  sigR := 0xfec7c7654e35861f389d8dfb73c88677cb3b165769423773a5b884b807dfd360
  sigS := 0xbd208b7500916876b1796db1648b081fead99d837ecb430a37278829ac63f479
  createdAt := 1700000400
  kind := 1
  tags := [["t", "grin"], ["t", "grin"], ["é", "accent"], ["ee", "long"], ["t"]]
  content := "old note"

/-- A file of version 15 with this event and a tag. -/
def sampleFile (r : Recorded) (content : String) : Database where
  userVersion := 15
  events := [{
    id := 1
    eventHash := Hex.ofNat 32 r.id
    createdAt := r.createdAt
    author := Hex.ofNat 32 r.pubkey
    delegatedBy := none
    kind := r.kind
    hidden := false
    content }]
  tags := .v15 [{ eventId := 1, name := "t", value := "grin", valueHex := none }]
  userVerification := []
  id_nodup := List.nodup_singleton 1

/-- `serde_json` on the texts of two notes, and on what is no event. -/
def sampleFromStr (text : String) : Option Event :=
  if text = sampleTagged.event.eventStr then some sampleTagged.event.serialized
  else if text = sampleExpiring.event.eventStr then some sampleExpiring.event.serialized
  else none

/-- Its tables after the upgrade. -/
def sampleUpgraded (r : Recorded) : Db where
  events := [{
    id := 1
    eventHash := Hex.ofNat 32 r.id
    createdAt := r.createdAt
    expiresAt := none
    author := Hex.ofNat 32 r.pubkey
    delegatedBy := none
    kind := r.kind
    hidden := false
    content := r.event.serialized }]
  tags := tagRows 1 r.event.serialized
  userVerification := []
  id_nodup := List.nodup_singleton 1
  hash_nodup := List.nodup_singleton _
  verification_id_nodup := List.nodup_nil
  tag_fk := by
    intro t ht
    obtain ⟨nv, -, rfl⟩ := List.mem_map.mp ht
    exact ⟨_, List.mem_singleton_self _, rfl⟩
  verification_fk := fun _ h => absurd h List.not_mem_nil

section Samples

variable {r : Recorded}

theorem sampleFile_reads (h : sampleFromStr r.event.eventStr = some r.event.serialized) :
    ∀ row ∈ (sampleFile r r.event.eventStr).events, row.Reads sampleFromStr := by
  intro row hrow
  obtain rfl := List.mem_singleton.mp hrow
  exact ⟨_, h, rfl, rfl⟩

/-- The tables of the sample are those of its migrated file. -/
theorem sampleUpgraded_upgraded (h : sampleFromStr r.event.eventStr = some r.event.serialized)
    {rows : List TagRow} (hrows : rows = tagRows 1 r.event.serialized) :
    ({ (sampleFile r r.event.eventStr).withTags rows with userVersion := 16 } : Database).Upgraded
      sampleFromStr (sampleUpgraded r) where
  events := by
    simp [sampleFile, Database.withTags, EventRow15.upgraded, h, sampleUpgraded]
  tags := congrArg TagTable.v16 hrows
  userVerification := rfl

/-- The note alone in a store. -/
theorem sampleUpgraded_sameEvents
    (h : (writes (Sql.Engine.inOrder 32766) [r.event]).events.map EventRow.hidden = [false]) :
    SameEvents (sampleUpgraded r) (writes (Sql.Engine.inOrder 32766) [r.event]) := by
  obtain ⟨s, hs⟩ := List.length_eq_one_iff.mp (by simpa using congrArg List.length h)
  obtain ⟨e, he, -, hrow⟩ := exists_rowOf (hs ▸ List.mem_singleton_self s)
  obtain rfl := List.mem_singleton.mp he
  have hhash : s.eventHash = Hex.ofNat 32 r.id :=
    Option.some.inj (hrow.decode_id.symm.trans (Recorded.decode_event_id r))
  have hauthor : s.author = Hex.ofNat 32 r.pubkey :=
    Option.some.inj (hrow.decode_pubkey.symm.trans (Hex.decode_encode _))
  rw [hs, List.map_singleton, List.cons.injEq] at h
  rw [SameEvents, hs, List.map_singleton, EventRow.shown, hrow.content, hhash, hauthor, h.1]
  rfl

end Samples

/-- The upgraded note is found by the tag queries that find it where it was written, and a
damaged file stays at version 15. -/
theorem sampleFile_rebuilds :
    (∃ rows, mig15To16 (Sql.Engine.inOrder 32766) sampleFromStr
          (sampleFile sampleTagged sampleTagged.event.eventStr) =
        (.ok 16, { (sampleFile sampleTagged sampleTagged.event.eventStr).withTags rows with
          userVersion := 16 }) ∧
      rows.Perm (tagRows 1 sampleTagged.event.serialized) ∧
      SameTagAnswers (sampleUpgraded sampleTagged)
        (writes (Sql.Engine.inOrder 32766) [sampleTagged.event])) ∧
    ∃ err, mig15To16 (Sql.Engine.inOrder 32766) sampleFromStr (sampleFile sampleTagged "\x7b") =
      (.error err, sampleFile sampleTagged "\x7b") := by
  have hread : sampleFromStr sampleTagged.event.eventStr = some sampleTagged.event.serialized :=
    if_pos rfl
  have heval : (mig15To16 (Sql.Engine.inOrder 32766) sampleFromStr
      (sampleFile sampleTagged sampleTagged.event.eventStr)).2.tags =
        .v16 (tagRows 1 sampleTagged.event.serialized) ∧
      (writes (Sql.Engine.inOrder 32766) [sampleTagged.event]).events.map EventRow.hidden =
        [false] ∧ sampleFromStr "\x7b" = none := by
    decide +kernel
  obtain ⟨htags, hhidden, hdamaged⟩ := heval
  refine ⟨?_, ?_⟩
  · obtain ⟨rows, hmig, hrows, hqueries⟩ := (mig15To16_rebuilds (Sql.Engine.inOrder 32766)
      sampleFromStr (sampleFile sampleTagged sampleTagged.event.eventStr)).1
        (sampleFile_reads hread)
    rw [hmig] at htags hqueries
    refine ⟨rows, hmig, ?_, ?_⟩
    · simpa [sampleFile, EventRow15.writtenTags, hread] using hrows
    · refine ((hqueries _ (sampleUpgraded_upgraded hread (TagTable.v16.inj htags)) _
        (writes_coherent _ _)).2 (sampleUpgraded_sameEvents hhidden)).mpr ?_
      intro row hrow _ e he _
      obtain rfl := List.mem_singleton.mp hrow
      obtain rfl := Option.some.inj (hread.symm.trans he)
      rfl
  · exact (mig15To16_rebuilds (Sql.Engine.inOrder 32766) sampleFromStr
      (sampleFile sampleTagged "\x7b")).2 ⟨_, List.mem_singleton_self _, hdamaged⟩

/-- A note that expires is migrated with the tags it would have been written with, and a tag
query still finds it when the written one has expired. -/
theorem sampleExpiring_reappears :
    (∀ row ∈ (sampleFile sampleExpiring sampleExpiring.event.eventStr).events,
      row.Reads sampleFromStr) ∧
    (mig15To16 (Sql.Engine.inOrder 32766) sampleFromStr
      (sampleFile sampleExpiring sampleExpiring.event.eventStr)).2.Upgraded sampleFromStr
        (sampleUpgraded sampleExpiring) ∧
    SameEvents (sampleUpgraded sampleExpiring)
      (writes (Sql.Engine.inOrder 32766) [sampleExpiring.event]) ∧
    ¬ SameTagAnswers (sampleUpgraded sampleExpiring)
      (writes (Sql.Engine.inOrder 32766) [sampleExpiring.event]) := by
  have heval : sampleExpiring.event.eventStr ≠ sampleTagged.event.eventStr ∧
      (mig15To16 (Sql.Engine.inOrder 32766) sampleFromStr
        (sampleFile sampleExpiring sampleExpiring.event.eventStr)).2.tags =
          .v16 (tagRows 1 sampleExpiring.event.serialized) ∧
      (writes (Sql.Engine.inOrder 32766) [sampleExpiring.event]).events.map EventRow.hidden =
        [false] := by
    decide +kernel
  obtain ⟨hother, htags, hhidden⟩ := heval
  have hread : sampleFromStr sampleExpiring.event.eventStr =
      some sampleExpiring.event.serialized := by
    rw [sampleFromStr, if_neg hother, if_pos rfl]
  obtain ⟨rows, hmig, hrows⟩ := mig15To16_ok (Sql.Engine.inOrder 32766) (sampleFile_reads hread)
  rw [hmig] at htags ⊢
  have hup := sampleUpgraded_upgraded hread (TagTable.v16.inj htags)
  have hsame := sampleUpgraded_sameEvents hhidden
  refine ⟨sampleFile_reads hread, hup, hsame, fun hanswers => ?_⟩
  have hnone := (sameTagAnswers_iff (sampleFile_reads hread)
    ⟨hup.events, hup.tags, hup.userVerification⟩ hrows (writes_coherent _ _) hsame).mp hanswers
  have hexp := hnone _ (List.mem_singleton_self _) rfl _ hread
    ⟨'t', "grin", rfl, Event.mem_searchableTags.mpr ⟨[], by decide, rfl⟩⟩
  revert hexp
  decide

end Floonet.Sqlite
