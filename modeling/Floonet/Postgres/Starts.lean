import Floonet.Postgres.Migration
import Floonet.Postgres.Values

/-!
# Any number of Postgres starts

Each migration is one commit together with its record, so a start that loses power or gives up
leaves the catalog of some version (`starts_resume`). The rebuild of the tags has no record of its
own: it is due only in the start that commits the second migration, and when that start does not
come through it, the tags stay as the old relay wrote them (`tags_of_starts`).
-/

namespace Floonet.Postgres

open Hex (Bytes)

variable {server : MigrationServer} {fromStr : String → Option Event} {n : Option Nat}
  {events : List StoredEvent} {old rows : List TagRow} {c : Catalog} {k : Nat}

/-- The catalog with the first `k` migrations. -/
def Catalog.at (k : Nat) (events : List StoredEvent) (rows : List TagRow) : Catalog where
  migrations := some (List.range' 1 k)
  event := if 1 ≤ k then some events else none
  tag := if 1 ≤ k then some rows else none
  valueHex := decide (2 ≤ k)
  valueNullable := decide (2 ≤ k)
  indexes := (if 1 ≤ k then [.eventId, .value] else []) ++ (if 2 ≤ k then [.valueHex] else []) ++
    if 3 ≤ k then [.unique] else []
  expiresAt := decide (4 ≤ k)
  relations := (if 1 ≤ k then [.userVerification] else []) ++
    if 5 ≤ k then [.account, .status, .invoice] else []

/-- One of the two value columns is `NULL`. -/
def Nulls (rows : List TagRow) : Prop := ∀ t ∈ rows, t.value = none ∨ t.valueHex = none

/-- The rows without their `value_hex`. -/
def unhexed (rows : List TagRow) : List TagRow := rows.map fun t => { t with valueHex := none }

/-- The new column is empty at first. -/
theorem nulls_unhexed : Nulls (unhexed rows) := by
  intro t ht
  obtain ⟨s, -, rfl⟩ := List.mem_map.mp ht
  exact .inr rfl

/-! ## The migrations one by one -/

theorem migrate_1 : migrate 1 (m001 server) (.at 0 events rows) = .ok (.at 1 [] []) := rfl

theorem migrate_2 :
    migrate 2 (m002 server) (.at 1 events rows) = .ok (.at 2 events (unhexed rows)) := by
  have hfits : (unhexed rows).all (server.fits .valueHex) = true := by
    rw [unhexed, List.all_map, List.all_eq_true]
    exact fun t _ => server.fits_null _ rfl
  have hindex : createIndex server .valueHex { Catalog.at 1 events rows with
        tag := some (unhexed rows), valueHex := true, valueNullable := true } =
      .ok { Catalog.at 2 events (unhexed rows) with migrations := some [1] } := by
    rw [createIndex]
    simp only
    rw [if_neg (by decide), if_neg (by simp [Catalog.at]), if_pos hfits]
    rfl
  have hrun : migrate 2 (m002 server) (.at 1 events rows) =
      (createIndex server .valueHex { Catalog.at 1 events rows with
        tag := some (unhexed rows), valueHex := true, valueNullable := true } >>= fun c =>
          [recordSerial 2].foldlM (fun c statement => statement c) c) := rfl
  rw [hrun, hindex]
  rfl

/-- With a `NULL` in each row, the constraint cannot fail on what the rows say. -/
theorem pairwise_of_nulls (h : Nulls rows) : rows.Pairwise fun t s => t.conflicts s = false := by
  refine List.pairwise_of_forall_mem_list fun t ht s _ => ?_
  rcases h t ht with hnull | hnull <;>
    cases hv : s.value <;> cases hx : s.valueHex <;> simp [TagRow.conflicts, sqlEq, hnull, hv, hx]

/-- The third one needs rows that fit its index. -/
theorem migrate_3 (h : Nulls rows) :
    migrate 3 (m003 server) (.at 2 events rows) =
      if rows.all (server.fits .unique) then .ok (.at 3 events rows)
      else .error .programLimitExceeded := by
  have hunique : addUnique server (.at 2 events rows) =
      if rows.all (server.fits .unique) then
        .ok { Catalog.at 3 events rows with migrations := some [1, 2] }
      else .error .programLimitExceeded := by
    rw [addUnique]
    change (if true = false then _ else if _ then _ else if _ then _ else _) = _
    rw [if_neg (by decide), if_neg (by simp [Catalog.at]),
      if_neg (not_not.mpr (pairwise_of_nulls h))]
    rfl
  change (addUnique server _ >>= fun c =>
    [recordSerial 3].foldlM (fun c statement => statement c) c) = _
  rw [hunique]
  split_ifs
  · rfl
  · rfl

theorem migrate_4 : migrate 4 m004 (.at 3 events rows) = .ok (.at 4 events rows) := rfl

/-- The fifth one makes the tables of payments. -/
theorem migrate_5 : migrate 5 m005 (.at 4 events rows) = .ok (.at 5 events rows) := rfl

section RunMigration

variable {serial : Nat} {sql : List DdlStatement}

/-- A migration is due or not, by its serial number. -/
theorem runMigration_at : runMigration serial sql n (.at k events rows) =
    migrateUnless serial sql (List.range' 1 k) n (.at k events rows) := rfl

/-- One that is recorded does not run. -/
theorem runMigration_notNeeded (h : 1 ≤ serial) (hk : serial ≤ k) :
    runMigration serial sql n (.at k events rows) =
      (.returned .notNeeded n, .at k events rows) := by
  have hpos : 0 < (List.range' 1 k).count serial :=
    List.count_pos_iff.mpr (List.mem_range'_1.mpr ⟨h, by omega⟩)
  rw [runMigration_at, migrateUnless, if_pos hpos]
  rfl

/-- One that is not recorded runs in a transaction. -/
theorem migrateUnless_due (hk : k < serial) : migrateUnless serial sql (List.range' 1 k) = (do
    Crash.Prog.commit (migrateTx serial sql)
    pure .upgraded) := by
  rw [migrateUnless, if_neg]
  rw [List.count_pos_iff, List.mem_range'_1]
  omega

theorem runMigration_powerLoss (hk : k < serial) :
    runMigration serial sql (some 0) (.at k events rows) = (.powerLoss, .at k events rows) := by
  rw [runMigration_at, migrateUnless_due hk]
  exact Crash.Prog.bind_of_powerLoss Crash.Prog.commit_powerLoss

/-- A migration that succeeds is one commit. -/
theorem runMigration_upgraded (hk : k < serial) (hn : n ≠ some 0)
    (h : migrate serial sql (.at k events rows) = .ok c) :
    runMigration serial sql n (.at k events rows) = (.returned .upgraded (n.map Nat.pred), c) := by
  rw [runMigration_at, migrateUnless_due hk]
  exact Crash.Prog.bind_of_returned (Crash.Prog.commit_ok hn (by rw [migrateTx, h]))

theorem runMigration_failed (hk : k < serial) (hn : n ≠ some 0) {e : DdlError}
    (h : migrate serial sql (.at k events rows) = .error e) :
    runMigration serial sql n (.at k events rows) = (.failed .panic, .at k events rows) := by
  rw [runMigration_at, migrateUnless_due hk]
  exact Crash.Prog.bind_of_failed (Crash.Prog.commit_error hn (by rw [migrateTx, h]))

end RunMigration

/-! ## The rebuild -/

/-- The server takes the row into a table without the unique constraint. -/
structure Takes (server : MigrationServer) (t : TagRow) : Prop where
  name : t.name.toList.contains (Char.ofNat 0) = false
  fits : ∀ idx ∈ [TagIndex.eventId, .value, .valueHex], server.fits idx t = true

/-- The tag rows the write path has for a stored event. -/
def StoredEvent.tagRows (fromStr : String → Option Event) (r : StoredEvent) : List TagRow :=
  match readEvent fromStr r.content with
  | .ok e => Postgres.tagRows r.id e
  | .error _ => []

/-- Every stored event reads, and the server takes its tags. -/
def Rebuildable (server : MigrationServer) (fromStr : String → Option Event)
    (events : List StoredEvent) : Prop :=
  ∀ r ∈ events, (∃ e, readEvent fromStr r.content = .ok e) ∧
    ∀ t ∈ r.tagRows fromStr, Takes server t

section Rebuild

variable {r : StoredEvent} (hr : r ∈ events)

include hr

/-- A tag row is inserted or refused. -/
theorem insertTag_at (old rows : List TagRow) {t : TagRow} (hid : t.eventId = r.id) :
    (Takes server t ∧ insertTag server (.at 2 events old) t rows = .ok (rows ++ [t])) ∨
      (¬ Takes server t ∧ ∃ e, insertTag server (.at 2 events old) t rows = .error e) := by
  have hfk : ((Catalog.at 2 events old).event.getD []).all (fun r => r.id ≠ t.eventId) = false := by
    rw [List.all_eq_false]
    exact ⟨r, hr, by simp [hid]⟩
  rw [insertTag, if_neg (show ¬ (Catalog.at 2 events old).valueHex = false by simp [Catalog.at]),
    if_neg (by simp [Catalog.at])]
  by_cases hnul : t.name.toList.contains (Char.ofNat 0) = true
  · rw [if_pos hnul]
    exact .inr ⟨fun h => Bool.false_ne_true (h.name.symm.trans hnul), _, rfl⟩
  · rw [if_neg hnul, hfk, if_neg Bool.false_ne_true]
    by_cases hfits : (Catalog.at 2 events old).indexes.all (fun idx => server.fits idx t) = true
    · rw [if_neg (not_not.mpr hfits), if_neg (by simp [Catalog.at])]
      exact .inl ⟨⟨by simpa using hnul, List.all_eq_true.mp hfits⟩, rfl⟩
    · rw [if_pos hfits]
      exact .inr ⟨fun h => hfits (List.all_eq_true.mpr h.fits), _, rfl⟩

/-- A turn over a tag adds its row, if it has one. -/
theorem rebuildTag_at (old rows : List TagRow) (t : List String) :
    ((∀ nv, Event.searchable t = some nv → Takes server (tagRow r.id nv)) ∧
      rebuildTag server (.at 2 events old) r.id t rows =
        .ok ((), rows ++ ((Event.searchable t).map (tagRow r.id)).toList)) ∨
    (¬ (∀ nv, Event.searchable t = some nv → Takes server (tagRow r.id nv)) ∧
      rebuildTag server (.at 2 events old) r.id t rows = .error .err) := by
  rcases t with _ | ⟨name, _ | ⟨value, rest⟩⟩
  · exact .inl ⟨fun _ h => (by cases h), by simp [rebuildTag, Event.searchable]⟩
  · exact .inl ⟨fun _ h => (by cases h), by simp [rebuildTag, Event.searchable]⟩
  · rw [rebuildTag, Event.searchable]
    rcases hname : singleCharTagname name with _ | ch
    · exact .inl ⟨fun _ h => (by cases h), by simp⟩
    · have hrow : (if (byteLen value % 2 == 0 && isLowerHex value) = true then
            ({ eventId := r.id, name, value := none, valueHex := Hex.decode value } : TagRow)
          else { eventId := r.id, name, value := some (asBytes value), valueHex := none }) =
          tagRow r.id (name, value) := by
        rw [tagRow, storedAsHex, Bool.and_comm]
        split_ifs <;> rfl
      simp only [Option.isNone_some, Option.isSome_some, Bool.false_eq_true, if_false, if_true,
        hrow, Option.some.injEq, forall_eq', Option.map_some, Option.toList_some]
      rcases insertTag_at hr old rows (t := tagRow r.id (name, value)) rfl with
        ⟨htakes, hok⟩ | ⟨htakes, e, herr⟩
      · exact .inl ⟨htakes, by rw [hok]⟩
      · exact .inr ⟨htakes, by rw [herr]⟩

/-- A turn over an event comes through when the event reads and its tags are taken. -/
theorem rebuildEvent_ok {e : Event} (he : readEvent fromStr r.content = .ok e)
    (htakes : ∀ t ∈ r.tagRows fromStr, Takes server t) :
    rebuildEvent server fromStr (.at 2 events old) r rows =
      .ok ((), rows ++ r.tagRows fromStr) := by
  have hrows : r.tagRows fromStr = Postgres.tagRows r.id e := by rw [StoredEvent.tagRows, he]
  rw [hrows, Postgres.tagRows, Event.searchableTags] at htakes ⊢
  rw [rebuildEvent, he]
  obtain ⟨s', hloop, rfl⟩ := Sql.forM_ok (rebuildTag server (.at 2 events old) r.id)
    (l := e.tags.filter fun x => 1 < x.length)
    (I := fun done s => s = rows ++ (done.filterMap Event.searchable).map (tagRow r.id))
    (by
      rintro done t s ht rfl
      rcases rebuildTag_at hr old _ t with ⟨-, hok⟩ | ⟨hno, -⟩
      · refine ⟨_, hok, ?_⟩
        rw [List.filterMap_append, List.map_append, List.append_assoc]
        cases hs : Event.searchable t <;> simp [hs]
      · refine absurd (fun nv hnv => htakes _ (List.mem_map_of_mem ?_)) hno
        exact List.mem_filterMap.mpr ⟨t, (List.mem_filter.mp ht).1, hnv⟩)
    (s := rows) (by simp)
  refine hloop.trans ?_
  have hshort : (e.tags.filter fun x => 1 < x.length).filterMap Event.searchable =
      e.tags.filterMap Event.searchable := by
    rw [List.filterMap_filter]
    refine List.filterMap_congr fun t _ => ?_
    rcases t with _ | ⟨name, _ | ⟨value, rest⟩⟩ <;> simp [Event.searchable]
  rw [hshort]

/-- A turn over an event that came through has read it, and its tags were taken. -/
theorem takes_of_rebuildEvent {rows' : List TagRow}
    (h : rebuildEvent server fromStr (.at 2 events old) r rows = .ok ((), rows')) :
    (∃ e, readEvent fromStr r.content = .ok e) ∧ ∀ t ∈ r.tagRows fromStr, Takes server t := by
  rw [rebuildEvent] at h
  rcases he : readEvent fromStr r.content with failure | e
  · rw [he] at h
    cases h
  · rw [he] at h
    refine ⟨⟨e, rfl⟩, fun x hx => ?_⟩
    have hall := Sql.forall_of_forM_ok
      (P := fun t => ∀ nv, Event.searchable t = some nv → Takes server (tagRow r.id nv))
      (fun t s s' hok => by
        rcases rebuildTag_at hr old s t with ⟨htakes, -⟩ | ⟨-, herr⟩
        · exact htakes
        · rw [herr] at hok
          cases hok) h
    rw [StoredEvent.tagRows, he] at hx
    simp only [Postgres.tagRows, Event.searchableTags, List.mem_map, List.mem_filterMap] at hx
    obtain ⟨nv, ⟨t, ht, hnv⟩, rfl⟩ := hx
    refine hall t (List.mem_filter.mpr ⟨ht, ?_⟩) nv hnv
    rcases t with _ | ⟨name, _ | ⟨value, rest⟩⟩
    · cases hnv
    · cases hnv
    · simp

end Rebuild

/-- **The rebuild comes through** exactly when it can, and leaves the rows of the write path. -/
theorem rebuilt_cases (server : MigrationServer) (fromStr : String → Option Event)
    (events : List StoredEvent) (old : List TagRow) :
    (Rebuildable server fromStr events ∧ ∃ rows,
      rows.Perm (events.flatMap (StoredEvent.tagRows fromStr)) ∧
        rebuilt server fromStr (.at 2 events old) events = .ok ((), rows)) ∨
    (¬ Rebuildable server fromStr events ∧ ∃ failure,
      rebuilt server fromStr (.at 2 events old) events = .error failure) := by
  by_cases h : Rebuildable server fromStr events
  · obtain ⟨s', hloop, rfl⟩ := Sql.forM_ok (rebuildEvent server fromStr (.at 2 events old))
      (l := Sql.orderByAsc server.toEngine (fun r : StoredEvent => r.id.map UInt8.toNat) events)
      (I := fun done s => s = done.flatMap (StoredEvent.tagRows fromStr))
      (by
        rintro done r s hr rfl
        have hr := Sql.mem_orderByAsc.mp hr
        obtain ⟨⟨e, he⟩, htakes⟩ := h r hr
        exact ⟨_, rebuildEvent_ok hr he htakes, by
          rw [List.flatMap_append, List.flatMap_singleton]⟩)
      (s := []) rfl
    exact .inl ⟨h, _, (Sql.orderByAsc_perm _ _ events).flatMap_right _, hloop⟩
  · refine .inr ⟨h, ?_⟩
    rcases hloop : rebuilt server fromStr (.at 2 events old) events with failure | ⟨⟨⟩, rows⟩
    · exact ⟨failure, rfl⟩
    · have hall := Sql.forall_of_forM_ok
        (P := fun r => r ∈ events → (∃ e, readEvent fromStr r.content = .ok e) ∧
          ∀ t ∈ r.tagRows fromStr, Takes server t)
        (fun r s s' hok hr => takes_of_rebuildEvent hr hok) hloop
      exact absurd (fun r hr => hall r (Sql.mem_orderByAsc.mpr hr) hr) h

/-- A rebuild that succeeds is one commit. -/
theorem rebuildTags_ok {rows' : List TagRow} (hn : n ≠ some 0)
    (h : rebuilt server fromStr (.at 2 events rows) events = .ok ((), rows')) :
    rebuildTags server fromStr n (.at 2 events rows) =
      (.returned () (n.map Nat.pred), .at 2 events rows') := by
  refine Crash.Prog.commit_ok hn ?_
  have hevent : (Catalog.at 2 events rows).event = some events := rfl
  have htag : (Catalog.at 2 events rows).tag = some rows := rfl
  rw [rebuildTx]
  simp only [hevent, htag, h]
  rfl

theorem rebuildTags_error {failure : StartFailure} (hn : n ≠ some 0)
    (h : rebuilt server fromStr (.at 2 events rows) events = .error failure) :
    rebuildTags server fromStr n (.at 2 events rows) =
      (.failed failure, .at 2 events rows) := by
  refine Crash.Prog.commit_error hn ?_
  have hevent : (Catalog.at 2 events rows).event = some events := rfl
  have htag : (Catalog.at 2 events rows).tag = some rows := rfl
  rw [rebuildTx]
  simp only [hevent, htag, h]

/-! ## A start

A start runs what is not recorded yet, one commit after the other. The rebuild is run by the start
that commits the second migration and by no other. -/

/-- What a start does after the rebuild. -/
def finish (server : MigrationServer) : PgStart Nat := do
  let _ ← runMigration 3 (m003 server)
  let _ ← runMigration 4 m004
  let _ ← runMigration 5 m005
  currentVersion

/-- A start up to the rebuild, and the rest of it. -/
theorem runMigrations_eq : runMigrations server fromStr = (do
    prepareMigrationsTable
    let _ ← runMigration 1 (m001 server)
    let result ← runMigration 2 (m002 server)
    let _ ← (if result = .upgraded then rebuildTags server fromStr else pure ())
    finish server) := by
  rw [runMigrations, finish]
  refine congrArg _ (funext fun _ => congrArg _ (funext fun _ => congrArg _ (funext fun r => ?_)))
  split_ifs
  · rfl
  · rfl

/-- The table of migrations is there already. -/
theorem prepare_at (hn : n ≠ some 0) : prepareMigrationsTable n (.at k events rows) =
    (.returned () (n.map Nat.pred), .at k events rows) :=
  Crash.Prog.commit_ok hn rfl

/-- A start from a version runs what is not recorded. -/
theorem start_later (hk : 2 ≤ k) (hn : n ≠ some 0) :
    runMigrations server fromStr n (.at k events rows) =
      finish server (n.map Nat.pred) (.at k events rows) := by
  rw [runMigrations_eq, Crash.Prog.bind_of_returned (prepare_at hn),
    Crash.Prog.bind_of_returned (runMigration_notNeeded le_rfl (by omega)),
    Crash.Prog.bind_of_returned (runMigration_notNeeded (by omega) hk)]
  rfl

theorem start_powerLoss : runMigrations server fromStr (some 0) c = (.powerLoss, c) := by
  rw [runMigrations_eq]
  exact Crash.Prog.bind_of_powerLoss Crash.Prog.commit_powerLoss

theorem start_one_powerLoss :
    runMigrations server fromStr (some 1) (.at 1 events rows) = (.powerLoss, .at 1 events rows) := by
  rw [runMigrations_eq, Crash.Prog.bind_of_returned (prepare_at (by decide)),
    Crash.Prog.bind_of_returned (runMigration_notNeeded le_rfl le_rfl)]
  exact Crash.Prog.bind_of_powerLoss (runMigration_powerLoss (by decide))

/-- The start that commits the second migration has the rebuild before it. -/
theorem start_one (h0 : n ≠ some 0) (h1 : n ≠ some 1) :
    runMigrations server fromStr n (.at 1 events rows) =
      (rebuildTags server fromStr >>= fun _ => finish server) ((n.map Nat.pred).map Nat.pred)
        (.at 2 events (unhexed rows)) := by
  have hpred : n.map Nat.pred ≠ some 0 := by
    rcases n with _ | _ | _ | n
    · simp
    · exact absurd rfl h0
    · exact absurd rfl h1
    · simp
  rw [runMigrations_eq, Crash.Prog.bind_of_returned (prepare_at h0),
    Crash.Prog.bind_of_returned (runMigration_notNeeded le_rfl le_rfl),
    Crash.Prog.bind_of_returned (runMigration_upgraded (by decide) hpred migrate_2)]
  rfl

theorem finish_three (hk : 3 ≤ k) (hk5 : k ≤ 5) :
    finish server none (.at k events rows) = (.returned 5 none, .at 5 events rows) := by
  interval_cases k
  · rfl
  · rfl
  · rfl

/-- The constraint is all that can keep a start from coming through. -/
theorem finish_two (hnulls : Nulls rows) :
    finish server none (.at 2 events rows) =
      if rows.all (server.fits .unique) then (.returned 5 none, .at 5 events rows)
      else (.failed .panic, .at 2 events rows) := by
  split_ifs with hfits
  · rw [finish, Crash.Prog.bind_of_returned (runMigration_upgraded (by decide) (by decide)
      ((migrate_3 hnulls).trans (if_pos hfits)))]
    rfl
  · rw [finish]
    exact Crash.Prog.bind_of_failed (runMigration_failed (by decide) (by decide)
      ((migrate_3 hnulls).trans (if_neg hfits)))

/-! ## Any number of starts

From the second version on no start touches the tag rows, as one triple for each part of a start
shows, and then an induction over the starts. -/

/-- The catalog of some version from `low` on, with these rows. -/
def Holds (low : Nat) (events : List StoredEvent) (rows : List TagRow) (c : Catalog) : Prop :=
  ∃ k, low ≤ k ∧ k ≤ 5 ∧ c = .at k events rows

/-- An older version is a weaker bound. -/
theorem Holds.mono {low low' : Nat} (h : Holds low events rows c) (hle : low' ≤ low) :
    Holds low' events rows c := by
  obtain ⟨k, hk, hk5, hc⟩ := h
  exact ⟨k, hle.trans hk, hk5, hc⟩

/-- One migration that does not touch the rows. -/
theorem runMigration_triple (events : List StoredEvent) (rows : List TagRow) (low serial : Nat)
    (sql : List DdlStatement) (h5 : serial < 5)
    (hmig : ∀ c, migrate (serial + 1) sql (.at serial events rows) = .ok c →
      c = .at (serial + 1) events rows) :
    Crash.Triple (Holds (max serial low) events rows) (runMigration (serial + 1) sql)
      (fun _ => Holds (max (serial + 1) low) events rows) (Holds (max serial low) events rows)
      (Holds (max serial low) events rows) := by
  rintro n c ⟨k, hk, hk5, rfl⟩
  rw [max_le_iff] at hk
  have hhere : Holds (max serial low) events rows (.at k events rows) :=
    ⟨k, max_le hk.1 hk.2, hk5, rfl⟩
  rcases Nat.lt_or_ge k (serial + 1) with hlt | hge
  · obtain rfl : k = serial := by omega
    by_cases hn : n = some 0
    · rw [hn, runMigration_powerLoss hlt]
      exact ⟨hhere, by decide⟩
    · rcases hres : migrate (k + 1) sql (.at k events rows) with e | c
      · rw [runMigration_failed hlt hn hres]
        exact hhere
      · rw [runMigration_upgraded hlt hn hres]
        refine ⟨⟨k + 1, max_le le_rfl (Nat.le_succ_of_le hk.2), h5, hmig c hres⟩, ?_⟩
        rintro rfl
        rfl
  · rw [runMigration_notNeeded (by omega) hge]
    exact ⟨⟨k, max_le hge hk.2, hk5, rfl⟩, id⟩

/-- What follows the rebuild leaves the rows alone. -/
theorem finish_triple (low : Nat) (hnulls : Nulls rows) :
    Crash.Triple (Holds (max 2 low) events rows) (finish server)
      (fun v c => v = 5 ∧ c = .at 5 events rows) (Holds (max 2 low) events rows)
      (Holds (max 2 low) events rows) := by
  have hmig : ∀ c, migrate 3 (m003 server) (.at 2 events rows) = .ok c →
      c = .at 3 events rows := by
    intro c h
    rw [migrate_3 hnulls] at h
    split_ifs at h
    · exact (Except.ok.inj h).symm
  have h3 := runMigration_triple events rows low 2 (m003 server) (by decide) hmig
  have h4 := runMigration_triple events rows low 3 m004 (by decide) fun c h =>
    (Except.ok.inj (migrate_4.symm.trans h)).symm
  have h5 := runMigration_triple events rows low 4 m005 (by decide) fun c h =>
    (Except.ok.inj (migrate_5.symm.trans h)).symm
  have hdown : ∀ {v : Nat}, 2 ≤ v → ∀ c, Holds (max v low) events rows c →
      Holds (max 2 low) events rows c := fun hv c h => h.mono (max_le_max_right low hv)
  rw [finish]
  refine h3.bind fun _ => ?_
  refine (h4.conseq (fun _ h => h) (fun _ _ h => h) (hdown (by decide))
    (hdown (by decide))).bind fun _ => ?_
  refine (h5.conseq (fun _ h => h) (fun _ _ h => h) (hdown (by decide))
    (hdown (by decide))).bind fun _ => ?_
  rintro n c ⟨k, hk, hk5, rfl⟩
  obtain rfl : k = 5 := by omega
  exact ⟨⟨rfl, rfl⟩, id⟩

/-- A start from the second version on leaves the rows alone. -/
theorem start_triple (hnulls : Nulls rows) :
    Crash.Triple (Holds 2 events rows) (runMigrations server fromStr)
      (fun v c => v = 5 ∧ c = .at 5 events rows) (Holds 2 events rows)
      (Holds 2 events rows) := by
  have hprepare : Crash.Triple (Holds 2 events rows) prepareMigrationsTable
      (fun _ => Holds 2 events rows) (Holds 2 events rows) (Holds 2 events rows) := by
    refine Crash.Triple.commit (fun _ h => h) ?_ fun _ _ _ h => (by cases h)
    rintro c a c' ⟨k, hk, hk5, rfl⟩ heq
    cases heq
    exact ⟨k, hk, hk5, rfl⟩
  have hskip : ∀ serial sql, 1 ≤ serial → serial ≤ 2 →
      Crash.Triple (Holds 2 events rows) (runMigration serial sql)
        (fun r c => r = .notNeeded ∧ Holds 2 events rows c) (Holds 2 events rows)
        (Holds 2 events rows) := by
    rintro serial sql h1 h2 n c ⟨k, hk, hk5, rfl⟩
    rw [runMigration_notNeeded h1 (h2.trans hk)]
    exact ⟨⟨rfl, k, hk, hk5, rfl⟩, id⟩
  rw [runMigrations_eq]
  refine hprepare.bind fun _ => ?_
  refine ((hskip 1 _ (by decide) (by decide)).conseq (fun _ h => h) (fun _ _ h => h.2)
    (fun _ h => h) fun _ h => h).bind fun _ => ?_
  refine (hskip 2 _ (by decide) (by decide)).bind fun r => Crash.Triple.of_pure ?_
  rintro rfl
  rw [if_neg (by decide)]
  exact (Crash.Triple.pure fun _ h => h).bind fun _ => finish_triple 2 hnulls

/-- Later starts do not change the rows again. -/
theorem later_starts (hnulls : Nulls rows) (ns : List (Option Nat)) (h : Holds 2 events rows c) :
    Holds 2 events rows (Machine.run (runMigrations server fromStr).next c ns) := by
  refine (start_triple hnulls).restarts ?_ (fun _ h => h) (fun _ h => h) ns h
  rintro v c ⟨-, rfl⟩
  exact ⟨5, by decide, le_rfl, rfl⟩

theorem nulls_rebuilt (h : rows.Perm (events.flatMap (StoredEvent.tagRows fromStr))) :
    Nulls rows := by
  intro t ht
  obtain ⟨r, -, ht⟩ := List.mem_flatMap.mp (h.mem_iff.mp ht)
  rw [StoredEvent.tagRows] at ht
  rcases hread : readEvent fromStr r.content with failure | e <;> rw [hread] at ht
  · cases ht
  · obtain ⟨nv, -, rfl⟩ := List.mem_map.mp ht
    rw [tagRow]
    by_cases hhex : storedAsHex nv.2 = true
    · exact .inl (if_pos hhex)
    · exact .inr (if_neg hhex)

/-! ## The tags

Before the rebuild the rows have no `value_hex`, so no filter finds a hex value in them. The start
that commits the second migration settles what becomes of them. -/

/-- A start that loses power before the commit of the second migration. -/
def Quiet (n : Option Nat) : Prop := n = some 0 ∨ n = some 1

instance (n : Option Nat) : Decidable (Quiet n) := inferInstanceAs (Decidable (_ ∨ _))

/-- Starts that end before the second migration change nothing. -/
theorem run_quiet {quiet : List (Option Nat)} (h : ∀ n ∈ quiet, Quiet n) :
    Machine.run (runMigrations server fromStr).next (.at 1 events old) quiet = .at 1 events old := by
  refine Machine.invariant (P := fun c => c = Catalog.at 1 events old) ?_ rfl
  rintro c n hn rfl
  rw [Crash.Prog.next]
  rcases h n hn with rfl | rfl
  · rw [start_powerLoss]
  · rw [start_one_powerLoss]

/-- The first start that is not quiet settles the rows. -/
theorem start_one_cases (hn : ¬ Quiet n) :
    (n ≠ some 2 ∧ Rebuildable server fromStr events ∧ ∃ rows,
      rows.Perm (events.flatMap (StoredEvent.tagRows fromStr)) ∧
        Holds 2 events rows ((runMigrations server fromStr).next (.at 1 events old) n)) ∨
    (¬ (n ≠ some 2 ∧ Rebuildable server fromStr events) ∧
      Holds 2 events (unhexed old) ((runMigrations server fromStr).next (.at 1 events old) n)) := by
  rw [Quiet, not_or] at hn
  rw [Crash.Prog.next, start_one hn.1 hn.2]
  by_cases h2 : n = some 2
  · subst h2
    refine .inr ⟨fun h => h.1 rfl, ?_⟩
    have hloss : (rebuildTags server fromStr >>= fun _ => finish server) (some 0)
        (.at 2 events (unhexed old)) = (.powerLoss, .at 2 events (unhexed old)) :=
      Crash.Prog.bind_of_powerLoss Crash.Prog.commit_powerLoss
    exact ⟨2, le_rfl, by decide, congrArg Prod.snd hloss⟩
  · have hleft : (n.map Nat.pred).map Nat.pred ≠ some 0 := by
      rcases n with _ | _ | _ | _ | n
      · simp
      · exact absurd rfl hn.1
      · exact absurd rfl hn.2
      · exact absurd rfl h2
      · simp
    rcases rebuilt_cases server fromStr events (unhexed old) with
      ⟨hre, rows, hperm, hok⟩ | ⟨hre, failure, herr⟩
    · refine .inl ⟨h2, hre, rows, hperm, ?_⟩
      rw [Crash.Prog.bind_of_returned (rebuildTags_ok hleft hok)]
      refine (finish_triple 2 (nulls_rebuilt hperm)).state ?_ (fun _ h => h) (fun _ h => h) _
        ⟨2, le_rfl, by decide, rfl⟩
      rintro v c ⟨-, rfl⟩
      exact ⟨5, by decide, le_rfl, rfl⟩
    · refine .inr ⟨fun h => hre h.2, ?_⟩
      rw [Crash.Prog.bind_of_failed (rebuildTags_error hleft herr)]
      exact ⟨2, le_rfl, by decide, rfl⟩

/-- No filter finds a hex value in a row without its `value_hex`. -/
theorem not_foundBy_unhexed {x : String} (hx : storedAsHex x = true) :
    ∀ t ∈ unhexed old, foundBy x t = false := by
  intro t ht
  obtain ⟨s, -, rfl⟩ := List.mem_map.mp ht
  rw [foundBy, if_pos (Bool.and_eq_true_iff.mp hx).1]
  rfl

/-- **What becomes of the tags of an old relay.** Starts that lose power before the commit of the
second migration change nothing. The first other start settles the tags for good, whatever starts
follow: they are those of the write path when it does not lose power between that commit and the
next and every event can be rebuilt; otherwise they stay as they were, and no filter finds the
hex values among them. -/
theorem tags_of_starts (server : MigrationServer) (fromStr : String → Option Event)
    (events : List StoredEvent) (old : List TagRow) (ns : List (Option Nat)) :
    ((∀ n ∈ ns, Quiet n) ∧
      Machine.run (runMigrations server fromStr).next (.at 1 events old) ns = .at 1 events old) ∨
    ∃ quiet n later, ns = quiet ++ n :: later ∧ (∀ m ∈ quiet, Quiet m) ∧ ¬ Quiet n ∧
      ((n ≠ some 2 ∧ Rebuildable server fromStr events ∧ ∃ rows,
        rows.Perm (events.flatMap (StoredEvent.tagRows fromStr)) ∧ Holds 2 events rows
          (Machine.run (runMigrations server fromStr).next (.at 1 events old) ns)) ∨
      (¬ (n ≠ some 2 ∧ Rebuildable server fromStr events) ∧
        Holds 2 events (unhexed old)
          (Machine.run (runMigrations server fromStr).next (.at 1 events old) ns) ∧
        ∀ x, storedAsHex x = true → ∀ t ∈ unhexed old, foundBy x t = false)) := by
  rcases hfind : ns.find? fun n => ¬ Quiet n with _ | n
  · have hall : ∀ n ∈ ns, Quiet n := by simpa using hfind
    exact .inl ⟨hall, run_quiet hall⟩
  · obtain ⟨hn, quiet, later, hsplit, hquiet⟩ := List.find?_eq_some_iff_append.mp hfind
    replace hn : ¬ Quiet n := by simpa using hn
    replace hquiet : ∀ m ∈ quiet, Quiet m := by simpa using hquiet
    refine .inr ⟨quiet, n, later, hsplit, hquiet, hn, ?_⟩
    have hrun : Machine.run (runMigrations server fromStr).next (.at 1 events old) ns =
        Machine.run (runMigrations server fromStr).next
          ((runMigrations server fromStr).next (.at 1 events old) n) later := by
      rw [hsplit, Machine.run_append, run_quiet hquiet]
      rfl
    rw [hrun]
    rcases start_one_cases hn with ⟨h2, hre, rows, hperm, hholds⟩ | ⟨hno, hholds⟩
    · exact .inl ⟨h2, hre, rows, hperm, later_starts (nulls_rebuilt hperm) later hholds⟩
    · exact .inr ⟨hno, later_starts nulls_unhexed later hholds, fun x hx => not_foundBy_unhexed hx⟩

/-! ## The versions

Each start takes the catalog from a version to one that is not lower, by one triple for each part
of the start. It completes exactly when nothing it still has to do is refused. -/

/-- The catalog of some version that is at least `low` and not before `k₀`. -/
def Versioned (low k₀ : Nat) (events : List StoredEvent) (c : Catalog) : Prop :=
  ∃ k rows, low ≤ k ∧ k₀ ≤ k ∧ k ≤ 5 ∧ c = .at k events rows ∧ Nulls rows ∧ (k = 0 → events = [])

/-- A catalog no start has touched, or one of a version. -/
def Started (k₀ : Nat) (events : List StoredEvent) (c : Catalog) : Prop :=
  (c = .new ∧ k₀ = 0 ∧ events = []) ∨ Versioned 0 k₀ events c

section Versions

variable {k₀ : Nat}

/-- A version is where a start may end. -/
theorem Versioned.started {low : Nat} (h : Versioned low k₀ events c) : Started k₀ events c := by
  obtain ⟨k, rows, -, hk⟩ := h
  exact .inr ⟨k, rows, Nat.zero_le _, hk⟩

theorem prepare_triple : Crash.Triple (Started k₀ events) prepareMigrationsTable
    (fun _ => Versioned 0 k₀ events) (Started k₀ events) (Started k₀ events) := by
  refine Crash.Triple.commit (fun _ h => h) ?_ fun _ _ _ h => (by cases h)
  rintro c a c' (⟨rfl, rfl, rfl⟩ | ⟨k, rows, -, hk, hk5, rfl, hnulls, hz⟩) heq
  · cases heq
    exact ⟨0, [], le_rfl, le_rfl, by decide, rfl, fun _ h => (by cases h), fun _ => rfl⟩
  · cases heq
    exact ⟨k, rows, Nat.zero_le _, hk, hk5, rfl, hnulls, hz⟩

theorem first_triple : Crash.Triple (Versioned 0 k₀ events) (runMigration 1 (m001 server))
    (fun _ => Versioned 1 k₀ events) (Started k₀ events) (Started k₀ events) := by
  rintro n c ⟨k, rows, hk0, hk, hk5, rfl, hnulls, hz⟩
  have hstarted : Started k₀ events (.at k events rows) :=
    .inr ⟨k, rows, hk0, hk, hk5, rfl, hnulls, hz⟩
  rcases Nat.eq_zero_or_pos k with rfl | hpos
  · obtain rfl := hz rfl
    obtain rfl : k₀ = 0 := Nat.le_zero.mp hk
    by_cases hn : n = some 0
    · rw [hn, runMigration_powerLoss (by decide)]
      exact ⟨hstarted, by decide⟩
    · rw [runMigration_upgraded (by decide) hn migrate_1]
      refine ⟨⟨1, [], le_rfl, Nat.zero_le _, by decide, rfl, fun _ h => (by cases h),
        fun h => by cases h⟩, ?_⟩
      rintro rfl
      rfl
  · rw [runMigration_notNeeded le_rfl hpos]
    exact ⟨⟨k, rows, hpos, hk, hk5, rfl, hnulls, hz⟩, id⟩

/-- After the second migration the rebuild is due, or was not needed. -/
theorem second_triple : Crash.Triple (Versioned 1 k₀ events) (runMigration 2 (m002 server))
    (fun r c => (r = .upgraded ∧ k₀ ≤ 2 ∧ ∃ rows, Nulls rows ∧ c = .at 2 events rows) ∨
      (r = .notNeeded ∧ Versioned 2 k₀ events c)) (Started k₀ events) (Started k₀ events) := by
  rintro n c ⟨k, rows, hk1, hk, hk5, rfl, hnulls, hz⟩
  have hstarted : Started k₀ events (.at k events rows) :=
    .inr ⟨k, rows, Nat.zero_le _, hk, hk5, rfl, hnulls, hz⟩
  rcases Nat.lt_or_ge k 2 with hlt | hge
  · obtain rfl : k = 1 := by omega
    by_cases hn : n = some 0
    · rw [hn, runMigration_powerLoss (by decide)]
      exact ⟨hstarted, by decide⟩
    · rw [runMigration_upgraded (by decide) hn migrate_2]
      refine ⟨.inl ⟨rfl, by omega, _, nulls_unhexed, rfl⟩, ?_⟩
      rintro rfl
      rfl
  · rw [runMigration_notNeeded (by decide) hge]
    exact ⟨.inr ⟨rfl, k, rows, hge, hk, hk5, rfl, hnulls, hz⟩, id⟩

theorem rebuild_triple (hk : k₀ ≤ 2) (hnulls : Nulls rows) :
    Crash.Triple (fun c => c = .at 2 events rows) (rebuildTags server fromStr)
      (fun _ => Versioned 2 k₀ events) (Started k₀ events) (Started k₀ events) := by
  rintro n c rfl
  have hversioned : ∀ {rows}, Nulls rows → Versioned 2 k₀ events (.at 2 events rows) := fun h =>
    ⟨2, _, le_rfl, hk, by decide, rfl, h, fun h => by cases h⟩
  by_cases hn : n = some 0
  · rw [hn, rebuildTags, Crash.Prog.commit_powerLoss]
    exact ⟨(hversioned hnulls).started, by decide⟩
  · rcases rebuilt_cases server fromStr events rows with
      ⟨-, rows', hperm, hok⟩ | ⟨-, failure, herr⟩
    · rw [rebuildTags_ok hn hok]
      refine ⟨hversioned (nulls_rebuilt hperm), ?_⟩
      rintro rfl
      rfl
    · rw [rebuildTags_error hn herr]
      exact (hversioned hnulls).started

/-- **Each start moves on from the version it finds.** -/
theorem versions_triple : Crash.Triple (Started k₀ events) (runMigrations server fromStr)
    (fun v c => v = 5 ∧ Versioned 5 k₀ events c) (Started k₀ events) (Started k₀ events) := by
  have hfinish : Crash.Triple (Versioned 2 k₀ events) (finish server)
      (fun v c => v = 5 ∧ Versioned 5 k₀ events c) (Started k₀ events) (Started k₀ events) := by
    have hstarted : ∀ {rows}, Nulls rows → ∀ c, Holds (max 2 k₀) events rows c →
        Started k₀ events c := by
      rintro rows hnulls c ⟨k, hk, hk5, rfl⟩
      exact .inr ⟨k, rows, Nat.zero_le _, by omega, hk5, rfl, hnulls, by omega⟩
    refine (Crash.Triple.of_forall fun rows => Crash.Triple.of_pure (p := Nulls rows ∧ k₀ ≤ 5)
      (P := Holds (max 2 k₀) events rows) fun h => (finish_triple k₀ h.1).conseq (fun _ h => h) ?_
      (hstarted h.1) (hstarted h.1)).conseq ?_ (fun _ _ h => h) (fun _ h => h) fun _ h => h
    · rintro v c ⟨rfl, rfl⟩
      exact ⟨rfl, 5, rows, le_rfl, h.2, le_rfl, rfl, h.1, fun h => by cases h⟩
    · rintro c ⟨k, rows, hk2, hk, hk5, rfl, hnulls, -⟩
      exact ⟨rows, ⟨hnulls, hk.trans hk5⟩, k, max_le hk2 hk, hk5, rfl⟩
  rw [runMigrations_eq]
  refine prepare_triple.bind fun _ => first_triple.bind fun _ => second_triple.bind fun r =>
    Crash.Triple.bind (Q := fun _ => Versioned 2 k₀ events) (Crash.Triple.or ?_ ?_) fun _ => hfinish
  · refine Crash.Triple.of_pure ?_
    rintro rfl
    rw [if_pos rfl]
    refine Crash.Triple.of_pure fun hk => Crash.Triple.of_forall fun rows =>
      Crash.Triple.of_pure fun hnulls => rebuild_triple hk hnulls
  · refine Crash.Triple.of_pure ?_
    rintro rfl
    rw [if_neg (by decide)]
    exact Crash.Triple.pure fun _ h => h

/-- The power is on and the start returns the latest version. -/
def Completes (server : MigrationServer) (fromStr : String → Option Event) (c : Catalog) : Prop :=
  ∃ c', runMigrations server fromStr none c = (.returned 5 none, c')

/-- Nothing keeps a start from the latest version: at version 1 the events can be rebuilt and at
version 2 the rows are there, and in either case they fit the index of the unique constraint. -/
structure Clear (server : MigrationServer) (fromStr : String → Option Event)
    (events : List StoredEvent) (c : Catalog) : Prop where
  one : ∀ rows, c = .at 1 events rows → Rebuildable server fromStr events ∧
    ∀ t ∈ events.flatMap (StoredEvent.tagRows fromStr), server.fits .unique t = true
  two : ∀ rows, c = .at 2 events rows → ∀ t ∈ rows, server.fits .unique t = true

theorem Catalog.version_eq {events' : List StoredEvent} {rows' : List TagRow} {l : Nat}
    (h : Catalog.at k events rows = .at l events' rows') : k = l := by
  have hm := congrArg (fun c => c.migrations.map List.length) h
  simpa [Catalog.at] using hm

/-- From the rebuild on. -/
theorem rebuild_finish_iff :
    (∃ c, (rebuildTags server fromStr >>= fun _ => finish server) none (.at 2 events rows) =
      (.returned 5 none, c)) ↔ Rebuildable server fromStr events ∧
        ∀ t ∈ events.flatMap (StoredEvent.tagRows fromStr), server.fits .unique t = true := by
  rcases rebuilt_cases server fromStr events rows with
    ⟨hre, rows', hperm, hok⟩ | ⟨hre, failure, herr⟩
  · rw [Crash.Prog.bind_of_returned (rebuildTags_ok (by decide) hok)]
    have hall : rows'.all (server.fits .unique) = true ↔
        ∀ t ∈ events.flatMap (StoredEvent.tagRows fromStr), server.fits .unique t = true := by
      rw [List.all_eq_true]
      exact forall_congr' fun t => by rw [hperm.mem_iff]
    rw [and_iff_right hre, ← hall]
    change (∃ c, finish server none (.at 2 events rows') = _) ↔ _
    rw [finish_two (nulls_rebuilt hperm)]
    split_ifs with hfits
    · exact iff_of_true ⟨_, rfl⟩ hfits
    · refine iff_of_false ?_ hfits
      rintro ⟨c, h⟩
      cases h
  · rw [Crash.Prog.bind_of_failed (rebuildTags_error (by decide) herr)]
    refine iff_of_false ?_ fun h => hre h.1
    rintro ⟨c, h⟩
    cases h

/-- The first start of all runs everything. -/
theorem start_zero (h : c = .new ∨ c = .at 0 [] rows) :
    runMigrations server fromStr none c =
      (rebuildTags server fromStr >>= fun _ => finish server) none (.at 2 [] []) := by
  have hprepare : ∃ rows, prepareMigrationsTable none c = (.returned () none, .at 0 [] rows) := by
    rcases h with rfl | rfl
    · exact ⟨[], rfl⟩
    · exact ⟨rows, rfl⟩
  obtain ⟨rows, hprepare⟩ := hprepare
  rw [runMigrations_eq, Crash.Prog.bind_of_returned hprepare,
    Crash.Prog.bind_of_returned (runMigration_upgraded (by decide) (by decide) migrate_1)]
  rw [Crash.Prog.bind_of_returned (runMigration_upgraded (by decide) (by decide) migrate_2)]
  rfl

/-- A start completes exactly when nothing keeps it. -/
theorem completes_iff (h : Started k₀ events c) :
    Completes server fromStr c ↔ Clear server fromStr events c := by
  have hzero : ∀ {c rows}, (c = .new ∨ c = .at 0 [] rows) → Completes server fromStr c := by
    intro c rows hc
    rw [Completes, start_zero hc]
    exact rebuild_finish_iff.mpr ⟨fun r hr => (by cases hr), fun t ht => (by cases ht)⟩
  rcases h with ⟨rfl, -, -⟩ | ⟨k, rows, -, -, hk5, rfl, hnulls, hz⟩
  · refine iff_of_true (@hzero _ [] (.inl rfl)) ⟨fun rows h => ?_, fun rows h => ?_⟩
    · cases congrArg Catalog.migrations h
    · cases congrArg Catalog.migrations h
  · rcases (by omega : k = 0 ∨ k = 1 ∨ k = 2 ∨ 3 ≤ k) with rfl | rfl | rfl | h3
    · obtain rfl := hz rfl
      refine iff_of_true (hzero (.inr rfl)) ⟨fun rows h => ?_, fun rows h => ?_⟩
      · cases Catalog.version_eq h
      · cases Catalog.version_eq h
    · rw [Completes, start_one (by decide) (by decide)]
      refine rebuild_finish_iff.trans ⟨fun h => ⟨fun _ _ => h, fun rows h => ?_⟩,
        fun h => h.one rows rfl⟩
      cases Catalog.version_eq h
    · rw [Completes, start_later le_rfl (by decide)]
      change (∃ c, finish server none (.at 2 events rows) = _) ↔ _
      rw [finish_two hnulls]
      split_ifs with hfits
      · refine iff_of_true ⟨_, rfl⟩ ⟨fun rows h => ?_, fun rows' h => ?_⟩
        · cases Catalog.version_eq h
        · obtain rfl : rows = rows' := Option.some.inj (congrArg Catalog.tag h)
          exact List.all_eq_true.mp hfits
      · refine iff_of_false ?_ fun h => hfits (List.all_eq_true.mpr (h.two rows rfl))
        rintro ⟨c, h⟩
        cases h
    · rw [Completes, start_later (by omega) (by decide)]
      refine iff_of_true ⟨_, finish_three h3 hk5⟩ ⟨fun rows h => ?_, fun rows h => ?_⟩
      · have := Catalog.version_eq h
        omega
      · have := Catalog.version_eq h
        omega

/-- **Starts resume.** However often starts are cut short or give up, the catalog is that of a
version, no older than it was, with each migration recorded once and the same events; and a start
that is left alone returns the latest version exactly when nothing of its rows keeps it. -/
theorem starts_resume (server : MigrationServer) (fromStr : String → Option Event) (k₀ : Nat)
    (events : List StoredEvent) (c : Catalog) (hc : Started k₀ events c)
    (ns : List (Option Nat)) :
    Started k₀ events (Machine.run (runMigrations server fromStr).next c ns) ∧
      (Completes server fromStr (Machine.run (runMigrations server fromStr).next c ns) ↔
        Clear server fromStr events (Machine.run (runMigrations server fromStr).next c ns)) := by
  have htriple : Crash.Triple (Started k₀ events) (runMigrations server fromStr) _ _ _ :=
    versions_triple
  have h := htriple.restarts (fun _ _ h => h.2.started) (fun _ h => h) (fun _ h => h) ns hc
  exact ⟨h, completes_iff h⟩

/-! ### A database of version 1 with a note -/

/-- The bytes of a text are read as that text. -/
theorem fromUTF8_asBytes (s : String) : String.fromUTF8? (asBytes s).toByteArray = some s := by
  have hbytes : (asBytes s).toByteArray = s.toByteArray := String.utf8Encode_toList
  rw [hbytes, String.fromUTF8?, dif_pos s.isValidUTF8]
  rfl

/-- A row with the text of an event. -/
def storedAs (id : Bytes) (text : String) : StoredEvent := ⟨id, asBytes text⟩

/-- `serde_json` on the text of one event, and on what is no event. -/
def parses (text : String) (e : Event) (s : String) : Option Event :=
  if s = text then some e else none

/-- The row reads. -/
theorem readEvent_storedAs (id : Bytes) (text : String) (e : Event) :
    readEvent (parses text e) (storedAs id text).content = .ok e := by
  rw [readEvent, storedAs, fromUTF8_asBytes]
  simp only [parses, if_true]

/-- Its tags are those of the event. -/
theorem tagRows_storedAs (id : Bytes) (text : String) (e : Event) :
    (storedAs id text).tagRows (parses text e) = Postgres.tagRows id e := by
  rw [StoredEvent.tagRows, readEvent_storedAs]
  rfl

/-- A note as version 1 has it. -/
def sampleStored : StoredEvent := storedAs (Hex.ofNat 32 sampleTopic.id) sampleTopic.event.eventStr

/-- The parser, as far as this note goes. -/
def sampleParse : String → Option Event :=
  parses sampleTopic.event.eventStr sampleTopic.event.serialized

/-- It has one tag. -/
theorem tagRows_sampleStored : sampleStored.tagRows sampleParse =
    [⟨Hex.ofNat 32 sampleTopic.id, "t", some (asBytes "grin"), none⟩] := by
  rw [sampleStored, sampleParse, tagRows_storedAs]
  decide +kernel

/-- The server takes the rows of the note, and they fit its constraint. -/
theorem sampleStored_takes : ∀ t ∈ sampleStored.tagRows sampleParse,
    Takes .inOrder t ∧ MigrationServer.inOrder.fits .unique t = true := by
  intro t ht
  rw [tagRows_sampleStored, List.mem_singleton] at ht
  subst ht
  exact ⟨⟨by decide, by decide +kernel⟩, by decide +kernel⟩

/-- A start that loses power in front of the second migration leaves version 1 with its note, and
the next one comes through the rebuild. -/
theorem sampleFirst_resumes :
    Machine.run (runMigrations .inOrder sampleParse).next (.at 1 [sampleStored] []) [some 1] =
        .at 1 [sampleStored] [] ∧
      Completes .inOrder sampleParse (.at 1 [sampleStored] []) := by
  have hquiet : Machine.run (runMigrations .inOrder sampleParse).next (.at 1 [sampleStored] [])
      [some 1] = .at 1 [sampleStored] [] := run_quiet fun n hn => .inr (List.mem_singleton.mp hn)
  have hstarted : Started 1 [sampleStored] (.at 1 [sampleStored] []) :=
    .inr ⟨1, [], by decide, le_rfl, by decide, rfl, fun t ht => absurd ht List.not_mem_nil,
      fun h => absurd h (by decide)⟩
  obtain ⟨-, hiff⟩ := starts_resume .inOrder sampleParse 1 [sampleStored] _ hstarted [some 1]
  rw [hquiet] at hiff
  refine ⟨hquiet, hiff.mpr ⟨fun rows _ => ⟨fun r hr => ?_, fun t ht => ?_⟩, fun rows h => ?_⟩⟩
  · obtain rfl := List.mem_singleton.mp hr
    exact ⟨⟨_, readEvent_storedAs ..⟩, fun t ht => (sampleStored_takes t ht).1⟩
  · rw [List.flatMap_singleton] at ht
    exact (sampleStored_takes t ht).2
  · cases Catalog.version_eq h

end Versions

end Floonet.Postgres
