import Floonet.Lib.Machine
import Floonet.Sqlite.GiftWrap
import Floonet.Postgres.Accept

/-!
# Runs of the Postgres store

The calls that change the event tables are writes and the clean-up of expired events. Whatever
they were, each row holds an event that was written, with the tags of that event
(`run_holds`). Gift wraps, which no write touches, stay for good (`wrap_stays`).
-/

namespace Floonet.Postgres

open Hex (Bytes)

variable {server : Server} {db db' : Db} {e : Event} {id pubKey : Bytes} {r : EventRow} {n : Nat}

/-! ## Calls -/

/-- `DELETE FROM "event" WHERE expires_at <= $1`, at a time in seconds. -/
def deleteExpired (db : Db) (now : Nat) : Outcome PgError Db := do
  let t ← Outcome.unwrap (timestampOpt (asI64 now))
  let t ← readTimestamptz t
  pure (db.deleteEvents fun r => r.expiresAt.any fun exp => decide (exp ≤ t))

/-- The database after the clean-up, whatever it returned. -/
def sweep (db : Db) (now : Nat) : Db :=
  match deleteExpired db now with
  | .ok db' => db'
  | _ => db

/-- A call that changes the event tables. -/
inductive Op where
  | writeEvent (e : Event)
  | deleteExpired (now : Nat)

/-- The database after a call. -/
def Op.apply (server : Server) (db : Db) : Op → Db
  | .writeEvent e => write server db e
  | .deleteExpired now => sweep db now

/-- The database a sequence of calls makes of the empty one. -/
def run (server : Server) (ops : List Op) : Db := Machine.run (Op.apply server) Db.empty ops

/-- The database a sequence of writes makes of the empty one. -/
def writes (server : Server) (es : List Event) : Db := Machine.run (write server) Db.empty es

/-- The events a sequence of calls writes. -/
def written (ops : List Op) : List Event :=
  ops.filterMap fun
    | .writeEvent e => some e
    | .deleteExpired _ => none

theorem mem_written {ops : List Op} : e ∈ written ops ↔ Op.writeEvent e ∈ ops := by
  rw [written, List.mem_filterMap]
  refine ⟨?_, fun h => ⟨_, h, rfl⟩⟩
  rintro ⟨op, hop, heq⟩
  cases op <;> simp only [reduceCtorEq, Option.some.injEq] at heq
  exact heq ▸ hop

/-- A sequence of writes is a run. -/
theorem writes_eq_run (server : Server) (es : List Event) :
    writes server es = run server (es.map .writeEvent) := by
  rw [writes, run, Machine.run, Machine.run, List.foldl_map]
  rfl

@[simp] theorem written_map (es : List Event) : written (es.map .writeEvent) = es := by
  rw [written, List.filterMap_map]
  exact List.filterMap_some

/-- The row is swept at this time. -/
def expiredRow (now : Nat) (r : EventRow) : Bool :=
  decide (Representable now ∧ minTimestamptz ≤ asI64 now) &&
    r.expiresAt.any fun exp => decide (exp ≤ asI64 now)

/-- A clean-up at a time that cannot be bound takes nothing. -/
theorem sweep_eq (db : Db) (now : Nat) : sweep db now = db.deleteEvents (expiredRow now) := by
  have hnone : ¬ (Representable now ∧ minTimestamptz ≤ asI64 now) →
      db.deleteEvents (expiredRow now) = db := fun h =>
    Db.deleteEvents_eq_self fun r _ => by rw [expiredRow, decide_eq_false h, Bool.false_and]
  rw [sweep, deleteExpired]
  by_cases hrep : Representable now
  · rw [timestampOpt_of_representable hrep]
    by_cases hmin : minTimestamptz ≤ asI64 now
    · have hp : expiredRow now = fun r : EventRow =>
          r.expiresAt.any fun exp => decide (exp ≤ asI64 now) := by
        funext r
        rw [expiredRow, decide_eq_true ⟨hrep, hmin⟩, Bool.true_and]
      rw [hp]
      simp only [Outcome.unwrap, Outcome.ok_bind, readTimestamptz, if_pos hmin]
      rfl
    · rw [hnone fun h => hmin h.2]
      simp only [Outcome.unwrap, Outcome.ok_bind, readTimestamptz, if_neg hmin]
      rfl
  · rw [timestampOpt_of_not_representable hrep, hnone fun h => hrep h.1]
    rfl

/-! ## What the rows hold

A row holds an event when its columns and its tag rows are what the insert of this event makes.
Only the flag changes later, and tag rows go with their row. -/

/-- The tag rows of one event. -/
def Db.tagsOf (db : Db) (id : Bytes) : List TagRow := db.tags.filter fun t => t.eventId == id

/-- The row holds the event, with its tags. -/
structure Db.RowHolds (db : Db) (e : Event) (r : EventRow) : Prop where
  content : r.content = e.serialized
  decode_id : Hex.decode e.id = some r.id
  decode_pubkey : Hex.decode e.pubkey = some r.pubKey
  createdAt : r.createdAt = asI64 e.createdAt
  kind : r.kind = asI64 e.kind
  expiresAt : r.expiresAt = e.expiration.bind fun x => timestampOpt (asI64 x)
  delegatedBy : r.delegatedBy = e.delegatedBy.bind Hex.decode
  tagsOf : db.tagsOf r.id = tagRows r.id e

/-- Every row holds an event of a kind. -/
def Db.Holds (db : Db) (P : Event → Prop) : Prop := ∀ r ∈ db.events, ∃ e, P e ∧ db.RowHolds e r

section Holds

variable {P : Event → Prop}

/-- What a row holds depends on its columns and its tags, but not on the flag. -/
theorem Db.RowHolds.hideRow (h : db.RowHolds e r) (p : EventRow → Bool)
    (htags : db'.tagsOf r.id = db.tagsOf r.id) : db'.RowHolds e (Db.hideRow p r) := by
  rw [Db.hideRow]
  split_ifs
  · exact ⟨h.content, h.decode_id, h.decode_pubkey, h.createdAt, h.kind, h.expiresAt,
      h.delegatedBy, htags.trans h.tagsOf⟩
  · exact ⟨h.content, h.decode_id, h.decode_pubkey, h.createdAt, h.kind, h.expiresAt,
      h.delegatedBy, htags.trans h.tagsOf⟩

/-- The tags of a row that stays. -/
theorem Db.tagsOf_deleteEvents {p : EventRow → Bool} (hr : r ∈ db.events) (hp : p r = false) :
    (db.deleteEvents p).tagsOf r.id = db.tagsOf r.id := by
  rw [Db.tagsOf, Db.tagsOf, Db.deleteEvents, List.filter_filter]
  refine List.filter_congr fun t _ => ?_
  by_cases ht : t.eventId = r.id
  · have hany : (db.events.any fun r => !p r && r.id == t.eventId) = true :=
      List.any_eq_true.mpr ⟨r, hr, by rw [hp, ht, beq_self_eq_true]; rfl⟩
    rw [hany, Bool.and_true]
  · rw [beq_eq_false_iff_ne.mpr ht, Bool.false_and]

/-- What holds of all rows holds of fewer. -/
theorem Db.Holds.deleteEvents (h : db.Holds P) (p : EventRow → Bool) :
    (db.deleteEvents p).Holds P := by
  intro r hr
  obtain ⟨hr, hp⟩ := Db.mem_deleteEvents.mp hr
  obtain ⟨e, he, hrow⟩ := h r hr
  have htags := Db.tagsOf_deleteEvents hr hp
  exact ⟨e, he, { hrow with tagsOf := htags.trans hrow.tagsOf }⟩

/-- The tag rows of a new event are those of its insert. -/
theorem tagsOf_insertedNew (hnew : id ∉ db.events.map EventRow.id) :
    (insertedNew db e id pubKey hnew).tagsOf id = tagRows id e := by
  have hold : (db.tags.filter fun t => t.eventId == id) = [] := by
    rw [List.filter_eq_nil_iff]
    intro t ht heq
    obtain ⟨s, hs, hsid⟩ := db.tag_fk t ht
    exact hnew (List.mem_map.mpr ⟨s, hs, hsid.trans (beq_iff_eq.mp heq)⟩)
  rw [Db.tagsOf, insertedNew_tags, List.filter_append, hold, List.nil_append]
  exact List.filter_eq_self.mpr fun t ht => beq_iff_eq.mpr (eventId_of_mem_tagRows t ht)

/-- A new row leaves the tags of the others. -/
theorem tagsOf_insertedNew_of_mem (hnew : id ∉ db.events.map EventRow.id) (hr : r ∈ db.events) :
    (insertedNew db e id pubKey hnew).tagsOf r.id = db.tagsOf r.id := by
  have hadd : ((tagRows id e).filter fun t => t.eventId == r.id) = [] := by
    rw [List.filter_eq_nil_iff]
    intro t ht heq
    have hid := (eventId_of_mem_tagRows t ht).symm.trans (beq_iff_eq.mp heq)
    exact hnew (List.mem_map.mpr ⟨r, hr, hid.symm⟩)
  rw [Db.tagsOf, insertedNew_tags, List.filter_append, hadd, List.append_nil, Db.tagsOf]

/-- A new row has its own tags. -/
theorem rowHolds_insertedNew (h : Accepts server db e id pubKey) :
    (insertedNew db e id pubKey h.id_new).RowHolds e (newRow e id pubKey) :=
  ⟨rfl, h.decode_id, h.decode_pubkey, rfl, rfl, rfl, rfl, tagsOf_insertedNew h.id_new⟩

/-- The tags of a row that stays do not change in the rest of the transaction. -/
theorem tagsOf_accepted (h : Accepts server db e id pubKey)
    (hr : r ∈ (insertedNew db e id pubKey h.id_new).events)
    (hs : swept server (insertedNew db e id pubKey h.id_new) e pubKey r = false) :
    (accepted server db e id pubKey h.id_new).2.tagsOf r.id =
      (insertedNew db e id pubKey h.id_new).tagsOf r.id := by
  rw [accepted, Db.tagsOf, settled_tags, cleaned_eq]
  exact Db.tagsOf_deleteEvents hr hs

/-- A write keeps what holds of all rows. -/
theorem Db.Holds.write (h : db.Holds P) (he : Storable server e → P e) :
    (write server db e).Holds P := by
  rcases write_cases server db e with hw | ⟨id, pubKey, hacc, hw⟩
  · rwa [hw]
  · rw [hw]
    intro r hr
    obtain ⟨s, hs, hsw, rfl⟩ := (mem_accepted hacc).mp hr
    have htags := tagsOf_accepted hacc ((mem_insertedNew hacc.id_new).mpr hs) hsw
    rcases hs with hs | rfl
    · obtain ⟨f, hf, hrow⟩ := h s hs
      exact ⟨f, hf, hrow.hideRow _ (htags.trans (tagsOf_insertedNew_of_mem hacc.id_new hs))⟩
    · exact ⟨e, he hacc.storable, (rowHolds_insertedNew hacc).hideRow _ htags⟩

/-- **Every row holds an event that was written**, with its tags. -/
theorem run_holds (server : Server) (ops : List Op) :
    (run server ops).Holds fun e => e ∈ written ops ∧ Storable server e := by
  refine Machine.invariant
    (P := fun db => Db.Holds db fun e => e ∈ written ops ∧ Storable server e) ?_ ?_
  · intro db op hop h
    cases op with
    | writeEvent e => exact h.write fun hst => ⟨mem_written.mpr hop, hst⟩
    | deleteExpired now =>
      rw [Op.apply, sweep_eq]
      exact h.deleteEvents _
  · exact fun _ hr => absurd hr List.not_mem_nil

/-- Every row holds an event that was written. -/
theorem writes_holds (server : Server) (es : List Event) :
    (writes server es).Holds fun e => e ∈ es ∧ Storable server e := by
  have h := run_holds server (es.map .writeEvent)
  rwa [written_map, ← writes_eq_run] at h

end Holds

/-- A row with the id of a validated event holds an event with that id. -/
theorem Db.RowHolds.id_eq {crypto : Crypto} {f : Event} (h : db.RowHolds f r)
    (hf : f.Validated crypto) (he : e.Validated crypto) (hid : Hex.decode e.id = some r.id) :
    f.id = e.id :=
  hf.id_eq_of_decode he (h.decode_id.trans hid.symm)

/-! ## The recorded deletions -/

theorem deletionStored_of_deleteEvents {p : EventRow → Bool} {author xid : Bytes}
    (h : DeletionStored (db.deleteEvents p) author xid) : DeletionStored db author xid := by
  obtain ⟨r, hr, ha, hk, t, ht, htag⟩ := h
  exact ⟨r, (Db.mem_deleteEvents.mp hr).1, ha, hk, t, (List.mem_filter.mp ht).1, htag⟩

/-- The clean-up after an event that is no deletion takes no deletion. -/
theorem deletionRecorded_cleaned (hacc : Accepts server db e id pubKey)
    (hne : asI64 e.kind ≠ 5) :
    deletionRecorded (cleaned server (insertedNew db e id pubKey hacc.id_new) e pubKey) pubKey id =
      deletionRecorded db pubKey id := by
  rw [Bool.eq_iff_iff, deletionRecorded_iff, deletionRecorded_iff, cleaned_eq]
  refine ⟨fun h => ?_, ?_⟩
  · refine ((deletionStored_insertedNew hacc.id_new).mp
      (deletionStored_of_deleteEvents h)).resolve_right fun h => hne h.2.1
  · rintro ⟨r, hr, ha, hk, t, ht, hid, htag⟩
    have hmem : r ∈ (insertedNew db e id pubKey hacc.id_new).events :=
      (mem_insertedNew hacc.id_new).mpr (.inl hr)
    have hs : swept server (insertedNew db e id pubKey hacc.id_new) e pubKey r = false := by
      by_contra hs
      exact hne ((swept_le (by simpa using hs)).1.symm.trans hk)
    refine ⟨r, Db.mem_deleteEvents.mpr ⟨hmem, hs⟩, ha, hk, t, ?_, hid, htag⟩
    rw [Db.mem_deleteEvents_tags hmem hs hid, insertedNew_tags]
    exact List.mem_append_left _ ht

/-! ## Gift wraps -/

/-- A gift wrap is of no kind that replaces, so nothing shadows it. -/
theorem not_shadowed_giftWrap (hk : e.kind = GIFT_WRAP_KIND) : shadowed db e = .ok false := by
  have hrep := Sqlite.not_replaceable_of_kind (e := e) (.inr hk)
  rw [not_or, Bool.not_eq_true, Bool.not_eq_true] at hrep
  have hd : e.distinctParam = none := by
    rw [Event.distinctParam, if_neg (by rw [hrep.2]; exact Bool.false_ne_true)]
  simp only [shadowed, hrep.1, hd]
  rfl

/-- An accepted wrap is reported and stored visible. -/
theorem writeEvent_giftWrap (hacc : Accepts server db e id pubKey)
    (hk : e.kind = GIFT_WRAP_KIND) :
    writeEvent server db e = .ok (1, write server db e) ∧
      newRow e id pubKey ∈ (write server db e).events := by
  have h1059 : e.kind = 1059 := hk
  have hok := writeEvent_of_accepts hacc
  have hone : (accepted server db e id pubKey hacc.id_new).1 = 1 := by
    rw [accepted, settled, if_neg (by rw [h1059]; decide), if_neg fun h => h.1 h1059]
  rw [write_of_accepts hacc]
  refine ⟨?_, (mem_accepted hacc).mpr ⟨_, .inr rfl, ?_, ?_⟩⟩
  · rw [hok, ← hone]
  · by_contra hs
    exact Sqlite.not_replaceable_of_kind (.inr hk) (swept_le (by simpa using hs)).2.2
  · rw [Db.hideRow, if_neg]
    rw [hides, h1059]
    simp

/-- A stored wrap that does not expire outlives every call. -/
theorem mem_apply_giftWrap (hr : r ∈ db.events) (hk : r.kind = 1059) (hexp : r.expiresAt = none)
    (op : Op) : r ∈ (op.apply server db).events := by
  cases op with
  | writeEvent e => exact mem_write_of_kind hr (.inr hk)
  | deleteExpired now =>
    rw [Op.apply, sweep_eq, Db.mem_deleteEvents, expiredRow, hexp]
    exact ⟨hr, Bool.and_false _⟩

/-- **Gift wraps stay.** In every run of validated events and clean-ups, the first write of an
admitted gift wrap that the server can store returns 1 and its row stays: present, visible and
without expiry. -/
theorem wrap_stays (crypto : Crypto) (server : Server) (bech32 : String → Option Bytes)
    (settings : Settings) (authed : Option String) (pre post : List Op) (w : Event)
    (hval : ∀ e ∈ written (pre ++ post), e.Validated crypto) (hw : w.Validated crypto)
    (hk : w.kind = GIFT_WRAP_KIND) (hst : Storable server w)
    (hadm : (Admission.fromSettings bech32 settings).check w authed = .allow)
    (hfirst : ∀ e ∈ written pre, e.id ≠ w.id) :
    (∃ db, writeEvent server (run server pre) w = .ok (1, db)) ∧
      ∃ r ∈ (run server (pre ++ .writeEvent w :: post)).events,
        Hex.decode w.id = some r.id ∧ r.hidden = false ∧ r.expiresAt = none := by
  obtain ⟨id, hid, -⟩ := hw.exists_decode_id
  obtain ⟨pubKey, hpk, -⟩ := hw.exists_decode_pubkey
  have hexp : (newRow w id pubKey).expiresAt = none := by
    rw [newRow, Admission.giftWrap_expiration hk hadm]
    rfl
  have hacc : Accepts server (run server pre) w id pubKey := by
    rcases accepts_or_stored (not_shadowed_giftWrap hk) hst hid hpk with hacc | ⟨r, hr, rfl⟩
    · exact hacc
    · obtain ⟨f, ⟨hf, -⟩, hrow⟩ := run_holds server pre r hr
      have hmem : f ∈ written (pre ++ post) :=
        mem_written.mpr (List.mem_append_left _ (mem_written.mp hf))
      exact absurd (hrow.id_eq (hval f hmem) hw hid) (hfirst f hf)
  obtain ⟨hret, hmem⟩ := writeEvent_giftWrap hacc hk
  have hkind : (newRow w id pubKey).kind = 1059 := by
    rw [newRow_kind, hk]
    rfl
  refine ⟨⟨_, hret⟩, newRow w id pubKey, ?_, hid, rfl, hexp⟩
  rw [run, Machine.run_append, Machine.run_cons]
  refine Machine.invariant (P := fun db => _ ∈ Db.events db) ?_ hmem
  exact fun db op _ hin => mem_apply_giftWrap hin hkind hexp op

/-- The deletion arrives before the wrap and again after it, and a clean-up follows. -/
theorem sampleWrap_stays :
    (∃ db, writeEvent Server.inOrder
        (run Server.inOrder [.writeEvent Sqlite.sampleRecall.event]) Sqlite.sampleWrap.event =
      .ok (1, db)) ∧
    ∃ r ∈ (run Server.inOrder ([.writeEvent Sqlite.sampleRecall.event] ++
        .writeEvent Sqlite.sampleWrap.event ::
          [.writeEvent Sqlite.sampleRecall.event, .deleteExpired 1800000000])).events,
      Hex.decode Sqlite.sampleWrap.event.id = some r.id ∧ r.hidden = false ∧
        r.expiresAt = none := by
  have hnd : ([Sqlite.sampleWrap, Sqlite.sampleRecall].map Recorded.createdAt).Nodup := by decide
  have hval := Recorded.validated_all hnd
  have hst : Storable Server.inOrder Sqlite.sampleWrap.event :=
    { createdAt := ⟨1700000000, by decide, by decide⟩
      expiresAt := fun _ h => by cases h
      kind := by decide
      tags := by
        have hall : ∀ nv ∈ Sqlite.sampleWrap.event.searchableTags,
            refusal Server.inOrder (tagRow [] nv) = none := by
          decide +kernel
        intro id _ t ht
        obtain ⟨nv, hnv, rfl⟩ := List.mem_map.mp ht
        exact hall nv hnv
      deletion := fun h => by cases h }
  refine wrap_stays (Recorded.crypto [Sqlite.sampleWrap, Sqlite.sampleRecall]) _ (fun _ => none)
    Settings.default none _ _ _ ?_ (hval _ (by simp)) rfl hst (by decide +kernel) ?_
  · intro e he
    obtain rfl : e = Sqlite.sampleRecall.event := by simpa [written] using he
    exact hval _ (by simp)
  · intro e he
    obtain rfl : e = Sqlite.sampleRecall.event := by simpa [written] using he
    rw [Ne, Recorded.event_id_eq_iff]
    decide +kernel

end Floonet.Postgres
