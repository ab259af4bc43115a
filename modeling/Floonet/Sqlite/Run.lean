import Floonet.Lib.Machine
import Floonet.Sqlite.Step
import Floonet.Sqlite.Verifier

/-!
# Runs of the store

The calls that change the three tables, as one machine: the write path, the
expiry sweep and the four calls of the NIP-05 verifier. In every state a run
reaches the tables are coherent (`run_coherent`): a row says what the event it
holds says, and its tag rows are exactly the searchable tags of that event.
Every stored event was written (`run_written`).
-/

namespace Floonet.Sqlite

open Hex (Bytes)

/-- A call that changes the database. -/
inductive Op where
  | persistEvent (e : Event)
  | deleteExpired (now : Nat)
  /-- the verifier calls it with the metadata event it has checked -/
  | createVerificationRecord (metadata : Event) (name : String) (now : Nat)
  | updateVerificationTimestamp (id verifTime : Nat)
  | failVerification (id failTime : Nat)
  | deleteVerification (id : Nat)

/-- The database after a call. -/
def Op.apply (eng : Sql.Engine) (db : Db) : Op → Db
  | .persistEvent e => write eng db e
  | .deleteExpired now => Sqlite.deleteExpired db now
  | .createVerificationRecord metadata name now =>
    Sqlite.createVerificationRecord db metadata.id name now
  | .updateVerificationTimestamp id verifTime =>
    Sqlite.updateVerificationTimestamp db id verifTime
  | .failVerification id failTime => Sqlite.failVerification db id failTime
  | .deleteVerification id => Sqlite.deleteVerification db id

/-- The database a sequence of calls makes of the empty one. -/
def run (eng : Sql.Engine) (ops : List Op) : Db := Machine.run (Op.apply eng) Db.empty ops

/-- The database a sequence of writes makes of the empty one. -/
def writes (eng : Sql.Engine) (es : List Event) : Db := Machine.run (write eng) Db.empty es

/-- The events a sequence of calls writes. -/
def written (ops : List Op) : List Event :=
  ops.filterMap fun
    | .persistEvent e => some e
    | _ => none

theorem mem_written {ops : List Op} {e : Event} : e ∈ written ops ↔ Op.persistEvent e ∈ ops := by
  rw [written, List.mem_filterMap]
  refine ⟨?_, ?_⟩
  · rintro ⟨op, hop, heq⟩
    cases op <;> simp only [reduceCtorEq, Option.some.injEq] at heq
    exact heq ▸ hop
  · exact fun h => ⟨_, h, rfl⟩

/-- A sequence of writes is a run. -/
theorem writes_eq_run (eng : Sql.Engine) (es : List Event) :
    writes eng es = run eng (es.map .persistEvent) := by
  rw [writes, run, Machine.run, Machine.run, List.foldl_map]
  rfl

@[simp] theorem written_map (es : List Event) : written (es.map .persistEvent) = es := by
  rw [written, List.filterMap_map]
  exact List.filterMap_some

/-! ## Coherence

Each row agrees with the event in its `content`: columns and tag rows are those of the insert.
Calls keep this, since they write whole rows, set the flag, or delete a row with its tags. -/

/-- The row of an event says what the event says. -/
structure Db.RowCoherent (db : Db) (r : EventRow) : Prop where
  decode_id : Hex.decode r.content.id = some r.eventHash
  decode_pubkey : Hex.decode r.content.pubkey = some r.author
  createdAt : r.createdAt = r.content.createdAt
  kind : r.kind = r.content.kind
  expiresAt : r.expiresAt = r.content.expiration
  tagsOf : db.tagsOf r.id = tagRows r.id r.content

/-- Every row is coherent. -/
def Db.Coherent (db : Db) : Prop := ∀ r ∈ db.events, db.RowCoherent r

/-- Every stored event satisfies `P`, in the form it was written. -/
def Db.Stores (db : Db) (P : Event → Prop) : Prop :=
  ∀ r ∈ db.events, ∃ e, P e ∧ r.content = e.serialized

/-- Coherence of a row moves along columns other than `hidden` and
`delegated_by`. -/
theorem Db.RowCoherent.congr {db db' : Db} {r s : EventRow} (h : db.RowCoherent r)
    (hhash : s.eventHash = r.eventHash) (hauthor : s.author = r.author)
    (hcreated : s.createdAt = r.createdAt) (hkind : s.kind = r.kind)
    (hexp : s.expiresAt = r.expiresAt) (hcontent : s.content = r.content)
    (htags : db'.tagsOf s.id = tagRows s.id r.content) : db'.RowCoherent s where
  decode_id := by rw [hcontent, hhash, h.decode_id]
  decode_pubkey := by rw [hcontent, hauthor, h.decode_pubkey]
  createdAt := by rw [hcontent, hcreated, h.createdAt]
  kind := by rw [hcontent, hkind, h.kind]
  expiresAt := by rw [hcontent, hexp, h.expiresAt]
  tagsOf := by rw [hcontent, htags]

/-- A row keeps its coherence while its own tag rows stay. -/
theorem Db.RowCoherent.of_tagsOf {db db' : Db} {r : EventRow} (h : db.RowCoherent r)
    (htags : db'.tagsOf r.id = db.tagsOf r.id) : db'.RowCoherent r :=
  h.congr rfl rfl rfl rfl rfl rfl (by rw [htags, h.tagsOf])

/-- A new row agrees with its event. -/
theorem Db.Coherent.inserted {db : Db} {e : Event} {hash author : Bytes} (h : db.Coherent)
    (hacc : Accepts db e hash author) : (inserted db e hash author hacc.hash_new).Coherent := by
  intro r hr
  rcases (mem_inserted hacc).mp hr with hr | rfl
  · exact (h r hr).of_tagsOf (Db.tagsOf_insert_of_ne (ne_nextRowid hr))
  · exact ⟨hacc.decode_id, hacc.decode_pubkey, rfl, rfl, rfl, Db.tagsOf_insert_self⟩

theorem Db.Coherent.deleteEvents {db : Db} (h : db.Coherent) (p : EventRow → Bool) :
    (db.deleteEvents p).Coherent := by
  intro r hr
  obtain ⟨hmem, hp⟩ := Db.mem_deleteEvents.mp hr
  exact (h r hmem).of_tagsOf (Db.tagsOf_deleteEvents hmem hp)

theorem Db.Coherent.hideEvents {db : Db} (h : db.Coherent) (p : EventRow → Bool) :
    (db.hideEvents p).Coherent := by
  intro r hr
  obtain ⟨s, hs, rfl⟩ := Db.mem_hideEvents.mp hr
  refine (h s hs).congr ?_ ?_ ?_ ?_ ?_ ?_ ?_ <;> simp [(h s hs).tagsOf]

/-- A write keeps the rows in agreement. -/
theorem Db.Coherent.write {db : Db} (eng : Sql.Engine) (h : db.Coherent) (e : Event) :
    (write eng db e).Coherent := by
  rcases write_cases eng db e with hw | ⟨hash, author, hacc, -, hw⟩
  · rw [hw]
    exact h
  · rw [hw, accepted, cleaned_eq]
    exact ((h.inserted hacc).deleteEvents _).hideEvents _

/-- A call of the verifier keeps events and tags. -/
theorem Db.Coherent.of_events {db db' : Db} (h : db.Coherent) (hev : db'.events = db.events)
    (htags : db'.tags = db.tags) : db'.Coherent := by
  intro r hr
  rw [hev] at hr
  exact (h r hr).of_tagsOf (by rw [Db.tagsOf, htags, Db.tagsOf])

theorem Db.Coherent.apply {db : Db} (eng : Sql.Engine) (h : db.Coherent) (op : Op) :
    (op.apply eng db).Coherent := by
  cases op with
  | persistEvent e => exact h.write eng e
  | deleteExpired now => exact h.deleteEvents _
  | createVerificationRecord metadata name now =>
    exact h.of_events (by simp [Op.apply]) (by simp [Op.apply])
  | updateVerificationTimestamp id verifTime => exact h.of_events rfl rfl
  | failVerification id failTime => exact h.of_events rfl rfl
  | deleteVerification id => exact h.of_events rfl rfl

/-- **Every reachable database is coherent.** -/
theorem run_coherent (eng : Sql.Engine) (ops : List Op) : (run eng ops).Coherent :=
  Machine.invariant (fun _ op _ h => h.apply eng op) (fun _ hr => absurd hr List.not_mem_nil)

/-- The tag rows of a stored event. -/
theorem mem_tagsOf {db : Db} (hcoh : db.Coherent) {r : EventRow} (hr : r ∈ db.events) {t : TagRow} :
    t ∈ db.tagsOf r.id ↔ ∃ nv ∈ r.content.searchableTags, tagRow r.id r.content nv = t := by
  rw [(hcoh r hr).tagsOf]
  exact List.mem_map

/-! ## Stored events were written -/

/-- A write stores nothing but its event. -/
theorem Db.Stores.write {db : Db} {P : Event → Prop} (eng : Sql.Engine) (h : db.Stores P)
    {e : Event} (he : storable eng e = true → P e) : (write eng db e).Stores P := by
  intro r hr
  rcases write_cases eng db e with hw | ⟨hash, author, hacc, hlim, hw⟩
  · exact h r (hw ▸ hr)
  · rw [hw] at hr
    obtain ⟨s, hs, -, rfl⟩ := (mem_accepted hacc).mp hr
    rw [Db.hideRow_content]
    rcases hs with hs | rfl
    · exact h s hs
    · exact ⟨e, he (storable_iff.mpr ⟨hacc.representable, hlim⟩), rfl⟩

theorem Db.Stores.apply {db : Db} {P : Event → Prop} (eng : Sql.Engine) (h : db.Stores P)
    {op : Op} (hop : ∀ e, op = .persistEvent e → storable eng e = true → P e) :
    (op.apply eng db).Stores P := by
  cases op with
  | persistEvent e => exact h.write eng (hop e rfl)
  | deleteExpired now => exact fun r hr => h r (Db.mem_deleteEvents.mp hr).1
  | createVerificationRecord metadata name now =>
    exact fun r hr => h r (by simpa [Op.apply] using hr)
  | updateVerificationTimestamp id verifTime => exact h
  | failVerification id failTime => exact h
  | deleteVerification id => exact h

/-- **Every stored event was written.** -/
theorem run_written (eng : Sql.Engine) (ops : List Op) :
    (run eng ops).Stores fun e => e ∈ written ops ∧ storable eng e = true := by
  refine Machine.invariant
    (P := fun db => Db.Stores db fun e => e ∈ written ops ∧ storable eng e = true) ?_ ?_
  · intro db op hop h
    refine h.apply eng ?_
    rintro e rfl hst
    exact ⟨mem_written.mpr hop, hst⟩
  · exact fun _ hr => absurd hr List.not_mem_nil

theorem writes_coherent (eng : Sql.Engine) (es : List Event) : (writes eng es).Coherent :=
  writes_eq_run eng es ▸ run_coherent eng _

/-! ## Rows and the events they hold -/

/-- The row of a written event. -/
structure RowOf (e : Event) (r : EventRow) : Prop where
  content : r.content = e.serialized
  decode_id : Hex.decode e.id = some r.eventHash
  decode_pubkey : Hex.decode e.pubkey = some r.author
  createdAt : r.createdAt = e.createdAt
  kind : r.kind = e.kind

/-- A row in agreement is that of the event it holds. -/
theorem Db.RowCoherent.rowOf {db : Db} {e : Event} {r : EventRow} (h : db.RowCoherent r)
    (hcontent : r.content = e.serialized) : RowOf e r where
  content := hcontent
  decode_id := by rw [← h.decode_id, hcontent]; rfl
  decode_pubkey := by rw [← h.decode_pubkey, hcontent]; rfl
  createdAt := by rw [h.createdAt, hcontent]; rfl
  kind := by rw [h.kind, hcontent]; rfl

/-- Every row is that of an event that was written. -/
theorem exists_rowOf_run {eng : Sql.Engine} {ops : List Op} {r : EventRow}
    (hr : r ∈ (run eng ops).events) : ∃ e ∈ written ops, storable eng e = true ∧ RowOf e r := by
  obtain ⟨e, ⟨he, hst⟩, hcontent⟩ := run_written eng ops r hr
  exact ⟨e, he, hst, (run_coherent eng ops r hr).rowOf hcontent⟩

theorem exists_rowOf {eng : Sql.Engine} {es : List Event} {r : EventRow}
    (hr : r ∈ (writes eng es).events) : ∃ e ∈ es, storable eng e = true ∧ RowOf e r := by
  rw [writes_eq_run] at hr
  obtain ⟨e, he, hst, hrow⟩ := exists_rowOf_run hr
  exact ⟨e, written_map es ▸ he, hst, hrow⟩

/-- A row with the id of a validated event holds an event with that id. -/
theorem RowOf.id_eq {crypto : Crypto} {e f : Event} {r : EventRow} (h : RowOf f r)
    (hf : f.Validated crypto) (he : e.Validated crypto)
    (hid : Hex.decode e.id = some r.eventHash) : f.id = e.id :=
  hf.id_eq_of_decode he (h.decode_id.trans hid.symm)

/-- Without collisions the row then holds the same event. -/
theorem RowOf.sameBody {crypto : Crypto} {es : List Event} {e f : Event} {r : EventRow}
    (h : RowOf f r) (hval : ∀ g ∈ es, g.Validated crypto) (hnc : crypto.NoCollision es)
    (hf : f ∈ es) (he : e ∈ es) (hid : Hex.decode e.id = some r.eventHash) : f.SameBody e :=
  Event.Validated.sameBody hnc hf he (hval f hf) (hval e he) (h.id_eq (hval f hf) (hval e he) hid)

end Floonet.Sqlite
