import Floonet.Sqlite.Frame
import Floonet.Postgres.TagValues

/-!
# One write of any kind

What `writeEvent` can do, for the replaceable kinds too. An event that nothing shadows, whose
hash is new and which every statement takes is *accepted* (`Accepts`): its row joins the table,
the clean-up sweeps rows of its own kind and author away (`swept`), and the deletion logic hides
some of what is left (`hides`). Every other write leaves the database as it was
(`writeEvent_cases`).
-/

namespace Floonet.Postgres

open Hex (Bytes)

variable {server : Server} {db db' : Db} {e : Event} {id pubKey : Bytes} {r : EventRow} {n : Nat}

/-- Nothing stored refuses the event, its hash is new, and every statement takes it. -/
structure Accepts (server : Server) (db : Db) (e : Event) (id pubKey : Bytes) : Prop where
  not_shadowed : shadowed db e = .ok false
  decode_id : Hex.decode e.id = some id
  decode_pubkey : Hex.decode e.pubkey = some pubKey
  id_new : id ∉ db.events.map EventRow.id
  storable : Storable server e

/-- The result of a write that goes through. -/
def accepted (server : Server) (db : Db) (e : Event) (id pubKey : Bytes)
    (hnew : id ∉ db.events.map EventRow.id) : Nat × Db :=
  settled (cleaned server (insertedNew db e id pubKey hnew) e pubKey) e (newRow e id pubKey)

/-! ## The cases of a write

A write is a chain of statements, each of which may refuse. Everything below looks at a write
through this one inversion, so the chain is unfolded here only. -/

theorem writeEvent_of_accepts (h : Accepts server db e id pubKey) :
    writeEvent server db e = .ok (accepted server db e id pubKey h.id_new) := by
  have hrow := (eventRow_eq_ok h.decode_id h.decode_pubkey).mpr
    ⟨rfl, h.storable.createdAt, h.storable.expiresAt, h.storable.kind⟩
  have hnew : (newRow e id pubKey).id ∉ db.events.map EventRow.id := h.id_new
  have href : (tagRows (newRow e id pubKey).id e).findSome? (refusal server) = none :=
    List.findSome?_eq_none_iff.mpr (h.storable.tags id h.decode_id)
  simp only [writeEvent, h.not_shadowed, hrow, Outcome.ok_bind, Bool.false_eq_true, if_false]
  rw [dif_neg hnew, href]
  exact applyDeletions_eq_ok.mpr ⟨rfl, h.storable.deletion⟩

theorem newRow_mem (hnew : id ∉ db.events.map EventRow.id) :
    newRow e id pubKey ∈ (insertedNew db e id pubKey hnew).events :=
  (mem_insertedNew hnew).mpr (.inr rfl)

theorem eventRow_pubKey {row : EventRow} (h : eventRow e = .ok row) :
    Hex.decode e.pubkey = some row.pubKey := by
  obtain ⟨t, -, h⟩ := Outcome.bind_eq_ok h
  obtain ⟨o, -, h⟩ := Outcome.bind_eq_ok h
  obtain ⟨k, -, h⟩ := Outcome.bind_eq_ok h
  split at h
  · rename_i hpk
    cases h
    exact hpk
  · cases h

/-- **The cases of a write**: it fails, it finds nothing new, or it accepts the event. -/
theorem writeEvent_cases (server : Server) (db : Db) (e : Event) :
    (∀ res, writeEvent server db e ≠ .ok res) ∨ writeEvent server db e = .ok (0, db) ∨
      ∃ id pubKey, ∃ h : Accepts server db e id pubKey,
        writeEvent server db e = .ok (accepted server db e id pubKey h.id_new) := by
  by_cases hok : ∃ res, writeEvent server db e = .ok res
  · refine .inr ?_
    obtain ⟨res, hw⟩ := hok
    obtain ⟨shadow, hshadow, htail⟩ := Outcome.bind_eq_ok hw
    split_ifs at htail with hs
    · cases htail
      exact .inl hw
    · obtain ⟨row, hrow, htail⟩ := Outcome.bind_eq_ok htail
      have hid := eventRow_id hrow
      have hpk := eventRow_pubKey hrow
      obtain ⟨hrow', hcreated, hexpires, hkind⟩ := (eventRow_eq_ok hid hpk).mp hrow
      split_ifs at htail with hnew
      · cases htail
        exact .inl hw
      · split at htail
        · cases htail
        · rename_i href
          rw [List.findSome?_eq_none_iff] at href
          have hacc : Accepts server db e row.id row.pubKey :=
            { not_shadowed := by
                obtain rfl : shadow = false := by simpa using hs
                exact hshadow
              decode_id := hid
              decode_pubkey := hpk
              id_new := hnew
              storable := ⟨hcreated, hexpires, hkind, fun id' hid' => by
                obtain rfl : row.id = id' := Option.some.inj (hid.symm.trans hid')
                exact href, (applyDeletions_eq_ok.mp htail).2⟩ }
          exact .inr ⟨_, _, hacc, writeEvent_of_accepts hacc⟩
  · exact .inl fun res h => hok ⟨res, h⟩

/-- The database after a write: unchanged, or that of an accepted event. -/
theorem write_cases (server : Server) (db : Db) (e : Event) :
    write server db e = db ∨ ∃ id pubKey, ∃ h : Accepts server db e id pubKey,
      write server db e = (accepted server db e id pubKey h.id_new).2 := by
  rcases writeEvent_cases server db e with hno | hsame | ⟨id, pubKey, hacc, hok⟩
  · refine .inl ?_
    rw [write]
    split
    · rename_i h
      exact absurd h (hno _)
    · rfl
  · exact .inl (by rw [write, hsame])
  · exact .inr ⟨id, pubKey, hacc, by rw [write, hok]⟩

/-- An accepted event changes the tables as it says. -/
theorem write_of_accepts (h : Accepts server db e id pubKey) :
    write server db e = (accepted server db e id pubKey h.id_new).2 := by
  rw [write, writeEvent_of_accepts h]

/-- A storable event that nothing shadows is accepted, or its hash is stored. -/
theorem accepts_or_stored (hs : shadowed db e = .ok false) (hst : Storable server e)
    (hid : Hex.decode e.id = some id) (hpk : Hex.decode e.pubkey = some pubKey) :
    Accepts server db e id pubKey ∨ ∃ r ∈ db.events, r.id = id := by
  by_cases hnew : id ∈ db.events.map EventRow.id
  · exact .inr (List.mem_map.mp hnew)
  · exact .inl ⟨hs, hid, hpk, hnew, hst⟩

/-! ## The sweep -/

theorem Db.eq_of_id_eq (db : Db) {r s : EventRow} (hr : r ∈ db.events) (hs : s ∈ db.events)
    (h : r.id = s.id) : r = s :=
  List.inj_on_of_nodup_map db.id_nodup hr hs h

@[simp] theorem Db.mem_deleteEvents {p : EventRow → Bool} :
    r ∈ (db.deleteEvents p).events ↔ r ∈ db.events ∧ p r = false := by
  rw [Db.deleteEvents, List.mem_filter, Bool.not_eq_true']

/-- A tag row stays with its event. -/
theorem Db.mem_deleteEvents_tags {p : EventRow → Bool} (hr : r ∈ db.events) (hp : p r = false)
    {t : TagRow} (ht : t.eventId = r.id) : t ∈ (db.deleteEvents p).tags ↔ t ∈ db.tags := by
  rw [Db.deleteEvents, List.mem_filter]
  refine and_iff_left (List.any_eq_true.mpr ⟨r, hr, ?_⟩)
  rw [hp, ht, beq_self_eq_true, Bool.not_false, Bool.and_self]

/-- A delete that takes nothing. -/
theorem Db.deleteEvents_eq_self {p : EventRow → Bool} (h : ∀ r ∈ db.events, p r = false) :
    db.deleteEvents p = db := by
  have hevents : (db.deleteEvents p).events = db.events :=
    List.filter_eq_self.mpr fun r hr => by rw [h r hr, Bool.not_false]
  have htags : (db.deleteEvents p).tags = db.tags := by
    refine List.filter_eq_self.mpr fun t ht => ?_
    obtain ⟨r, hr, hid⟩ := db.tag_fk t ht
    exact List.any_eq_true.mpr ⟨r, hr, by rw [h r hr, hid, beq_self_eq_true]; rfl⟩
  cases db
  simp only [Db.deleteEvents] at hevents htags ⊢
  congr

/-- The rows the clean-up after `e` deletes. -/
def swept (server : Server) (db : Db) (e : Event) (pubKey : Bytes) (r : EventRow) : Bool :=
  r.kind == asI64 e.kind && r.pubKey == pubKey &&
    ((e.isReplaceable &&
      !(((Sql.orderByDesc server.toEngine EventRow.createdAt (db.events.filter fun r =>
        r.kind == asI64 e.kind && r.pubKey == pubKey)).take 1).map EventRow.id).contains r.id) ||
    match e.distinctParam with
    | some d => (((Sql.orderByDesc server.toEngine
        (fun rt : EventRow × Option TagRow => rt.1.createdAt)
        (paramRows db (some pubKey) (asI64 e.kind) d)).drop 1).map fun rt => rt.1.id).contains r.id
    | none => false)

/-- Both clean-ups are one delete. -/
theorem cleaned_eq :
    cleaned server db e pubKey = db.deleteEvents (swept server db e pubKey) := by
  unfold cleaned swept
  by_cases hr : e.isReplaceable = true
  · rw [Sqlite.distinctParam_of_isReplaceable hr]
    simp only [hr, if_true, Bool.true_and, Bool.or_false]
    rfl
  · simp only [hr, if_false, Bool.false_and, Bool.false_or, Bool.false_eq_true]
    rcases hd : e.distinctParam with _ | d
    · exact (Db.deleteEvents_eq_self fun r _ => by simp only [Bool.and_false]).symm
    · rfl

theorem mem_cleaned :
    r ∈ (cleaned server db e pubKey).events ↔
      r ∈ db.events ∧ swept server db e pubKey r = false := by
  rw [cleaned_eq, Db.mem_deleteEvents]

/-- Only rows of the event's own kind and author are swept, and only when that kind is
replaceable or parameterized replaceable. -/
theorem swept_le (h : swept server db e pubKey r = true) :
    r.kind = asI64 e.kind ∧ r.pubKey = pubKey ∧
      (e.isReplaceable = true ∨ e.isParamReplaceable = true) := by
  rw [swept] at h
  simp only [Bool.and_eq_true, beq_iff_eq, Bool.or_eq_true] at h
  refine ⟨h.1.1, h.1.2, h.2.imp And.left fun h2 => ?_⟩
  rcases hd : e.distinctParam with _ | d
  · rw [hd] at h2
    cases h2
  · exact Sqlite.isParamReplaceable_of_distinctParam hd

/-- Kinds that are cast to themselves. -/
theorem asI64_of_lt {k : Nat} (h : k < 2 ^ 63) : asI64 k = k := by
  have hmod : k % 2 ^ 64 = k := Nat.mod_eq_of_lt (by omega)
  simp only [asI64, hmod, if_pos h]

/-- Two `u64` with one cast are the same. -/
theorem asI64_inj {n k : Nat} (hn : n < 2 ^ 64) (hk : k < 2 ^ 64) :
    asI64 n = asI64 k ↔ n = k := by
  refine ⟨fun h => ?_, fun h => h ▸ rfl⟩
  have hn' : n % 2 ^ 64 = n := Nat.mod_eq_of_lt hn
  have hk' : k % 2 ^ 64 = k := Nat.mod_eq_of_lt hk
  simp only [asI64, hn', hk'] at h
  split_ifs at h <;> omega

/-- A number that fits is told by its cast. -/
theorem asI64_eq_iff {n k : Nat} (hn : n < 2 ^ 64) (hk : k < 2 ^ 63) : asI64 n = k ↔ n = k := by
  rw [← asI64_of_lt hk, asI64_inj hn (by omega)]

theorem kind_lt_of_replaceable (h : e.isReplaceable = true ∨ e.isParamReplaceable = true) :
    e.kind < 2 ^ 63 := by
  rw [Event.isReplaceable_iff, Event.isParamReplaceable_iff] at h
  omega

/-- Before a replaceable event is accepted, every stored row of its kind and author is older. -/
theorem createdAt_lt_of_not_shadowed (hs : shadowed db e = .ok false)
    (hpk : Hex.decode e.pubkey = some pubKey) (hrep : e.isReplaceable = true) (hr : r ∈ db.events)
    (hk : r.kind = asI64 e.kind) (ha : r.pubKey = pubKey) : r.createdAt < asI64 e.createdAt := by
  simp only [shadowed, hrep, if_true] at hs
  obtain ⟨t, ht, hs⟩ := Outcome.bind_eq_ok hs
  obtain rfl := timestampOpt_eq_some (createdAtParam_eq_ok.mp ht).1
  obtain ⟨newer, hnewer, hs⟩ := Outcome.bind_eq_ok hs
  cases hnewer
  split_ifs at hs with hempty
  · cases hs
  · rw [Bool.not_eq_true, Bool.not_eq_false', List.isEmpty_iff, newerReplaceable, hpk] at hempty
    have hnot := List.filter_eq_nil_iff.mp hempty r hr
    simpa [hk, ha] using hnot

/-- A replaceable event that is newer than every stored row of its kind and author, and whose
time can be bound, is not refused. -/
theorem not_shadowed_of_newer (hst : Storable server e) (hrep : e.isReplaceable = true)
    (hpk : Hex.decode e.pubkey = some pubKey)
    (h : ∀ r ∈ db.events, r.pubKey = pubKey → r.kind = asI64 e.kind →
      r.createdAt < asI64 e.createdAt) : shadowed db e = .ok false := by
  obtain ⟨t, ht, hmin⟩ := hst.createdAt
  obtain rfl := timestampOpt_eq_some ht
  have hnone : newerReplaceable db (some pubKey) (asI64 e.kind) (asI64 e.createdAt) = [] := by
    rw [newerReplaceable, List.filter_eq_nil_iff]
    intro r hr heq
    simp only [Bool.and_eq_true, beq_iff_eq, Option.some.injEq, decide_eq_true_eq] at heq
    exact absurd (h r hr heq.1.1 heq.1.2) (not_lt.mpr heq.2)
  simp only [shadowed, hrep, if_true, createdAtParam_eq_ok.mpr ⟨ht, hmin⟩, Outcome.ok_bind, hpk,
    hnone, Sqlite.distinctParam_of_isReplaceable hrep]
  rfl

/-- For a replaceable kind the sweep takes every older row and nothing else. -/
theorem swept_replaceable (h : Accepts server db e id pubKey) (hrep : e.isReplaceable = true)
    (hr : r ∈ (insertedNew db e id pubKey h.id_new).events) :
    swept server (insertedNew db e id pubKey h.id_new) e pubKey r = true ↔
      r ≠ newRow e id pubKey ∧ r.kind = asI64 e.kind ∧ r.pubKey = pubKey := by
  have htop : (Sql.orderByDesc server.toEngine EventRow.createdAt
      ((insertedNew db e id pubKey h.id_new).events.filter fun r =>
        r.kind == asI64 e.kind && r.pubKey == pubKey)).take 1 = [newRow e id pubKey] := by
    refine Sql.take_one_eq ?_ ?_
    · rw [List.mem_filter]
      exact ⟨(mem_insertedNew h.id_new).mpr (.inr rfl), by simp⟩
    · intro z hz hne
      rw [List.mem_filter] at hz
      simp only [Bool.and_eq_true, beq_iff_eq] at hz
      exact createdAt_lt_of_not_shadowed h.not_shadowed h.decode_pubkey hrep
        (((mem_insertedNew h.id_new).mp hz.1).resolve_right hne) hz.2.1 hz.2.2
  rw [swept, Sqlite.distinctParam_of_isReplaceable hrep, htop]
  simp only [hrep, Bool.true_and, Bool.or_false, Bool.and_eq_true, beq_iff_eq, List.map_cons,
    List.map_nil, Bool.not_eq_true', List.contains_eq_mem, List.mem_singleton,
    decide_eq_false_iff_not]
  refine ⟨?_, ?_⟩
  · rintro ⟨⟨hk, ha⟩, hid⟩
    exact ⟨fun hn => hid (by rw [hn]), hk, ha⟩
  · rintro ⟨hne, hk, ha⟩
    refine ⟨⟨hk, ha⟩, fun hid => hne ?_⟩
    exact Db.eq_of_id_eq _ hr ((mem_insertedNew h.id_new).mpr (.inr rfl)) hid

/-! ## The rows after an accepted write -/

/-- What the end of the transaction hides. -/
def hides (db : Db) (e : Event) (row r : EventRow) : Bool :=
  if e.kind = 5 then deletionTarget row.pubKey (deletionIds e) r
  else e.kind != 1059 && deletionRecorded db row.pubKey row.id && r.id == row.id

theorem Db.mem_hideEvents_none {p : EventRow → Bool} (h : ∀ r ∈ db.events, p r = false) :
    r ∈ db.events ↔ ∃ s ∈ db.events, Db.hideRow p s = r := by
  refine ⟨fun hr => ⟨r, hr, by rw [Db.hideRow, h r hr]; rfl⟩, ?_⟩
  rintro ⟨s, hs, rfl⟩
  rwa [Db.hideRow, h s hs, if_neg Bool.false_ne_true]

theorem mem_settled {row : EventRow} :
    r ∈ (settled db e row).2.events ↔ ∃ s ∈ db.events, Db.hideRow (hides db e row) s = r := by
  rw [settled]
  by_cases h5 : e.kind = 5
  · have hh : hides db e row = deletionTarget row.pubKey (deletionIds e) := by
      funext r
      rw [hides, if_pos h5]
    rw [if_pos h5, hh, Db.mem_hideEvents]
  · by_cases hrec : e.kind ≠ 1059 ∧ deletionRecorded db row.pubKey row.id = true
    · have hh : hides db e row = fun r => r.id == row.id := by
        funext r
        simp [hides, h5, hrec.1, hrec.2]
      rw [if_neg h5, if_pos hrec, hh, Db.mem_hideEvents]
    · rw [if_neg h5, if_neg hrec]
      refine Db.mem_hideEvents_none fun r _ => ?_
      rw [hides, if_neg h5]
      by_cases hk : e.kind = 1059
      · simp [hk]
      · simp [not_and.mp hrec hk]

theorem settled_tags (row : EventRow) : (settled db e row).2.tags = db.tags := by
  rw [settled]
  split_ifs <;> rfl

/-- Every row after an accepted write is a stored row or the new one, not swept, with its hidden
flag possibly set. -/
theorem mem_accepted (h : Accepts server db e id pubKey) :
    r ∈ (accepted server db e id pubKey h.id_new).2.events ↔
      ∃ s, (s ∈ db.events ∨ s = newRow e id pubKey) ∧
        swept server (insertedNew db e id pubKey h.id_new) e pubKey s = false ∧
        Db.hideRow (hides (cleaned server (insertedNew db e id pubKey h.id_new) e pubKey) e
          (newRow e id pubKey)) s = r := by
  simp only [accepted, mem_settled, mem_cleaned, mem_insertedNew h.id_new, and_assoc]

/-! ## What a write leaves alone

A stored row is swept away by an event of its own author and kind, or hidden by a deletion of its
own author. So the rows of others are as they were. -/

/-- **The ways a stored row changes**: swept away by an event of its author and kind, or hidden
by a deletion of its author. -/
theorem changed_cases (hr : r ∈ db.events) (hch : r ∉ (write server db e).events) :
    Hex.decode e.pubkey = some r.pubKey ∧
      ((r.kind = asI64 e.kind ∧ (e.isReplaceable = true ∨ e.isParamReplaceable = true)) ∨
        (e.kind = 5 ∧ r.kind ≠ 5 ∧ r.kind ≠ 1059 ∧ r.id ∈ deletionIds e ∧
          { r with hidden := true } ∈ (write server db e).events)) := by
  rcases write_cases server db e with hw | ⟨id, pubKey, hacc, hw⟩
  · exact absurd (hw.symm ▸ hr) hch
  rw [hw] at hch ⊢
  by_cases hs : swept server (insertedNew db e id pubKey hacc.id_new) e pubKey r = true
  · obtain ⟨hk, ha, hrep⟩ := swept_le hs
    exact ⟨by rw [hacc.decode_pubkey, ha], .inl ⟨hk, hrep⟩⟩
  · have hin := (mem_accepted hacc).mpr ⟨r, .inl hr, by simpa using hs, rfl⟩
    -- the row is still there, so its flag was set
    have hhid : hides (cleaned server (insertedNew db e id pubKey hacc.id_new) e pubKey) e
        (newRow e id pubKey) r = true := by
      by_contra hno
      rw [Db.hideRow, if_neg hno] at hin
      exact hch hin
    rw [Db.hideRow, if_pos hhid] at hin
    rw [hides] at hhid
    split_ifs at hhid with h5
    · simp only [deletionTarget, newRow_pubKey, Bool.and_eq_true, bne_iff_ne, beq_iff_eq,
        List.contains_iff_mem] at hhid
      obtain ⟨⟨⟨h5', h1059⟩, ha⟩, hnamed⟩ := hhid
      exact ⟨by rw [hacc.decode_pubkey, ha], .inr ⟨h5, h5', h1059, hnamed, hin⟩⟩
    · simp only [newRow_id, Bool.and_eq_true, beq_iff_eq] at hhid
      exact absurd (List.mem_map.mpr ⟨r, hr, hhid.2⟩) hacc.id_new

/-- Deletion events and gift wraps stay as they are under every write. -/
theorem mem_write_of_kind (hr : r ∈ db.events) (hk : r.kind = 5 ∨ r.kind = 1059) :
    r ∈ (write server db e).events := by
  by_contra hch
  obtain ⟨-, ⟨hke, hrep⟩ | ⟨-, h5, h1059, -⟩⟩ := changed_cases hr hch
  · rw [asI64_of_lt (kind_lt_of_replaceable hrep)] at hke
    exact Sqlite.not_replaceable_of_kind (by omega) hrep
  · rcases hk with hk | hk
    · exact h5 hk
    · exact h1059 hk

/-- **Author isolation of writes.** A row that a write deletes, hides or changes in any way has
the author of the event, and its kind too unless the event is a deletion. A deletion removes no
row, hides only rows it names, and leaves rows of kind 5 and 1059 alone. -/
theorem write_keeps_others (server : Server) (db : Db) (e : Event) :
    (∀ r ∈ db.events, r ∉ (write server db e).events →
      Hex.decode e.pubkey = some r.pubKey ∧ (e.kind ≠ 5 → r.kind = asI64 e.kind)) ∧
    (e.kind = 5 →
      (∀ r ∈ db.events, r.kind = 5 ∨ r.kind = 1059 ∨ r.id ∉ deletionIds e →
        r ∈ (write server db e).events) ∧
      ∀ r ∈ db.events, ∃ r' ∈ (write server db e).events, r'.id = r.id) := by
  refine ⟨fun r hr hch => ?_, fun h5 => ⟨fun r hr hk => ?_, fun r hr => ?_⟩⟩
  · obtain ⟨ha, ⟨hk, -⟩ | ⟨h5, -⟩⟩ := changed_cases hr hch
    · exact ⟨ha, fun _ => hk⟩
    · exact ⟨ha, fun hne => absurd h5 hne⟩
  · by_contra hch
    rcases changed_cases hr hch with ⟨-, ⟨-, hrep⟩ | ⟨-, hk5, hk1059, hnamed, -⟩⟩
    · exact Sqlite.not_replaceable_of_kind (.inl h5) hrep
    · rcases hk with hk | hk | hk
      · exact hk5 hk
      · exact hk1059 hk
      · exact hk hnamed
  · by_cases hch : r ∈ (write server db e).events
    · exact ⟨r, hch, rfl⟩
    · obtain ⟨-, ⟨-, hrep⟩ | ⟨-, -, -, -, hin⟩⟩ := changed_cases hr hch
      · exact absurd hrep (Sqlite.not_replaceable_of_kind (.inl h5))
      · exact ⟨_, hin, rfl⟩

end Floonet.Postgres
