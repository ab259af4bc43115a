import Floonet.Sqlite.Ack
import Floonet.Postgres.Run
import Floonet.Postgres.Values

/-!
# What an acknowledgement means on Postgres

The statements that clean up after a parameterized replaceable event join `event` with `tag`
here as well, and the unique constraint does not keep a repeated `d` tag out, because one of the
two value columns is `NULL`. So an event that repeats its `d` tag takes the place that
`OFFSET 1` skips with one of its rows and is deleted by the other (`swept_new_iff`). Every other
acknowledged event is stored, visible and with its tags (`acknowledged_iff`).
-/

namespace Floonet.Postgres

open Hex (Bytes)
open Sqlite (coordinateTags)

variable {server : Server} {db : Db} {e : Event} {id pubKey : Bytes} {r : EventRow} {d : String}

/-- What the caller takes the result of `writeEvent` for. -/
def Acknowledges (server : Server) (db : Db) (e : Event) : Prop :=
  ∀ n db', writeEvent server db e = .ok (n, db') →
    (1 ≤ n → ∃ r ∈ db'.events, Hex.decode e.id = some r.id ∧ r.hidden = false ∧
      ∀ nv ∈ e.searchableTags, tagRow r.id nv ∈ db'.tags) ∧
    (n = 0 → ∀ r ∈ db'.events, r.hidden = false → r ∈ db.events)

/-- The event is new to the store, nothing refuses it, and no deletion of it is recorded. -/
def ArrivesVisible (db : Db) (e : Event) : Prop :=
  shadowed db e = .ok false ∧ ∃ id pubKey, Hex.decode e.id = some id ∧
    Hex.decode e.pubkey = some pubKey ∧ id ∉ db.events.map EventRow.id ∧
    deletionRecorded db pubKey id = false

/-! ## The join with the `d` tags

The lookup of a coordinate joins every `d` tag of a row, also those that are not the first. An
event with a second such tag is joined with itself, and the clean-up after it takes the new row as
well. -/

/-- The rows the lookup of a coordinate finds. -/
theorem mem_paramRows {kind : Int} {rt : EventRow × Option TagRow} :
    rt ∈ paramRows db (some pubKey) kind d ↔
      ∃ r ∈ db.events, r.pubKey = pubKey ∧ r.kind = kind ∧
        ∃ t ∈ db.tagsOf r.id, dTagIs d t = true ∧ rt = (r, some t) := by
  have hjoin := Sql.filter_leftJoin (fun (r : EventRow) (t : TagRow) => r.id == t.eventId)
    (fun r t => some r.pubKey == some pubKey && r.kind == kind && dTagIs d t) db.events db.tags
  rw [paramRows, hjoin]
  simp only [List.mem_flatMap, List.mem_map, List.mem_filter, Db.tagsOf, Bool.and_eq_true,
    beq_iff_eq, Option.some.injEq]
  refine ⟨?_, ?_⟩
  · rintro ⟨r, hr, t, ⟨ht, ⟨⟨ha, hk⟩, hd⟩, hid⟩, rfl⟩
    exact ⟨r, hr, ha, hk, t, ⟨ht, hid.symm⟩, hd, rfl⟩
  · rintro ⟨r, hr, ha, hk, t, ⟨ht, hid⟩, hd, rfl⟩
    exact ⟨r, hr, t, ⟨ht, ⟨⟨ha, hk⟩, hd⟩, hid.symm⟩, rfl⟩

theorem isReplaceable_of_distinctParam (hd : e.distinctParam = some d) :
    e.isReplaceable = false := by
  by_contra h
  rw [Sqlite.distinctParam_of_isReplaceable (by simpa using h)] at hd
  cases hd

/-- Of the rows joined for the coordinate of an accepted event, only older ones were stored. -/
theorem createdAt_lt_of_mem_paramRows (hs : shadowed db e = .ok false)
    (hpk : Hex.decode e.pubkey = some pubKey) (hd : e.distinctParam = some d)
    {rt : EventRow × Option TagRow} (hrt : rt ∈ paramRows db (some pubKey) (asI64 e.kind) d) :
    rt.1.createdAt < asI64 e.createdAt := by
  simp only [shadowed, isReplaceable_of_distinctParam hd, hd, hpk, Bool.false_eq_true, if_false]
    at hs
  obtain ⟨newer, hnewer, hs⟩ := Outcome.bind_eq_ok hs
  cases hnewer
  obtain ⟨t, ht, hs⟩ := Outcome.bind_eq_ok hs
  obtain rfl := timestampOpt_eq_some (createdAtParam_eq_ok.mp ht).1
  have hnone := Outcome.ok.inj hs
  rw [Bool.not_eq_false', List.isEmpty_iff, List.filter_eq_nil_iff] at hnone
  simpa using hnone rt hrt

/-- A parameterized replaceable kind is not stored as that of deletions. -/
theorem ne_five_of_param (hparam : e.isParamReplaceable = true) : asI64 e.kind ≠ 5 := by
  have hkind := Event.isParamReplaceable_iff.mp hparam
  rw [asI64_of_lt (kind_lt_of_replaceable (.inr hparam))]
  omega

section Insert

variable (hacc : Accepts server db e id pubKey)

include hacc

/-- How often the new event is joined. -/
theorem countP_paramRows_new (d : String) :
    (paramRows (insertedNew db e id pubKey hacc.id_new) (some pubKey) (asI64 e.kind) d).countP
      (fun rt => rt.1.id == id) = e.searchableTags.count ("d", d) := by
  have hjoin := Sql.filter_leftJoin (fun (r : EventRow) (t : TagRow) => r.id == t.eventId)
    (fun r t => some r.pubKey == some pubKey && r.kind == asI64 e.kind && dTagIs d t)
    (insertedNew db e id pubKey hacc.id_new).events (insertedNew db e id pubKey hacc.id_new).tags
  rw [paramRows, hjoin, insertedNew_events, List.flatMap_append, List.countP_append]
  have hold : ∀ p : EventRow → TagRow → Bool, (db.events.flatMap fun r =>
      ((insertedNew db e id pubKey hacc.id_new).tags.filter (p r)).map fun t =>
        (r, some t)).countP (fun rt => rt.1.id == id) = 0 := by
    intro p
    rw [List.countP_eq_zero]
    intro rt hrt
    obtain ⟨r, hr, hrt⟩ := List.mem_flatMap.mp hrt
    obtain ⟨t, -, rfl⟩ := List.mem_map.mp hrt
    simpa using fun heq => hacc.id_new (List.mem_map.mpr ⟨r, hr, heq⟩)
  have hall : ((fun rt : EventRow × Option TagRow => rt.1.id == id) ∘
      fun t => (newRow e id pubKey, some t)) = fun _ => true := by
    funext t
    simp
  rw [hold, Nat.zero_add, List.flatMap_cons, List.flatMap_nil, List.append_nil, List.countP_map,
    hall, List.countP_true, ← List.countP_eq_length_filter]
  -- the join goes over the tag rows of the event itself
  have hself : (insertedNew db e id pubKey hacc.id_new).tags.countP (fun t =>
      (some (newRow e id pubKey).pubKey == some pubKey &&
        (newRow e id pubKey).kind == asI64 e.kind && dTagIs d t) &&
          (newRow e id pubKey).id == t.eventId) = (tagRows id e).countP (dTagIs d) := by
    have htags : (insertedNew db e id pubKey hacc.id_new).tagsOf id = tagRows id e :=
      tagsOf_insertedNew hacc.id_new
    rw [← htags, Db.tagsOf, List.countP_filter]
    refine List.countP_congr fun t _ => ?_
    simp [eq_comm (a := id)]
  rw [hself, tagRows, List.countP_map]
  refine List.countP_congr fun nv _ => ?_
  rw [Function.comp_apply, dTagIs_tagRow, beq_iff_eq, Prod.ext_iff]

/-- A stored row is joined with an earlier time than the new event. -/
theorem createdAt_lt_of_join (hd : e.distinctParam = some d) {rt : EventRow × Option TagRow}
    (hrt : rt ∈ paramRows (insertedNew db e id pubKey hacc.id_new) (some pubKey)
      (asI64 e.kind) d) (hne : rt.1.id ≠ id) : rt.1.createdAt < asI64 e.createdAt := by
  obtain ⟨r, hr, ha, hk, t, ht, hdt, rfl⟩ := mem_paramRows.mp hrt
  rcases (mem_insertedNew hacc.id_new).mp hr with hr | rfl
  · rw [tagsOf_insertedNew_of_mem hacc.id_new hr] at ht
    exact createdAt_lt_of_mem_paramRows hacc.not_shadowed hacc.decode_pubkey hd
      (mem_paramRows.mpr ⟨r, hr, ha, hk, t, ht, hdt, rfl⟩)
  · exact absurd rfl hne

/-- **The new event sweeps itself away** exactly when it repeats its coordinate. -/
theorem swept_new_iff :
    swept server (insertedNew db e id pubKey hacc.id_new) e pubKey (newRow e id pubKey) = true ↔
      2 ≤ coordinateTags e := by
  rcases hd : e.distinctParam with _ | d
  · simp only [coordinateTags, hd, Nat.le_zero_eq, OfNat.ofNat_ne_zero, iff_false]
    intro hs
    rcases (swept_le hs).2.2 with hr | hp
    · exact ((swept_replaceable hacc hr (newRow_mem hacc.id_new)).mp hs).1 rfl
    · obtain ⟨d, hd'⟩ := Sqlite.exists_distinctParam hp
      rw [hd] at hd'
      cases hd'
  · simp only [coordinateTags, hd, swept, isReplaceable_of_distinctParam hd, newRow_kind,
      newRow_pubKey, newRow_id, beq_self_eq_true, Bool.true_and, Bool.false_and, Bool.false_or,
      List.contains_iff_mem, List.mem_map]
    have hcount := countP_paramRows_new hacc d
    by_cases hzero : e.searchableTags.count ("d", d) = 0
    · rw [hzero, List.countP_eq_zero] at hcount
      refine iff_of_false ?_ (by omega)
      rintro ⟨rt, hrt, hid⟩
      exact hcount rt (Sql.mem_of_mem_drop_one hrt) (beq_iff_eq.mpr hid)
    · obtain ⟨rt, hrt, hrtid⟩ := List.countP_pos_iff.mp
        (show 0 < _ by rw [hcount]; exact Nat.pos_of_ne_zero hzero)
      have hown : rt.1.createdAt = asI64 e.createdAt := by
        obtain ⟨r, hr, -, -, t, -, -, rfl⟩ := mem_paramRows.mp hrt
        rw [Db.eq_of_id_eq _ hr (newRow_mem hacc.id_new) (beq_iff_eq.mp hrtid)]
        rfl
      have hdrop := Sql.countP_drop_one server.toEngine
        (fun rt : EventRow × Option TagRow => rt.1.createdAt)
        (p := fun rt => rt.1.id == id) hrt fun z hz hp => by
          rw [hown]
          exact createdAt_lt_of_join hacc hd hz (by simpa using hp)
      rw [hcount] at hdrop
      rw [← hdrop, Nat.succ_le_succ_iff, Nat.succ_le_iff, List.countP_pos_iff]
      simp only [beq_iff_eq]

/-! ## The new row -/

/-- The new event has a row after an accepted write unless it swept itself. -/
theorem mem_accepted_id :
    r ∈ (accepted server db e id pubKey hacc.id_new).2.events ∧ r.id = id ↔
      coordinateTags e < 2 ∧
        r = Db.hideRow (hides (cleaned server (insertedNew db e id pubKey hacc.id_new) e pubKey) e
          (newRow e id pubKey)) (newRow e id pubKey) := by
  rw [mem_accepted hacc, ← not_le, ← swept_new_iff hacc, Bool.not_eq_true]
  refine ⟨?_, ?_⟩
  · rintro ⟨⟨s, hs, hsw, rfl⟩, hid⟩
    rw [Db.hideRow_id] at hid
    rcases hs with hs | rfl
    · exact absurd (List.mem_map.mpr ⟨s, hs, hid⟩) hacc.id_new
    · exact ⟨hsw, rfl⟩
  · rintro ⟨hsw, rfl⟩
    exact ⟨⟨_, .inr rfl, hsw, rfl⟩, by rw [Db.hideRow_id, newRow_id]⟩

/-- A deletion of the event is found at the end of its own transaction. -/
structure DeletedOnArrival (server : Server) (db : Db) (e : Event) (id pubKey : Bytes)
    (hnew : id ∉ db.events.map EventRow.id) : Prop where
  ne_deletion : e.kind ≠ 5
  ne_wrap : e.kind ≠ 1059
  recorded :
    deletionRecorded (cleaned server (insertedNew db e id pubKey hnew) e pubKey) pubKey id = true

/-- The new row is hidden exactly when nothing is reported. -/
theorem accepted_fst :
    (DeletedOnArrival server db e id pubKey hacc.id_new ∧
      (accepted server db e id pubKey hacc.id_new).1 = 0) ∨
    (¬ DeletedOnArrival server db e id pubKey hacc.id_new ∧
      (accepted server db e id pubKey hacc.id_new).1 = 1 ∧
      hides (cleaned server (insertedNew db e id pubKey hacc.id_new) e pubKey) e
        (newRow e id pubKey) (newRow e id pubKey) = false) := by
  rw [accepted, settled, hides]
  by_cases h5 : e.kind = 5
  · have hk : asI64 e.kind = 5 := by rw [h5]; rfl
    refine .inr ⟨fun h => h.ne_deletion h5, ?_, ?_⟩
    · rw [if_pos h5]
    · rw [if_pos h5, deletionTarget, newRow_kind, hk]
      rfl
  · rw [if_neg h5, if_neg h5]
    by_cases hdel : e.kind ≠ 1059 ∧
        deletionRecorded (cleaned server (insertedNew db e id pubKey hacc.id_new) e pubKey)
          (newRow e id pubKey).pubKey (newRow e id pubKey).id = true
    · rw [if_pos hdel]
      exact .inl ⟨⟨h5, hdel.1, hdel.2⟩, rfl⟩
    · rw [if_neg hdel]
      refine .inr ⟨fun h => hdel ⟨h.ne_wrap, h.recorded⟩, rfl, ?_⟩
      rw [not_and_or, not_not, Bool.not_eq_true] at hdel
      rcases hdel with hk | hrec
      · simp [hk]
      · rw [hrec, Bool.and_false, Bool.false_and]

end Insert

/-! ## When an acknowledgement holds

The new row is gone when it sweeps itself, and hidden when a deletion waits for it; the count that
is returned tells only the second case. -/

/-- An event that repeats its coordinate and would arrive visible is acknowledged and lost. -/
theorem not_acknowledges (hst : Storable server e) (hc : 2 ≤ coordinateTags e)
    (hv : ArrivesVisible db e) : ¬ Acknowledges server db e := by
  obtain ⟨hs, id, pubKey, hid, hpk, hnew, hdel⟩ := hv
  have hacc : Accepts server db e id pubKey := ⟨hs, hid, hpk, hnew, hst⟩
  obtain ⟨d, hd⟩ : ∃ d, e.distinctParam = some d := by
    rcases hd : e.distinctParam with _ | d
    · simp [coordinateTags, hd] at hc
    · exact ⟨d, rfl⟩
  have hone : (accepted server db e id pubKey hacc.id_new).1 = 1 := by
    rcases accepted_fst hacc with ⟨⟨-, -, hrec⟩, -⟩ | ⟨-, hone, -⟩
    · rw [deletionRecorded_cleaned hacc (ne_five_of_param
        (Sqlite.isParamReplaceable_of_distinctParam hd)), hdel] at hrec
      cases hrec
    · exact hone
  intro hack
  obtain ⟨r, hr, hrid, -⟩ := (hack _ _ (writeEvent_of_accepts hacc)).1 hone.ge
  have hrid' : r.id = id := Option.some.inj (hrid.symm.trans hid)
  exact absurd hc (not_le.mpr ((mem_accepted_id hacc).mp ⟨hr, hrid'⟩).1)

/-- Every other acknowledgement holds. -/
theorem acknowledges_of (h : ¬ (Storable server e ∧ 2 ≤ coordinateTags e ∧ ArrivesVisible db e)) :
    Acknowledges server db e := by
  intro n db' hret
  rcases writeEvent_cases server db e with hno | hsame | ⟨id, pubKey, hacc, hok⟩
  · exact absurd hret (hno _)
  · rw [hsame] at hret
    cases hret
    exact ⟨fun h1 => absurd h1 (by decide), fun _ r hr _ => hr⟩
  · rw [hok, Outcome.ok.injEq] at hret
    obtain ⟨hn, hdb⟩ := Prod.ext_iff.mp hret
    simp only at hn hdb
    subst hn hdb
    rcases accepted_fst hacc with ⟨hdel, hzero⟩ | ⟨hdel, hone, hhides⟩
    · -- hidden on arrival: whatever is visible was so before
      refine ⟨fun h1 => by omega, fun _ r hr hvis => ?_⟩
      obtain ⟨s, hs, -, rfl⟩ := (mem_accepted hacc).mp hr
      rw [Db.hideRow_hidden, Bool.or_eq_false_iff] at hvis
      rcases hs with hs | rfl
      · rwa [Db.hideRow, hvis.2, if_neg Bool.false_ne_true]
      · have hhid : hides (cleaned server (insertedNew db e id pubKey hacc.id_new) e pubKey) e
            (newRow e id pubKey) (newRow e id pubKey) = true := by
          rw [hides, if_neg hdel.ne_deletion, newRow_pubKey, newRow_id, hdel.recorded]
          simp [hdel.ne_wrap]
        rw [hhid] at hvis
        cases hvis.2
    · refine ⟨fun _ => ?_, fun h0 => by omega⟩
      have hc : coordinateTags e < 2 := by
        by_contra hc
        obtain ⟨d, hd⟩ : ∃ d, e.distinctParam = some d := by
          rcases hd : e.distinctParam with _ | d
          · simp [coordinateTags, hd] at hc
          · exact ⟨d, rfl⟩
        have hparam := Sqlite.isParamReplaceable_of_distinctParam hd
        have hkind := Event.isParamReplaceable_iff.mp hparam
        refine h ⟨hacc.storable, not_lt.mp hc, hacc.not_shadowed, id, pubKey, hacc.decode_id,
          hacc.decode_pubkey, hacc.id_new, ?_⟩
        rw [← deletionRecorded_cleaned hacc (ne_five_of_param hparam)]
        by_contra hrec
        exact hdel ⟨by omega, by omega, by simpa using hrec⟩
      obtain ⟨hr, hrid⟩ := (mem_accepted_id hacc).mpr ⟨hc, rfl⟩
      have hsw : swept server (insertedNew db e id pubKey hacc.id_new) e pubKey
          (newRow e id pubKey) = false := by
        rw [Bool.eq_false_iff, Ne, swept_new_iff hacc]
        omega
      refine ⟨_, hr, hacc.decode_id.trans (congrArg some hrid.symm), ?_, fun nv hnv => ?_⟩
      · rw [Db.hideRow_hidden, hhides]
        rfl
      · have htags := tagsOf_accepted hacc ((mem_insertedNew hacc.id_new).mpr (.inr rfl)) hsw
        rw [newRow_id, tagsOf_insertedNew] at htags
        have hmem : tagRow id nv ∈ (accepted server db e id pubKey hacc.id_new).2.tagsOf id := by
          rw [htags]
          exact List.mem_map_of_mem hnv
        rw [Db.hideRow_id, newRow_id]
        exact (List.mem_filter.mp hmem).1

/-- **When acknowledged means stored.** In every database the result of `writeEvent` can be
trusted, exactly unless the event could be stored, repeats its coordinate in a second `d` tag, is
new, and nothing stored refuses or deletes it. -/
theorem acknowledged_iff (server : Server) (db : Db) (e : Event) :
    Acknowledges server db e ↔
      ¬ (Storable server e ∧ 2 ≤ coordinateTags e ∧ ArrivesVisible db e) :=
  ⟨fun hack h => not_acknowledges h.1 h.2.1 h.2.2 hack, acknowledges_of⟩

end Floonet.Postgres
