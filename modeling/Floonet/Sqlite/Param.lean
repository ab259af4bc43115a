import Mathlib.Algebra.BigOperators.Group.List.Basic
import Floonet.Sqlite.Run

/-!
# Parameterized replacement, read off the tag rows

Both statements about parameterized replaceable kinds join `event` with `tag`, so
what they see of an event is the list of its `d` rows. In a coherent database
that list is the event's own (`mem_paramRows`, `shadowed_param`). From it follows
what the clean-up does to each row: the new event is swept exactly when it
carries its value twice (`swept_new`), and an older row that carries the value is
swept whenever the new event carries it at all (`swept_old`).
-/

namespace Floonet.Sqlite

open Hex (Bytes)

variable {eng : Sql.Engine} {db : Db} {e : Event} {hash author : Bytes} {d : String}

/-- The event has a searchable `d` tag with this value, first or not. -/
def carries (e : Event) (d : String) : Bool := e.searchableTags.contains ("d", d)

theorem carries_iff : carries e d = true ↔ ("d", d) ∈ e.searchableTags := by
  rw [carries, List.contains_iff_mem]

/-! ## The joined rows

The statements for parameterized kinds join the tag rows under `d`. Which rows come out is said by
the tags of the stored events. -/

/-- One joined row for each pair of an event and one of its `d` rows. -/
theorem paramRows_eq (db : Db) (author : Option Bytes) (kind : Nat) (d : String) :
    paramRows db author kind d = db.events.flatMap fun r =>
      ((db.tagsOf r.id).filter fun t => some r.author == author && r.kind == kind &&
        t.name == "d" && t.value == d).map fun t => (r, some t) := by
  refine (Sql.filter_leftJoin (fun (r : EventRow) (t : TagRow) => r.id == t.eventId)
    (fun (r : EventRow) (t : TagRow) => some r.author == author && r.kind == kind &&
      t.name == "d" && t.value == d) _ _).trans ?_
  refine List.flatMap_congr fun r _ => ?_
  rw [Db.tagsOf, List.filter_filter]
  congr 1
  refine List.filter_congr fun t _ => ?_
  rw [Bool.beq_comm (a := r.id)]

/-- The rows that the lookup of a coordinate joins. -/
theorem mem_paramRows {kind : Nat} {rt : EventRow × Option TagRow} :
    rt ∈ paramRows db (some author) kind d ↔
      ∃ r ∈ db.events, r.author = author ∧ r.kind = kind ∧
        ∃ t ∈ db.tagsOf r.id, t.name = "d" ∧ t.value = d ∧ rt = (r, some t) := by
  simp only [paramRows_eq, List.mem_flatMap, List.mem_map, List.mem_filter, Bool.and_eq_true,
    beq_iff_eq, Option.some.injEq]
  refine ⟨?_, ?_⟩
  · rintro ⟨r, hr, t, ⟨ht, ⟨⟨ha, hk⟩, hn⟩, hv⟩, rfl⟩
    exact ⟨r, hr, ha, hk, t, ht, hn, hv, rfl⟩
  · rintro ⟨r, hr, ha, hk, t, ht, hn, hv, rfl⟩
    exact ⟨r, hr, t, ⟨ht, ⟨⟨ha, hk⟩, hn⟩, hv⟩, rfl⟩

/-- The joined rows of a coherent database. -/
theorem mem_paramRows_coherent (hcoh : db.Coherent) {kind : Nat}
    {rt : EventRow × Option TagRow} :
    rt ∈ paramRows db (some author) kind d ↔
      ∃ r ∈ db.events, r.author = author ∧ r.kind = kind ∧ carries r.content d = true ∧
        rt = (r, some (tagRow r.id r.content ("d", d))) := by
  rw [mem_paramRows]
  refine ⟨?_, ?_⟩
  · rintro ⟨r, hr, ha, hk, t, ht, hn, hv, rfl⟩
    obtain ⟨⟨n, v⟩, hnv, rfl⟩ := (mem_tagsOf hcoh hr).mp ht
    obtain ⟨rfl, rfl⟩ : n = "d" ∧ v = d := ⟨hn, hv⟩
    exact ⟨r, hr, ha, hk, carries_iff.mpr hnv, rfl⟩
  · rintro ⟨r, hr, ha, hk, hc, rfl⟩
    exact ⟨r, hr, ha, hk, _, (mem_tagsOf hcoh hr).mpr ⟨_, carries_iff.mp hc, rfl⟩, rfl, rfl, rfl⟩

/-- What the refusing query finds. -/
theorem mem_newerParam (hcoh : db.Coherent) (hfk : fitsI64 e.kind = true)
    (hfc : fitsI64 e.createdAt = true) {rt : EventRow × Option TagRow} :
    rt ∈ newerParam db (some author) e.kind e.createdAt d ↔
      ∃ r ∈ db.events, r.author = author ∧ r.kind = e.kind ∧ carries r.content d = true ∧
        e.createdAt ≤ r.createdAt ∧ rt = (r, some (tagRow r.id r.content ("d", d))) := by
  rw [newerParam, hfk, hfc]
  simp only [Bool.and_self, if_true, List.mem_filter, mem_paramRows_coherent hcoh,
    decide_eq_true_eq]
  refine ⟨?_, ?_⟩
  · rintro ⟨⟨r, hr, ha, hk, hc, rfl⟩, hle⟩
    exact ⟨r, hr, ha, hk, hc, hle, rfl⟩
  · rintro ⟨r, hr, ha, hk, hc, hle, rfl⟩
    exact ⟨⟨r, hr, ha, hk, hc, rfl⟩, hle⟩

/-- A parameterized replaceable event is refused when an event of its author and
kind that carries its value is not older. -/
theorem shadowed_param (hcoh : db.Coherent) (hrep : representable e = true)
    (hpk : Hex.decode e.pubkey = some author) (hd : e.distinctParam = some d) :
    shadowed db e = true ↔
      ∃ r ∈ db.events, r.author = author ∧ r.kind = e.kind ∧ carries r.content d = true ∧
        e.createdAt ≤ r.createdAt := by
  have hnr : e.isReplaceable = false := by
    by_contra h
    rw [distinctParam_of_isReplaceable (by simpa using h)] at hd
    cases hd
  simp only [representable, Bool.and_eq_true] at hrep
  rw [shadowed, hnr, hd, hpk]
  simp only [Bool.false_and, Bool.false_or, Bool.not_eq_true', List.isEmpty_eq_false_iff_exists_mem,
    mem_newerParam hcoh hrep.1.2 hrep.1.1]
  refine ⟨?_, ?_⟩
  · rintro ⟨rt, r, hr, ha, hk, hc, hle, -⟩
    exact ⟨r, hr, ha, hk, hc, hle⟩
  · rintro ⟨r, hr, ha, hk, hc, hle⟩
    exact ⟨_, r, hr, ha, hk, hc, hle, rfl⟩

/-- Of the rows carrying the value of an accepted event, only older ones were
stored. -/
theorem lt_of_carries (hcoh : db.Coherent) (hacc : Accepts db e hash author)
    (hd : e.distinctParam = some d) {r : EventRow} (hr : r ∈ db.events) (ha : r.author = author)
    (hk : r.kind = e.kind) (hc : carries r.content d = true) : r.createdAt < e.createdAt := by
  by_contra hle
  have := (shadowed_param hcoh hacc.representable hacc.decode_pubkey hd).mpr
    ⟨r, hr, ha, hk, hc, not_lt.mp hle⟩
  rw [hacc.not_shadowed] at this
  cases this

/-! ## The clean-up -/

/-- The insert adds one joined row for each time the event carries the value. -/
theorem paramRows_inserted (hacc : Accepts db e hash author) (d : String) :
    paramRows (inserted db e hash author hacc.hash_new) (some author) e.kind d =
      paramRows db (some author) e.kind d ++
        ((tagRows db.nextRowid e).filter fun t => t.name == "d" && t.value == d).map
          fun t => (eventRow db.nextRowid hash author e, some t) := by
  rw [paramRows_eq, paramRows_eq]
  change (db.events ++ [eventRow db.nextRowid hash author e]).flatMap _ = _
  rw [List.flatMap_append]
  congr 1
  · refine List.flatMap_congr fun r hr => ?_
    have hother : (inserted db e hash author hacc.hash_new).tagsOf r.id = db.tagsOf r.id :=
      Db.tagsOf_insert_of_ne (ne_nextRowid hr)
    rw [hother]
  · have hself : (inserted db e hash author hacc.hash_new).tagsOf
        (eventRow db.nextRowid hash author e).id = tagRows db.nextRowid e := Db.tagsOf_insert_self
    rw [List.flatMap_cons, List.flatMap_nil, List.append_nil, hself]
    simp [eventRow]

/-- How often the new event is joined. -/
theorem countP_paramRows_new (hacc : Accepts db e hash author) (d : String) :
    (paramRows (inserted db e hash author hacc.hash_new) (some author) e.kind d).countP
      (fun rt => rt.1.id == db.nextRowid) = e.searchableTags.count ("d", d) := by
  have hold : (paramRows db (some author) e.kind d).countP
      (fun rt => rt.1.id == db.nextRowid) = 0 := by
    rw [List.countP_eq_zero]
    intro rt hrt
    obtain ⟨r, hr, -, -, t, -, -, -, rfl⟩ := mem_paramRows.mp hrt
    simpa using ne_nextRowid hr
  have hall : ((fun rt : EventRow × Option TagRow => rt.1.id == db.nextRowid) ∘
      fun t => (eventRow db.nextRowid hash author e, some t)) = fun _ => true := by
    funext t
    simp [eventRow]
  rw [paramRows_inserted hacc, List.countP_append, hold, Nat.zero_add, List.countP_map, hall,
    List.countP_true, ← List.countP_eq_length_filter, tagRows, List.countP_map]
  refine List.countP_congr fun nv _ => ?_
  simp [tagRow, Prod.ext_iff]

/-- An event without the value leaves the join as it is. -/
theorem paramRows_inserted_of_not_carries (hacc : Accepts db e hash author)
    (hc : carries e d = false) :
    paramRows (inserted db e hash author hacc.hash_new) (some author) e.kind d =
      paramRows db (some author) e.kind d := by
  have hnone : (tagRows db.nextRowid e).filter (fun t => t.name == "d" && t.value == d) = [] := by
    rw [List.filter_eq_nil_iff]
    intro t ht heq
    obtain ⟨⟨n, v⟩, hnv, rfl⟩ := List.mem_map.mp ht
    simp only [tagRow, Bool.and_eq_true, beq_iff_eq] at heq
    obtain ⟨rfl, rfl⟩ := heq
    rw [carries_iff.mpr hnv] at hc
    cases hc
  rw [paramRows_inserted hacc, hnone, List.map_nil, List.append_nil]

/-- The key the clean-up orders by. -/
def tagTime (rt : EventRow × Option TagRow) : Nat := (rt.2.map TagRow.createdAt).getD 0

theorem mem_olderParam {kind id : Nat} :
    id ∈ olderParam eng db kind author d ↔
      ∃ rt ∈ (Sql.orderByDesc eng tagTime (paramRows db (some author) kind d)).drop 1,
        rt.1.id = id :=
  List.mem_map

/-- The row that `OFFSET 1` skips: the newest one of the author and kind that carries the value.
Of equally old ones the engine puts one first. -/
def newestParam (eng : Sql.Engine) (db : Db) (kind : Nat) (author : Bytes) (d : String) :
    Option Nat :=
  (Sql.orderByDesc eng tagTime (paramRows db (some author) kind d)).head?.map fun rt => rt.1.id

/-- How often a stored row is joined. -/
theorem countP_paramRows (hcoh : db.Coherent) {r : EventRow} (hr : r ∈ db.events) :
    (paramRows db (some r.author) r.kind d).countP (fun rt => rt.1.id == r.id) =
      r.content.searchableTags.count ("d", d) := by
  classical
  have hnd : db.events.Nodup := List.Nodup.of_map _ db.id_nodup
  have hothers : ∀ s, s ≠ r → s ∈ db.events →
      ((db.tagsOf s.id).filter fun t => some s.author == some r.author && s.kind == r.kind &&
        t.name == "d" && t.value == d).countP (fun _ => s.id == r.id) = 0 := by
    intro s hne hs
    have hid : (s.id == r.id) = false :=
      beq_eq_false_iff_ne.mpr fun h => hne (Db.eq_of_id_eq _ hs hr h)
    simp [hid]
  rw [paramRows_eq, List.countP_flatMap]
  simp only [Function.comp_def, List.countP_map]
  rw [List.sum_map_eq_nsmul_single r _ hothers, List.count_eq_one_of_mem hnd hr, one_nsmul]
  simp only [beq_self_eq_true, Bool.true_and, List.countP_true]
  rw [← List.countP_eq_length_filter, (hcoh r hr).tagsOf, tagRows, List.countP_map]
  refine List.countP_congr fun nv _ => ?_
  simp [tagRow, Prod.ext_iff]

/-- The list after `OFFSET 1` has every row that carries the value twice, or is not the newest one
that carries it. -/
theorem mem_olderParam_iff (hcoh : db.Coherent) {r : EventRow} (hr : r ∈ db.events)
    (hc : carries r.content d = true) :
    r.id ∈ olderParam eng db r.kind r.author d ↔
      2 ≤ r.content.searchableTags.count ("d", d) ∨
        newestParam eng db r.kind r.author d ≠ some r.id := by
  have hmem : (r, some (tagRow r.id r.content ("d", d))) ∈
      Sql.orderByDesc eng tagTime (paramRows db (some r.author) r.kind d) :=
    Sql.mem_orderByDesc.mpr ((mem_paramRows_coherent hcoh).mpr ⟨r, hr, rfl, rfl, hc, rfl⟩)
  have hdrop := Sql.exists_mem_drop_one_iff (p := fun rt => rt.1.id == r.id)
    ⟨_, hmem, beq_self_eq_true _⟩
  rw [(Sql.orderByDesc_perm eng tagTime _).countP_eq, countP_paramRows hcoh hr] at hdrop
  simp only [beq_iff_eq] at hdrop
  rw [mem_olderParam, hdrop, newestParam]
  refine or_congr_right ?_
  rcases (Sql.orderByDesc eng tagTime (paramRows db (some r.author) r.kind d)).head? with _ | rt
  · simp
  · simp only [Option.mem_def, Option.some.injEq, forall_eq', Option.map_some, ne_eq,
      beq_eq_false_iff_ne]

/-- For a parameterized kind, the sweep is the `OFFSET 1` list. -/
theorem swept_param (hd : e.distinctParam = some d) {r : EventRow} :
    swept eng db e author r = true ↔
      r.kind = e.kind ∧ r.author = author ∧ r.id ∈ olderParam eng db e.kind author d := by
  have hnr : e.isReplaceable = false := by
    by_contra h
    rw [distinctParam_of_isReplaceable (by simpa using h)] at hd
    cases hd
  simp only [swept, hd, hnr, Bool.false_and, Bool.false_or, Bool.and_eq_true, beq_iff_eq,
    List.contains_iff_mem, and_assoc]

section Sweep

variable (hcoh : db.Coherent) (hacc : Accepts db e hash author)

include hcoh hacc

/-- The joined row of an event that carries the value of the new one. -/
theorem new_mem_paramRows (hc : carries e d = true) :
    (eventRow db.nextRowid hash author e, some (tagRow db.nextRowid e ("d", d))) ∈
      paramRows (inserted db e hash author hacc.hash_new) (some author) e.kind d :=
  (mem_paramRows_coherent (hcoh.inserted hacc)).mpr
    ⟨_, (mem_inserted hacc).mpr (Or.inr rfl), rfl, rfl, hc, rfl⟩

variable (hd : e.distinctParam = some d)

include hd

/-- A stored row is joined with an earlier time than the new event. -/
theorem tagTime_lt {rt : EventRow × Option TagRow}
    (hrt : rt ∈ paramRows (inserted db e hash author hacc.hash_new) (some author) e.kind d)
    (hne : rt.1.id ≠ db.nextRowid) : tagTime rt < e.createdAt := by
  obtain ⟨r, hr, ha, hk, hc, rfl⟩ := (mem_paramRows_coherent (hcoh.inserted hacc)).mp hrt
  rcases (mem_inserted hacc).mp hr with hr | rfl
  · have := lt_of_carries hcoh hacc hd hr ha hk hc
    rwa [(hcoh r hr).createdAt] at this
  · exact absurd rfl hne

/-- **The new event sweeps itself away** exactly when it carries its value more
than once. -/
theorem swept_new :
    swept eng (inserted db e hash author hacc.hash_new) e author
      (eventRow db.nextRowid hash author e) = true ↔ 2 ≤ e.searchableTags.count ("d", d) := by
  rw [swept_param hd, mem_olderParam]
  simp only [eventRow, true_and]
  have hcount := countP_paramRows_new hacc d
  by_cases hc : carries e d = true
  · have hdrop := Sql.countP_drop_one eng tagTime
      (p := fun rt => rt.1.id == db.nextRowid) (new_mem_paramRows hcoh hacc hc)
      (fun rt hrt hp => tagTime_lt hcoh hacc hd hrt (by simpa using hp))
    rw [hcount] at hdrop
    rw [← hdrop, Nat.succ_le_succ_iff, Nat.succ_le_iff, List.countP_pos_iff]
    simp only [beq_iff_eq]
  · have hzero : e.searchableTags.count ("d", d) = 0 :=
      List.count_eq_zero.mpr fun h => hc (carries_iff.mpr h)
    rw [hzero, List.countP_eq_zero] at hcount
    simp only [Nat.le_zero_eq, OfNat.ofNat_ne_zero, hzero, iff_false, not_exists, not_and]
    intro rt hrt
    simpa using hcount rt (Sql.mem_of_mem_drop_one hrt)

/-- Whatever is swept carries the value. -/
theorem carries_of_swept {r : EventRow} (hr : r ∈ db.events)
    (hs : swept eng (inserted db e hash author hacc.hash_new) e author r = true) :
    carries r.content d = true := by
  obtain ⟨-, -, hid⟩ := (swept_param hd).mp hs
  obtain ⟨rt, hrt, hid⟩ := mem_olderParam.mp hid
  obtain ⟨s, hs, -, -, hcs, rfl⟩ := (mem_paramRows_coherent (hcoh.inserted hacc)).mp
    (Sql.mem_of_mem_drop_one hrt)
  obtain rfl := Db.eq_of_id_eq _ hs ((mem_inserted hacc).mpr (Or.inl hr)) hid
  exact hcs

/-- A stored row that carries the value is swept when the new event carries it
too, for then the new event is the newest. -/
theorem swept_old (hc : carries e d = true) {r : EventRow} (hr : r ∈ db.events) :
    swept eng (inserted db e hash author hacc.hash_new) e author r = true ↔
      r.kind = e.kind ∧ r.author = author ∧ carries r.content d = true := by
  refine ⟨?_, ?_⟩
  · intro hs
    obtain ⟨hk, ha, -⟩ := swept_le hs
    exact ⟨hk, ha, carries_of_swept hcoh hacc hd hr hs⟩
  · rintro ⟨hk, ha, hcr⟩
    rw [swept_param hd, mem_olderParam]
    have hmem : (r, some (tagRow r.id r.content ("d", d))) ∈
        paramRows (inserted db e hash author hacc.hash_new) (some author) e.kind d :=
      (mem_paramRows_coherent (hcoh.inserted hacc)).mpr
        ⟨r, (mem_inserted hacc).mpr (Or.inl hr), ha, hk, hcr, rfl⟩
    refine ⟨hk, ha, _, Sql.mem_drop_one_of_lt hmem (new_mem_paramRows hcoh hacc hc) ?_, rfl⟩
    exact tagTime_lt hcoh hacc hd hmem (ne_nextRowid hr)

omit hcoh in
/-- When the new event does not carry the value, the sweep is that of the store
before it: all rows that carry the value, but the one `OFFSET 1` skips. -/
theorem swept_old_of_not_carries (hc : carries e d = false) {r : EventRow} :
    swept eng (inserted db e hash author hacc.hash_new) e author r = true ↔
      r.kind = e.kind ∧ r.author = author ∧ r.id ∈ olderParam eng db e.kind author d := by
  rw [swept_param hd, mem_olderParam, mem_olderParam, paramRows_inserted_of_not_carries hacc hc]

end Sweep

end Floonet.Sqlite
