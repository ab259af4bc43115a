import Floonet.Postgres.Deletion
import Floonet.Postgres.Query

/-!
# Stored tag values and the values of a query

The writer stores a value as `value_hex` if it is lower-case hex of even length. The generator
takes the column of a wanted value by a coarser test, lower-case hex of any length, so it looks
for a value like `1f0` among the hex values, where the writer never put it.
-/

namespace Floonet.Postgres

open Hex (Bytes)

variable {server : Server} {db db' : Db} {e : Event} {r : EventRow} {strings : IterOrder String}

/-! ## What is stored -/

/-- The write stores the event as this row and leaves it visible. -/
structure Stores (server : Server) (db : Db) (e : Event) (db' : Db) (r : EventRow) : Prop where
  written : writeEvent server db e = .ok (1, db')
  mem : r ∈ db'.events
  id : Hex.decode e.id = some r.id
  visible : r.hidden = false

/-- Every tag row of an event that is stored. -/
def Keeps (db : Db) (e : Event) (id : Bytes) : Prop :=
  (∃ r ∈ db.events, r.id = id) → ∀ t ∈ tagRows id e, t ∈ db.tags

variable {id : Bytes}

/-- An event that is not deleted keeps its tags. -/
theorem Keeps.deleteEvents (h : Keeps db e id) (p : EventRow → Bool) :
    Keeps (db.deleteEvents p) e id := by
  rintro ⟨r, hr, rfl⟩ t ht
  obtain ⟨hr, hp⟩ := List.mem_filter.mp hr
  refine List.mem_filter.mpr ⟨h ⟨r, hr, rfl⟩ t ht, List.any_eq_true.mpr ⟨r, hr, ?_⟩⟩
  rw [hp, eventId_of_mem_tagRows t ht, beq_self_eq_true, Bool.and_self]

theorem Keeps.hideEvents (h : Keeps db e id) (p : EventRow → Bool) :
    Keeps (db.hideEvents p) e id := by
  rintro ⟨r, hr, rfl⟩ t ht
  obtain ⟨s, hs, rfl⟩ := Db.mem_hideEvents.mp hr
  rw [Db.hideRow_id] at ht h
  exact h ⟨s, hs, rfl⟩ t ht

theorem Keeps.cleaned (h : Keeps db e id) (server : Server) (pubKey : Bytes) :
    Keeps (cleaned server db e pubKey) e id := by
  have hfirst : Keeps (if e.isReplaceable then
      deleteOlderReplaceable server db (asI64 e.kind) pubKey else db) e id := by
    split_ifs
    · exact h.deleteEvents _
    · exact h
  simp only [Postgres.cleaned]
  split
  · exact hfirst.deleteEvents _
  · exact hfirst

theorem Keeps.settled (h : Keeps db e id) (row : EventRow) :
    Keeps (settled db e row).2 e id := by
  rw [Postgres.settled]
  split_ifs
  · exact h.hideEvents _
  · exact h.hideEvents _
  · exact h

/-- A write that stores its event inserts its row and its tags, and the rest of the transaction
works on these. -/
theorem writeEvent_eq_ok_one (hw : writeEvent server db e = .ok (1, db')) :
    ∃ row, ∃ hnew : row.id ∉ db.events.map EventRow.id, eventRow e = .ok row ∧
      (1, db') = settled (cleaned server (inserted db e row hnew) e row.pubKey) e row := by
  obtain ⟨shadow, -, hw⟩ := Outcome.bind_eq_ok hw
  split_ifs at hw
  · cases hw
  · obtain ⟨row, hrow, hw⟩ := Outcome.bind_eq_ok hw
    split_ifs at hw with hnew
    · cases hw
    · split at hw
      · cases hw
      · exact ⟨row, hnew, hrow, (applyDeletions_eq_ok.mp hw).1⟩

theorem eventRow_id {row : EventRow} (h : eventRow e = .ok row) : Hex.decode e.id = some row.id := by
  obtain ⟨t, -, h⟩ := Outcome.bind_eq_ok h
  obtain ⟨o, -, h⟩ := Outcome.bind_eq_ok h
  obtain ⟨k, -, h⟩ := Outcome.bind_eq_ok h
  split at h
  · rename_i hid _
    cases h
    exact hid
  · cases h

/-- Once its event is stored, each of the tags is there. -/
theorem Stores.tagRow_mem (h : Stores server db e db' r) {t : TagRow} (ht : t ∈ tagRows r.id e) :
    t ∈ db'.tags := by
  obtain ⟨row, hnew, hrow, hdb⟩ := writeEvent_eq_ok_one h.written
  have hid : r.id = row.id := Option.some.inj (h.id.symm.trans (eventRow_id hrow))
  have hinserted : Keeps (inserted db e row hnew) e row.id := by
    intro _ t ht
    rw [inserted_tags]
    exact List.mem_append_right _ ht
  have hkeeps := (hinserted.cleaned server row.pubKey).settled row
  rw [← hdb] at hkeeps
  rw [hid] at ht
  exact hkeeps ⟨r, h.mem, hid⟩ t ht

/-! ## What is looked for

The generator sorts the values of a filter by their letters alone, and drops those of odd length,
which have no bytes. -/

/-- The tag rows satisfy the tag condition of the query, for the event of the row. -/
def Query.TagsMatch (q : Query) (db : Db) (r : EventRow) : Prop :=
  ∀ j ∈ q.joins, ∃ t ∈ db.tags, j.on r t = true

/-- The generated query finds the event as far as tags go. -/
def Found (strings : IterOrder String) (f : ReqFilter) (db : Db) (r : EventRow) : Prop :=
  ∃ q, queryFromFilter strings f = .ok (some q) ∧ q.TagsMatch db r

/-- A row is joined when every condition has a tag. -/
theorem mem_joined {joins : List TagJoin} {rows : List EventRow} :
    r ∈ joined db joins rows ↔ r ∈ rows ∧ ∀ j ∈ joins, ∃ t ∈ db.tags, j.on r t = true := by
  induction joins generalizing rows with
  | nil => simp [joined]
  | cons j joins ih =>
    rw [joined, ih, List.forall_mem_cons, ← and_assoc]
    refine and_congr_left fun _ => ?_
    simp only [List.mem_flatMap, List.mem_map, List.mem_filter]
    refine ⟨?_, ?_⟩
    · rintro ⟨r', hr', t, ⟨ht, hon⟩, rfl⟩
      exact ⟨hr', t, ht, hon⟩
    · rintro ⟨hr, t, ht, hon⟩
      exact ⟨r, hr, t, ⟨ht, hon⟩, rfl⟩

/-- The rows of a query are the visible rows whose tags match. -/
theorem mem_found {q : Query} {now : Int} :
    r ∈ q.found db now ↔ r ∈ db.events ∧ q.TagsMatch db r ∧ q.meets now r = true := by
  rw [Query.found, List.mem_filter, mem_joined, and_assoc]
  rfl

/-- The row is found when the value is looked up in the column the generator takes for it. -/
def foundBy (x : String) (t : TagRow) : Bool :=
  if isLowerHex x then sqlEq t.valueHex (Hex.decode x) else sqlEq t.value (some (asBytes x))

/-- Lower-case hex of odd length, which no blob is read from. -/
def OddHex (x : String) : Prop := isLowerHex x = true ∧ byteLen x % 2 = 1

instance (x : String) : Decidable (OddHex x) := inferInstanceAs (Decidable (_ ∧ _))

/-- Hex of odd length does not decode. -/
theorem decode_eq_none_of_oddHex {x : String} (h : OddHex x) : Hex.decode x = none := by
  rw [← Option.not_isSome_iff_eq_none, isSome_decode (isHex_of_isLowerHex h.1), h.2]
  exact one_ne_zero

theorem sqlEq_none (a : Option Bytes) : sqlEq a none = false := by
  cases a <;> rfl

/-- A row with the value is found by it, unless the value is hex of odd length. Nothing is found
by that. -/
theorem foundBy_of_oddHex {x : String} (h : OddHex x) (t : TagRow) : foundBy x t = false := by
  rw [foundBy, if_pos h.1, decode_eq_none_of_oddHex h, sqlEq_none]

@[inherit_doc foundBy_of_oddHex] theorem foundBy_tagRow {x : String} (h : ¬ OddHex x) (id : Bytes)
    (name : String) : foundBy x (tagRow id (name, x)) = true := by
  by_cases hx : isLowerHex x = true
  · have heven : byteLen x % 2 = 0 := Nat.mod_two_ne_one.mp fun hodd => h ⟨hx, hodd⟩
    obtain ⟨bs, hbs⟩ := Option.isSome_iff_exists.mp
      ((isSome_decode (isHex_of_isLowerHex hx)).mpr heven)
    have hstored : storedAsHex x = true := by rw [storedAsHex, hx, heven]; rfl
    simp only [foundBy, hx, tagRow, hstored, hbs, if_true, sqlEq_some]
  · have hstored : storedAsHex x = false := by simp [storedAsHex, hx]
    simp only [foundBy, hx, tagRow, hstored, Bool.false_eq_true, if_false, sqlEq_some]

theorem TagJoin.on_iff {j : TagJoin} {t : TagRow} :
    j.on r t = true ↔ t.eventId = r.id ∧ t.name = j.name ∧ j.test.holds t = true := by
  simp only [TagJoin.on, Bool.and_eq_true, beq_iff_eq, and_assoc]

@[simp] theorem andJoin_name (key : Char) (x : String) :
    (andJoin key x).name = String.singleton key := rfl

@[simp] theorem orJoin_name (key : Char) (v : Finset String) :
    (orJoin strings key v).name = String.singleton key := rfl

@[simp] theorem andJoin_holds (key : Char) (x : String) (t : TagRow) :
    (andJoin key x).test.holds t = foundBy x t := by
  rw [andJoin, foundBy]
  split_ifs <;> rfl

/-- A part of an any-of condition is left out only if it has no value to list. -/
theorem any_part {p listed : String → Bool} (hlisted : ∀ x, listed x = true → p x = true)
    {β : Type} (param : String → β) (test : β → Bool) (l : List String) :
    ((if l.any p then some ((l.filter listed).map param) else none).any fun vs =>
        vs.any test) = true ↔ ∃ x ∈ l, listed x = true ∧ test (param x) = true := by
  split_ifs with h
  · simp
  · refine iff_of_false (by simp) ?_
    rintro ⟨x, hx, hl, -⟩
    exact h (List.any_eq_true.mpr ⟨x, hx, hlisted x hl⟩)

/-- An any-of condition holds for one of its values. -/
theorem orJoin_holds {key : Char} {v : Finset String} {t : TagRow} :
    (orJoin strings key v).test.holds t = true ↔ ∃ x ∈ v, foundBy x t = true := by
  simp only [orJoin, TagTest.holds, Bool.or_eq_true]
  rw [any_part (fun x hx => hx), any_part (fun x hx => (Bool.and_eq_true_iff.mp hx).2)]
  simp only [IterOrder.mem_iter, Bool.not_eq_true', Bool.and_eq_true, beq_iff_eq]
  refine ⟨?_, ?_⟩
  · rintro (⟨x, hx, hplain, heq⟩ | ⟨x, hx, ⟨-, hhex⟩, heq⟩)
    · exact ⟨x, hx, by rwa [foundBy, hplain, if_neg Bool.false_ne_true]⟩
    · exact ⟨x, hx, by rwa [foundBy, if_pos hhex]⟩
  · rintro ⟨x, hx, hfound⟩
    rcases hhex : isLowerHex x with _ | _
    · rw [foundBy, hhex, if_neg Bool.false_ne_true] at hfound
      exact .inl ⟨x, hx, hhex, hfound⟩
    · have heven : byteLen x % 2 = 0 := by
        refine Nat.mod_two_ne_one.mp fun hodd => ?_
        rw [foundBy_of_oddHex ⟨hhex, hodd⟩] at hfound
        cases hfound
      rw [foundBy, if_pos hhex] at hfound
      exact .inr ⟨x, hx, ⟨heven, hhex⟩, hfound⟩

/-! ## One condition -/

/-- A filter with one condition and at least one value has a query, with the joins of the
condition. -/
theorem found_onlyTag {c : Char} {op : TagOperand} (joins : List TagJoin)
    (hjoins : operandJoins strings c op = some joins) :
    Found strings (onlyTag c op) db r ↔ ∀ j ∈ joins, ∃ t ∈ db.tags, j.on r t = true := by
  rw [Found, query_onlyTag hjoins]
  refine ⟨?_, fun h => ⟨_, rfl, h⟩⟩
  rintro ⟨q, hq, hmatch⟩
  cases hq
  exact hmatch

/-- Found by an any-of condition of one value. -/
theorem found_or {c : Char} {v : String} :
    Found strings (onlyTag c (.or {v})) db r ↔
      ∃ t ∈ db.tags, t.eventId = r.id ∧ t.name = String.singleton c ∧ foundBy v t = true := by
  rw [found_onlyTag [orJoin strings c {v}] (by simp [operandJoins, TagOperand.values])]
  simp only [List.mem_singleton, forall_eq, TagJoin.on_iff, orJoin_name, orJoin_holds,
    Finset.mem_singleton, exists_eq_left]

/-- Found by an all-of condition of one value. -/
theorem found_and {c : Char} {v : String} :
    Found strings (onlyTag c (.and {v})) db r ↔
      ∃ t ∈ db.tags, t.eventId = r.id ∧ t.name = String.singleton c ∧ foundBy v t = true := by
  rw [found_onlyTag [andJoin c v] (by simp [operandJoins, TagOperand.values])]
  simp only [List.mem_singleton, forall_eq, TagJoin.on_iff, andJoin_name, andJoin_holds]

/-- **Stored tag values.** When a write stores an event and leaves it visible, and the event has a
tag with the letter `c` and the value `v`, then the queries of both conditions on `c` and `v` find
it by its tags, except when `v` is lower-case hex of odd length. -/
theorem tag_value_found_iff (server : Server) (strings : IterOrder String) {db db' : Db} {e : Event}
    {r : EventRow} (hstored : Stores server db e db' r) {c : Char} {v : String} {rest : List String}
    (htag : String.singleton c :: v :: rest ∈ e.tags) :
    (Found strings (onlyTag c (.or {v})) db' r ∧ Found strings (onlyTag c (.and {v})) db' r) ↔
      ¬ (isLowerHex v = true ∧ byteLen v % 2 = 1) := by
  rw [found_or, found_and, and_self]
  refine ⟨?_, fun h => ?_⟩
  · rintro ⟨t, -, -, -, hfound⟩ hodd
    rw [foundBy_of_oddHex hodd] at hfound
    cases hfound
  · have hmem : (String.singleton c, v) ∈ e.searchableTags := by
      refine Event.mem_searchableTags.mpr ⟨rest, htag, ?_⟩
      rw [singleCharTagname, String.toList_singleton]
      rfl
    exact ⟨_, hstored.tagRow_mem (List.mem_map_of_mem hmem), rfl, rfl, foundBy_tagRow h _ _⟩

/-! ## Samples -/

theorem not_mem_empty (id : Bytes) : id ∉ Db.empty.events.map EventRow.id := List.not_mem_nil

/-- The first event of a plain kind is stored as its new row. -/
theorem stores_empty {pubKey : Bytes} (hrepl : e.isReplaceable = false)
    (hparam : e.isParamReplaceable = false) (h5 : asI64 e.kind ≠ 5)
    (hid : Hex.decode e.id = some id) (hpk : Hex.decode e.pubkey = some pubKey)
    (hs : Storable server e) :
    Stores server Db.empty e (insertedNew Db.empty e id pubKey (not_mem_empty id))
      (newRow e id pubKey) := by
  have hkind : e.kind ≠ 5 := by
    rintro hk
    rw [hk] at h5
    exact h5 rfl
  have hrec : ¬ deletionRecorded (insertedNew Db.empty e id pubKey (not_mem_empty id))
      pubKey id = true := by
    rw [deletionRecorded_iff, deletionStored_insertedNew]
    rintro (⟨r, hr, -⟩ | ⟨-, hk, -⟩)
    · exact absurd hr List.not_mem_nil
    · exact h5 hk
  refine ⟨?_, (mem_insertedNew _).mpr (.inr rfl), hid, rfl⟩
  refine (writeEvent_eq_ok hrepl hparam hid hpk (not_mem_empty id)).mpr ⟨hs, ?_⟩
  rw [settled, if_neg hkind, if_neg (fun h => hrec h.2)]

/-- A note without expiration is storable if the server takes its tags. -/
theorem storable_note {x : Recorded} (hkind : x.kind = 1) (htime : x.createdAt < 2 ^ 32)
    (hexp : x.event.expiration = none) (htags : ∀ nv ∈ x.event.searchableTags,
      refusal Server.inOrder (tagRow [] nv) = none) : Storable Server.inOrder x.event where
  createdAt := by
    have htime : asI64 x.event.createdAt = x.createdAt := by
      rw [asI64, if_pos (by simp only [Recorded.event_createdAt]; omega)]
      simp only [Recorded.event_createdAt]
      omega
    rw [htime, timestampOpt, if_pos (by simp only [minUtc, maxUtc]; omega)]
    exact ⟨_, rfl, by simp only [minTimestamptz]; omega⟩
  expiresAt := by
    rw [hexp]
    exact fun _ h => by cases h
  kind := by
    rw [Recorded.event_kind, hkind]
    decide
  tags := by
    -- nothing in the test reads the id of the event
    intro id _ t ht
    obtain ⟨nv, hnv, rfl⟩ := List.mem_map.mp ht
    exact htags nv hnv
  deletion := by
    rw [Recorded.event_kind, hkind]
    exact fun h => by cases h

/-- A note with one topic. -/
def sampleTopic : Recorded where
  id := 0x752931f1ab2c337318d58422f66950f0a8fc39bc355723de1767923b20d64089
  pubkey := 0x5cbdf0646e5db4eaa398f365f2ea7a0e3d419b7e0330e39ce92bddedcac4f9bc
  sigR := 0x27eba8ea89a9447770a2c1706a52c3f30bcdc9486b6e50deac4ebff1f2eaffcf
  sigS := 0xd81899e66cd7914c0c7845e310d9a10a191e0263c725fca585175ab09532693a
  createdAt := 1700000202
  kind := 1
  tags := [["t", "grin"]]
  content := "one topic"

/-- A note on a block, by its number. -/
def sampleBlock : Recorded where
  id := 0x000c23a95f413e918b1a6ba2140caff919427a7e08d30bd6510f1cc17e31ac81
  pubkey := 0x5cbdf0646e5db4eaa398f365f2ea7a0e3d419b7e0330e39ce92bddedcac4f9bc
  sigR := 0x442232f5c47de2ed81acd0803d509e8f8359219d6c62df473488b51c81b14f9d
  sigS := 0x071ef92d611315a643c6132fd14e1d78b7aebb921bda8af34ad83af08a8be883
  createdAt := 1700000201
  kind := 1
  tags := [["t", "1f0"]]
  content := "block 0x1f0"

/-- The row of a sample in the table that has only this row. -/
def sampleRow (x : Recorded) : EventRow :=
  newRow x.event (Hex.ofNat 32 x.id) (Hex.ofNat 32 x.pubkey)

@[inherit_doc sampleRow] def sampleDb (x : Recorded) : Db :=
  insertedNew Db.empty x.event (Hex.ofNat 32 x.id) (Hex.ofNat 32 x.pubkey) (not_mem_empty _)

/-- A sample note is stored. -/
theorem stores_sample {x : Recorded} (hkind : x.kind = 1) (hs : Storable Server.inOrder x.event) :
    Stores Server.inOrder Db.empty x.event (sampleDb x) (sampleRow x) := by
  refine stores_empty ?_ ?_ ?_ (Recorded.decode_event_id _) (Recorded.decode_event_pubkey _) hs
  · simp [Event.isReplaceable, hkind]
  · simp [Event.isParamReplaceable, hkind]
  · rw [Recorded.event_kind, hkind]
    decide

theorem sampleTopic_stored :
    Stores Server.inOrder Db.empty sampleTopic.event (sampleDb sampleTopic)
      (sampleRow sampleTopic) :=
  stores_sample rfl (storable_note rfl (by decide) rfl (by decide +kernel))

theorem sampleBlock_stored :
    Stores Server.inOrder Db.empty sampleBlock.event (sampleDb sampleBlock)
      (sampleRow sampleBlock) :=
  stores_sample rfl (storable_note rfl (by decide) rfl (by decide +kernel))

theorem sampleTopic_found :
    Found (ReqFilter.sampleOrder String) (onlyTag 't' (.or {"grin"})) (sampleDb sampleTopic)
        (sampleRow sampleTopic) ∧
      Found (ReqFilter.sampleOrder String) (onlyTag 't' (.and {"grin"})) (sampleDb sampleTopic)
        (sampleRow sampleTopic) := by
  have htag : String.singleton 't' :: "grin" :: [] ∈ sampleTopic.event.tags :=
    List.mem_singleton_self _
  exact (tag_value_found_iff Server.inOrder _ sampleTopic_stored htag).mpr (by decide)

/-- The block number is stored as text and looked up as hex, by both conditions. -/
theorem sampleBlock_not_found :
    sampleBlock.event.Validated (Recorded.crypto [sampleBlock]) ∧
      Stores Server.inOrder Db.empty sampleBlock.event (sampleDb sampleBlock)
        (sampleRow sampleBlock) ∧
      ["t", "1f0"] ∈ sampleBlock.event.tags ∧
      ∀ strings, ¬ Found strings (onlyTag 't' (.or {"1f0"})) (sampleDb sampleBlock)
          (sampleRow sampleBlock) ∧
        ¬ Found strings (onlyTag 't' (.and {"1f0"})) (sampleDb sampleBlock)
          (sampleRow sampleBlock) := by
  have hodd : OddHex "1f0" := by decide
  refine ⟨Recorded.validated (by decide) (List.mem_singleton_self _), sampleBlock_stored,
    List.mem_singleton_self _, fun strings => ⟨?_, ?_⟩⟩
  · rw [found_or]
    rintro ⟨t, -, -, -, hfound⟩
    rw [foundBy_of_oddHex hodd] at hfound
    cases hfound
  · rw [found_and]
    rintro ⟨t, -, -, -, hfound⟩
    rw [foundBy_of_oddHex hodd] at hfound
    cases hfound

end Floonet.Postgres
