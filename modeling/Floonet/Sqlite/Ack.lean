import Floonet.Recorded
import Floonet.Sqlite.Deletion
import Floonet.Sqlite.Param

/-!
# What an acknowledgement means

The writer answers OK and broadcasts when `persistEvent` reports a row. That
report should mean that the event is in the table, visible, with all its
searchable tags, and a report of 0 that nothing new became visible (`AckHonest`).

The report counts the row inserted, but the clean-up of parameterized replaceable
kinds runs after it. An event that repeats its `d` tag is joined with each of its
tag rows, so `OFFSET 1` skips one of them and deletes the event by the other. That
is the only way an acknowledged event is not stored (`ackHonest_iff`).
-/

namespace Floonet.Sqlite

open Hex (Bytes)

variable {eng : Sql.Engine} {db : Db} {e : Event} {hash author : Bytes}

/-- What the caller takes the result of `persistEvent` for. -/
def AckHonest (eng : Sql.Engine) (db : Db) (e : Event) : Prop :=
  ∀ n db', persistEvent eng db e = .ok (n, db') →
    (1 ≤ n → ∃ r ∈ db'.events, Hex.decode e.id = some r.eventHash ∧ r.hidden = false ∧
      ∀ nv ∈ e.searchableTags, ∃ t ∈ db'.tags, t.eventId = r.id ∧ t.name = nv.1 ∧
        t.value = nv.2) ∧
    (n = 0 → ∀ r ∈ db'.events, r.hidden = false →
      ∃ s ∈ db.events, s.eventHash = r.eventHash ∧ s.hidden = false)

/-- The number of searchable `d` tags that hold the coordinate of the event. -/
def coordinateTags (e : Event) : Nat :=
  match e.distinctParam with
  | some d => e.searchableTags.count ("d", d)
  | none => 0

/-- The event is new to the store, nothing refuses it, and no deletion of it is
recorded. -/
def arrivesVisible (db : Db) (e : Event) : Prop :=
  shadowed db e = false ∧ ∃ hash author, Hex.decode e.id = some hash ∧
    Hex.decode e.pubkey = some author ∧ (∀ r ∈ db.events, r.eventHash ≠ hash) ∧
    deletionRecorded db author e.id = false

/-! ## The new row at the end of the transaction

The clean-up comes after the insert and joins the tag rows of the new event too. With its
coordinate in two tags the event is its own older version. -/

section Arrival

variable (eng) (hcoh : db.Coherent) (hacc : Accepts db e hash author)

include hcoh hacc

/-- The clean-up takes the new row exactly when it repeats its coordinate. -/
theorem swept_new_iff :
    swept eng (inserted db e hash author hacc.hash_new) e author
      (eventRow db.nextRowid hash author e) = true ↔ 2 ≤ coordinateTags e := by
  rcases hd : e.distinctParam with _ | d
  · simp only [coordinateTags, hd, Nat.le_zero_eq, OfNat.ofNat_ne_zero, iff_false]
    intro hs
    rcases (swept_le hs).2.2 with hr | hp
    · have hmem := (mem_inserted hacc).mpr (Or.inr rfl)
      exact ((swept_replaceable hacc hr hmem).mp hs).1 rfl
    · obtain ⟨d, hd'⟩ := exists_distinctParam hp
      rw [hd] at hd'
      cases hd'
  · simp only [coordinateTags, hd]
    exact swept_new hcoh hacc hd

/-- After an accepted write the event has a row unless it swept itself, and
that row is visible unless a deletion is recorded. -/
theorem mem_accepted_hash {r : EventRow} :
    r ∈ (accepted eng db e hash author hacc.hash_new).events ∧ r.eventHash = hash ↔
      coordinateTags e < 2 ∧
        r = Db.hideRow (hides (cleaned eng (inserted db e hash author hacc.hash_new) e author) e
          author db.nextRowid) (eventRow db.nextRowid hash author e) := by
  rw [mem_accepted hacc]
  refine ⟨?_, ?_⟩
  · rintro ⟨⟨s, hs, hsw, rfl⟩, hhash⟩
    rw [Db.hideRow_eventHash] at hhash
    rcases hs with hs | rfl
    · exact absurd (List.mem_map.mpr ⟨s, hs, hhash⟩) hacc.hash_new
    · refine ⟨?_, rfl⟩
      by_contra hc
      rw [(swept_new_iff eng hcoh hacc).mpr (not_lt.mp hc)] at hsw
      cases hsw
  · rintro ⟨hc, rfl⟩
    refine ⟨⟨_, Or.inr rfl, ?_, rfl⟩, by simp [eventRow]⟩
    by_contra hsw
    have := (swept_new_iff eng hcoh hacc).mp (by simpa using hsw)
    omega

end Arrival

/-! ## When an acknowledgement is honest

The result counts the inserted row. It is wrong exactly when the row was swept away again in the
same transaction and nothing stood against the event. -/

/-- Only deletions bind a value for each tag. -/
theorem overLimit_of_ne (h : e.kind ≠ 5) : overLimit eng e = false := by
  simp [overLimit, h]

/-- An event with coordinates is no deletion and no gift wrap. -/
theorem kind_of_coordinateTags (h : 2 ≤ coordinateTags e) : e.kind ≠ 5 ∧ e.kind ≠ 1059 := by
  rcases hd : e.distinctParam with _ | d
  · simp [coordinateTags, hd] at h
  · have := Event.isParamReplaceable_iff.mp (isParamReplaceable_of_distinctParam hd)
    omega

/-- An event that repeats its coordinate and would arrive visible is
acknowledged and lost. -/
theorem not_ackHonest (hcoh : db.Coherent) (hrep : representable e = true)
    (hc : 2 ≤ coordinateTags e) (hv : arrivesVisible db e) : ¬ AckHonest eng db e := by
  obtain ⟨hs, hash, author, hid, hpk, hnew, hdel⟩ := hv
  have hacc : Accepts db e hash author :=
    ⟨hs, hrep, hid, hpk, fun hmem => by
      obtain ⟨r, hr, he⟩ := List.mem_map.mp hmem
      exact hnew r hr he⟩
  obtain ⟨h5, h1059⟩ := kind_of_coordinateTags hc
  have hret : persistEvent eng db e = _ := persistEvent_of_accepts hacc
  rw [overLimit_of_ne h5] at hret
  intro hack
  have hone : 1 ≤ reported (cleaned eng (inserted db e hash author hacc.hash_new) e author) e
      author := by
    rw [Nat.one_le_iff_ne_zero, Ne, reported_eq_zero_iff eng hcoh hacc]
    rintro ⟨-, -, hrec⟩
    rw [hdel] at hrec
    cases hrec
  obtain ⟨r, hr, hhash, -⟩ := (hack _ _ hret).1 hone
  rw [hid, Option.some.injEq] at hhash
  have := ((mem_accepted_hash eng hcoh hacc).mp ⟨hr, hhash.symm⟩).1
  omega

/-- Every other acknowledgement is honest. -/
theorem ackHonest_of (hcoh : db.Coherent) (h : ¬ (2 ≤ coordinateTags e ∧ arrivesVisible db e)) :
    AckHonest eng db e := by
  intro n db' hret
  rcases persistEvent_cases eng db e with ⟨err, herr⟩ | hsame | ⟨hash, author, hacc, hlim, hok⟩
  · rw [herr] at hret
    cases hret
  · rw [hsame] at hret
    cases hret
    exact ⟨fun h1 => absurd h1 (by decide), fun _ r hr hvis => ⟨r, hr, rfl, hvis⟩⟩
  · rw [hok] at hret
    simp only [Except.ok.injEq, Prod.mk.injEq] at hret
    obtain ⟨rfl, rfl⟩ := hret
    by_cases hdel : deletedOnArrival db e author
    · -- hidden on arrival: whatever is visible was so before
      have hzero := (reported_eq_zero_iff eng hcoh hacc).mpr hdel
      refine ⟨fun h1 => by omega, fun _ r hr hvis => ?_⟩
      obtain ⟨s, hs, -, rfl⟩ := (mem_accepted hacc).mp hr
      rw [Db.hideRow_hidden, Bool.or_eq_false_iff] at hvis
      rcases hs with hs | rfl
      · exact ⟨s, hs, by simp, hvis.1⟩
      · rw [(hides_new_iff eng hcoh hacc).mpr hdel] at hvis
        cases hvis.2
    · have hone := mt (reported_eq_zero_iff eng hcoh hacc).mp hdel
      refine ⟨fun _ => ?_, fun h0 => absurd h0 hone⟩
      have hc : coordinateTags e < 2 := by
        by_contra hc
        have hc := not_lt.mp hc
        obtain ⟨h5, h1059⟩ := kind_of_coordinateTags hc
        refine h ⟨hc, hacc.not_shadowed, hash, author, hacc.decode_id, hacc.decode_pubkey, ?_, ?_⟩
        · exact fun r hr he => hacc.hash_new (List.mem_map.mpr ⟨r, hr, he⟩)
        · by_contra hrec
          exact hdel ⟨h5, h1059, by simpa using hrec⟩
      obtain ⟨hr, hhash⟩ := (mem_accepted_hash eng hcoh hacc).mpr ⟨hc, rfl⟩
      refine ⟨_, hr, hacc.decode_id.trans (congrArg some hhash.symm), ?_, fun nv hnv => ?_⟩
      · rw [Db.hideRow_hidden, Bool.or_eq_false_iff]
        refine ⟨rfl, ?_⟩
        by_contra hh
        exact hdel ((hides_new_iff eng hcoh hacc).mp (by simpa using hh))
      · have hcoh' := hcoh.write eng e
        rw [write_of_accepts hacc hlim] at hcoh'
        have ht := (mem_tagsOf hcoh' hr).mpr ⟨nv, by rwa [Db.hideRow_content], rfl⟩
        rw [Db.tagsOf, List.mem_filter] at ht
        exact ⟨_, ht.1, rfl, rfl, rfl⟩

/-- **When acknowledged means stored.** In every store that writes lead to, the
result of `persistEvent` is honest for an event with bindable integers exactly
unless the event repeats its coordinate in a second `d` tag, is new, and nothing
stored refuses or deletes it. -/
theorem ackHonest_iff (eng : Sql.Engine) (es : List Event) (e : Event)
    (hrep : representable e = true) :
    AckHonest eng (writes eng es) e ↔
      ¬ (2 ≤ coordinateTags e ∧ arrivesVisible (writes eng es) e) := by
  refine ⟨?_, ?_⟩
  · exact fun hack h => not_ackHonest (writes_coherent eng es) hrep h.1 h.2 hack
  · exact ackHonest_of (writes_coherent eng es)

/-- A list whose `d` tag is written twice. -/
def sampleRepeated : Recorded where
  id := 0x0d4023f28220e31905762d3e1316f8de667965b7bdb3f6eb33b463509cf9e39d
  pubkey := 0x5cbdf0646e5db4eaa398f365f2ea7a0e3d419b7e0330e39ce92bddedcac4f9bc
  sigR := 0x02409e4af15075a825771d86b32936c487703f3cf0f45e6930e013563ca9418b
  sigS := 0x090ad1d9360922ccc7ceac9c58db72bf2879786a917155c115b68d4147e1f302
  createdAt := 1700000010
  kind := 30000
  tags := [["d", "x"], ["d", "x"]]
  content := ""

/-- The same list with one `d` tag. -/
def sampleListing : Recorded where
  id := 0xa1fbd4704f703c07c5a384656eb5fff8f6b5d51317e018edf9cb0e394e9fabd2
  pubkey := 0x5cbdf0646e5db4eaa398f365f2ea7a0e3d419b7e0330e39ce92bddedcac4f9bc
  sigR := 0x7bbc584f5c820c7ecd3d9d2a917f5ebabe294ecec4358335d1a9b48a251b275a
  sigS := 0xe0f4ca6e338d7a462b5d378e97e31f9dbace64aff46ff53a89aa689acafc361a
  createdAt := 1700000011
  kind := 30000
  tags := [["d", "x"]]
  content := ""

theorem sampleListing_ackHonest :
    AckHonest (Sql.Engine.inOrder 32766)
      (writes (Sql.Engine.inOrder 32766) [sampleRepeated.event]) sampleListing.event :=
  (ackHonest_iff _ _ _ (by decide)).mpr fun h => absurd h.1 (by decide)

/-- Written to an empty store, the repeated `d` tag is acknowledged with 1 and
the table stays empty. -/
theorem sampleRepeated_lost :
    sampleRepeated.event.Validated (Recorded.crypto [sampleRepeated]) ∧
      representable sampleRepeated.event = true ∧
      (∃ db', persistEvent (Sql.Engine.inOrder 32766) (writes (Sql.Engine.inOrder 32766) [])
        sampleRepeated.event = .ok (1, db') ∧ db'.events = []) ∧
      ¬ AckHonest (Sql.Engine.inOrder 32766) (writes (Sql.Engine.inOrder 32766) [])
        sampleRepeated.event := by
  have hrep : representable sampleRepeated.event = true := by decide
  have hacc := accepts_empty hrep (Recorded.decode_event_id _) (Recorded.decode_event_pubkey _)
  have hcoh : Db.empty.Coherent := writes_coherent (Sql.Engine.inOrder 32766) []
  have hc : 2 ≤ coordinateTags sampleRepeated.event := by decide
  refine ⟨Recorded.validated (by decide) (by simp), hrep, ?_, ?_⟩
  · refine ⟨_, (persistEvent_of_accepts hacc).trans (if_neg (by decide)), ?_⟩
    refine List.eq_nil_iff_forall_not_mem.mpr fun r hr => ?_
    obtain ⟨s, hs, hsw, -⟩ := (mem_accepted hacc).mp hr
    rcases hs with hs | rfl
    · cases hs
    · rw [(swept_new_iff _ hcoh hacc).mpr hc] at hsw
      cases hsw
  · refine not_ackHonest hcoh hrep hc ⟨hacc.not_shadowed, _, _, hacc.decode_id,
      hacc.decode_pubkey, fun r hr => absurd hr List.not_mem_nil, rfl⟩

end Floonet.Sqlite
