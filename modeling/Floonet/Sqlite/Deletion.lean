import Floonet.Sqlite.Run

/-!
# Deletions that came first

An event that arrives after its own deletion is hidden at once. The lookup reads
the tag rows of stored kind-5 events and compares the text of their `e` tags with
the event's id; the events of the table say the same (`deletionRecorded_iff`), and
neither the insert nor the clean-up of the event itself changes the answer.
-/

namespace Floonet.Sqlite

open Hex (Bytes)

variable {eng : Sql.Engine} {db : Db} {e : Event} {hash author : Bytes}

/-- The lookup finds a stored deletion of the author that names the id. -/
theorem deletionRecorded_iff (hcoh : db.Coherent) {id : String} :
    deletionRecorded db author id = true ↔
      ∃ r ∈ db.events, r.author = author ∧ r.kind = 5 ∧ ("e", id) ∈ r.content.searchableTags := by
  simp only [deletionRecorded, List.any_eq_true, Bool.and_eq_true, beq_iff_eq,
    List.contains_iff_mem, List.mem_map, List.mem_filter]
  refine ⟨?_, ?_⟩
  · rintro ⟨r, hr, ha, t, ⟨ht, ⟨hn, hk⟩, hv⟩, hid⟩
    have hmem : t ∈ db.tagsOf r.id := by simp [Db.tagsOf, ht, hid]
    obtain ⟨⟨n, v⟩, hnv, rfl⟩ := (mem_tagsOf hcoh hr).mp hmem
    obtain ⟨rfl, rfl⟩ : n = "e" ∧ v = id := ⟨hn, hv⟩
    exact ⟨r, hr, ha, (hcoh r hr).kind.trans hk, hnv⟩
  · rintro ⟨r, hr, ha, hk, hmem⟩
    have ht := (mem_tagsOf hcoh hr).mpr ⟨_, hmem, rfl⟩
    rw [Db.tagsOf, List.mem_filter] at ht
    exact ⟨r, hr, ha, _, ⟨ht.1, ⟨rfl, (hcoh r hr).kind.symm.trans hk⟩, rfl⟩, rfl⟩

/-- Neither the insert nor the clean-up of another kind touches the recorded
deletions. -/
theorem deletionRecorded_cleaned (hcoh : db.Coherent) (hacc : Accepts db e hash author)
    (hk : e.kind ≠ 5) {id : String} :
    deletionRecorded (cleaned eng (inserted db e hash author hacc.hash_new) e author) author id =
      deletionRecorded db author id := by
  have hcoh' : (cleaned eng (inserted db e hash author hacc.hash_new) e author).Coherent :=
    cleaned_eq ▸ (hcoh.inserted hacc).deleteEvents _
  rw [Bool.eq_iff_iff, deletionRecorded_iff hcoh', deletionRecorded_iff hcoh]
  refine ⟨?_, ?_⟩
  · rintro ⟨r, hr, ha, h5, hmem⟩
    rcases (mem_inserted hacc).mp (mem_cleaned.mp hr).1 with hr | rfl
    · exact ⟨r, hr, ha, h5, hmem⟩
    · exact absurd h5 hk
  · rintro ⟨r, hr, ha, h5, hmem⟩
    refine ⟨r, mem_cleaned.mpr ⟨(mem_inserted hacc).mpr (Or.inl hr), ?_⟩, ha, h5, hmem⟩
    by_contra hs
    exact hk ((swept_le (by simpa using hs)).1.symm.trans h5)

/-- A deletion of this event by its author is recorded, and it counts. -/
def deletedOnArrival (db : Db) (e : Event) (author : Bytes) : Prop :=
  e.kind ≠ 5 ∧ e.kind ≠ 1059 ∧ deletionRecorded db author e.id = true

section Arrival

variable (eng) (hcoh : db.Coherent) (hacc : Accepts db e hash author)

include hcoh hacc

/-- Nothing is reported when the event came after its deletion. -/
theorem reported_eq_zero_iff :
    reported (cleaned eng (inserted db e hash author hacc.hash_new) e author) e author = 0 ↔
      deletedOnArrival db e author := by
  rw [reported, deletedOnArrival]
  by_cases h5 : e.kind = 5
  · simp [h5]
  · rw [deletionRecorded_cleaned hcoh hacc h5]
    split_ifs with h <;> simp [h]

/-- The new row is hidden exactly when a deletion for it is recorded. -/
theorem hides_new_iff :
    hides (cleaned eng (inserted db e hash author hacc.hash_new) e author) e author db.nextRowid
      (eventRow db.nextRowid hash author e) = true ↔ deletedOnArrival db e author := by
  rw [hides, deletedOnArrival]
  by_cases h5 : e.kind = 5
  · simp [h5, deletionTarget, eventRow]
  · rw [if_neg h5, deletionRecorded_cleaned hcoh hacc h5]
    simp [h5, eventRow]

end Arrival

end Floonet.Sqlite
