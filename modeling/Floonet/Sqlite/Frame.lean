import Floonet.Sqlite.Run

/-!
# What a write leaves alone

A stored row that a write changes either went in the clean-up, and then it has
the event's own author and kind, or it was hidden by a kind-5 event of its author
(`changed_cases`). Everything else in the table is framed off: other authors,
other kinds, and for deletions the deletion events and gift wraps.
-/

namespace Floonet.Sqlite

open Hex (Bytes)

variable {eng : Sql.Engine} {db : Db} {e : Event} {r : EventRow}

/-- **The ways a stored row changes**: swept away by an event of its author and
kind, or hidden by a deletion of its author. -/
theorem changed_cases (hr : r ∈ db.events) (hch : r ∉ (write eng db e).events) :
    Hex.decode e.pubkey = some r.author ∧
      ((r.kind = e.kind ∧ (e.isReplaceable = true ∨ e.isParamReplaceable = true)) ∨
        (e.kind = 5 ∧ r.kind ≠ 5 ∧ r.kind ≠ 1059 ∧
          { r with hidden := true } ∈ (write eng db e).events)) := by
  rcases write_cases eng db e with hw | ⟨hash, author, hacc, -, hw⟩
  · exact absurd (hw.symm ▸ hr) hch
  · rw [hw] at hch ⊢
    by_cases hs : swept eng (inserted db e hash author hacc.hash_new) e author r = true
    · obtain ⟨hk, ha, hrep⟩ := swept_le hs
      exact ⟨by rw [hacc.decode_pubkey, ha], Or.inl ⟨hk, hrep⟩⟩
    · have hin := (mem_accepted hacc).mpr ⟨r, Or.inl hr, by simpa using hs, rfl⟩
      -- the row is still there, so its flag was set
      have hhid : hides (cleaned eng (inserted db e hash author hacc.hash_new) e author) e author
          db.nextRowid r = true := by
        by_contra hno
        rw [Db.hideRow, if_neg hno] at hin
        exact hch hin
      rw [Db.hideRow, if_pos hhid] at hin
      rw [hides] at hhid
      split_ifs at hhid with h5
      · simp only [deletionTarget, Bool.and_eq_true, bne_iff_ne, beq_iff_eq] at hhid
        obtain ⟨⟨⟨h5', h1059⟩, ha⟩, -⟩ := hhid
        exact ⟨by rw [hacc.decode_pubkey, ha], Or.inr ⟨h5, h5', h1059, hin⟩⟩
      · simp only [Bool.and_eq_true, beq_iff_eq] at hhid
        exact absurd hhid.2 (ne_nextRowid hr)

/-- A stored row is gone after a write exactly when the clean-up of an accepted
event took it. -/
theorem deleted_iff (hr : r ∈ db.events) :
    (∀ r' ∈ (write eng db e).events, r'.id ≠ r.id) ↔
      ∃ hash author, ∃ h : Accepts db e hash author, overLimit eng e = false ∧
        swept eng (inserted db e hash author h.hash_new) e author r = true := by
  refine ⟨?_, ?_⟩
  · intro hgone
    rcases write_cases eng db e with hw | ⟨hash, author, hacc, hlim, hw⟩
    · exact absurd rfl (hgone r (hw.symm ▸ hr))
    · refine ⟨hash, author, hacc, hlim, ?_⟩
      by_contra hs
      have hin := (mem_accepted hacc).mpr ⟨r, Or.inl hr, by simpa using hs, rfl⟩
      rw [← hw] at hin
      exact hgone _ hin (Db.hideRow_id _ r)
  · rintro ⟨hash, author, hacc, hlim, hs⟩ r' hr' hid
    rw [write_of_accepts hacc hlim] at hr'
    obtain ⟨s, hs', hsw, rfl⟩ := (mem_accepted hacc).mp hr'
    rw [Db.hideRow_id] at hid
    have hsmem := (mem_inserted hacc).mpr hs'
    obtain rfl := Db.eq_of_id_eq _ hsmem ((mem_inserted hacc).mpr (Or.inl hr)) hid
    rw [hs] at hsw
    cases hsw

/-- Deletions and gift wraps are of no replaceable kind. -/
theorem not_replaceable_of_kind (hk : e.kind = 5 ∨ e.kind = 1059) :
    ¬ (e.isReplaceable = true ∨ e.isParamReplaceable = true) := by
  rw [Event.isReplaceable_iff, Event.isParamReplaceable_iff]
  omega

/-- Deletion events and gift wraps stay as they are under every write. -/
theorem mem_write_of_kind (hr : r ∈ db.events) (hk : r.kind = 5 ∨ r.kind = 1059) :
    r ∈ (write eng db e).events := by
  by_contra hch
  obtain ⟨-, ⟨hke, hrep⟩ | ⟨-, h5, h1059, -⟩⟩ := changed_cases hr hch
  · exact not_replaceable_of_kind (hke ▸ hk) hrep
  · rcases hk with hk | hk
    · exact h5 hk
    · exact h1059 hk

/-- **Author isolation of writes.** A row that a write deletes, hides or changes
in any way has the author of the event, and its kind too unless the event is a
deletion. A deletion removes no row, and leaves rows of kind 5 and 1059 alone. -/
theorem write_isolation (eng : Sql.Engine) (db : Db) (e : Event) :
    (∀ r ∈ db.events, r ∉ (write eng db e).events →
      Hex.decode e.pubkey = some r.author ∧ (e.kind ≠ 5 → r.kind = e.kind)) ∧
    (e.kind = 5 →
      (∀ r ∈ db.events, r.kind = 5 ∨ r.kind = 1059 → r ∈ (write eng db e).events) ∧
      ∀ r ∈ db.events, ∃ r' ∈ (write eng db e).events, r'.id = r.id) := by
  refine ⟨fun r hr hch => ?_, fun h5 => ⟨fun r hr hk => mem_write_of_kind hr hk, fun r hr => ?_⟩⟩
  · obtain ⟨ha, ⟨hk, -⟩ | ⟨h5, -⟩⟩ := changed_cases hr hch
    · exact ⟨ha, fun _ => hk⟩
    · exact ⟨ha, fun hne => absurd h5 hne⟩
  · by_cases hch : r ∈ (write eng db e).events
    · exact ⟨r, hch, rfl⟩
    · obtain ⟨-, ⟨-, hrep⟩ | ⟨-, -, -, hin⟩⟩ := changed_cases hr hch
      · exact absurd hrep (not_replaceable_of_kind (Or.inl h5))
      · exact ⟨_, hin, rfl⟩

end Floonet.Sqlite
