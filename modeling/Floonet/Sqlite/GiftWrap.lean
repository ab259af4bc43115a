import Floonet.Admission
import Floonet.Recorded
import Floonet.Sqlite.Frame

/-!
# Gift wraps are permanent

A gift wrap carries a payment envelope, so once acknowledged it must stay. Three
things together give that: the admission guard keeps expiration tags out, no
destructive statement of the write path reaches kind 1059, and no stored deletion
hides a wrap on arrival. The first write of an admitted wrap therefore returns 1
whatever is stored, and its row outlives every later call.
-/

namespace Floonet.Sqlite

open Hex (Bytes)

variable {crypto : Crypto} {eng : Sql.Engine} {db : Db} {w : Event} {hash author : Bytes}

/-- The kind of a gift wrap takes part in neither replacement. -/
theorem shadowed_giftWrap (hk : w.kind = GIFT_WRAP_KIND) : shadowed db w = false := by
  have hrep := not_replaceable_of_kind (e := w) (Or.inr hk)
  rw [not_or] at hrep
  have hd : w.distinctParam = none := by
    rw [Event.distinctParam, if_neg hrep.2]
  rw [shadowed, hd]
  simp [hrep.1]

/-- A wrap that is not stored yet is accepted, whatever else is. -/
theorem accepts_giftWrap (hnew : ∀ r ∈ db.events, Hex.decode w.id ≠ some r.eventHash)
    (hw : w.Validated crypto) (hk : w.kind = GIFT_WRAP_KIND) (hfit : fitsI64 w.createdAt = true)
    (hexp : w.expiration = none) : ∃ hash author, Accepts db w hash author := by
  obtain ⟨hash, hhash, -⟩ := hw.exists_decode_id
  obtain ⟨author, hauthor, -⟩ := hw.exists_decode_pubkey
  have hrep : representable w = true := by
    rw [representable, hfit, hexp, hk]
    rfl
  refine ⟨hash, author, shadowed_giftWrap hk, hrep, hhash, hauthor, fun hmem => ?_⟩
  obtain ⟨r, hr, rfl⟩ := List.mem_map.mp hmem
  exact hnew r hr hhash

/-- An accepted wrap is reported and stored visible. -/
theorem write_giftWrap (eng : Sql.Engine) (hacc : Accepts db w hash author)
    (hk : w.kind = GIFT_WRAP_KIND) :
    persistEvent eng db w = .ok (1, write eng db w) ∧
      eventRow db.nextRowid hash author w ∈ (write eng db w).events := by
  have hlim : overLimit eng w = false := by
    rw [overLimit, hk]
    rfl
  have hrep := not_replaceable_of_kind (e := w) (Or.inr hk)
  rw [write_of_accepts hacc hlim]
  refine ⟨?_, ?_⟩
  · rw [persistEvent_of_accepts hacc, hlim]
    simp only [Bool.false_eq_true, if_false]
    rw [reported, if_neg fun h => h.2.1 hk]
  · refine (mem_accepted hacc).mpr ⟨_, Or.inr rfl, ?_, ?_⟩
    · by_contra hs
      exact hrep (swept_le (by simpa using hs)).2.2
    · rw [Db.hideRow, if_neg]
      rw [hides, hk]
      simp [GIFT_WRAP_KIND]

/-- A stored wrap that does not expire outlives every call. -/
theorem mem_apply_giftWrap {r : EventRow} (hr : r ∈ db.events) (hk : r.kind = GIFT_WRAP_KIND)
    (hexp : r.expiresAt = none) (op : Op) : r ∈ (op.apply eng db).events := by
  cases op with
  | persistEvent e => exact mem_write_of_kind hr (Or.inr hk)
  | deleteExpired now => exact Db.mem_deleteEvents.mpr ⟨hr, by simp [hexp]⟩
  | createVerificationRecord metadata name now => simpa [Op.apply] using hr
  | updateVerificationTimestamp id verifTime => exact hr
  | failVerification id failTime => exact hr
  | deleteVerification id => exact hr

/-- No call hides a gift wrap. -/
theorem not_hidden_giftWrap (eng : Sql.Engine) (ops : List Op) :
    ∀ r ∈ (run eng ops).events, r.kind = GIFT_WRAP_KIND → r.hidden = false := by
  refine Machine.invariant
    (P := fun db => ∀ r ∈ Db.events db, r.kind = GIFT_WRAP_KIND → r.hidden = false) ?_ ?_
  · intro db op _ h r hr hk
    cases op with
    | persistEvent e =>
      rcases write_cases eng db e with hw | ⟨hash, author, hacc, -, hw⟩
      · exact h r (hw ▸ hr) hk
      · rw [Op.apply, hw] at hr
        obtain ⟨s, hs, -, rfl⟩ := (mem_accepted hacc).mp hr
        rw [Db.hideRow_kind] at hk
        rw [Db.hideRow_hidden, Bool.or_eq_false_iff, hides]
        rcases hs with hs | rfl
        · refine ⟨h s hs hk, ?_⟩
          split_ifs
          · simp [deletionTarget, hk, GIFT_WRAP_KIND]
          · simp [ne_nextRowid hs]
        · refine ⟨rfl, ?_⟩
          have hke : e.kind = 1059 := hk
          simp [hke]
    | deleteExpired now => exact h r (Db.mem_deleteEvents.mp hr).1 hk
    | createVerificationRecord metadata name now => exact h r (by simpa [Op.apply] using hr) hk
    | updateVerificationTimestamp id verifTime => exact h r hr hk
    | failVerification id failTime => exact h r hr hk
    | deleteVerification id => exact h r hr hk
  · exact fun _ hr => absurd hr List.not_mem_nil

/-- **Gift-wrap permanence.** In every run of validated events and expiry sweeps,
the first write of an admitted gift wrap returns 1 and its row stays: present,
visible and without expiry. -/
theorem giftWrap_permanent (crypto : Crypto) (eng : Sql.Engine)
    (bech32 : String → Option Bytes) (settings : Settings) (authed : Option String)
    (pre post : List Op) (w : Event)
    (hval : ∀ e ∈ written (pre ++ post), e.Validated crypto) (hw : w.Validated crypto)
    (hk : w.kind = GIFT_WRAP_KIND) (hfit : fitsI64 w.createdAt = true)
    (hadm : (Admission.fromSettings bech32 settings).check w authed = .allow)
    (hfirst : ∀ e ∈ written pre, e.id ≠ w.id) :
    (∃ db, persistEvent eng (run eng pre) w = .ok (1, db)) ∧
      ∃ r ∈ (run eng (pre ++ .persistEvent w :: post)).events,
        Hex.decode w.id = some r.eventHash ∧ r.hidden = false ∧ r.expiresAt = none := by
  have hexp := Admission.giftWrap_expiration hk hadm
  have hnew : ∀ r ∈ (run eng pre).events, Hex.decode w.id ≠ some r.eventHash := by
    intro r hr hid
    obtain ⟨e, he, -, hrow⟩ := exists_rowOf_run hr
    have hmem : e ∈ written (pre ++ post) :=
      mem_written.mpr (List.mem_append_left _ (mem_written.mp he))
    exact hfirst e he (hrow.id_eq (hval e hmem) hw hid)
  obtain ⟨hash, author, hacc⟩ := accepts_giftWrap hnew hw hk hfit hexp
  obtain ⟨hret, hmem⟩ := write_giftWrap eng hacc hk
  refine ⟨⟨_, hret⟩, eventRow (run eng pre).nextRowid hash author w, ?_, hacc.decode_id, rfl, hexp⟩
  rw [run, Machine.run_append, Machine.run_cons]
  refine Machine.invariant (P := fun db => _ ∈ Db.events db) ?_ hmem
  exact fun db op _ hin => mem_apply_giftWrap hin hk hexp op

/-! ## A recall that fails -/

/-- A gift wrap. -/
def sampleWrap : Recorded where
  id := 0x1c89fbd0c5f1133f63e5b6a44de4cd4a79582b53a0162d4a73d5d90a0eda70cd
  pubkey := 0x5cbdf0646e5db4eaa398f365f2ea7a0e3d419b7e0330e39ce92bddedcac4f9bc
  sigR := 0x5171ca4374b88588484608e9a9779a97203a352ee2d48a1dac4c276f4e6401a6
  sigS := 0x59139af46685780b437baffe5ff764d20091107bd805eb7114a9bc42d3cfa40f
  createdAt := 1700000000
  kind := 1059
  tags := [["p", "acd484e2f0c7f65309ad178a9f559abde09796974c57e714c35f110dfc27ccbe"]]
  content := "sealed"

/-- A deletion of `sampleWrap` by its author. -/
def sampleRecall : Recorded where
  id := 0xf61e9474234b7de9646452fad45ad397e6ad4a4759107fd208ef37d8278cf7ae
  pubkey := 0x5cbdf0646e5db4eaa398f365f2ea7a0e3d419b7e0330e39ce92bddedcac4f9bc
  sigR := 0x62b03753a15a47bbe5697c44ed6975cd8c71453ca28aa89568781908cababa90
  sigS := 0x7f32b2cba7b1d9e77845d84c2e75752f6d3c2b11ee62d05a7edae9a07a51819d
  createdAt := 1700000001
  kind := 5
  tags := [["e", "1c89fbd0c5f1133f63e5b6a44de4cd4a79582b53a0162d4a73d5d90a0eda70cd"]]
  content := ""

/-- The deletion arrives before the wrap and again after it, and a sweep follows:
the wrap is acknowledged and stays. -/
theorem sampleWrap_permanent :
    (∃ db, persistEvent (Sql.Engine.inOrder 32766)
        (run (Sql.Engine.inOrder 32766) [.persistEvent sampleRecall.event]) sampleWrap.event =
      .ok (1, db)) ∧
    ∃ r ∈ (run (Sql.Engine.inOrder 32766) ([.persistEvent sampleRecall.event] ++
        .persistEvent sampleWrap.event ::
          [.persistEvent sampleRecall.event, .deleteExpired 1800000000])).events,
      Hex.decode sampleWrap.event.id = some r.eventHash ∧ r.hidden = false ∧
        r.expiresAt = none := by
  have hnd : (([sampleWrap, sampleRecall] : List Recorded).map Recorded.createdAt).Nodup := by
    decide
  refine giftWrap_permanent (Recorded.crypto [sampleWrap, sampleRecall]) _ (fun _ => none)
    Settings.default none _ _ _ ?_ ?_ rfl (by decide) (by decide +kernel) ?_
  · intro e he
    have : e = sampleRecall.event := by simpa [written] using he
    rw [this]
    exact Recorded.validated hnd (by simp)
  · exact Recorded.validated hnd (by simp)
  · intro e he
    have : e = sampleRecall.event := by simpa [written] using he
    rw [this, Ne, Recorded.event_id_eq_iff]
    decide +kernel

end Floonet.Sqlite
