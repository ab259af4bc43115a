import Floonet.Recorded
import Floonet.Sqlite.Run

/-!
# Replaceable kinds keep the newest event

For each author and replaceable kind the table holds at most one row
(`OneReplaceable`), and once an event of that author and kind was written, a row
that is not older (`Dominated`). Both survive every write: whatever the clean-up
takes, it takes in favour of a newer row. Deletions hide rows, they never remove
them.

An event can also be turned away because its hash is stored. Without hash
collisions the stored row then holds the same event.
-/

namespace Floonet.Sqlite

open Hex (Bytes)

variable {crypto : Crypto} {eng : Sql.Engine} {db : Db} {e : Event} {hash author : Bytes}

/-- The kinds `isReplaceable` holds of. -/
def ReplaceableKind (k : Nat) : Prop := k = 0 ∨ k = 3 ∨ k = 41 ∨ (10000 ≤ k ∧ k < 20000)

/-- Whether an event is replaceable is told by its kind. -/
theorem isReplaceable_of_kind {k : Nat} (hk : ReplaceableKind k) (he : e.kind = k) :
    e.isReplaceable = true := Event.isReplaceable_iff.mpr (he ▸ hk)

/-- At most one row for each author and replaceable kind. -/
def OneReplaceable (db : Db) : Prop :=
  ∀ r ∈ db.events, ∀ s ∈ db.events, r.author = s.author → r.kind = s.kind →
    ReplaceableKind r.kind → r = s

/-- Some row of this author and kind is not older than `t`. -/
def Dominated (db : Db) (author : Bytes) (kind t : Nat) : Prop :=
  ∃ r ∈ db.events, r.author = author ∧ r.kind = kind ∧ t ≤ r.createdAt

/-- After an accepted replaceable event, its own row is the only one of its
author and kind. -/
theorem eq_new_of_not_swept (hacc : Accepts db e hash author) {r : EventRow}
    (hr : r ∈ db.events ∨ r = eventRow db.nextRowid hash author e)
    (hs : swept eng (inserted db e hash author hacc.hash_new) e author r = false)
    (ha : r.author = author) (hk : r.kind = e.kind) (hrep : ReplaceableKind e.kind) :
    r = eventRow db.nextRowid hash author e := by
  by_contra hne
  have hmem := (mem_inserted hacc).mpr hr
  rw [(swept_replaceable hacc (isReplaceable_of_kind hrep rfl) hmem).mpr ⟨hne, hk, ha⟩] at hs
  cases hs

/-- A write keeps one row of each author and kind. -/
theorem OneReplaceable.write (h : OneReplaceable db) : OneReplaceable (write eng db e) := by
  rcases write_cases eng db e with hw | ⟨hash, author, hacc, -, hw⟩
  · rw [hw]
    exact h
  · rw [hw]
    intro r' hr' s' hs' ha hk hrep
    obtain ⟨r, hr, hswr, rfl⟩ := (mem_accepted hacc).mp hr'
    obtain ⟨s, hs, hsws, rfl⟩ := (mem_accepted hacc).mp hs'
    simp only [Db.hideRow_author, Db.hideRow_kind] at ha hk hrep
    rcases hr with hr | rfl <;> rcases hs with hs | rfl
    · rw [h r hr s hs ha hk hrep]
    · rw [eq_new_of_not_swept hacc (Or.inl hr) hswr ha hk (hk.subst hrep)]
    · rw [eq_new_of_not_swept hacc (Or.inl hs) hsws ha.symm hk.symm hrep]
    · rfl

theorem OneReplaceable.apply (h : OneReplaceable db) (op : Op) :
    OneReplaceable (op.apply eng db) := by
  cases op with
  | persistEvent e => exact h.write
  | deleteExpired now =>
    intro r hr s hs
    exact h r (Db.mem_deleteEvents.mp hr).1 s (Db.mem_deleteEvents.mp hs).1
  | createVerificationRecord metadata name now =>
    simpa only [OneReplaceable, Op.apply, createVerificationRecord_events] using h
  | updateVerificationTimestamp id verifTime => exact h
  | failVerification id failTime => exact h
  | deleteVerification id => exact h

/-- In every reachable database. -/
theorem run_oneReplaceable (eng : Sql.Engine) (ops : List Op) : OneReplaceable (run eng ops) :=
  Machine.invariant (fun _ op _ h => h.apply op) (fun _ hr => absurd hr List.not_mem_nil)

/-- An accepted replaceable event leaves its own row. -/
theorem dominated_accepted (hacc : Accepts db e hash author) (hlim : overLimit eng e = false)
    (hrep : ReplaceableKind e.kind) :
    Dominated (write eng db e) author e.kind e.createdAt := by
  have hnew : swept eng (inserted db e hash author hacc.hash_new) e author
      (eventRow db.nextRowid hash author e) = false := by
    by_contra hs
    have hmem := (mem_inserted hacc).mpr (Or.inr rfl)
    exact ((swept_replaceable hacc (isReplaceable_of_kind hrep rfl) hmem).mp
      (by simpa using hs)).1 rfl
  rw [write_of_accepts hacc hlim]
  exact ⟨_, (mem_accepted hacc).mpr ⟨_, Or.inr rfl, hnew, rfl⟩, by simp [eventRow]⟩

/-- Domination survives a write: a row is only swept for a newer one. -/
theorem Dominated.write {k t : Nat} {a : Bytes} (h : Dominated db a k t)
    (hrep : ReplaceableKind k) : Dominated (write eng db e) a k t := by
  obtain ⟨r, hr, ha, hk, ht⟩ := h
  rcases write_cases eng db e with hw | ⟨hash, author, hacc, hlim, hw⟩
  · rw [hw]
    exact ⟨r, hr, ha, hk, ht⟩
  · by_cases hs : swept eng (inserted db e hash author hacc.hash_new) e author r = true
    · obtain ⟨hke, hae, -⟩ := swept_le hs
      have hrep' : ReplaceableKind e.kind := hke ▸ hk ▸ hrep
      have hlt := createdAt_lt_of_accepts hacc (isReplaceable_of_kind hrep' rfl) hr hke hae
      obtain ⟨n, hn, han, hkn, htn⟩ := dominated_accepted hacc hlim hrep'
      exact ⟨n, hn, by rw [han, ← ha, hae], by rw [hkn, ← hk, hke], by omega⟩
    · rw [hw]
      exact ⟨_, (mem_accepted hacc).mpr ⟨r, Or.inl hr, by simpa using hs, rfl⟩, by simpa,
        by simpa, by simpa⟩

/-- A written replaceable event is dominated afterwards, whether it was stored,
refused or a duplicate. -/
theorem dominated_write {es : List Event} (hrows : ∀ r ∈ db.events, ∃ f ∈ es, RowOf f r)
    (hval : ∀ f ∈ es, f.Validated crypto) (hnc : crypto.NoCollision es) (he : e ∈ es)
    (hrep : ReplaceableKind e.kind) (hfit : representable e = true)
    (hpk : Hex.decode e.pubkey = some author) :
    Dominated (write eng db e) author e.kind e.createdAt := by
  have hr := isReplaceable_of_kind hrep rfl
  have hlim : overLimit eng e = false := by
    rw [ReplaceableKind] at hrep
    simp only [overLimit, Bool.and_eq_false_iff, beq_eq_false_iff_ne]
    omega
  obtain ⟨hash, hid, -⟩ := (hval e he).exists_decode_id
  by_cases hs : shadowed db e = true
  · refine Dominated.write ?_ hrep
    simp only [representable, Bool.and_eq_true] at hfit
    rw [shadowed, distinctParam_of_isReplaceable hr, hr, newerReplaceable, hfit.1.1, hfit.1.2,
      hpk] at hs
    simp only [Bool.and_self, Bool.true_and, if_true, Bool.or_false, Bool.not_eq_true',
      List.isEmpty_eq_false_iff_exists_mem, List.mem_filter, Bool.and_eq_true, beq_iff_eq,
      Option.some.injEq, decide_eq_true_eq] at hs
    obtain ⟨r, hr, ⟨ha, hk⟩, ht⟩ := hs
    exact ⟨r, hr, ha, hk, ht⟩
  · rcases accepts_or_stored (by simpa using hs) hfit hid hpk with hacc | ⟨r, hr, hhash⟩
    · exact dominated_accepted hacc hlim hrep
    · -- the stored row holds an event with the same id, so the same event
      refine Dominated.write ?_ hrep
      obtain ⟨f, hf, hrow⟩ := hrows r hr
      have hbody := hrow.sameBody hval hnc hf he (hhash ▸ hid)
      refine ⟨r, hr, ?_, hrow.kind.trans hbody.kind, ?_⟩
      · refine Option.some.inj (hrow.decode_pubkey.symm.trans ?_)
        rw [hbody.pubkey, hpk]
      · rw [hrow.createdAt, hbody.createdAt]

/-- No tag of the event is named `expiration`. -/
def NoExpirationTag (e : Event) : Prop := ∀ tag ∈ e.tags, tag.head? ≠ some "expiration"

/-- An event without the tag does not expire. -/
theorem expiration_eq_none (h : NoExpirationTag e) : e.expiration = none := by
  have hnil : (e.tags.filter fun x => !x.isEmpty).filter
      (fun x => x.head? == some "expiration") = [] := by
    rw [List.filter_eq_nil_iff]
    intro tag htag
    simpa using h tag (List.mem_filter.mp htag).1
  rw [Event.expiration, Event.firstTagValue, hnil]
  rfl

theorem representable_of_replaceable (hrep : ReplaceableKind e.kind) (hexp : NoExpirationTag e)
    (hfit : fitsI64 e.createdAt = true) : representable e = true := by
  have hk : fitsI64 e.kind = true := by
    rw [ReplaceableKind] at hrep
    rw [fitsI64, decide_eq_true_eq]
    omega
  rw [representable, hfit, hk, expiration_eq_none hexp]
  rfl

/-- What holds after every sequence of writes. -/
theorem replaceable_history {es : List Event} (eng : Sql.Engine)
    (hval : ∀ e ∈ es, e.Validated crypto) (hnc : crypto.NoCollision es)
    (hexp : ∀ e ∈ es, NoExpirationTag e) (pre : List Event) (hpre : ∀ e ∈ pre, e ∈ es) :
    OneReplaceable (writes eng pre) ∧ ∀ e ∈ pre, ∀ author, Hex.decode e.pubkey = some author →
      ReplaceableKind e.kind → fitsI64 e.createdAt = true →
      Dominated (writes eng pre) author e.kind e.createdAt := by
  revert hpre
  refine Machine.history (P := fun pre db => (∀ e ∈ pre, e ∈ es) → OneReplaceable db ∧
    ∀ e ∈ pre, ∀ author, Hex.decode e.pubkey = some author → ReplaceableKind e.kind →
      fitsI64 e.createdAt = true → Dominated db author e.kind e.createdAt) ?_ ?_ pre
  · exact fun _ => ⟨fun r hr => absurd hr List.not_mem_nil, fun e he => absurd he List.not_mem_nil⟩
  · intro pre e ih hsub
    have hsub' : ∀ f ∈ pre, f ∈ es := fun f hf => hsub f (List.mem_append_left _ hf)
    obtain ⟨hone, hdom⟩ := ih hsub'
    refine ⟨hone.write, fun f hf author hpk hrep hfit => ?_⟩
    rcases List.mem_append.mp hf with hf | hf
    · exact (hdom f hf author hpk hrep hfit).write hrep
    · obtain rfl := List.mem_singleton.mp hf
      have hfes := hsub f (List.mem_append_right _ (List.mem_singleton_self _))
      have hrows : ∀ r ∈ (writes eng pre).events, ∃ g ∈ es, RowOf g r := by
        intro r hr
        obtain ⟨g, hg, -, hrow⟩ := exists_rowOf hr
        exact ⟨g, hsub' g hg, hrow⟩
      exact dominated_write hrows hval hnc hfes hrep
        (representable_of_replaceable hrep (hexp f hfes) hfit) hpk

/-- **The newest replaceable event wins.** After any sequence of writes of
validated events without expiration tags, an author and replaceable kind that was
written with a bindable time has exactly one row, and its time is the largest
written. -/
theorem newest_replaceable_wins (crypto : Crypto) (eng : Sql.Engine) (es : List Event)
    (hval : ∀ e ∈ es, e.Validated crypto) (hnc : crypto.NoCollision es)
    (hexp : ∀ e ∈ es, NoExpirationTag e) (author : Bytes) (kind : Nat)
    (hkind : ReplaceableKind kind)
    (hsub : ∃ e ∈ es, Hex.decode e.pubkey = some author ∧ e.kind = kind ∧
      fitsI64 e.createdAt = true) :
    ∃ r ∈ (writes eng es).events, r.author = author ∧ r.kind = kind ∧
      (∀ s ∈ (writes eng es).events, s.author = author → s.kind = kind → s = r) ∧
      (∃ e ∈ es, Hex.decode e.pubkey = some author ∧ e.kind = kind ∧
        e.createdAt = r.createdAt) ∧
      ∀ e ∈ es, Hex.decode e.pubkey = some author → e.kind = kind →
        fitsI64 e.createdAt = true → e.createdAt ≤ r.createdAt := by
  obtain ⟨hone, hdom⟩ := replaceable_history eng hval hnc hexp es fun _ h => h
  obtain ⟨e, he, hpk, rfl, hfit⟩ := hsub
  obtain ⟨r, hr, ha, hk, -⟩ := hdom e he author hpk hkind hfit
  have huniq : ∀ s ∈ (writes eng es).events, s.author = author → s.kind = e.kind → s = r :=
    fun s hs has hks => hone s hs r hr (has.trans ha.symm) (hks.trans hk.symm) (hks ▸ hkind)
  refine ⟨r, hr, ha, hk, huniq, ?_, fun f hf hpkf hkf hfitf => ?_⟩
  · obtain ⟨f, hf, -, hrow⟩ := exists_rowOf hr
    exact ⟨f, hf, hrow.decode_pubkey.trans (congrArg some ha), hrow.kind.symm.trans hk,
      hrow.createdAt.symm⟩
  · obtain ⟨s, hs, has, hks, hts⟩ := hdom f hf author hpkf (hkf ▸ hkind) hfitf
    rwa [huniq s hs has (hks.trans hkf)] at hts

/-- A profile. -/
def sampleProfile : Recorded where
  id := 0x0b6da8ddd89feef256f950bff97f3f0f51c3a5e938c4015850414cd3dd0edc3b
  pubkey := 0x5cbdf0646e5db4eaa398f365f2ea7a0e3d419b7e0330e39ce92bddedcac4f9bc
  sigR := 0x4b29eb460ba3e39802d0a24104783e4c020f2656749da61586d77fb484f5e977
  sigS := 0x869025e8b06b77b9e8c89923207c136d7b6ad755ad1c3e6952d773317b9bb87a
  createdAt := 1700000040
  kind := 0
  tags := []
  content := "old"

/-- Its update. -/
def sampleProfileUpdate : Recorded where
  id := 0x38ae7a155f6dea200561e26b2e55dc4cc5f64cf5f9b7522546416ff25122a0d6
  pubkey := 0x5cbdf0646e5db4eaa398f365f2ea7a0e3d419b7e0330e39ce92bddedcac4f9bc
  sigR := 0x6f0ee375bc5c9b4b34eec6eccf5b46b1b358ba3fc5627bbff659c0f8109ff837
  sigS := 0x60ac6e973cc90d875c0a05f045b53173320a36f4693f4e776130954e6a582961
  createdAt := 1700000041
  kind := 0
  tags := []
  content := "new"

/-- The old profile arrives after its update. -/
theorem sampleProfile_newest :
    ∃ r ∈ (writes (Sql.Engine.inOrder 32766)
        [sampleProfileUpdate.event, sampleProfile.event]).events,
      r.author = Hex.ofNat 32 sampleProfile.pubkey ∧ r.kind = 0 ∧
      (∀ s ∈ (writes (Sql.Engine.inOrder 32766)
          [sampleProfileUpdate.event, sampleProfile.event]).events,
        s.author = Hex.ofNat 32 sampleProfile.pubkey → s.kind = 0 → s = r) ∧
      (∃ e ∈ [sampleProfileUpdate.event, sampleProfile.event],
        Hex.decode e.pubkey = some (Hex.ofNat 32 sampleProfile.pubkey) ∧ e.kind = 0 ∧
          e.createdAt = r.createdAt) ∧
      ∀ e ∈ [sampleProfileUpdate.event, sampleProfile.event],
        Hex.decode e.pubkey = some (Hex.ofNat 32 sampleProfile.pubkey) → e.kind = 0 →
          fitsI64 e.createdAt = true → e.createdAt ≤ r.createdAt := by
  have hnd : ([sampleProfileUpdate, sampleProfile].map Recorded.createdAt).Nodup := by decide
  refine newest_replaceable_wins (Recorded.crypto [sampleProfileUpdate, sampleProfile]) _
    [sampleProfileUpdate.event, sampleProfile.event] (Recorded.validated_all hnd)
    (Recorded.noCollision hnd (by decide +kernel)) ?_ _ _ (Or.inl rfl) ?_
  · intro e he tag htag
    simp only [List.mem_cons, List.not_mem_nil, or_false] at he
    rcases he with rfl | rfl <;> cases htag
  · exact ⟨sampleProfile.event, by simp, Recorded.decode_event_pubkey _, rfl, by decide⟩

end Floonet.Sqlite
