import Floonet.Sqlite.Replaceable
import Floonet.Postgres.Run

/-!
# Replaceable kinds on Postgres keep the newest event

As on SQLite, of each author and replaceable kind there is at most one row (`OneReplaceable`),
and it is not older than any event of them that was written and could be stored (`Dominated`).
Times are compared as the `i64` they are bound as.
-/

namespace Floonet.Postgres

open Hex (Bytes)
open Sqlite (ReplaceableKind isReplaceable_of_kind)

variable {crypto : Crypto} {server : Server} {db : Db} {e : Event} {id pubKey : Bytes}
  {r : EventRow}

/-- At most one row for each author and replaceable kind. -/
def OneReplaceable (db : Db) : Prop :=
  ∀ r ∈ db.events, ∀ s ∈ db.events, r.pubKey = s.pubKey → r.kind = s.kind →
    ∀ k : Nat, r.kind = k → ReplaceableKind k → r = s

/-- Some row of this author and kind is not older than `t`. -/
def Dominated (db : Db) (pubKey : Bytes) (kind : Nat) (t : Int) : Prop :=
  ∃ r ∈ db.events, r.pubKey = pubKey ∧ r.kind = kind ∧ t ≤ r.createdAt

@[simp] theorem Db.hideRow_createdAt (p : EventRow → Bool) (r : EventRow) :
    (Db.hideRow p r).createdAt = r.createdAt := by
  rw [Db.hideRow]
  split_ifs <;> rfl

/-- A replaceable kind is stored as it is. -/
theorem asI64_of_replaceable {k : Nat} (h : ReplaceableKind k) : asI64 k = k :=
  asI64_of_lt (by rw [ReplaceableKind] at h; omega)

/-- What is stored as a replaceable kind is that kind, or of no kind that replaces. -/
theorem kind_eq_of_swept {k : Nat} (hk : r.kind = k)
    (hs : swept server db e pubKey r = true) : e.kind = k := by
  obtain ⟨hke, -, hrep⟩ := swept_le hs
  rw [asI64_of_lt (kind_lt_of_replaceable hrep), hk] at hke
  exact_mod_cast hke.symm

/-- After an accepted replaceable event, its own row is the only one of its author and kind. -/
theorem eq_new_of_not_swept (hacc : Accepts server db e id pubKey)
    (hr : r ∈ db.events ∨ r = newRow e id pubKey)
    (hs : swept server (insertedNew db e id pubKey hacc.id_new) e pubKey r = false)
    (ha : r.pubKey = pubKey) (hk : r.kind = asI64 e.kind) (hrep : ReplaceableKind e.kind) :
    r = newRow e id pubKey := by
  by_contra hne
  have hmem := (mem_insertedNew hacc.id_new).mpr hr
  rw [(swept_replaceable hacc (isReplaceable_of_kind hrep rfl) hmem).mpr ⟨hne, hk, ha⟩] at hs
  cases hs

/-- A kind that is cast to a replaceable one is that one. -/
theorem kind_of_asI64 {k : Nat} (hlt : e.kind < 2 ^ 64) (hk : asI64 e.kind = k)
    (hrep : ReplaceableKind k) : e.kind = k := by
  by_contra hne
  exact asI64_ne hlt (by rw [ReplaceableKind] at hrep; omega) hne hk

/-- A write keeps one row of each author and kind. -/
theorem OneReplaceable.write (h : OneReplaceable db) (hlt : e.kind < 2 ^ 64) :
    OneReplaceable (write server db e) := by
  rcases write_cases server db e with hw | ⟨id, pubKey, hacc, hw⟩
  · rwa [hw]
  · rw [hw]
    intro r' hr' s' hs' ha hk k hrk hrep
    obtain ⟨r, hr, hswr, rfl⟩ := (mem_accepted hacc).mp hr'
    obtain ⟨s, hs, hsws, rfl⟩ := (mem_accepted hacc).mp hs'
    simp only [Db.hideRow_pubKey, Db.hideRow_kind] at ha hk hrk
    rcases hr with hr | rfl <;> rcases hs with hs | rfl
    · rw [h r hr s hs ha hk k hrk hrep]
    · have hke : e.kind = k := kind_of_asI64 hlt (hk.symm.trans hrk) hrep
      rw [eq_new_of_not_swept hacc (.inl hr) hswr ha hk (hke ▸ hrep)]
    · have hke : e.kind = k := kind_of_asI64 hlt hrk hrep
      rw [eq_new_of_not_swept hacc (.inl hs) hsws ha.symm hk.symm (hke ▸ hrep)]
    · rfl

/-- An accepted replaceable event leaves its own row. -/
theorem dominated_accepted (hacc : Accepts server db e id pubKey) (hrep : ReplaceableKind e.kind) :
    Dominated (write server db e) pubKey e.kind (asI64 e.createdAt) := by
  have hnew : swept server (insertedNew db e id pubKey hacc.id_new) e pubKey
      (newRow e id pubKey) = false := by
    by_contra hs
    exact ((swept_replaceable hacc (isReplaceable_of_kind hrep rfl) (newRow_mem hacc.id_new)).mp
      (by simpa using hs)).1 rfl
  rw [write_of_accepts hacc]
  refine ⟨_, (mem_accepted hacc).mpr ⟨_, .inr rfl, hnew, rfl⟩, ?_, ?_, ?_⟩
  · rw [Db.hideRow_pubKey, newRow_pubKey]
  · rw [Db.hideRow_kind, newRow_kind, asI64_of_replaceable hrep]
  · rw [Db.hideRow_createdAt, newRow]

/-- Domination survives a write: a row is only swept for a newer one. -/
theorem Dominated.write {k : Nat} {t : Int} {a : Bytes} (h : Dominated db a k t)
    (hrep : ReplaceableKind k) : Dominated (write server db e) a k t := by
  obtain ⟨r, hr, ha, hk, ht⟩ := h
  rcases write_cases server db e with hw | ⟨id, pubKey, hacc, hw⟩
  · rw [hw]
    exact ⟨r, hr, ha, hk, ht⟩
  · by_cases hs : swept server (insertedNew db e id pubKey hacc.id_new) e pubKey r = true
    · obtain ⟨hke, hae, -⟩ := swept_le hs
      obtain rfl := kind_eq_of_swept hk hs
      have hlt := createdAt_lt_of_not_shadowed hacc.not_shadowed hacc.decode_pubkey
        (isReplaceable_of_kind hrep rfl) hr hke hae
      obtain ⟨n, hn, han, hkn, htn⟩ := dominated_accepted hacc hrep
      exact ⟨n, hn, han.trans (hae.symm.trans ha), hkn, ht.trans (hlt.le.trans htn)⟩
    · rw [hw]
      exact ⟨_, (mem_accepted hacc).mpr ⟨r, .inl hr, by simpa using hs, rfl⟩, by simpa,
        by simpa, by simpa⟩

/-- A replaceable event that could be stored is dominated after it is written, whether it was
stored, refused or a duplicate. -/
theorem dominated_write {es : List Event} (hrows : db.Holds fun f => f ∈ es)
    (hval : ∀ f ∈ es, f.Validated crypto) (hnc : crypto.NoCollision es) (he : e ∈ es)
    (hrep : ReplaceableKind e.kind) (hst : Storable server e)
    (hpk : Hex.decode e.pubkey = some pubKey) :
    Dominated (write server db e) pubKey e.kind (asI64 e.createdAt) := by
  obtain ⟨id, hid, -⟩ := (hval e he).exists_decode_id
  by_cases hnewer : ∀ r ∈ db.events, r.pubKey = pubKey → r.kind = asI64 e.kind →
      r.createdAt < asI64 e.createdAt
  · have hs := not_shadowed_of_newer hst (isReplaceable_of_kind hrep rfl) hpk hnewer
    rcases accepts_or_stored hs hst hid hpk with hacc | ⟨r, hr, rfl⟩
    · exact dominated_accepted hacc hrep
    · -- the stored row holds an event with the same id, so the same event
      obtain ⟨f, hf, hrow⟩ := hrows r hr
      have hbody := Event.Validated.sameBody hnc hf he (hval f hf) (hval e he)
        (hrow.id_eq (hval f hf) (hval e he) hid)
      have ha : r.pubKey = pubKey := by
        refine Option.some.inj (hrow.decode_pubkey.symm.trans ?_)
        rw [hbody.pubkey, hpk]
      have hlt := hnewer r hr ha (by rw [hrow.kind, hbody.kind])
      rw [hrow.createdAt, hbody.createdAt] at hlt
      exact absurd hlt (lt_irrefl _)
  · push Not at hnewer
    obtain ⟨r, hr, ha, hk, ht⟩ := hnewer
    exact Dominated.write ⟨r, hr, ha, hk.trans (asI64_of_replaceable hrep), ht⟩ hrep

/-- What holds after every sequence of writes. -/
theorem replaceable_history {es : List Event} (server : Server)
    (hval : ∀ e ∈ es, e.Validated crypto) (hnc : crypto.NoCollision es)
    (hu64 : ∀ e ∈ es, e.kind < 2 ^ 64) (pre : List Event) (hpre : ∀ e ∈ pre, e ∈ es) :
    OneReplaceable (writes server pre) ∧ ∀ e ∈ pre, ∀ pubKey, Hex.decode e.pubkey = some pubKey →
      ReplaceableKind e.kind → Storable server e →
      Dominated (writes server pre) pubKey e.kind (asI64 e.createdAt) := by
  revert hpre
  refine Machine.history (P := fun pre db => (∀ e ∈ pre, e ∈ es) → OneReplaceable db ∧
    ∀ e ∈ pre, ∀ pubKey, Hex.decode e.pubkey = some pubKey → ReplaceableKind e.kind →
      Storable server e → Dominated db pubKey e.kind (asI64 e.createdAt)) ?_ ?_ pre
  · exact fun _ => ⟨fun r hr => absurd hr List.not_mem_nil, fun e he => absurd he List.not_mem_nil⟩
  · intro pre e ih hsub
    have hsub' : ∀ f ∈ pre, f ∈ es := fun f hf => hsub f (List.mem_append_left _ hf)
    have hes := hsub e (List.mem_append_right _ (List.mem_singleton_self _))
    obtain ⟨hone, hdom⟩ := ih hsub'
    refine ⟨hone.write (hu64 e hes), fun f hf pubKey hpk hrep hst => ?_⟩
    rcases List.mem_append.mp hf with hf | hf
    · exact (hdom f hf pubKey hpk hrep hst).write hrep
    · obtain rfl := List.mem_singleton.mp hf
      refine dominated_write (fun r hr => ?_) hval hnc hes hrep hst hpk
      obtain ⟨g, ⟨hg, -⟩, hrow⟩ := writes_holds server pre r hr
      exact ⟨g, hsub' g hg, hrow⟩

/-- **The newest replaceable event is the one that stays.** After any sequence of writes of
validated events, an author and replaceable kind of which some event could be stored has exactly
one row, and its time is the largest of those that could. -/
theorem one_row_of_replaceable (crypto : Crypto) (server : Server) (es : List Event)
    (hval : ∀ e ∈ es, e.Validated crypto) (hnc : crypto.NoCollision es)
    (hu64 : ∀ e ∈ es, e.kind < 2 ^ 64) (pubKey : Bytes) (kind : Nat) (hkind : ReplaceableKind kind)
    (hsub : ∃ e ∈ es, Hex.decode e.pubkey = some pubKey ∧ e.kind = kind ∧ Storable server e) :
    ∃ r ∈ (writes server es).events, r.pubKey = pubKey ∧ r.kind = kind ∧
      (∀ s ∈ (writes server es).events, s.pubKey = pubKey → s.kind = kind → s = r) ∧
      (∃ e ∈ es, Storable server e ∧ Hex.decode e.pubkey = some pubKey ∧ e.kind = kind ∧
        asI64 e.createdAt = r.createdAt) ∧
      ∀ e ∈ es, Hex.decode e.pubkey = some pubKey → e.kind = kind → Storable server e →
        asI64 e.createdAt ≤ r.createdAt := by
  obtain ⟨hone, hdom⟩ := replaceable_history server hval hnc hu64 es fun _ h => h
  obtain ⟨e, he, hpk, rfl, hst⟩ := hsub
  obtain ⟨r, hr, ha, hk, -⟩ := hdom e he pubKey hpk hkind hst
  have huniq : ∀ s ∈ (writes server es).events, s.pubKey = pubKey → s.kind = e.kind → s = r :=
    fun s hs has hks => hone s hs r hr (has.trans ha.symm) (hks.trans hk.symm) e.kind hks hkind
  refine ⟨r, hr, ha, hk, huniq, ?_, fun f hf hpkf hkf hstf => ?_⟩
  · obtain ⟨f, ⟨hf, hstf⟩, hrow⟩ := writes_holds server es r hr
    exact ⟨f, hf, hstf, hrow.decode_pubkey.trans (congrArg some ha),
      kind_of_asI64 (hu64 f hf) (hrow.kind.symm.trans hk) hkind, hrow.createdAt.symm⟩
  · obtain ⟨s, hs, has, hks, hts⟩ := hdom f hf pubKey hpkf (hkf ▸ hkind) hstf
    rwa [huniq s hs has (by rw [hks, hkf])] at hts

/-- The old profile arrives after its update. -/
theorem sampleProfile_one_row :
    ∃ r ∈ (writes Server.inOrder
        [Sqlite.sampleProfileUpdate.event, Sqlite.sampleProfile.event]).events,
      r.pubKey = Hex.ofNat 32 Sqlite.sampleProfile.pubkey ∧ r.kind = (0 : Nat) ∧
        asI64 Sqlite.sampleProfileUpdate.event.createdAt ≤ r.createdAt := by
  have hnd : ([Sqlite.sampleProfileUpdate, Sqlite.sampleProfile].map Recorded.createdAt).Nodup := by
    decide
  have hst : Storable Server.inOrder Sqlite.sampleProfileUpdate.event :=
    ⟨⟨1700000041, by decide, by decide⟩, fun _ h => (by cases h), by decide,
      fun _ _ _ ht => (by cases ht), fun h => (by cases h)⟩
  have hpk := Recorded.decode_event_pubkey Sqlite.sampleProfileUpdate
  have hmem : Sqlite.sampleProfileUpdate.event ∈
      [Sqlite.sampleProfileUpdate.event, Sqlite.sampleProfile.event] := List.mem_cons_self ..
  obtain ⟨r, hr, ha, hk, -, -, hmax⟩ := one_row_of_replaceable
    (Recorded.crypto [Sqlite.sampleProfileUpdate, Sqlite.sampleProfile]) Server.inOrder
    [Sqlite.sampleProfileUpdate.event, Sqlite.sampleProfile.event] (Recorded.validated_all hnd)
    (Recorded.noCollision hnd (by decide +kernel))
    (by
      intro e he
      simp only [List.mem_cons, List.not_mem_nil, or_false] at he
      rcases he with rfl | rfl <;> exact Nat.pos_of_ne_zero (by decide))
    _ 0 (.inl rfl) ⟨_, hmem, hpk, rfl, hst⟩
  exact ⟨r, hr, ha, hk, hmax _ hmem hpk rfl hst⟩

end Floonet.Postgres
