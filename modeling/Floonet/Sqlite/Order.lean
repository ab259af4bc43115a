import Floonet.Lib.Arrival
import Floonet.Recorded
import Floonet.Sqlite.Deletion
import Floonet.Sqlite.Frame
import Floonet.Sqlite.Replaceable

/-!
# Arrival order

The same events written in another order should leave the same visible events.
For a set of events with distinct ids and without parameterized kinds, the table
at the end of any order has a closed form. Which events have a row depends on the
set only (`exists_row_iff`): those that can be stored and are the newest of their
author and kind, where that matters. Which rows are hidden depends on the order
(`hidden_iff`): a deletion that comes later compares hashes, one that came
earlier is looked up by the text of its tag.

The text of an id names its hash, but hex in the other case names the hash too.
So the order matters exactly when some event is named by a deletion of its author
in hex that is never its id (`orderIndependent_iff`).
-/

namespace Floonet.Sqlite

open Hex (Bytes)
open Arrival (Before)

variable {crypto : Crypto} {eng : Sql.Engine} {es pre : List Event} {e x : Event}

/-- The events whose order is in question. -/
structure Submission (crypto : Crypto) (es : List Event) : Prop where
  validated : ∀ e ∈ es, e.Validated crypto
  /-- the ids are distinct -/
  id_nodup : (es.map Event.id).Nodup
  not_param : ∀ e ∈ es, e.isParamReplaceable = false
  no_expiration : ∀ e ∈ es, NoExpirationTag e
  /-- times are distinct among events of one author and replaceable kind -/
  times : ∀ e ∈ es, ∀ f ∈ es, Hex.decode e.pubkey = Hex.decode f.pubkey → e.kind = f.kind →
    e.isReplaceable = true → e.createdAt = f.createdAt → e = f

namespace Submission

/-- Another order of a submission is one too. -/
theorem perm (h : Submission crypto es) (hp : pre.Perm es) : Submission crypto pre where
  validated e he := h.validated e (hp.mem_iff.mp he)
  id_nodup := (hp.map _).nodup_iff.mpr h.id_nodup
  not_param e he := h.not_param e (hp.mem_iff.mp he)
  no_expiration e he := h.no_expiration e (hp.mem_iff.mp he)
  times e he f hf := h.times e (hp.mem_iff.mp he) f (hp.mem_iff.mp hf)

theorem init (h : Submission crypto (pre ++ [e])) : Submission crypto pre where
  validated f hf := h.validated f (List.mem_append_left _ hf)
  id_nodup := by
    have := h.id_nodup
    rw [List.map_append] at this
    exact List.Nodup.of_append_left this
  not_param f hf := h.not_param f (List.mem_append_left _ hf)
  no_expiration f hf := h.no_expiration f (List.mem_append_left _ hf)
  times f hf g hg := h.times f (List.mem_append_left _ hf) g (List.mem_append_left _ hg)

theorem eq_of_id (h : Submission crypto es) {f : Event} (he : e ∈ es) (hf : f ∈ es)
    (hid : e.id = f.id) : e = f :=
  List.inj_on_of_nodup_map h.id_nodup he hf hid

/-- The last event is a new one. -/
theorem last_notMem (h : Submission crypto (pre ++ [e])) : e ∉ pre := by
  have := h.id_nodup
  rw [List.map_append, List.nodup_append] at this
  exact fun he => this.2.2 _ (List.mem_map_of_mem he) _ (List.mem_singleton_self _) rfl

theorem noCollision (h : Submission crypto es) : crypto.NoCollision es := by
  intro e he f hf hdig
  obtain ⟨c, -, hc, hid, -⟩ := (h.validated e he).inv
  obtain ⟨d, -, hd, hid', -⟩ := (h.validated f hf).inv
  rw [hc, hd, Option.map_some, Option.map_some, Option.some.injEq] at hdig
  rw [h.eq_of_id he hf (by rw [hid, hid', hdig])]

/-- A row holds one event of the list. -/
theorem rowOf_unique (h : Submission crypto es) {f : Event} {r : EventRow} (he : e ∈ es)
    (hf : f ∈ es) (hre : RowOf e r) (hrf : RowOf f r) : e = f :=
  h.eq_of_id he hf (hre.id_eq (h.validated e he) (h.validated f hf) hrf.decode_id)

/-- Its hash is not stored when an event arrives. -/
theorem hash_new (h : Submission crypto (pre ++ [e])) {r : EventRow}
    (hr : r ∈ (writes eng pre).events) : Hex.decode e.id ≠ some r.eventHash := by
  intro hid
  obtain ⟨f, hf, -, hrow⟩ := exists_rowOf hr
  have hfe := List.mem_append_left [e] hf
  have hee : e ∈ pre ++ [e] := List.mem_append_right _ (List.mem_singleton_self _)
  have := h.eq_of_id hfe hee (hrow.id_eq (h.validated f hfe) (h.validated e hee) hid)
  exact h.last_notMem (this ▸ hf)

/-- An event of no replaceable kind is accepted if it can be stored. -/
theorem accepts (h : Submission crypto (pre ++ [e])) (hst : storable eng e = true)
    (hnr : e.isReplaceable = false) :
    ∃ hash author, Accepts (writes eng pre) e hash author := by
  have hee : e ∈ pre ++ [e] := List.mem_append_right _ (List.mem_singleton_self _)
  obtain ⟨hash, hid, -⟩ := (h.validated e hee).exists_decode_id
  obtain ⟨author, hpk, -⟩ := (h.validated e hee).exists_decode_pubkey
  have hd : e.distinctParam = none := by
    rw [Event.distinctParam, h.not_param e hee]
    rfl
  refine ⟨hash, author, ?_, (storable_iff.mp hst).1, hid, hpk, fun hmem => ?_⟩
  · rw [shadowed, hd, hnr]
    rfl
  · obtain ⟨r, hr, rfl⟩ := List.mem_map.mp hmem
    exact h.hash_new hr hid

/-- Recorded events with distinct times and ids. -/
theorem recorded (rs : List Recorded) (hnd : (rs.map Recorded.createdAt).Nodup)
    (hid : (rs.map fun r => Hex.ofNat 32 r.id).Nodup)
    (hparam : ∀ r ∈ rs, r.event.isParamReplaceable = false)
    (hexp : ∀ r ∈ rs, ∀ tag ∈ r.tags, tag.head? ≠ some "expiration") :
    Submission (Recorded.crypto rs) (rs.map Recorded.event) where
  validated := Recorded.validated_all hnd
  id_nodup := Recorded.event_id_nodup hid
  not_param := List.forall_mem_map.mpr hparam
  no_expiration := List.forall_mem_map.mpr hexp
  times := by
    intro e he f hf _ _ _ hc
    obtain ⟨r, hr, rfl⟩ := List.mem_map.mp he
    obtain ⟨s, hs, rfl⟩ := List.mem_map.mp hf
    rw [List.inj_on_of_nodup_map hnd hr hs hc]

end Submission

/-! ## Which events have a row

A row leaves the table only for a newer event of its author and replaceable kind. Which of them is
the newest does not depend on the order. -/

/-- The event can be stored, and nothing newer replaces it. -/
structure Kept (eng : Sql.Engine) (es : List Event) (x : Event) : Prop where
  mem : x ∈ es
  storable : storable eng x = true
  newest : x.isReplaceable = true → ∀ y ∈ es, Sqlite.storable eng y = true →
    Hex.decode y.pubkey = Hex.decode x.pubkey → y.kind = x.kind → y.createdAt ≤ x.createdAt

/-- What is kept does not depend on the order. -/
theorem Kept.perm (h : Kept eng es x) (hp : pre.Perm es) : Kept eng pre x where
  mem := hp.mem_iff.mpr h.mem
  storable := h.storable
  newest hr y hy := h.newest hr y (hp.mem_iff.mp hy)

/-- A hidden row is still the event's. -/
theorem RowOf.hide {r : EventRow} (h : RowOf x r) (p : EventRow → Bool) :
    RowOf x (Db.hideRow p r) := by
  refine ⟨?_, ?_, ?_, ?_, ?_⟩ <;>
    simp [h.content, h.decode_id, h.decode_pubkey, h.createdAt, h.kind]

theorem RowOf.of_hide {r : EventRow} {p : EventRow → Bool} (h : RowOf x (Db.hideRow p r)) :
    RowOf x r := by
  obtain ⟨h1, h2, h3, h4, h5⟩ := h
  simp only [Db.hideRow_content, Db.hideRow_eventHash, Db.hideRow_author, Db.hideRow_createdAt,
    Db.hideRow_kind] at h1 h2 h3 h4 h5
  exact ⟨h1, h2, h3, h4, h5⟩

theorem rowOf_new {db : Db} {hash author : Bytes} (hacc : Accepts db e hash author) :
    RowOf e (eventRow db.nextRowid hash author e) :=
  ⟨rfl, hacc.decode_id, hacc.decode_pubkey, rfl, rfl⟩

theorem isReplaceable_congr (h : x.kind = e.kind) : x.isReplaceable = e.isReplaceable := by
  rw [Event.isReplaceable, h, Event.isReplaceable]

theorem isParamReplaceable_congr (h : x.kind = e.kind) :
    x.isParamReplaceable = e.isParamReplaceable := by
  rw [Event.isParamReplaceable, h, Event.isParamReplaceable]

/-- An accepted event of no replaceable kind has a row. -/
theorem exists_row_new {db : Db} {hash author : Bytes} (hacc : Accepts db e hash author)
    (hlim : overLimit eng e = false) (hnr : e.isReplaceable = false)
    (hnp : e.isParamReplaceable = false) : ∃ r ∈ (write eng db e).events, RowOf e r := by
  rw [write_of_accepts hacc hlim]
  refine ⟨_, (mem_accepted hacc).mpr ⟨_, Or.inr rfl, ?_, rfl⟩, (rowOf_new hacc).hide _⟩
  by_contra hs
  have := (swept_le (by simpa using hs)).2.2
  simp [hnr, hnp] at this

/-- The row of an event of no replaceable kind survives a write. -/
theorem RowOf.write {db : Db} {r : EventRow} (h : RowOf x r) (hr : r ∈ db.events)
    (hnr : x.isReplaceable = false) (hnp : x.isParamReplaceable = false) :
    ∃ r ∈ (write eng db e).events, RowOf x r := by
  by_cases hch : r ∈ (Sqlite.write eng db e).events
  · exact ⟨r, hch, h⟩
  · obtain ⟨-, ⟨hk, hrep⟩ | ⟨-, -, -, hin⟩⟩ := changed_cases hr hch
    · have hk' : e.kind = x.kind := hk.symm.trans h.kind
      rw [isReplaceable_congr hk', isParamReplaceable_congr hk', hnr, hnp] at hrep
      simp at hrep
    · exact ⟨_, hin, ⟨h.content, h.decode_id, h.decode_pubkey, h.createdAt, h.kind⟩⟩

/-- An event of no replaceable kind keeps its row to the end. -/
theorem exists_row_of_not_replaceable (eng : Sql.Engine) (es : List Event) :
    Submission crypto es → ∀ x ∈ es, storable eng x = true → x.isReplaceable = false →
      ∃ r ∈ (writes eng es).events, RowOf x r := by
  refine Machine.history (P := fun es db => Submission crypto es → ∀ x ∈ es,
    storable eng x = true → x.isReplaceable = false → ∃ r ∈ Db.events db, RowOf x r) ?_ ?_ es
  · exact fun _ x hx => absurd hx List.not_mem_nil
  · intro pre e ih hs x hx hst hnr
    have hnp := hs.not_param x hx
    rcases List.mem_append.mp hx with hx | hx
    · obtain ⟨r, hr, hrow⟩ := ih hs.init x hx hst hnr
      exact hrow.write hr hnr hnp
    · obtain rfl := List.mem_singleton.mp hx
      obtain ⟨hash, author, hacc⟩ := hs.accepts hst hnr
      exact exists_row_new hacc (storable_iff.mp hst).2 hnr hnp

theorem fitsI64_of_storable (h : storable eng x = true) : fitsI64 x.createdAt = true := by
  have := (storable_iff.mp h).1
  simp only [representable, Bool.and_eq_true] at this
  exact this.1.1

section Rows

variable (hs : Submission crypto es)

include hs

/-- Of each author and replaceable kind there is one row, and it is not older
than anything written. -/
theorem createdAt_le_row {r : EventRow} (hr : r ∈ (writes eng es).events) {y : Event}
    (hy : y ∈ es) (hst : storable eng y = true) (hpk : Hex.decode y.pubkey = some r.author)
    (hk : r.kind = y.kind) (hrep : y.isReplaceable = true) : y.createdAt ≤ r.createdAt := by
  obtain ⟨hone, hdom⟩ := replaceable_history eng hs.validated hs.noCollision hs.no_expiration es
    fun _ h => h
  have hkind : ReplaceableKind y.kind := Event.isReplaceable_iff.mp hrep
  obtain ⟨r', hr', ha', hk', ht'⟩ := hdom y hy r.author hpk hkind (fitsI64_of_storable hst)
  rwa [hone r' hr' r hr ha' (hk'.trans hk.symm) (hk' ▸ hkind)] at ht'

/-- An event with a row is kept. -/
theorem kept_of_rowOf {r : EventRow} (hr : r ∈ (writes eng es).events) (hx : x ∈ es)
    (hst : storable eng x = true) (hrow : RowOf x r) : Kept eng es x where
  mem := hx
  storable := hst
  newest hrep y hy hsty hpk hk := by
    have hrep' : y.isReplaceable = true := isReplaceable_congr hk ▸ hrep
    have hle := createdAt_le_row hs hr hy hsty (hpk.trans hrow.decode_pubkey)
      (hrow.kind.trans hk.symm) hrep'
    rwa [hrow.createdAt] at hle

/-- An event that is kept has a row. -/
theorem exists_row_of_kept (hk : Kept eng es x) : ∃ r ∈ (writes eng es).events, RowOf x r := by
  by_cases hrep : x.isReplaceable = true
  · have hkind : ReplaceableKind x.kind := Event.isReplaceable_iff.mp hrep
    obtain ⟨author, hpk, -⟩ := (hs.validated x hk.mem).exists_decode_pubkey
    obtain ⟨-, hdom⟩ := replaceable_history eng hs.validated hs.noCollision hs.no_expiration es
      fun _ h => h
    obtain ⟨r, hr, ha, hkr, ht⟩ := hdom x hk.mem author hpk hkind (fitsI64_of_storable hk.storable)
    obtain ⟨y, hy, hsty, hrow⟩ := exists_rowOf hr
    -- the row is as new as `x`, so it is its own
    have hpky : Hex.decode y.pubkey = Hex.decode x.pubkey := by
      rw [hrow.decode_pubkey, ha, hpk]
    have hky : y.kind = x.kind := hrow.kind.symm.trans hkr
    have hle := hk.newest hrep y hy hsty hpky hky
    rw [hrow.createdAt] at ht
    have hrep' : y.isReplaceable = true := isReplaceable_congr hky ▸ hrep
    rw [← hs.times y hy x hk.mem hpky hky hrep' (Nat.le_antisymm hle ht)]
    exact ⟨r, hr, hrow⟩
  · exact exists_row_of_not_replaceable eng es hs x hk.mem hk.storable (by simpa using hrep)

/-- **Which events have a row**, whatever the order. -/
theorem exists_row_iff (hx : x ∈ es) :
    (∃ r ∈ (writes eng es).events, RowOf x r) ↔ Kept eng es x := by
  refine ⟨?_, ?_⟩
  · rintro ⟨r, hr, hrow⟩
    obtain ⟨y, hy, hst, hrow'⟩ := exists_rowOf hr
    obtain rfl := hs.rowOf_unique hx hy hrow hrow'
    exact kept_of_rowOf hs hr hx hst hrow
  · exact exists_row_of_kept hs

end Rows

/-! ## Which rows are hidden -/

/-- A stored deletion by the author of `x`. -/
structure DeletionBy (eng : Sql.Engine) (d x : Event) : Prop where
  kind : d.kind = 5
  storable : storable eng d = true
  author : Hex.decode d.pubkey = Hex.decode x.pubkey

/-- An `e` tag of `d` is the id of `x`. -/
def NamesText (d x : Event) : Prop := ("e", x.id) ∈ d.searchableTags

/-- An `e` tag of `d` is hex for the hash of `x`. -/
def NamesHash (d x : Event) : Prop := ∃ hash ∈ deletionHashes d, Hex.decode x.id = some hash

/-- Deletions and gift wraps cannot be deleted. -/
def Deletable (x : Event) : Prop := x.kind ≠ 5 ∧ x.kind ≠ 1059

/-- In this order, a deletion of `x` came first and has its id, or came later and
has its hash. -/
def HiddenIn (eng : Sql.Engine) (es : List Event) (x : Event) : Prop :=
  Deletable x ∧ ∃ d, DeletionBy eng d x ∧
    ((Before es d x ∧ NamesText d x) ∨ (Before es x d ∧ NamesHash d x))

/-- The text of a validated id is hex for its hash. -/
theorem namesHash_of_namesText {d : Event} (hx : x.Validated crypto) (h : NamesText d x) :
    NamesHash d x := by
  obtain ⟨hash, hid, -⟩ := hx.exists_decode_id
  refine ⟨hash, ?_, hid⟩
  have hval : x.id ∈ d.tagValuesByName "e" := (Event.mem_tagValuesByName (by decide)).mpr h
  simp only [deletionHashes, List.mem_filterMap, List.mem_filter, Bool.and_eq_true, beq_iff_eq]
  exact ⟨x.id, ⟨hval, isHex_of_isLowerHex hx.isLowerHex_id, hx.byteLen_id⟩, hid⟩

/-- One more write hides `x` when it is a deletion of it. -/
theorem hiddenIn_concat (hne : x ≠ e) (hx : x ∈ pre) :
    HiddenIn eng (pre ++ [e]) x ↔
      HiddenIn eng pre x ∨ (Deletable x ∧ DeletionBy eng e x ∧ NamesHash e x) := by
  simp only [HiddenIn, Arrival.before_concat]
  refine ⟨?_, ?_⟩
  · rintro ⟨hdel, d, hd, ⟨hb | ⟨-, hxe⟩, ht⟩ | ⟨hb | ⟨-, rfl⟩, hh⟩⟩
    · exact Or.inl ⟨hdel, d, hd, Or.inl ⟨hb, ht⟩⟩
    · exact absurd hxe hne
    · exact Or.inl ⟨hdel, d, hd, Or.inr ⟨hb, hh⟩⟩
    · exact Or.inr ⟨hdel, hd, hh⟩
  · rintro (⟨hdel, d, hd, ⟨hb, ht⟩ | ⟨hb, hh⟩⟩ | ⟨hdel, hd, hh⟩)
    · exact ⟨hdel, d, hd, Or.inl ⟨Or.inl hb, ht⟩⟩
    · exact ⟨hdel, d, hd, Or.inr ⟨Or.inl hb, hh⟩⟩
    · exact ⟨hdel, e, hd, Or.inr ⟨Or.inr ⟨hx, rfl⟩, hh⟩⟩

/-- The last write is hidden by the deletions before it. -/
theorem hiddenIn_last (he : e ∉ pre) :
    HiddenIn eng (pre ++ [e]) e ↔
      Deletable e ∧ ∃ d ∈ pre, DeletionBy eng d e ∧ NamesText d e := by
  simp only [HiddenIn, Arrival.before_concat]
  refine ⟨?_, ?_⟩
  · rintro ⟨hdel, d, hd, ⟨hb | ⟨hmem, -⟩, ht⟩ | ⟨hb | ⟨hmem, -⟩, -⟩⟩
    · exact absurd hb.mem_right he
    · exact ⟨hdel, d, hmem, hd, ht⟩
    · exact absurd hb.mem_left he
    · exact absurd hmem he
  · rintro ⟨hdel, d, hmem, hd, ht⟩
    exact ⟨hdel, d, hd, Or.inl ⟨Or.inr ⟨hmem, trivial⟩, ht⟩⟩

/-- The lookup on arrival finds the deletions written before. -/
theorem deletedOnArrival_iff {author : Bytes} (hs : Submission crypto (pre ++ [e]))
    (hpk : Hex.decode e.pubkey = some author) :
    deletedOnArrival (writes eng pre) e author ↔
      Deletable e ∧ ∃ d ∈ pre, DeletionBy eng d e ∧ NamesText d e := by
  rw [deletedOnArrival, deletionRecorded_iff (writes_coherent eng pre), Deletable, and_assoc]
  refine and_congr_right fun _ => and_congr_right fun _ => ?_
  refine ⟨?_, ?_⟩
  · rintro ⟨r, hr, ha, h5, hmem⟩
    obtain ⟨d, hd, hst, hrow⟩ := exists_rowOf hr
    rw [hrow.content] at hmem
    exact ⟨d, hd, ⟨hrow.kind.symm.trans h5, hst, by rw [hrow.decode_pubkey, ha, hpk]⟩, hmem⟩
  · rintro ⟨d, hd, hdel, ht⟩
    have hnr : d.isReplaceable = false := by
      rw [Event.isReplaceable, hdel.kind]
      rfl
    obtain ⟨r, hr, hrow⟩ := exists_row_of_not_replaceable eng pre hs.init d hd hdel.storable hnr
    refine ⟨r, hr, ?_, hrow.kind.trans hdel.kind, ?_⟩
    · exact Option.some.inj (hrow.decode_pubkey.symm.trans (hdel.author.trans hpk))
    · rw [hrow.content]
      exact ht

/-- What an accepted event hides among the rows stored before. -/
theorem hides_old_iff {db : Db} {hash author : Bytes} (hacc : Accepts db e hash author)
    (hlim : overLimit eng e = false) {c : Db} {r : EventRow} (hr : r ∈ db.events)
    (hrow : RowOf x r) :
    hides c e author db.nextRowid r = true ↔ Deletable x ∧ DeletionBy eng e x ∧ NamesHash e x := by
  have hst : storable eng e = true := storable_iff.mpr ⟨hacc.representable, hlim⟩
  rw [hides]
  split_ifs with h5
  · simp only [deletionTarget, Bool.and_eq_true, bne_iff_ne, beq_iff_eq, List.contains_iff_mem,
      hrow.kind]
    refine ⟨?_, ?_⟩
    · rintro ⟨⟨hdel, ha⟩, hmem⟩
      exact ⟨hdel, ⟨h5, hst, by rw [hacc.decode_pubkey, hrow.decode_pubkey, ha]⟩, _, hmem,
        hrow.decode_id⟩
    · rintro ⟨hdel, hd, hash', hmem, hid⟩
      have ha := hd.author
      rw [hacc.decode_pubkey, hrow.decode_pubkey, Option.some.injEq] at ha
      rw [hrow.decode_id, Option.some.injEq] at hid
      exact ⟨⟨hdel, ha.symm⟩, hid ▸ hmem⟩
  · simp only [Bool.and_eq_true, beq_iff_eq]
    exact ⟨fun h => absurd h.2 (ne_nextRowid hr), fun h => absurd h.2.1.kind h5⟩

/-- **Which rows are hidden**, in the order the events came. -/
theorem hidden_iff (eng : Sql.Engine) (es : List Event) :
    Submission crypto es → ∀ r ∈ (writes eng es).events, ∀ x ∈ es, RowOf x r →
      (r.hidden = true ↔ HiddenIn eng es x) := by
  refine Machine.history (P := fun es db => Submission crypto es → ∀ r ∈ Db.events db, ∀ x ∈ es,
    RowOf x r → (r.hidden = true ↔ HiddenIn eng es x)) ?_ ?_ es
  · exact fun _ r hr => absurd hr List.not_mem_nil
  · intro pre e ih hs r hr x hx hrow
    have hee : e ∈ pre ++ [e] := List.mem_append_right _ (List.mem_singleton_self _)
    -- a row that was stored before holds one of the events before
    have hold : ∀ s ∈ (writes eng pre).events, RowOf x s → x ∈ pre ∧ x ≠ e := by
      intro s hs' hrows
      obtain ⟨y, hy, -, hrowy⟩ := exists_rowOf hs'
      obtain rfl := hs.rowOf_unique hx (List.mem_append_left _ hy) hrows hrowy
      exact ⟨hy, fun hxe => hs.last_notMem (hxe ▸ hy)⟩
    by_cases hacc : ∃ hash author, Accepts (writes eng pre) e hash author ∧
        overLimit eng e = false
    · obtain ⟨hash, author, hacc, hlim⟩ := hacc
      rw [← writes, write_of_accepts hacc hlim] at hr
      obtain ⟨s, hs', -, rfl⟩ := (mem_accepted hacc).mp hr
      rw [Db.hideRow_hidden, Bool.or_eq_true]
      rcases hs' with hs' | rfl
      · obtain ⟨hxp, hne⟩ := hold s hs' hrow.of_hide
        rw [ih hs.init s hs' x hxp hrow.of_hide, hides_old_iff hacc hlim hs' hrow.of_hide,
          hiddenIn_concat hne hxp]
      · obtain rfl := hs.rowOf_unique hx hee hrow.of_hide (rowOf_new hacc)
        rw [hides_new_iff eng (writes_coherent eng pre) hacc,
          deletedOnArrival_iff hs hacc.decode_pubkey, hiddenIn_last hs.last_notMem]
        simp [eventRow]
    · -- nothing was written, and a deletion would have been
      have hw : write eng (writes eng pre) e = writes eng pre := by
        rcases write_cases eng (writes eng pre) e with hw | ⟨hash, author, h, hlim, -⟩
        · exact hw
        · exact absurd ⟨hash, author, h, hlim⟩ hacc
      rw [← writes, hw] at hr
      obtain ⟨hxp, hne⟩ := hold r hr hrow
      rw [ih hs.init r hr x hxp hrow, hiddenIn_concat hne hxp]
      refine ⟨Or.inl, fun h => h.resolve_right fun hlast => hacc ?_⟩
      obtain ⟨-, hdel, -⟩ := hlast
      have hnr : e.isReplaceable = false := by
        rw [Event.isReplaceable, hdel.kind]
        rfl
      obtain ⟨hash, author, h⟩ := hs.accepts hdel.storable hnr
      exact ⟨hash, author, h, (storable_iff.mp hdel.storable).2⟩

/-! ## When the order does not matter

All orders hide the same rows when each kept event that a deletion names in hex is also named by
the text of its id. -/

/-- The visible events. -/
def visible (db : Db) : Set Event := { x | ∃ r ∈ db.events, r.hidden = false ∧ r.content = x }

/-- Any two orders of the events leave the same visible events. -/
def OrderIndependent (eng : Sql.Engine) (es : List Event) : Prop :=
  ∀ es₁ es₂, es₁.Perm es → es₂.Perm es → visible (writes eng es₁) = visible (writes eng es₂)

/-- Every stored event that a deletion of its author names in hex, in either
case, is named by some deletion of its author with its id. -/
def NamedExactly (eng : Sql.Engine) (es : List Event) : Prop :=
  ∀ x, Kept eng es x → Deletable x → (∃ d ∈ es, DeletionBy eng d x ∧ NamesHash d x) →
    ∃ d ∈ es, DeletionBy eng d x ∧ NamesText d x

/-- The visible events at the end of an order. -/
theorem mem_visible (hs : Submission crypto es) {y : Event} :
    y ∈ visible (writes eng es) ↔
      ∃ x, Kept eng es x ∧ ¬ HiddenIn eng es x ∧ x.serialized = y := by
  refine ⟨?_, ?_⟩
  · rintro ⟨r, hr, hvis, rfl⟩
    obtain ⟨x, hx, -, hrow⟩ := exists_rowOf hr
    refine ⟨x, (exists_row_iff hs hx).mp ⟨r, hr, hrow⟩, fun hh => ?_, hrow.content.symm⟩
    rw [(hidden_iff eng es hs r hr x hx hrow).mpr hh] at hvis
    cases hvis
  · rintro ⟨x, hk, hh, rfl⟩
    obtain ⟨r, hr, hrow⟩ := (exists_row_iff hs hk.mem).mpr hk
    refine ⟨r, hr, ?_, hrow.content⟩
    by_contra hvis
    exact hh ((hidden_iff eng es hs r hr x hk.mem hrow).mp (by simpa using hvis))

/-- With every named event named exactly, hiding does not depend on the order. -/
theorem hiddenIn_perm_iff (hs : Submission crypto es) (hn : NamedExactly eng es)
    (hk : Kept eng es x) (hp : pre.Perm es) :
    HiddenIn eng pre x ↔ Deletable x ∧ ∃ d ∈ es, DeletionBy eng d x ∧ NamesText d x := by
  refine ⟨?_, ?_⟩
  · rintro ⟨hdel, d, hd, ⟨hb, ht⟩ | ⟨hb, hh⟩⟩
    · exact ⟨hdel, d, hp.mem_iff.mp hb.mem_left, hd, ht⟩
    · exact ⟨hdel, hn x hk hdel ⟨d, hp.mem_iff.mp hb.mem_right, hd, hh⟩⟩
  · rintro ⟨hdel, d, hmem, hd, ht⟩
    have hne : d ≠ x := fun h => hdel.1 (h ▸ hd.kind)
    rcases Arrival.before_total (hp.mem_iff.mpr hmem) (hp.mem_iff.mpr hk.mem) hne with hb | hb
    · exact ⟨hdel, d, hd, Or.inl ⟨hb, ht⟩⟩
    · exact ⟨hdel, d, hd, Or.inr ⟨hb, namesHash_of_namesText (hs.validated x hk.mem) ht⟩⟩

theorem visible_perm (hs : Submission crypto es) (hn : NamedExactly eng es) (hp : pre.Perm es)
    {y : Event} : y ∈ visible (writes eng pre) ↔
      ∃ x, Kept eng es x ∧ ¬ (Deletable x ∧ ∃ d ∈ es, DeletionBy eng d x ∧ NamesText d x) ∧
        x.serialized = y := by
  rw [mem_visible (hs.perm hp)]
  refine ⟨?_, ?_⟩
  · rintro ⟨x, hk, hh, hy⟩
    have hk := hk.perm hp.symm
    exact ⟨x, hk, fun h => hh ((hiddenIn_perm_iff hs hn hk hp).mpr h), hy⟩
  · rintro ⟨x, hk, hh, hy⟩
    exact ⟨x, hk.perm hp, fun h => hh ((hiddenIn_perm_iff hs hn hk hp).mp h), hy⟩

/-- The deletions first, then the rest. -/
def deletionsFirst (es : List Event) : List Event :=
  es.filter (fun e => e.kind == 5) ++ es.filter (fun e => !(e.kind == 5))

/-- The deletions last. -/
def deletionsLast (es : List Event) : List Event :=
  es.filter (fun e => !(e.kind == 5)) ++ es.filter (fun e => e.kind == 5)

theorem deletionsFirst_perm (es : List Event) : (deletionsFirst es).Perm es :=
  List.filter_append_perm _ _

theorem deletionsLast_perm (es : List Event) : (deletionsLast es).Perm es :=
  List.perm_append_comm.trans (List.filter_append_perm _ _)

/-- With the deletions first, nothing else comes before a deletion. -/
theorem not_before_deletionsFirst {d : Event} (hx : x.kind ≠ 5) (hd : d.kind = 5) :
    ¬ Before (deletionsFirst es) x d := by
  intro hb
  have hpair : (deletionsFirst es).Pairwise fun a b => a.kind ≠ 5 → b.kind ≠ 5 := by
    rw [deletionsFirst, List.pairwise_append]
    refine ⟨?_, ?_, ?_⟩
    · refine List.pairwise_of_forall_mem_list fun a ha b _ hne => ?_
      exact absurd (by simpa using (List.mem_filter.mp ha).2) hne
    · refine List.pairwise_of_forall_mem_list fun a _ b hb _ => ?_
      simpa using (List.mem_filter.mp hb).2
    · intro a ha b _ hne
      exact absurd (by simpa using (List.mem_filter.mp ha).2) hne
  exact hb.rel hpair hx hd

/-- An event named only in other hex is visible with the deletions first and
hidden with the deletions last. -/
theorem not_orderIndependent (hs : Submission crypto es) (hk : Kept eng es x)
    (hdel : Deletable x) (hd : ∃ d ∈ es, DeletionBy eng d x ∧ NamesHash d x)
    (hno : ¬ ∃ d ∈ es, DeletionBy eng d x ∧ NamesText d x) : ¬ OrderIndependent eng es := by
  intro hind
  have hfirst : x.serialized ∈ visible (writes eng (deletionsFirst es)) := by
    refine (mem_visible (hs.perm (deletionsFirst_perm es))).mpr
      ⟨x, hk.perm (deletionsFirst_perm es), ?_, rfl⟩
    rintro ⟨-, d, hdd, ⟨hb, ht⟩ | ⟨hb, -⟩⟩
    · exact hno ⟨d, (deletionsFirst_perm es).mem_iff.mp hb.mem_left, hdd, ht⟩
    · exact not_before_deletionsFirst hdel.1 hdd.kind hb
  rw [hind _ _ (deletionsFirst_perm es) (deletionsLast_perm es),
    mem_visible (hs.perm (deletionsLast_perm es))] at hfirst
  obtain ⟨y, hky, hh, hy⟩ := hfirst
  have hid : y.serialized.id = x.serialized.id := by rw [hy]
  obtain rfl := hs.eq_of_id (hky.perm (deletionsLast_perm es).symm).mem hk.mem hid
  obtain ⟨d, hmem, hdd, hhash⟩ := hd
  refine hh ⟨hdel, d, hdd, Or.inr ⟨?_, hhash⟩⟩
  refine Arrival.before_append (List.mem_filter.mpr ⟨hk.mem, ?_⟩)
    (List.mem_filter.mpr ⟨hmem, ?_⟩)
  · simpa using hdel.1
  · simpa using hdd.kind

/-- **When the order does not matter.** For events with distinct ids, of no
parameterized kind, without expiration tags and with distinct times where they
replace each other, exactly when every event that a deletion names is named with
its id. -/
theorem orderIndependent_iff (crypto : Crypto) (eng : Sql.Engine) (es : List Event)
    (hs : Submission crypto es) : OrderIndependent eng es ↔ NamedExactly eng es := by
  refine ⟨?_, ?_⟩
  · intro hind x hk hdel hd
    by_contra hno
    exact not_orderIndependent hs hk hdel hd hno hind
  · intro hn es₁ es₂ hp₁ hp₂
    ext y
    rw [visible_perm hs hn hp₁, visible_perm hs hn hp₂]

/-- A note. -/
def sampleNote : Recorded where
  id := 0xdc73308eecfbd83e86f8433419fbcc0b167b0df1c7dd78c6a5da8a3b635c1740
  pubkey := 0x5cbdf0646e5db4eaa398f365f2ea7a0e3d419b7e0330e39ce92bddedcac4f9bc
  sigR := 0xb429cf959e0e8210bb2966884dc83c97a6e78e85c5b5b490fcc823ea03a6d948
  sigS := 0x91a8996123662111cfac10bcbd41cabb0246d996f516d5da9847f0428fd392dc
  createdAt := 1700000050
  kind := 1
  tags := []
  content := "note"

/-- Its deletion. -/
def sampleNoteDeletion : Recorded where
  id := 0xa0e21d9a847a341f624fa14ab73cfc4a36f7d3a863a632eae3918160fa94a1e8
  pubkey := 0x5cbdf0646e5db4eaa398f365f2ea7a0e3d419b7e0330e39ce92bddedcac4f9bc
  sigR := 0x21712eeedb7eb7afe079546bc377dcaf78eef8815cc2b529209245bf3cff1e11
  sigS := 0x783ffd100713e202c74d830d4e8adff66900c589a0110db9659927c872ed0449
  createdAt := 1700000051
  kind := 5
  tags := [["e", "dc73308eecfbd83e86f8433419fbcc0b167b0df1c7dd78c6a5da8a3b635c1740"]]
  content := ""

theorem sampleNote_orderIndependent :
    OrderIndependent (Sql.Engine.inOrder 32766) [sampleNote.event, sampleNoteDeletion.event] := by
  refine (orderIndependent_iff _ _ _ (Submission.recorded [sampleNote, sampleNoteDeletion]
    (by decide) (by decide +kernel) (by decide) (by decide))).mpr ?_
  intro x hx hdel _
  rcases List.mem_pair.mp hx.mem with rfl | rfl
  · exact ⟨sampleNoteDeletion.event, by simp, ⟨rfl, by decide +kernel, by decide +kernel⟩,
      by rw [NamesText]; decide +kernel⟩
  · exact absurd rfl hdel.1

/-- Its deletion, with the id in upper case. -/
def sampleNoteUpperDeletion : Recorded where
  id := 0xdd6821d16ea37b2b9b26bff899701b203bf4e72cf547842f40c17583b1a345c8
  pubkey := 0x5cbdf0646e5db4eaa398f365f2ea7a0e3d419b7e0330e39ce92bddedcac4f9bc
  sigR := 0x2bbf9107d757b3c887e594a2d27fa7c71e00450ef76f92ceebd834c75350f378
  sigS := 0x733fbd8e8e6b2a279003f205c5ab397db3d6e12bbd9d8e7cea3af2ce9cae4873
  createdAt := 1700000052
  kind := 5
  tags := [["e", "DC73308EECFBD83E86F8433419FBCC0B167B0DF1C7DD78C6A5DA8A3B635C1740"]]
  content := ""

/-- The note and its deletion in upper case: whether the note is visible in the
end depends on which came first. -/
theorem sampleNoteUpperDeletion_orderDependent :
    Submission (Recorded.crypto [sampleNote, sampleNoteUpperDeletion])
        [sampleNote.event, sampleNoteUpperDeletion.event] ∧
      (∀ e ∈ [sampleNote.event, sampleNoteUpperDeletion.event], e.isEphemeral = false) ∧
      ¬ OrderIndependent (Sql.Engine.inOrder 32766)
        [sampleNote.event, sampleNoteUpperDeletion.event] := by
  have hs := Submission.recorded [sampleNote, sampleNoteUpperDeletion] (by decide)
    (by decide +kernel) (by decide) (by decide)
  refine ⟨hs, by decide, not_orderIndependent (x := sampleNote.event) hs ?_ ?_ ?_ ?_⟩
  · exact ⟨by simp, by decide +kernel, fun h => absurd h (by decide)⟩
  · exact ⟨by decide, by decide⟩
  · exact ⟨sampleNoteUpperDeletion.event, by simp, ⟨rfl, by decide +kernel, by decide +kernel⟩,
      Hex.ofNat 32 sampleNote.id, by decide +kernel, Recorded.decode_event_id _⟩
  · rintro ⟨d, hd, hdel, ht⟩
    rcases List.mem_pair.mp hd with rfl | rfl
    · exact absurd hdel.kind (by decide)
    · revert ht
      rw [NamesText]
      decide +kernel

end Floonet.Sqlite
