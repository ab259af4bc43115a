import Floonet.Sqlite.Order
import Floonet.Postgres.Replaceable
import Floonet.Postgres.Values

/-!
# What the Postgres store shows after any sequence of writes

Which events have a row does not depend on the order they came in (`hasRow_iff`). Which rows
are hidden does (`hidden_iff`): a deletion hides what is stored when it comes, while an event that
comes after its deletion is hidden only if the deletion has the raw bytes of its hash in an `e`
tag.
-/

namespace Floonet.Postgres

open Hex (Bytes)
open Arrival (Before)
open Sqlite (Submission NamesHash Deletable ReplaceableKind)

variable {crypto : Crypto} {server : Server} {es pre : List Event} {e x : Event} {r : EventRow}

/-- The numbers of an event are `u64`. -/
structure U64 (e : Event) : Prop where
  kind : e.kind < 2 ^ 64
  createdAt : e.createdAt < 2 ^ 64

/-! ## Which events have a row

By induction on the writes, from the last one: a row stays unless it is swept by a newer event of
its author and replaceable kind, which does not depend on the order. -/

/-- The event can be stored, and nothing newer replaces it. -/
structure Kept (server : Server) (es : List Event) (x : Event) : Prop where
  mem : x ∈ es
  storable : Storable server x
  newest : x.isReplaceable = true → ∀ y ∈ es, Storable server y →
    Hex.decode y.pubkey = Hex.decode x.pubkey → y.kind = x.kind →
    asI64 y.createdAt ≤ asI64 x.createdAt

/-- What is kept does not depend on the order. -/
theorem Kept.perm (h : Kept server es x) (hp : pre.Perm es) : Kept server pre x where
  mem := hp.mem_iff.mpr h.mem
  storable := h.storable
  newest hr y hy := h.newest hr y (hp.mem_iff.mp hy)

/-- A stored row keeps its id under a write, unless it is swept. -/
theorem exists_row_write (server : Server) (e : Event) {db : Db} (hr : r ∈ db.events)
    (hs : ¬ (r.kind = asI64 e.kind ∧ (e.isReplaceable = true ∨ e.isParamReplaceable = true))) :
    ∃ r' ∈ (write server db e).events, r'.id = r.id := by
  by_cases hin : r ∈ (write server db e).events
  · exact ⟨r, hin, rfl⟩
  · obtain ⟨-, h | ⟨-, -, -, -, h⟩⟩ := changed_cases hr hin
    · exact absurd h hs
    · exact ⟨_, h, rfl⟩

/-- The row of an accepted event is there after its write, unless its kind replaces. -/
theorem exists_row_accepted {db : Db} {id pubKey : Bytes} (hacc : Accepts server db e id pubKey)
    (hs : ¬ (e.isReplaceable = true ∨ e.isParamReplaceable = true)) :
    ∃ r ∈ (write server db e).events, r.id = id := by
  rw [write_of_accepts hacc]
  refine ⟨_, (mem_accepted hacc).mpr ⟨_, .inr rfl, ?_, rfl⟩, Db.hideRow_id ..⟩
  by_contra h
  exact hs (swept_le (by simpa using h)).2.2

/-! ### The last event -/

section Last

variable (hs : Submission crypto (pre ++ [e]))

include hs

/-- Its hash is not stored when it arrives. -/
theorem id_new {id : Bytes} (hid : Hex.decode e.id = some id) :
    id ∉ (writes server pre).events.map EventRow.id := by
  intro hmem
  obtain ⟨r, hr, rfl⟩ := List.mem_map.mp hmem
  obtain ⟨f, ⟨hf, -⟩, hrow⟩ := writes_holds server pre r hr
  have hfe := List.mem_append_left [e] hf
  have hee : e ∈ pre ++ [e] := List.mem_append_right _ (List.mem_singleton_self _)
  have := hs.eq_of_id hfe hee (hrow.id_eq (hs.validated f hfe) (hs.validated e hee) hid)
  exact hs.last_notMem (this ▸ hf)

/-- It is accepted if it can be stored and its kind does not replace. -/
theorem accepts_last (hst : Storable server e) (hnr : e.isReplaceable = false) :
    ∃ id pubKey, Accepts server (writes server pre) e id pubKey := by
  have hee : e ∈ pre ++ [e] := List.mem_append_right _ (List.mem_singleton_self _)
  obtain ⟨id, hid, -⟩ := (hs.validated e hee).exists_decode_id
  obtain ⟨pubKey, hpk, -⟩ := (hs.validated e hee).exists_decode_pubkey
  have hd : e.distinctParam = none := by
    rw [Event.distinctParam, hs.not_param e hee]
    rfl
  refine ⟨id, pubKey, ?_, hid, hpk, id_new hs hid, hst⟩
  simp only [shadowed, hnr, hd]
  rfl

end Last

/-- The store has a row with the hash of the event. -/
def HasRow (server : Server) (es : List Event) (x : Event) : Prop :=
  ∃ r ∈ (writes server es).events, Hex.decode x.id = some r.id

/-- An event of no replaceable kind has a row if it can be stored. -/
theorem hasRow_of_not_replaceable (server : Server) (es : List Event) :
    Submission crypto es → (∀ e ∈ es, U64 e) → ∀ x ∈ es, Storable server x →
      x.isReplaceable = false → HasRow server es x := by
  refine Machine.history (P := fun es db => Submission crypto es → (∀ e ∈ es, U64 e) →
    ∀ x ∈ es, Storable server x → x.isReplaceable = false →
      ∃ r ∈ Db.events db, Hex.decode x.id = some r.id) ?_ ?_ es
  · exact fun _ _ x hx => absurd hx List.not_mem_nil
  · intro pre e ih hs hu64 x hx hst hnr
    have hee : e ∈ pre ++ [e] := List.mem_append_right _ (List.mem_singleton_self _)
    rcases List.mem_append.mp hx with hxp | hxe
    · have hinit : ∀ e ∈ pre, U64 e := fun f hf => hu64 f (List.mem_append_left _ hf)
      obtain ⟨r, hr, hid⟩ := ih hs.init hinit x hxp hst hnr
      have hkind : r.kind = asI64 x.kind := by
        obtain ⟨y, ⟨hy, -⟩, hrow⟩ := writes_holds server pre r hr
        have hy' := List.mem_append_left [e] hy
        obtain rfl := hs.eq_of_id hy' hx (hrow.id_eq (hs.validated y hy') (hs.validated x hx) hid)
        exact hrow.kind
      obtain ⟨r', hr', hid'⟩ := exists_row_write server e hr (by
        rintro ⟨hk, hrep⟩
        have hke := (asI64_inj (hu64 x hx).kind (hu64 e hee).kind).mp (hkind.symm.trans hk)
        rw [hs.not_param e hee, or_iff_left Bool.false_ne_true,
          ← Sqlite.isReplaceable_congr hke, hnr] at hrep
        cases hrep)
      exact ⟨r', hr', hid.trans (congrArg some hid'.symm)⟩
    · obtain rfl := List.mem_singleton.mp hxe
      obtain ⟨id, pubKey, hacc⟩ := accepts_last hs hst hnr
      obtain ⟨r, hr, hid⟩ := exists_row_accepted hacc (by simp [hnr, hs.not_param x hee])
      exact ⟨r, hr, hacc.decode_id.trans (congrArg some hid.symm)⟩

section Rows

variable (hs : Submission crypto es) (hu64 : ∀ e ∈ es, U64 e)

include hs

/-- A row with the hash of an event of the list holds it. -/
theorem holds_of_id (hr : r ∈ (writes server es).events) (hx : x ∈ es)
    (hid : Hex.decode x.id = some r.id) :
    (writes server es).RowHolds x r ∧ Storable server x := by
  obtain ⟨y, ⟨hy, hst⟩, hrow⟩ := writes_holds server es r hr
  obtain rfl := hs.eq_of_id hy hx (hrow.id_eq (hs.validated y hy) (hs.validated x hx) hid)
  exact ⟨hrow, hst⟩

include hu64

/-- **Which events have a row**, whatever the order. -/
theorem hasRow_iff (hx : x ∈ es) : HasRow server es x ↔ Kept server es x := by
  have hkind : ∀ {y : Event}, y.isReplaceable = true → ReplaceableKind y.kind :=
    Event.isReplaceable_iff.mp
  obtain ⟨hone, hdom⟩ := replaceable_history server hs.validated hs.noCollision
    (fun e he => (hu64 e he).kind) es fun _ h => h
  refine ⟨?_, fun hk => ?_⟩
  · rintro ⟨r, hr, hid⟩
    obtain ⟨hrow, hst⟩ := holds_of_id hs hr hx hid
    refine ⟨hx, hst, fun hrep y hy hsty hpk hky => ?_⟩
    -- the row that is not older than `y` is that of `x`
    have hkx := asI64_of_replaceable (hkind hrep)
    obtain ⟨s, hs', ha, hks, ht⟩ := hdom y hy r.pubKey (hpk.trans hrow.decode_pubkey)
      (hky ▸ hkind hrep) hsty
    have hkr : r.kind = x.kind := hrow.kind.trans hkx
    obtain rfl := hone s hs' r hr ha (by rw [hks, hkr, hky]) x.kind (by rw [hks, hky]) (hkind hrep)
    rwa [hrow.createdAt] at ht
  · by_cases hrep : x.isReplaceable = true
    · obtain ⟨pubKey, hpk, -⟩ := (hs.validated x hx).exists_decode_pubkey
      obtain ⟨s, hs', ha, hks, ht⟩ := hdom x hx pubKey hpk (hkind hrep) hk.storable
      obtain ⟨y, ⟨hy, hsty⟩, hrow⟩ := writes_holds server es s hs'
      have hpky : Hex.decode y.pubkey = Hex.decode x.pubkey := by
        rw [hrow.decode_pubkey, ha, hpk]
      have hky : y.kind = x.kind :=
        kind_of_asI64 (hu64 y hy).kind (hrow.kind.symm.trans hks) (hkind hrep)
      rw [hrow.createdAt] at ht
      have htime := (asI64_inj (hu64 y hy).createdAt (hu64 x hx).createdAt).mp
        (le_antisymm (hk.newest hrep y hy hsty hpky hky) ht)
      obtain rfl := hs.times x hx y hy hpky.symm hky.symm hrep htime.symm
      exact ⟨s, hs', hrow.decode_id⟩
    · exact hasRow_of_not_replaceable server es hs hu64 x hx hk.storable (by simpa using hrep)

end Rows

/-! ## Which rows are hidden

The order matters here. A row is hidden by a deletion stored before with the bytes of its hash, or
by one that comes after it and has the hash in hex. -/

/-- A stored deletion by the author of `x`. -/
structure DeletionBy (server : Server) (d x : Event) : Prop where
  kind : d.kind = 5
  storable : Storable server d
  author : Hex.decode d.pubkey = Hex.decode x.pubkey

/-- An `e` tag of `d` is the raw bytes of the hash of `x`. -/
def NamesBytes (d x : Event) : Prop := ∃ id, Hex.decode x.id = some id ∧ NamesRaw d id

/-- In this order, a deletion of `x` came first and has the bytes of its hash, or came later and
has its hash in hex. -/
def HiddenIn (server : Server) (es : List Event) (x : Event) : Prop :=
  Deletable x ∧ Arrival.Marked es x (fun d => DeletionBy server d x ∧ NamesBytes d x)
    fun d => DeletionBy server d x ∧ NamesHash d x

theorem DeletionBy.not_replaceable {d : Event} (h : DeletionBy server d x) :
    d.isReplaceable = false := by
  rw [Event.isReplaceable, h.kind]
  rfl

/-- The lookup on arrival finds the deletions written before. -/
theorem deletionRecorded_writes {id pubKey : Bytes} (hs : Submission crypto (pre ++ [e]))
    (hu64 : ∀ f ∈ pre ++ [e], U64 f) (hid : Hex.decode e.id = some id)
    (hpk : Hex.decode e.pubkey = some pubKey) :
    deletionRecorded (writes server pre) pubKey id = true ↔
      ∃ d ∈ pre, DeletionBy server d e ∧ NamesBytes d e := by
  have hinit : ∀ f ∈ pre, U64 f := fun f hf => hu64 f (List.mem_append_left _ hf)
  rw [deletionRecorded_iff]
  refine ⟨?_, ?_⟩
  · rintro ⟨r, hr, ha, h5, t, ht, htid, hname, hvalue⟩
    obtain ⟨d, ⟨hd, hst⟩, hrow⟩ := writes_holds server pre r hr
    have hmem : t ∈ (writes server pre).tagsOf r.id :=
      List.mem_filter.mpr ⟨ht, beq_iff_eq.mpr htid⟩
    rw [hrow.tagsOf] at hmem
    obtain ⟨⟨n, v⟩, hnv, rfl⟩ := List.mem_map.mp hmem
    obtain rfl : n = "e" := hname
    refine ⟨d, hd, ⟨?_, hst, by rw [hrow.decode_pubkey, ha, hpk]⟩, id, hid, v,
      (Event.mem_tagValuesByName (by decide)).mpr hnv, ?_⟩
    · exact (asI64_eq_iff (hinit d hd).kind (by decide)).mp (hrow.kind.symm.trans h5)
    · rw [tagRow] at hvalue
      simp only at hvalue
      split_ifs at hvalue with hhex
      exact ⟨by simpa using hhex, Option.some.inj hvalue⟩
  · rintro ⟨d, hd, hdel, id', hid', v, hv, hhex, hbytes⟩
    obtain rfl : id = id' := Option.some.inj (hid.symm.trans hid')
    obtain ⟨r, hr, hrid⟩ := hasRow_of_not_replaceable server pre hs.init hinit d hd
      hdel.storable hdel.not_replaceable
    obtain ⟨hrow, -⟩ := holds_of_id hs.init hr hd hrid
    have hmem : tagRow r.id ("e", v) ∈ (writes server pre).tagsOf r.id := by
      rw [hrow.tagsOf]
      exact List.mem_map_of_mem ((Event.mem_tagValuesByName (by decide)).mp hv)
    refine ⟨r, hr, Option.some.inj (hrow.decode_pubkey.symm.trans (hdel.author.trans hpk)), ?_,
      _, (List.mem_filter.mp hmem).1, rfl, rfl, ?_⟩
    · rw [hrow.kind, hdel.kind]
      rfl
    · rw [tagRow]
      simp only
      rw [if_neg (by simp [hhex]), hbytes]

/-- What an accepted event hides among the rows stored before. -/
theorem hides_old_iff {db c : Db} {id pubKey : Bytes} (hacc : Accepts server db e id pubKey)
    (hr : r ∈ db.events) (hrow : db.RowHolds x r) (hux : U64 x) :
    hides c e (newRow e id pubKey) r = true ↔
      Deletable x ∧ DeletionBy server e x ∧ NamesHash e x := by
  have hkind : ∀ k : Nat, k < 2 ^ 63 → (r.kind = k ↔ x.kind = k) := fun k hk => by
    rw [hrow.kind, asI64_eq_iff hux.kind hk]
  rw [hides]
  split_ifs with h5
  · simp only [deletionTarget, Bool.and_eq_true, bne_iff_ne, beq_iff_eq, List.contains_iff_mem,
      newRow_pubKey]
    refine ⟨?_, ?_⟩
    · rintro ⟨⟨⟨hk5, hk1059⟩, ha⟩, hmem⟩
      exact ⟨⟨fun h => hk5 ((hkind 5 (by decide)).mpr h),
        fun h => hk1059 ((hkind 1059 (by decide)).mpr h)⟩,
        ⟨h5, hacc.storable, by rw [hacc.decode_pubkey, hrow.decode_pubkey, ha]⟩, _, hmem,
        hrow.decode_id⟩
    · rintro ⟨⟨hk5, hk1059⟩, hd, hash, hmem, hid⟩
      have ha := hd.author
      rw [hacc.decode_pubkey, hrow.decode_pubkey, Option.some.injEq] at ha
      rw [hrow.decode_id, Option.some.injEq] at hid
      exact ⟨⟨⟨fun h => hk5 ((hkind 5 (by decide)).mp h),
        fun h => hk1059 ((hkind 1059 (by decide)).mp h)⟩, ha.symm⟩, hid ▸ hmem⟩
  · simp only [Bool.and_eq_true, beq_iff_eq, newRow_id]
    exact ⟨fun h => absurd (List.mem_map.mpr ⟨r, hr, h.2⟩) hacc.id_new,
      fun h => absurd h.2.1.kind h5⟩

/-- What an accepted event does to its own row. -/
theorem hides_new_iff {db : Db} {id pubKey : Bytes} (hacc : Accepts server db e id pubKey)
    (hue : U64 e) :
    hides (cleaned server (insertedNew db e id pubKey hacc.id_new) e pubKey) e
        (newRow e id pubKey) (newRow e id pubKey) = true ↔
      Deletable e ∧ deletionRecorded db pubKey id = true := by
  rw [hides, Deletable]
  split_ifs with h5
  · have hk : asI64 e.kind = 5 := (asI64_eq_iff hue.kind (by decide)).mpr h5
    refine iff_of_false (fun h => ?_) fun h => h.1.1 h5
    simp [deletionTarget, hk] at h
  · have hk : asI64 e.kind ≠ 5 := fun h => h5 ((asI64_eq_iff hue.kind (by decide)).mp h)
    rw [newRow_pubKey, newRow_id, deletionRecorded_cleaned hacc hk]
    simp [h5]

/-- **Which rows are hidden**, in the order the events came. -/
theorem hidden_iff (server : Server) (es : List Event) :
    Submission crypto es → (∀ e ∈ es, U64 e) → ∀ r ∈ (writes server es).events, ∀ x ∈ es,
      Hex.decode x.id = some r.id → (r.hidden = true ↔ HiddenIn server es x) := by
  refine Machine.history (P := fun es db => Submission crypto es → (∀ e ∈ es, U64 e) →
    ∀ r ∈ Db.events db, ∀ x ∈ es, Hex.decode x.id = some r.id →
      (r.hidden = true ↔ HiddenIn server es x)) ?_ ?_ es
  · exact fun _ _ r hr => absurd hr List.not_mem_nil
  · intro pre e ih hs hu64 r hr x hx hid
    have hee : e ∈ pre ++ [e] := List.mem_append_right _ (List.mem_singleton_self _)
    have hinit : ∀ f ∈ pre, U64 f := fun f hf => hu64 f (List.mem_append_left _ hf)
    -- a row that was stored before holds one of the events before
    have hold : ∀ s ∈ (writes server pre).events, Hex.decode x.id = some s.id →
        x ∈ pre ∧ x ≠ e := by
      intro s hs' hids
      obtain ⟨y, ⟨hy, -⟩, hrowy⟩ := writes_holds server pre s hs'
      have hy' := List.mem_append_left [e] hy
      obtain rfl := hs.eq_of_id hy' hx
        (hrowy.id_eq (hs.validated y hy') (hs.validated x hx) hids)
      exact ⟨hy, fun hxe => hs.last_notMem (hxe ▸ hy)⟩
    have hconcat : ∀ (_ : x ≠ e) (_ : x ∈ pre), HiddenIn server (pre ++ [e]) x ↔
        HiddenIn server pre x ∨ (Deletable x ∧ DeletionBy server e x ∧ NamesHash e x) := by
      intro hne hxp
      rw [HiddenIn, HiddenIn, Arrival.marked_concat hne hxp, and_or_left]
    by_cases hacc : ∃ id pubKey, Accepts server (writes server pre) e id pubKey
    · obtain ⟨id, pubKey, hacc⟩ := hacc
      rw [← writes, write_of_accepts hacc] at hr
      obtain ⟨s, hs', -, rfl⟩ := (mem_accepted hacc).mp hr
      rw [Db.hideRow_id] at hid
      rw [Db.hideRow_hidden, Bool.or_eq_true]
      rcases hs' with hs' | rfl
      · obtain ⟨hxp, hne⟩ := hold s hs' hid
        have hrow := (holds_of_id hs.init hs' hxp hid).1
        rw [ih hs.init hinit s hs' x hxp hid, hides_old_iff hacc hs' hrow (hu64 x hx),
          hconcat hne hxp]
      · obtain rfl := hs.eq_of_id hx hee ((hs.validated x hx).id_eq_of_decode (hs.validated e hee)
          (hid.trans hacc.decode_id.symm))
        rw [hides_new_iff hacc (hu64 x hx), deletionRecorded_writes hs hu64 hacc.decode_id
          hacc.decode_pubkey, HiddenIn, Arrival.marked_last hs.last_notMem]
        simp [newRow]
    · -- nothing was written, and a deletion would have been
      have hw : write server (writes server pre) e = writes server pre := by
        rcases write_cases server (writes server pre) e with hw | ⟨id, pubKey, h, -⟩
        · exact hw
        · exact absurd ⟨id, pubKey, h⟩ hacc
      rw [← writes, hw] at hr
      obtain ⟨hxp, hne⟩ := hold r hr hid
      rw [ih hs.init hinit r hr x hxp hid, hconcat hne hxp]
      refine ⟨Or.inl, fun h => h.resolve_right fun hlast => hacc ?_⟩
      exact accepts_last hs hlast.2.1.storable hlast.2.1.not_replaceable

/-! ## What is visible -/

/-- The visible events. -/
def visible (db : Db) : Set Event := { x | ∃ r ∈ db.events, r.hidden = false ∧ r.content = x }

/-- The visible events at the end of an order. -/
theorem mem_visible (hs : Submission crypto es) (hu64 : ∀ e ∈ es, U64 e) {y : Event} :
    y ∈ visible (writes server es) ↔
      ∃ x, Kept server es x ∧ ¬ HiddenIn server es x ∧ x.serialized = y := by
  refine ⟨?_, ?_⟩
  · rintro ⟨r, hr, hvis, rfl⟩
    obtain ⟨x, ⟨hx, -⟩, hrow⟩ := writes_holds server es r hr
    refine ⟨x, (hasRow_iff hs hu64 hx).mp ⟨r, hr, hrow.decode_id⟩, fun hh => ?_,
      hrow.content.symm⟩
    rw [(hidden_iff server es hs hu64 r hr x hx hrow.decode_id).mpr hh] at hvis
    cases hvis
  · rintro ⟨x, hk, hh, rfl⟩
    obtain ⟨r, hr, hid⟩ := (hasRow_iff hs hu64 hk.mem).mpr hk
    refine ⟨r, hr, ?_, (holds_of_id hs hr hk.mem hid).1.content⟩
    by_contra hvis
    exact hh ((hidden_iff server es hs hu64 r hr x hk.mem hid).mp (by simpa using hvis))

end Floonet.Postgres
