import Floonet.Lib.Last
import Floonet.Sqlite.BulkLoader
import Floonet.Sqlite.Deletion
import Floonet.Sqlite.Rows

/-!
# Bulk loading against the write path

The same events, once loaded and once written. Events of no replaceable kind get a row in both
databases, or in neither (`contains_load_iff`). Of a replaceable kind the written database keeps
the newest event. The loaded one always has a row that is not older than any event of the kind
(`dominated_load`), and where the last event of the sequence cleans up, no other
(`eq_of_last_cleansUp`).
-/

namespace Floonet.Sqlite

open Hex (Bytes)

variable {crypto : Crypto} {eng : Sql.Engine} {es pre post : List Event} {e x : Event}
  {r : EventRow} {author : Bytes} {kind : Nat}

/-- The sequences in question. -/
structure Loadable (crypto : Crypto) (es : List Event) : Prop where
  validated : ∀ e ∈ es, e.Validated crypto
  noCollision : crypto.NoCollision es
  not_ephemeral : ∀ e ∈ es, e.isEphemeral = false
  not_deletion : ∀ e ∈ es, e.kind ≠ 5
  not_param : ∀ e ∈ es, e.isParamReplaceable = false
  no_expiration : ∀ e ∈ es, NoExpirationTag e
  /-- times are pairwise distinct for each author and replaceable kind -/
  times : es.Pairwise fun e f => e.isReplaceable = true → e.kind = f.kind →
    Hex.decode e.pubkey = Hex.decode f.pubkey → e.createdAt ≠ f.createdAt

/-- The event has this author and kind, and can be stored. -/
structure InGroup (author : Bytes) (kind : Nat) (e : Event) : Prop where
  bindable : bindable e = true
  decode_pubkey : Hex.decode e.pubkey = some author
  kind : e.kind = kind

/-- A row belongs to the group of its event. -/
theorem PlainRow.inGroup (h : PlainRow e r) (hb : bindable e = true) :
    InGroup r.author r.kind e :=
  ⟨hb, h.decode_pubkey, h.kind.symm⟩

theorem isReplaceable_of_kind_eq {f : Event} (h : e.kind = f.kind) :
    e.isReplaceable = f.isReplaceable := by
  rw [Event.isReplaceable, h, Event.isReplaceable]

namespace Loadable

theorem representable (h : Loadable crypto es) (he : e ∈ es) : representable e = bindable e := by
  rw [Sqlite.representable, bindable, expiration_eq_none (h.no_expiration e he)]
  simp

/-- Of one author and replaceable kind, a time belongs to one event. -/
theorem eq_of_createdAt (h : Loadable crypto es) {f : Event} (he : e ∈ es) (hf : f ∈ es)
    (hge : InGroup author kind e) (hgf : InGroup author kind f) (hr : e.isReplaceable = true)
    (ht : e.createdAt = f.createdAt) : e = f := by
  by_contra hne
  have hsymm : Std.Symm fun a b : Event => a.isReplaceable = true → a.kind = b.kind →
      Hex.decode a.pubkey = Hex.decode b.pubkey → a.createdAt ≠ b.createdAt := by
    refine ⟨fun a b hab hrb hk hpk => ?_⟩
    exact (hab (isReplaceable_of_kind_eq hk ▸ hrb) hk.symm hpk.symm).symm
  exact h.times.forall he hf hne hr (hge.kind.trans hgf.kind.symm)
    (hge.decode_pubkey.trans hgf.decode_pubkey.symm) ht

/-- A row with the hash of an event holds an event of the same body. -/
theorem sameBody (h : Loadable crypto es) {f : Event} (he : e ∈ es) (hf : f ∈ es)
    (hrow : RowOf f r) (hid : Hex.decode e.id = some r.eventHash) : f.SameBody e :=
  hrow.sameBody h.validated h.noCollision hf he hid

/-- What is not loaded is stored already, or cannot be. -/
theorem loads_or_stored (h : Loadable crypto es) (he : e ∈ es) (db : Db)
    (hg : InGroup author kind e) : (∃ hash, Loads db e hash author) ∨
      ∃ r ∈ db.events, Hex.decode e.id = some r.eventHash := by
  obtain ⟨hash, hid, -⟩ := (h.validated e he).exists_decode_id
  by_cases hnew : hash ∈ db.events.map EventRow.eventHash
  · obtain ⟨r, hr, rfl⟩ := List.mem_map.mp hnew
    exact Or.inr ⟨r, hr, hid⟩
  · exact Or.inl ⟨hash, h.not_ephemeral e he, hg.bindable, hid, hg.decode_pubkey, hnew⟩

/-- A replaceable event that comes later is no duplicate. -/
theorem loads_of_split (eng : Sql.Engine) (h : Loadable crypto (pre ++ e :: post)) (hg : InGroup author kind e)
    (hr : e.isReplaceable = true) : ∃ hash, Loads (load eng pre) e hash author := by
  have he : e ∈ pre ++ e :: post := List.mem_append_right _ List.mem_cons_self
  refine (h.loads_or_stored he (load eng pre) hg).resolve_right ?_
  rintro ⟨r, hrow, hid⟩
  obtain ⟨f, hf, -, hplain⟩ := exists_plainRow_load hrow
  have hbody := h.sameBody he (List.mem_append_left _ hf) hplain.toRowOf hid
  have hpair := (List.pairwise_append.mp h.times).2.2 f hf e List.mem_cons_self
  refine hpair ?_ hbody.kind (by rw [hbody.pubkey]) hbody.createdAt
  rwa [isReplaceable_of_kind_eq hbody.kind]

end Loadable

/-! ## The loaded rows of a group -/

/-- Some row of the group is not older than any event of it that was loaded. -/
theorem dominated_load (eng : Sql.Engine) (h : Loadable crypto es) :
    ∀ pre, (∀ f ∈ pre, f ∈ es) → ∀ e ∈ pre, ∀ author kind, InGroup author kind e →
      Dominated (load eng pre) author kind e.createdAt := by
  refine Machine.history (P := fun pre db => (∀ f ∈ pre, f ∈ es) → ∀ e ∈ pre, ∀ author kind,
    InGroup author kind e → Dominated db author kind e.createdAt) ?_ ?_
  · exact fun _ e he => absurd he List.not_mem_nil
  · intro pre f ih hsub e he author kind hg
    have hsub' : ∀ f ∈ pre, f ∈ es := fun g hg => hsub g (List.mem_append_left _ hg)
    -- a dominating row stays, or gives way to one that dominates it
    have hkeep : ∀ t, Dominated (load eng pre) author kind t →
        Dominated (loadEvent eng (load eng pre) f) author kind t := by
      rintro t ⟨r, hr, ha, hk, ht⟩
      rcases loadEvent_cases eng (load eng pre) f with heq | ⟨hash, author', hl, heq⟩
      · rw [heq]
        exact ⟨r, hr, ha, hk, ht⟩
      · obtain ⟨s, hs, has, hks, hts⟩ := exists_mem_loaded eng hl (Or.inl hr)
        rw [heq]
        exact ⟨s, hs, has.trans ha, hks.trans hk, Nat.le_trans ht hts⟩
    rcases List.mem_append.mp he with he | he
    · exact hkeep _ (ih hsub' e he author kind hg)
    · obtain rfl := List.mem_singleton.mp he
      have hes := hsub e (List.mem_append_right _ (List.mem_singleton_self _))
      rcases h.loads_or_stored hes (load eng pre) hg with ⟨hash, hl⟩ | ⟨r, hr, hid⟩
      · obtain ⟨s, hs, has, hks, hts⟩ := exists_mem_loaded eng hl (Or.inr rfl)
        refine ⟨s, ?_, has, hks.trans hg.kind, hts⟩
        rw [← load, loadEvent_of_loads hl]
        exact hs
      · -- the stored row holds an event of the same body
        obtain ⟨g, hg', -, hplain⟩ := exists_plainRow_load hr
        have hbody := h.sameBody hes (hsub' g hg') hplain.toRowOf hid
        refine hkeep _ ⟨r, hr, ?_, ?_, ?_⟩
        · refine Option.some.inj (hplain.decode_pubkey.symm.trans ?_)
          rw [hbody.pubkey, hg.decode_pubkey]
        · rw [hplain.kind, hbody.kind, hg.kind]
        · rw [hplain.createdAt, hbody.createdAt]

/-- Where the last event of a group cleans up, one row of the group is left. -/
theorem eq_of_last_cleansUp (h : Loadable crypto es)
    (hlast : Last (InGroup author kind) es e) (hc : cleansUp e = true) {r s : EventRow}
    (hr : r ∈ (load eng es).events) (hs : s ∈ (load eng es).events)
    (har : r.author = author) (hkr : r.kind = kind) (has : s.author = author)
    (hks : s.kind = kind) : r = s := by
  obtain ⟨pre, post, rfl, hg, hpost⟩ := hlast
  obtain ⟨-, hrep⟩ := (Bool.and_eq_true _ _).mp hc
  obtain ⟨hash, hl⟩ := h.loads_of_split eng hg hrep
  obtain ⟨top, -, -, -, -, hkeep⟩ := loaded_cleansUp eng hl hc
  -- after that turn no row joins the group
  have hone : ∀ t ∈ (load eng (pre ++ e :: post)).events, t.author = author → t.kind = kind →
      t = top := by
    rw [load, Machine.run_append, Machine.run_cons, ← load, loadEvent_of_loads hl]
    refine Machine.invariant (P := fun db => ∀ t ∈ Db.events db, t.author = author →
      t.kind = kind → t = top) ?_ ?_
    · intro db f hf ih t ht ha hk
      rcases loadEvent_cases eng db f with heq | ⟨hash', author', hl', heq⟩
      · exact ih t (heq ▸ ht) ha hk
      · rcases of_mem_loaded hl' (heq ▸ ht) with ht | rfl
        · exact ih t ht ha hk
        · exact absurd ⟨hl'.bindable, hl'.decode_pubkey.trans (congrArg some ha), hk⟩ (hpost f hf)
    · intro t ht ha hk
      exact ((hkeep t).mp ht).2 (hk.trans hg.kind.symm) ha
  rw [hone r hr har hkr, hone s hs has hks]

/-! ## The written rows -/

/-- No row of an event that is no deletion is hidden. -/
theorem hidden_writes (eng : Sql.Engine) (es : List Event) :
    (∀ e ∈ es, e.kind ≠ 5) → ∀ r ∈ (writes eng es).events, r.hidden = false := by
  refine Machine.history (P := fun es db => (∀ e ∈ es, e.kind ≠ 5) →
    ∀ r ∈ Db.events db, r.hidden = false) ?_ ?_ es
  · exact fun _ r hr => absurd hr List.not_mem_nil
  · intro pre e ih hkind r hr
    have ih := ih fun f hf => hkind f (List.mem_append_left _ hf)
    have h5 := hkind e (List.mem_append_right _ (List.mem_singleton_self _))
    rcases write_cases eng (writes eng pre) e with heq | ⟨hash, author, hacc, -, heq⟩
    · rw [← writes, heq] at hr
      exact ih r hr
    · -- there is no deletion to find
      have hnone : deletionRecorded (cleaned eng (inserted (writes eng pre) e hash author
          hacc.hash_new) e author) author e.id = false := by
        rw [deletionRecorded_cleaned (writes_coherent eng pre) hacc h5, ← Bool.not_eq_true,
          deletionRecorded_iff (writes_coherent eng pre)]
        rintro ⟨s, hs, -, hk, -⟩
        obtain ⟨f, hf, -, hrow⟩ := exists_rowOf hs
        exact hkind f (List.mem_append_left _ hf) (hrow.kind.symm.trans hk)
      rw [← writes, heq] at hr
      obtain ⟨s, hs, -, rfl⟩ := (mem_accepted hacc).mp hr
      have hold : s.hidden = false := by
        rcases hs with hs | rfl
        · exact ih s hs
        · rfl
      rw [Db.hideRow_hidden, hold, hides, if_neg h5, hnone]
      simp

/-- Every written row is that of an event of the sequence. -/
theorem Loadable.exists_plainRow (h : Loadable crypto es) (hr : r ∈ (writes eng es).events) :
    ∃ e ∈ es, bindable e = true ∧ PlainRow e r := by
  obtain ⟨e, he, hst, hrow⟩ := exists_rowOf hr
  refine ⟨e, he, ?_, hrow, hidden_writes eng es h.not_deletion r hr, ?_⟩
  · rw [← h.representable he]
    exact (storable_iff.mp hst).1
  · rw [(writes_coherent eng es r hr).expiresAt, hrow.content,
      ← expiration_eq_none (h.no_expiration e he)]
    rfl

/-! ## Events of no replaceable kind -/

/-- The database holds this event. -/
def Contains (db : Db) (x : Event) : Prop := ∃ r ∈ db.events, r.content = x

/-- Every row is that of one of the events. -/
def RowsOf (es : List Event) (db : Db) : Prop := ∀ r ∈ db.events, ∃ e ∈ es, RowOf e r

/-- What a turn of the loader adds to the events of no replaceable kind. -/
theorem contains_loadEvent {db : Db} (hrows : RowsOf es db) (hx : x.isReplaceable = false) :
    Contains (loadEvent eng db e) x ↔
      Contains db x ∨ (∃ hash author, Loads db e hash author) ∧ e.serialized = x := by
  by_cases hl : ∃ hash author, Loads db e hash author
  · obtain ⟨hash, author, h⟩ := hl
    -- the clean-up leaves such an event alone
    have hkeep : ∀ r, r ∈ db.events ∨ r = loadedRow db.nextRowid hash author e → r.content = x →
        r ∈ (loaded eng db e hash author h.hash_new).events := by
      intro r hr hrx
      have hkind : r.kind = x.kind := by
        rcases hr with hr | rfl
        · obtain ⟨f, -, hrow⟩ := hrows r hr
          rw [hrow.kind, ← hrx, hrow.content]
          rfl
        · rw [← hrx]
          rfl
      refine mem_loaded h hr fun hc hk => ?_
      rw [isReplaceable_of_kind_eq (hkind.symm.trans hk), ((Bool.and_eq_true _ _).mp hc).2] at hx
      cases hx
    rw [loadEvent_of_loads h]
    refine ⟨?_, ?_⟩
    · rintro ⟨r, hr, hrx⟩
      rcases of_mem_loaded h hr with hr | rfl
      · exact Or.inl ⟨r, hr, hrx⟩
      · exact Or.inr ⟨⟨hash, author, h⟩, hrx⟩
    · rintro (⟨r, hr, hrx⟩ | ⟨-, hex⟩)
      · exact ⟨r, hkeep r (Or.inl hr) hrx, hrx⟩
      · exact ⟨_, hkeep _ (Or.inr rfl) hex, hex⟩
  · have heq : loadEvent eng db e = db := by
      rcases loadEvent_cases eng db e with heq | ⟨hash, author, h, -⟩
      · exact heq
      · exact absurd ⟨hash, author, h⟩ hl
    rw [heq]
    exact ⟨Or.inl, fun h => h.resolve_right fun h => hl h.1⟩

/-- What a write adds to the events of no replaceable kind. -/
theorem contains_write {db : Db} (hrows : RowsOf es db) (he5 : e.kind ≠ 5)
    (hep : e.isParamReplaceable = false) (hx : x.isReplaceable = false) :
    Contains (write eng db e) x ↔
      Contains db x ∨ (∃ hash author, Accepts db e hash author) ∧ e.serialized = x := by
  have hlim : overLimit eng e = false := by
    rw [overLimit, beq_false_of_ne he5, Bool.false_and]
  by_cases ha : ∃ hash author, Accepts db e hash author
  · obtain ⟨hash, author, h⟩ := ha
    have hkeep : ∀ r, r ∈ db.events ∨ r = eventRow db.nextRowid hash author e → r.content = x →
        swept eng (inserted db e hash author h.hash_new) e author r = false := by
      intro r hr hrx
      have hkind : r.kind = x.kind := by
        rcases hr with hr | rfl
        · obtain ⟨f, -, hrow⟩ := hrows r hr
          rw [hrow.kind, ← hrx, hrow.content]
          rfl
        · rw [← hrx]
          rfl
      by_contra hs
      obtain ⟨hk, -, hrep⟩ := swept_le ((Bool.not_eq_false _).mp hs)
      rw [hep, ← isReplaceable_of_kind_eq (hkind.symm.trans hk), hx] at hrep
      simp at hrep
    rw [write_of_accepts h hlim]
    refine ⟨?_, ?_⟩
    · rintro ⟨r, hr, hrx⟩
      obtain ⟨s, hs, -, rfl⟩ := (mem_accepted h).mp hr
      rw [Db.hideRow_content] at hrx
      rcases hs with hs | rfl
      · exact Or.inl ⟨s, hs, hrx⟩
      · exact Or.inr ⟨⟨hash, author, h⟩, hrx⟩
    · rintro (⟨r, hr, hrx⟩ | ⟨-, hex⟩)
      · exact ⟨_, (mem_accepted h).mpr ⟨r, Or.inl hr, hkeep r (Or.inl hr) hrx, rfl⟩,
          by rw [Db.hideRow_content, hrx]⟩
      · exact ⟨_, (mem_accepted h).mpr ⟨_, Or.inr rfl, hkeep _ (Or.inr rfl) hex, rfl⟩,
          by rw [Db.hideRow_content]; exact hex⟩
  · have heq : write eng db e = db := by
      rcases write_cases eng db e with heq | ⟨hash, author, h, -⟩
      · exact heq
      · exact absurd ⟨hash, author, h⟩ ha
    rw [heq]
    exact ⟨Or.inl, fun h => h.resolve_right fun h => ha h.1⟩

/-- A stored hash is that of an event of the same body, so the other database has it too. -/
theorem Loadable.hash_stored (h : Loadable crypto es) {db db' : Db} (hrows : RowsOf es db)
    (hrows' : RowsOf es db') (he : e ∈ es) (hr : e.isReplaceable = false)
    (hsub : ∀ x : Event, x.isReplaceable = false → Contains db x → Contains db' x) {hash : Bytes}
    (hid : Hex.decode e.id = some hash) (hin : hash ∈ db.events.map EventRow.eventHash) :
    hash ∈ db'.events.map EventRow.eventHash := by
  obtain ⟨r, hrow, rfl⟩ := List.mem_map.mp hin
  obtain ⟨f, hf, hrf⟩ := hrows r hrow
  have hbody := h.sameBody he hf hrf hid
  have hfr : f.serialized.isReplaceable = false := (isReplaceable_of_kind_eq hbody.kind).trans hr
  obtain ⟨s, hs, hsx⟩ := hsub f.serialized hfr ⟨r, hrow, hrf.content⟩
  obtain ⟨g, -, hrg⟩ := hrows' s hs
  have hidg := congrArg Event.id (hrg.content.symm.trans hsx)
  refine List.mem_map.mpr ⟨s, hs, Option.some.inj ?_⟩
  rw [← hrg.decode_id, ← hrf.decode_id]
  exact congrArg Hex.decode hidg

/-- Both databases hold the same events of no replaceable kind. -/
theorem contains_load_iff (eng : Sql.Engine) (h : Loadable crypto es) :
    ∀ pre, (∀ f ∈ pre, f ∈ es) → ∀ x : Event, x.isReplaceable = false →
      (Contains (load eng pre) x ↔ Contains (writes eng pre) x) := by
  intro pre
  induction pre using List.reverseRecOn with
  | nil => exact fun _ x _ => ⟨fun ⟨r, hr, _⟩ => absurd hr List.not_mem_nil,
      fun ⟨r, hr, _⟩ => absurd hr List.not_mem_nil⟩
  | append_singleton pre e ih =>
    intro hsub x hx
    have hsub' : ∀ f ∈ pre, f ∈ es := fun f hf => hsub f (List.mem_append_left _ hf)
    have he := hsub e (List.mem_append_right _ (List.mem_singleton_self _))
    have hl : RowsOf es (load eng pre) := by
      intro r hr
      obtain ⟨f, hf, -, hrow⟩ := exists_plainRow_load hr
      exact ⟨f, hsub' f hf, hrow.toRowOf⟩
    have hw : RowsOf es (writes eng pre) := by
      intro r hr
      obtain ⟨f, hf, -, hrow⟩ := exists_rowOf hr
      exact ⟨f, hsub' f hf, hrow⟩
    rw [load, writes, Machine.run_concat, Machine.run_concat, ← load, ← writes,
      contains_loadEvent hl hx, contains_write hw (h.not_deletion e he) (h.not_param e he) hx,
      ih hsub' x hx]
    refine or_congr_right (and_congr_left fun hex => ?_)
    have hr : e.isReplaceable = false := by
      rw [← hx, ← hex]
      rfl
    have hshadow : ∀ db, shadowed db e = false := by
      intro db
      have hd : e.distinctParam = none := by
        rw [Event.distinctParam, h.not_param e he]
        rfl
      rw [shadowed, hd, hr]
      rfl
    refine exists_congr fun hash => exists_congr fun author => ⟨fun hl' => ?_, fun hw' => ?_⟩
    · refine ⟨hshadow _, (h.representable he).trans hl'.bindable, hl'.decode_id,
        hl'.decode_pubkey, fun hin => hl'.hash_new ?_⟩
      exact h.hash_stored hw hl he hr (fun x hx => (ih hsub' x hx).mpr) hl'.decode_id hin
    · refine ⟨h.not_ephemeral e he, (h.representable he).symm.trans hw'.representable,
        hw'.decode_id, hw'.decode_pubkey, fun hin => hw'.hash_new ?_⟩
      exact h.hash_stored hl hw he hr (fun x hx => (ih hsub' x hx).mp) hw'.decode_id hin

end Floonet.Sqlite
