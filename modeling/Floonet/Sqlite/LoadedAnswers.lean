import Floonet.Sqlite.Answers
import Floonet.Sqlite.Loaded

/-!
# Where bulk loading agrees with the write path

A loaded row has no tags, and an event with a searchable tag never cleans up. So the loaded and
the written database answer all filters alike exactly when nothing is left of an event with
searchable tags in either (`load_agrees_iff`): each is of a replaceable kind and superseded both
ways, by a later event of the sequence without searchable tags, after which the loader cleans
up, and by a newer one, which the write path keeps.
-/

namespace Floonet.Sqlite

open Hex (Bytes)

variable {crypto : Crypto} {eng : Sql.Engine} {es pre post : List Event} {e f x : Event}
  {r s : EventRow} {db db' : Db} {now : Nat}

/-- An event without searchable tags, of the same author and kind. -/
structure Rival (e f : Event) : Prop where
  bindable : bindable f = true
  decode_pubkey : Hex.decode f.pubkey = Hex.decode e.pubkey
  kind : f.kind = e.kind
  untagged : f.searchableTags = []

/-- Every event with a searchable tag that can be stored is replaceable, and superseded by
events without in both orders: one comes later, and one is newer. -/
def TagsSuperseded (es : List Event) : Prop :=
  ∀ pre e post, es = pre ++ e :: post → bindable e = true → e.searchableTags ≠ [] →
    e.isReplaceable = true ∧ (∃ f ∈ post, Rival e f) ∧
      ∃ f ∈ es, Rival e f ∧ e.createdAt < f.createdAt

/-- Every row is visible, never expires, and is that of one of the events. -/
def PlainRows (es : List Event) (db : Db) : Prop :=
  ∀ r ∈ db.events, ∃ e ∈ es, bindable e = true ∧ PlainRow e r

/-- A row is that of the event it holds. -/
theorem PlainRow.self (h : PlainRow e r) : PlainRow r.content r where
  content := by rw [h.content]; rfl
  decode_id := by rw [h.content]; exact h.decode_id
  decode_pubkey := by rw [h.content]; exact h.decode_pubkey
  createdAt := by rw [h.content]; exact h.createdAt
  kind := by rw [h.content]; exact h.kind
  hidden := h.hidden
  expiresAt := h.expiresAt

/-- The times of the rows are those of their events. -/
theorem PlainRows.timesAgree (h : PlainRows es db) : TimesAgree db := by
  intro r hr
  obtain ⟨e, -, -, hrow⟩ := h r hr
  exact hrow.self.createdAt

/-- No two rows of a database hold the same event. -/
theorem PlainRows.nodup (h : PlainRows es db) : (db.events.map EventRow.content).Nodup := by
  refine List.Nodup.of_map (fun x : Event => (Hex.decode x.id).getD []) ?_
  rw [List.map_map]
  have hhash : db.events.map ((fun x : Event => (Hex.decode x.id).getD []) ∘ EventRow.content) =
      db.events.map EventRow.eventHash := by
    refine List.map_congr_left fun r hr => ?_
    obtain ⟨e, -, -, hrow⟩ := h r hr
    rw [Function.comp_apply, hrow.self.decode_id, Option.getD_some]
  rw [hhash]
  exact db.hash_nodup

theorem plainRows_load (eng : Sql.Engine) (es : List Event) : PlainRows es (load eng es) :=
  fun _ hr => exists_plainRow_load hr

theorem Loadable.plainRows_writes (h : Loadable crypto es) (eng : Sql.Engine) :
    PlainRows es (writes eng es) :=
  fun _ hr => h.exists_plainRow hr

/-! ## Superseded tags make no difference

If events with tags are all superseded, neither database has a row of such an event in the end,
and the missing tag rows are not missed. -/

/-- Without tag rows a statement selects the rows of an event in both databases, or in
neither. -/
theorem selects_eq_of_content (hr : PlainRow e r) (hs : PlainRow f s) (h : r.content = s.content)
    (htr : db.tagsOf r.id = []) (hts : db'.tagsOf s.id = []) (q : Query) :
    q.selects db r = q.selects db' s := by
  have hhash : r.eventHash = s.eventHash := by
    refine Option.some.inj ?_
    rw [← hr.self.decode_id, ← hs.self.decode_id, h]
  have hauthor : r.author = s.author := by
    refine Option.some.inj ?_
    rw [← hr.self.decode_pubkey, ← hs.self.decode_pubkey, h]
  have hcreated : r.createdAt = s.createdAt := by rw [hr.self.createdAt, hs.self.createdAt, h]
  have hkind : r.kind = s.kind := by rw [hr.self.kind, hs.self.kind, h]
  have hholds : Component.holds db r = Component.holds db' s := by
    funext c
    cases c with
    | tag c => rw [holds_tag_eq, holds_tag_eq, htr, hts]
    | _ => simp [Component.holds, hhash, hauthor, hcreated, hkind, hr.expiresAt, hs.expiresAt]
  rw [Query.selects, Query.selects, hholds, hr.hidden, hs.hidden]

/-- Two databases of the same events without tag rows have the same answers. -/
theorem sameAnswers_of_contains (hrows : PlainRows es db) (hrows' : PlainRows es db')
    (htags : ∀ r ∈ db.events, db.tagsOf r.id = []) (htags' : ∀ r ∈ db'.events, db'.tagsOf r.id = [])
    (h : ∀ x, Contains db x ↔ Contains db' x) : SameAnswers db db' := by
  intro f now
  refine answers_eq_of_perm hrows.timesAgree hrows'.timesAgree ?_
  have hnodup : ∀ {db : Db}, PlainRows es db → ∀ q, (selected db q).Nodup := fun hdb q =>
    (List.Sublist.map _ List.filter_sublist).nodup hdb.nodup
  refine (List.perm_ext_iff_of_nodup (hnodup hrows _) (hnodup hrows' _)).mpr fun x => ?_
  have hhalf : ∀ {db db' : Db}, PlainRows es db → PlainRows es db' →
      (∀ r ∈ db.events, db.tagsOf r.id = []) → (∀ r ∈ db'.events, db'.tagsOf r.id = []) →
      (∀ x, Contains db x → Contains db' x) → ∀ q, x ∈ selected db q → x ∈ selected db' q := by
    intro db db' hrows hrows' htags htags' h q hx
    obtain ⟨r, hr, rfl⟩ := List.mem_map.mp hx
    obtain ⟨hr, hsel⟩ := List.mem_filter.mp hr
    obtain ⟨s, hs, hsr⟩ := h r.content ⟨r, hr, rfl⟩
    obtain ⟨e, -, -, hre⟩ := hrows r hr
    obtain ⟨g, -, -, hsg⟩ := hrows' s hs
    refine List.mem_map.mpr ⟨s, List.mem_filter.mpr ⟨hs, ?_⟩, hsr⟩
    rwa [← selects_eq_of_content hre hsg hsr.symm (htags r hr) (htags' s hs)]
  exact ⟨hhalf hrows hrows' htags htags' (fun x => (h x).mp) _,
    hhalf hrows' hrows htags' htags (fun x => (h x).mpr) _⟩

/-- The newest event of a replaceable kind, as the written database keeps it. -/
theorem Loadable.newest (h : Loadable crypto es) (eng : Sql.Engine) {author : Bytes} {kind : Nat}
    (he : e ∈ es) (hg : InGroup author kind e) (hr : e.isReplaceable = true) :
    ∃ r ∈ (writes eng es).events, ∃ f ∈ es, InGroup author kind f ∧ PlainRow f r ∧
      (∀ s ∈ (writes eng es).events, s.author = author → s.kind = kind → s = r) ∧
      ∀ g ∈ es, InGroup author kind g → g.createdAt ≤ f.createdAt := by
  have hkind : ReplaceableKind kind := hg.kind ▸ Event.isReplaceable_iff.mp hr
  have hfits : ∀ {g}, InGroup author kind g → fitsI64 g.createdAt = true := fun hg =>
    ((Bool.and_eq_true _ _).mp hg.bindable).1
  obtain ⟨r, hmem, ha, hk, huniq, -, hmax⟩ := newest_replaceable_wins crypto eng es h.validated
    h.noCollision h.no_expiration author kind hkind
    ⟨e, he, hg.decode_pubkey, hg.kind, hfits hg⟩
  obtain ⟨f, hf, hb, hrow⟩ := h.exists_plainRow hmem
  refine ⟨r, hmem, f, hf, ha ▸ hk ▸ hrow.inGroup hb, hrow, huniq, fun g hg' hgg => ?_⟩
  rw [← hrow.createdAt]
  exact hmax g hg' hgg.decode_pubkey hgg.kind (hfits hgg)

/-- Superseded events leave no row in the written database. -/
theorem TagsSuperseded.untagged_writes (hsup : TagsSuperseded es) (h : Loadable crypto es)
    (hr : r ∈ (writes eng es).events) : r.content.searchableTags = [] := by
  obtain ⟨e, he, hb, hrow⟩ := h.exists_plainRow hr
  rw [hrow.content]
  by_contra htagged
  obtain ⟨pre, post, hsplit⟩ := List.append_of_mem he
  obtain ⟨hrep, -, f, hf, hrival, hlt⟩ := hsup pre e post hsplit hb htagged
  have hg := hrow.inGroup hb
  obtain ⟨t, -, g, -, -, hgt, huniq, hmax⟩ := h.newest eng he hg hrep
  have hrt := huniq r hr rfl rfl
  have hle := hmax f hf ⟨hrival.bindable, hrival.decode_pubkey.trans hg.decode_pubkey,
    hrival.kind.trans hg.kind⟩
  rw [← hgt.createdAt, ← hrt, hrow.createdAt] at hle
  omega

/-- The last event of a superseded kind cleans up. -/
theorem TagsSuperseded.cleansUp_of_last (hsup : TagsSuperseded es) {author : Bytes} {kind : Nat}
    (hr : e.isReplaceable = true) (hlast : Last (InGroup author kind) es e) :
    cleansUp e = true := by
  obtain ⟨pre, post, rfl, hg, hpost⟩ := hlast
  rw [cleansUp, hr, Bool.and_true, List.isEmpty_iff]
  by_contra htagged
  obtain ⟨-, ⟨f, hf, hrival⟩, -⟩ := hsup pre e post rfl hg.bindable htagged
  exact hpost f hf ⟨hrival.bindable, hrival.decode_pubkey.trans hg.decode_pubkey,
    hrival.kind.trans hg.kind⟩

/-- Of a replaceable kind both databases then keep the newest event alone. -/
theorem TagsSuperseded.content_eq (hsup : TagsSuperseded es) (h : Loadable crypto es)
    (hr : r ∈ (load eng es).events) (hs : s ∈ (writes eng es).events) (ha : r.author = s.author)
    (hk : r.kind = s.kind) (hrep : r.content.isReplaceable = true) : r.content = s.content := by
  obtain ⟨e, he, hbe, hre⟩ := exists_plainRow_load hr
  have hrepe : e.isReplaceable = true := by
    rw [hre.content] at hrep
    exact hrep
  have hge : InGroup r.author r.kind e := hre.inGroup hbe
  obtain ⟨t, -, f, hf, hgf, htf, huniq, hmax⟩ := h.newest eng he hge hrepe
  obtain rfl := huniq s hs ha.symm hk.symm
  -- the one loaded row of the kind is not older than the newest event
  obtain ⟨l, hlast⟩ := Last.exists_of_mem he hge
  have hrepl : l.isReplaceable = true := by
    rw [isReplaceable_of_kind_eq (hlast.prop.kind.trans hge.kind.symm), hrepe]
  obtain ⟨d, hd, had, hkd, htd⟩ := dominated_load eng h es (fun _ hg => hg) f hf _ _ hgf
  obtain rfl := eq_of_last_cleansUp h hlast (hsup.cleansUp_of_last hrepl hlast) hd hr had hkd
    rfl rfl
  have htime : e.createdAt = f.createdAt := by
    have hle := hmax e he hge
    rw [hre.createdAt] at htd
    omega
  rw [hre.content, htf.content, h.eq_of_createdAt he hf hge hgf hrepe htime]

/-- If only superseded events have tags, the missing tags are not missed. -/
theorem TagsSuperseded.sameAnswers (hsup : TagsSuperseded es) (h : Loadable crypto es) :
    SameAnswers (load eng es) (writes eng es) := by
  have hload := plainRows_load eng es
  have hwrites := h.plainRows_writes eng
  refine sameAnswers_of_contains hload hwrites ?_ ?_ ?_
  · intro r _
    rw [Db.tagsOf, load_tags, List.filter_nil]
  · intro r hr
    rw [(writes_coherent eng es r hr).tagsOf, tagRows, hsup.untagged_writes h hr, List.map_nil]
  · intro x
    rcases hx : x.isReplaceable with _ | _
    · exact contains_load_iff eng h es (fun _ hf => hf) x hx
    · refine ⟨?_, ?_⟩
      · rintro ⟨r, hr, rfl⟩
        obtain ⟨e, he, hb, hrow⟩ := hload r hr
        have hrep : e.isReplaceable = true := by
          rw [hrow.content] at hx
          exact hx
        obtain ⟨s, hs, f, -, hg, hsf, -⟩ := h.newest eng he (hrow.inGroup hb) hrep
        refine ⟨s, hs, (hsup.content_eq h hr hs ?_ ?_ hx).symm⟩
        · exact Option.some.inj (hg.decode_pubkey.symm.trans hsf.decode_pubkey)
        · exact hg.kind.symm.trans hsf.kind.symm
      · rintro ⟨s, hs, rfl⟩
        obtain ⟨f, hf, hb, hrow⟩ := hwrites s hs
        obtain ⟨r, hr, ha, hk, -⟩ :=
          dominated_load eng h es (fun _ hg => hg) f hf _ _ (hrow.inGroup hb)
        obtain ⟨e, -, -, hre⟩ := hload r hr
        refine ⟨r, hr, hsup.content_eq h hr hs ha hk ?_⟩
        rw [← hx, isReplaceable_of_kind_eq]
        rw [hre.content, hrow.content]
        exact hre.kind.symm.trans (hk.trans hrow.kind)

/-! ## Other tags make one -/

/-- A written row with a searchable tag is found by it, and no loaded row is. -/
theorem not_sameAnswers_of_tagged (h : Loadable crypto es) (hr : r ∈ (writes eng es).events)
    (htagged : r.content.searchableTags ≠ []) : ¬ SameAnswers (load eng es) (writes eng es) := by
  intro hsame
  obtain ⟨⟨name, v⟩, hmem⟩ := List.exists_mem_of_ne_nil _ htagged
  obtain ⟨-, -, hname⟩ := Event.mem_searchableTags.mp hmem
  obtain ⟨c, hc⟩ := Option.isSome_iff_exists.mp hname
  obtain rfl := Event.singleCharTagname_iff.mp hc
  obtain ⟨e, -, -, hrow⟩ := h.exists_plainRow hr
  have hsel := selects_tagFilter 0 (writes_coherent eng es) hr hrow.self.toRowOf
    hrow.hidden hrow.expiresAt hmem
  have hperm := perm_of_answers_eq (plainRows_load eng es).timesAgree
    (h.plainRows_writes eng).timesAgree (limit_queryFromFilter rfl)
    (hsame (tagFilter c v) 0)
  rw [selected_tagFilter_nil (load_tags eng es)] at hperm
  have hin : r.content ∈ selected (writes eng es) (queryFromFilter (tagFilter c v) 0) :=
    List.mem_map_of_mem (List.mem_filter.mpr ⟨hr, hsel⟩)
  rw [← hperm.mem_iff] at hin
  exact absurd hin List.not_mem_nil

/-- A filter without conditions returns every event. -/
theorem contains_of_sameAnswers (hrows : PlainRows es db) (hrows' : PlainRows es db')
    (hsame : SameAnswers db db') (hx : Contains db x) : Contains db' x := by
  obtain ⟨r, hr, rfl⟩ := hx
  obtain ⟨e, -, -, hrow⟩ := hrows r hr
  have hperm := perm_of_answers_eq hrows.timesAgree hrows'.timesAgree
    (limit_queryFromFilter rfl) (hsame ReqFilter.initial 0)
  have hin : r.content ∈ selected db (queryFromFilter ReqFilter.initial 0) :=
    List.mem_map_of_mem (List.mem_filter.mpr ⟨hr, selects_initial hrow.hidden hrow.expiresAt⟩)
  obtain ⟨s, hs, hsr⟩ := List.mem_map.mp (hperm.mem_iff.mp hin)
  exact ⟨s, (List.mem_filter.mp hs).1, hsr⟩

/-- An event with a searchable tag stays in the loaded database until one of its kind cleans
up. -/
theorem exists_tagged_of_no_later (eng : Sql.Engine) (h : Loadable crypto (pre ++ e :: post))
    (hb : bindable e = true)
    (htagged : e.searchableTags ≠ []) (hnone : ∀ f ∈ post, bindable f = true →
      cleansUp f = true → f.kind = e.kind → Hex.decode f.pubkey ≠ Hex.decode e.pubkey) :
    ∃ r ∈ (load eng (pre ++ e :: post)).events, r.content.searchableTags ≠ [] := by
  have he : e ∈ pre ++ e :: post := List.mem_append_right _ List.mem_cons_self
  obtain ⟨author, hpk, -⟩ := (h.validated e he).exists_decode_pubkey
  -- after the turn of `e` there is a row of its body
  have hrow : ∃ r ∈ (loadEvent eng (load eng pre) e).events, r.content.searchableTags ≠ [] ∧
      r.author = author ∧ r.kind = e.kind := by
    rcases h.loads_or_stored he (load eng pre) ⟨hb, hpk, rfl⟩ with ⟨hash, hl⟩ | ⟨r, hr, hid⟩
    · rw [loadEvent_of_loads hl]
      refine ⟨_, mem_loaded hl (Or.inr rfl) fun hc => ?_, htagged, rfl, rfl⟩
      exact absurd (List.isEmpty_iff.mp ((Bool.and_eq_true _ _).mp hc).1) htagged
    · obtain ⟨f, hf, -, hrow⟩ := exists_plainRow_load hr
      have hbody := h.sameBody he (List.mem_append_left _ hf) hrow.toRowOf hid
      refine ⟨r, ?_, ?_, ?_, hrow.kind.trans hbody.kind⟩
      · rcases loadEvent_cases eng (load eng pre) e with heq | ⟨hash, author', hl, -⟩
        · rw [heq]
          exact hr
        · refine absurd (List.mem_map.mpr ⟨r, hr, ?_⟩) hl.hash_new
          exact Option.some.inj (hid.symm.trans hl.decode_id)
      · rw [hrow.content]
        exact (congrArg (List.filterMap Event.searchable) hbody.tags).trans_ne htagged
      · refine Option.some.inj (hrow.decode_pubkey.symm.trans ?_)
        rw [hbody.pubkey, hpk]
  obtain ⟨r, hr, hrt, ha, hk⟩ := hrow
  refine ⟨r, ?_, hrt⟩
  rw [load, Machine.run_append, Machine.run_cons, ← load]
  refine mem_run_loadEvent hr fun f hf hbf hc hkf hpkf => ?_
  exact hnone f hf hbf hc (hkf.symm.trans hk) (by rw [hpkf, ha, hpk])

/-- Otherwise a filter for a tag tells the difference. -/
theorem tagsSuperseded_of_sameAnswers (h : Loadable crypto es)
    (hsame : SameAnswers (load eng es) (writes eng es)) : TagsSuperseded es := by
  have huntagged : ∀ r ∈ (writes eng es).events, r.content.searchableTags = [] := by
    intro r hr
    by_contra htagged
    exact not_sameAnswers_of_tagged h hr htagged hsame
  rintro pre e post rfl hb htagged
  have he : e ∈ pre ++ e :: post := List.mem_append_right _ List.mem_cons_self
  have hlater : ∃ f ∈ post, bindable f = true ∧ cleansUp f = true ∧ f.kind = e.kind ∧
      Hex.decode f.pubkey = Hex.decode e.pubkey := by
    by_contra hno
    obtain ⟨r, hr, hrt⟩ := exists_tagged_of_no_later eng h hb htagged
      fun f hf hbf hc hk hpk => hno ⟨f, hf, hbf, hc, hk, hpk⟩
    obtain ⟨s, hs, hsr⟩ := contains_of_sameAnswers (plainRows_load eng _) (h.plainRows_writes eng) hsame
      ⟨r, hr, rfl⟩
    exact hrt (hsr ▸ huntagged s hs)
  obtain ⟨f, hf, hbf, hc, hk, hpk⟩ := hlater
  obtain ⟨huf, hrf⟩ := (Bool.and_eq_true _ _).mp hc
  have hrep : e.isReplaceable = true := (isReplaceable_of_kind_eq hk).symm.trans hrf
  refine ⟨hrep, ⟨f, hf, hbf, hpk, hk, List.isEmpty_iff.mp huf⟩, ?_⟩
  -- the newest event of the kind is in the written database
  obtain ⟨author, hpke, -⟩ := (h.validated e he).exists_decode_pubkey
  have hge : InGroup author e.kind e := ⟨hb, hpke, rfl⟩
  obtain ⟨r, hr, g, hg, hgg, hrow, -, hmax⟩ := h.newest eng he hge hrep
  have hug : g.searchableTags = [] := by
    have hur := huntagged r hr
    rw [hrow.content] at hur
    exact hur
  refine ⟨g, hg, ⟨hgg.bindable, hgg.decode_pubkey.trans hpke.symm, hgg.kind, hug⟩, ?_⟩
  refine Nat.lt_of_le_of_ne (hmax e he hge) fun ht => htagged ?_
  rw [h.eq_of_createdAt he hg hge hgg hrep ht, hug]

/-- Bulk loading agrees with the write path exactly where nothing is left of events with
searchable tags. -/
theorem load_agrees_iff (crypto : Crypto) (eng : Sql.Engine) (es : List Event)
    (h : Loadable crypto es) :
    SameAnswers (load eng es) (writes eng es) ↔ TagsSuperseded es :=
  ⟨tagsSuperseded_of_sameAnswers h, fun hsup => hsup.sameAnswers h⟩

/-- Recorded events with distinct times and ids. -/
theorem Loadable.recorded (rs : List Recorded) (hnd : (rs.map Recorded.createdAt).Nodup)
    (hid : (rs.map fun r => Hex.ofNat 32 r.id).Nodup)
    (hkind : ∀ r ∈ rs, r.event.isEphemeral = false ∧ r.kind ≠ 5 ∧
      r.event.isParamReplaceable = false)
    (hexp : ∀ r ∈ rs, ∀ tag ∈ r.tags, tag.head? ≠ some "expiration") :
    Loadable (Recorded.crypto rs) (rs.map Recorded.event) where
  validated := Recorded.validated_all hnd
  noCollision := Recorded.noCollision hnd hid
  not_ephemeral := List.forall_mem_map.mpr fun r hr => (hkind r hr).1
  not_deletion := List.forall_mem_map.mpr fun r hr => (hkind r hr).2.1
  not_param := List.forall_mem_map.mpr fun r hr => (hkind r hr).2.2
  no_expiration := List.forall_mem_map.mpr hexp
  times := by
    rw [List.pairwise_map]
    exact (List.pairwise_map.mp hnd).imp fun hne _ _ _ => hne

/-- A profile with a topic. -/
def sampleTaggedProfile : Recorded where
  id := 0x7f9d3a3e679b7c54958fbae9285d970224af3343f3317080309df61aa67dc13d
  pubkey := 0x5cbdf0646e5db4eaa398f365f2ea7a0e3d419b7e0330e39ce92bddedcac4f9bc
  sigR := 0x2466ab69da18381428a2cd0a2dae97820032f191373cbd37ebab1a8f739ff337
  sigS := 0xe0437604d9a40beb0550d5690f15d95392dcb04176b3c45a15e1171dfbd3dc34
  createdAt := 1700000600
  kind := 0
  tags := [["t", "grin"]]
  content := "{}"

/-- A newer one without. -/
def samplePlainProfile : Recorded where
  id := 0x0f3538038962164ee2033c5302f2b260e28d7c11e4fbbbe5b8d338b2d2a6b9df
  pubkey := 0x5cbdf0646e5db4eaa398f365f2ea7a0e3d419b7e0330e39ce92bddedcac4f9bc
  sigR := 0xcd00a77451a145caa308ea08442b2800141e2ee392f0376b0ad51d3752941d69
  sigS := 0x91982dfd0c74b0124f2103c441bb649d94b3bb4b94cc0b111ef395b50e4165c6
  createdAt := 1700000700
  kind := 0
  tags := []
  content := "{}"

/-- Loaded alone, the profile is not found by its topic. -/
theorem sampleTaggedProfile_lost : ∃ crypto, Loadable crypto [sampleTaggedProfile.event] ∧
    ¬ SameAnswers (load (Sql.Engine.inOrder 32766) [sampleTaggedProfile.event])
      (writes (Sql.Engine.inOrder 32766) [sampleTaggedProfile.event]) := by
  have hload : Loadable _ ([sampleTaggedProfile].map Recorded.event) :=
    Loadable.recorded [sampleTaggedProfile] (by decide) (by decide +kernel) (by decide)
      (by decide)
  have hone : (writes (Sql.Engine.inOrder 32766)
      [sampleTaggedProfile.event]).events.length = 1 := by
    decide +kernel
  obtain ⟨r, hr⟩ := List.length_eq_one_iff.mp hone
  have hmem : r ∈ (writes (Sql.Engine.inOrder 32766) [sampleTaggedProfile.event]).events := by
    rw [hr]
    exact List.mem_singleton_self r
  obtain ⟨e, he, -, hrow⟩ := exists_rowOf hmem
  obtain rfl := List.mem_singleton.mp he
  refine ⟨_, hload, not_sameAnswers_of_tagged hload hmem ?_⟩
  rw [hrow.content]
  decide

/-- With the newer one after it, no filter tells the two databases apart. -/
theorem samplePlainProfile_agrees :
    SameAnswers
      (load (Sql.Engine.inOrder 32766) [sampleTaggedProfile.event, samplePlainProfile.event])
      (writes (Sql.Engine.inOrder 32766) [sampleTaggedProfile.event, samplePlainProfile.event]) := by
  have hload : Loadable _ ([sampleTaggedProfile, samplePlainProfile].map Recorded.event) :=
    Loadable.recorded [sampleTaggedProfile, samplePlainProfile] (by decide) (by decide +kernel)
      (by decide) (by decide)
  refine (load_agrees_iff _ _ _ hload).mpr ?_
  have hrival : Rival sampleTaggedProfile.event samplePlainProfile.event :=
    ⟨by decide, rfl, rfl, by decide⟩
  intro pre e post hsplit _ htagged
  rcases pre with _ | ⟨a, _ | ⟨b, pre⟩⟩
  · obtain ⟨rfl, rfl⟩ := List.cons.inj hsplit
    exact ⟨by decide, ⟨_, List.mem_singleton_self _, hrival⟩, _,
      List.mem_cons_of_mem _ (List.mem_singleton_self _), hrival, by decide⟩
  · obtain ⟨-, hrest⟩ := List.cons.inj hsplit
    obtain ⟨rfl, -⟩ := List.cons.inj hrest
    exact absurd hrival.untagged htagged
  · have hlen := congrArg List.length hsplit
    simp only [List.map_cons, List.map_nil, List.length_cons, List.length_nil,
      List.length_append] at hlen
    omega

end Floonet.Sqlite
