import Floonet.Sqlite.Upgrade

/-!
# Upgrades that are cut short

A start that loses power between two commits leaves the file somewhere between two versions.
Where the next start finds a version and exactly the columns of that version, it goes on
(`File.At`); the tables may be ahead of the version, since they are created and dropped with
`IF EXISTS`. A column that is there before its version is one the next start cannot add again,
and a new file that has its version before its tables is one no start comes back to
(`File.Stuck`). On the way only hidden events and replaced ones are dropped (`RowsKept`).
-/

namespace Floonet.Sqlite

open Hex (Bytes)

/-! ## What an upgrade keeps

Besides the version the triples carry where rows come from, which is what the migrations keep of
the events and their tags. -/

/-- The two rows hold the same event. -/
structure FileRow.SameEvent (r s : FileRow) : Prop where
  id : r.id = s.id
  eventHash : r.eventHash = s.eventHash
  createdAt : r.createdAt = s.createdAt
  author : r.author = s.author
  kind : r.kind = s.kind
  content : r.content = s.content

theorem FileRow.SameEvent.refl (r : FileRow) : r.SameEvent r := ⟨rfl, rfl, rfl, rfl, rfl, rfl⟩

theorem FileRow.SameEvent.symm {r s : FileRow} (h : r.SameEvent s) : s.SameEvent r :=
  ⟨h.id.symm, h.eventHash.symm, h.createdAt.symm, h.author.symm, h.kind.symm, h.content.symm⟩

theorem FileRow.SameEvent.trans {r s t : FileRow} (h : r.SameEvent s) (h' : s.SameEvent t) :
    r.SameEvent t where
  id := h.id.trans h'.id
  eventHash := h.eventHash.trans h'.eventHash
  createdAt := h.createdAt.trans h'.createdAt
  author := h.author.trans h'.author
  kind := h.kind.trans h'.kind
  content := h.content.trans h'.content

/-- Another row of the author and the replaceable kind is not older. -/
def Superseded (rows : List FileRow) (r : FileRow) : Prop :=
  replaceableRow r = true ∧ ∃ s ∈ rows, s.kind = r.kind ∧ s.author = r.author ∧ s.id ≠ r.id ∧
    r.createdAt ≤ s.createdAt

/-- No row is invented, and only hidden and superseded ones are hidden or dropped. -/
structure RowsKept (before after : List FileRow) : Prop where
  origin : ∀ r ∈ after, ∃ s ∈ before, r.SameEvent s
  hides : ∀ r ∈ after, ∀ s ∈ before, r.SameEvent s → r.hidden = some true →
    s.hidden = some true ∨ Superseded before s
  stays : ∀ s ∈ before, (∃ r ∈ after, r.SameEvent s) ∨ s.hidden = some true ∨ Superseded before s

theorem RowsKept.refl {rows : List FileRow} (hnd : (rows.map FileRow.id).Nodup) : RowsKept rows rows where
  origin r hr := ⟨r, hr, .refl r⟩
  hides r hr s hs hrs hhid := by
    obtain rfl := List.inj_on_of_nodup_map hnd hr hs hrs.id
    exact .inl hhid
  stays r hr := .inl ⟨r, hr, .refl r⟩

section RowsKept

variable {before after : List FileRow}

/-- What is superseded later was so before. -/
theorem RowsKept.superseded (h : RowsKept before after) {r s : FileRow} (hrs : r.SameEvent s)
    (hr : Superseded after r) : Superseded before s := by
  obtain ⟨hrep, t, ht, hkind, hauthor, hid, hold⟩ := hr
  obtain ⟨u, hu, htu⟩ := h.origin t ht
  refine ⟨?_, u, hu, ?_, ?_, ?_, ?_⟩
  · rwa [replaceableRow, ← hrs.kind]
  · rw [← htu.kind, hkind, hrs.kind]
  · rw [← htu.author, hauthor, hrs.author]
  · rwa [← htu.id, ← hrs.id]
  · rwa [← htu.createdAt, ← hrs.createdAt]

/-- An update of columns that hides only superseded rows. -/
theorem RowsKept.map (h : RowsKept before after) {g : FileRow → FileRow} (hsame : ∀ r, (g r).SameEvent r)
    (hhides : ∀ r ∈ after, (g r).hidden = some true → r.hidden = some true ∨ Superseded after r) :
    RowsKept before (after.map g) where
  origin := by
    intro r' hr'
    obtain ⟨r, hr, rfl⟩ := List.mem_map.mp hr'
    obtain ⟨s, hs, hrs⟩ := h.origin r hr
    exact ⟨s, hs, (hsame r).trans hrs⟩
  hides := by
    intro r' hr' s hs hrs hg
    obtain ⟨r, hr, rfl⟩ := List.mem_map.mp hr'
    have hrs' : r.SameEvent s := (hsame r).symm.trans hrs
    rcases hhides r hr hg with hhid | hsup
    · exact h.hides r hr s hs hrs' hhid
    · exact .inr (h.superseded hrs' hsup)
  stays := by
    intro s hs
    refine (h.stays s hs).imp_left ?_
    rintro ⟨r, hr, hrs⟩
    exact ⟨g r, List.mem_map_of_mem hr, (hsame r).trans hrs⟩

/-- The removal of hidden rows. -/
theorem RowsKept.dropHidden (h : RowsKept before after) :
    RowsKept before (after.filter fun r => !(r.hidden == some true)) where
  origin r hr := h.origin r (List.mem_filter.mp hr).1
  hides r hr := h.hides r (List.mem_filter.mp hr).1
  stays := by
    intro s hs
    rcases h.stays s hs with ⟨r, hr, hrs⟩ | hgone
    · by_cases hhid : r.hidden = some true
      · exact .inr (h.hides r hr s hs hrs hhid)
      · exact .inl ⟨r, List.mem_filter.mpr ⟨hr, by simpa using hhid⟩, hrs⟩
    · exact .inr hgone

end RowsKept

/-! ## Where a start can leave the file

A file of a version is described by what the migrations up to this version have made of it. A
start that ends early leaves a file of some version. -/

/-- The table has the columns of version 16. -/
def TagTable.isV16 : TagTable → Bool
  | .v15 _ => false
  | .v16 _ => true

/-- The columns a version has added to table `event`. -/
def columnsAt (v : Nat) : Columns := ⟨decide (2 ≤ v), decide (7 ≤ v), decide (17 ≤ v)⟩

/-- The file has the columns of a version, and at least its tables. -/
structure File.SoundAt (fromStr : String → Option Event) (v : Nat) (f : File) : Prop where
  columns : f.columns = some (columnsAt v)
  refs : v ≤ 2 → ∃ es ps, f.eventRef = some es ∧ f.pubkeyRef = some ps ∧
    ∀ x ∈ es ++ ps, x.eventId ∈ f.events.map FileRow.id
  tagThere : 3 ≤ v → f.tag.isSome = true
  tag : ∀ t, f.tag = some t → t.isV16 = decide (16 ≤ v)
  userVerification : 4 ≤ v → f.userVerification.isSome = true
  accounts : 18 ≤ v → f.account = true ∧ f.invoice = true
  nameClaims : 19 ≤ v → f.nameClaims = true
  reads : ∀ r ∈ f.events, r.row15.Reads fromStr

/-- The tag rows are those of the events. -/
def File.TagsRebuilt (fromStr : String → Option Event) (f : File) : Prop :=
  ∃ rows, f.tag = some (.v16 rows) ∧
    rows.Perm (f.events.flatMap fun r => r.row15.writtenTags fromStr)

/-- What holds of a file `f` that was `f₀` once. -/
structure File.From (fromStr : String → Option Event) (f₀ f : File) : Prop where
  kept : RowsKept f₀.events f.events
  tags : 1 ≤ f₀.userVersion → f₀.userVersion ≤ 15 → 16 ≤ f.userVersion → f.TagsRebuilt fromStr

/-- The file is at a version, and the next start can go on. -/
structure File.At (fromStr : String → Option Event) (f₀ : File) (v : Nat) (f : File) : Prop where
  version : f.userVersion = v
  sound : f.SoundAt fromStr v
  origin : f₀.From fromStr f

/-- All columns and tables of the current version are there. -/
def File.Complete (f : File) : Prop :=
  f.columns = some (columnsAt DB_VERSION) ∧ f.tag.any TagTable.isV16 = true ∧
    f.userVerification.isSome = true ∧ f.account = true ∧ f.invoice = true ∧ f.nameClaims = true

instance (f : File) : Decidable f.Complete := inferInstanceAs (Decidable (_ ∧ _))

/-- No start gets the file any further: a column is there before its version, or the current
version is there before its tables. -/
def File.Stuck (f : File) : Prop :=
  (f.userVersion = 1 ∧ f.columns.any Columns.hidden = true) ∨
  (f.userVersion = 6 ∧ f.columns.any Columns.delegatedBy = true) ∨
  (f.userVersion = 16 ∧ f.columns.any Columns.expiresAt = true) ∨
  (f.userVersion = DB_VERSION ∧ ¬ f.Complete)

instance (f : File) : Decidable f.Stuck := inferInstanceAs (Decidable (_ ∨ _))

/-- A file the next start can go on with. -/
def File.Resumable (fromStr : String → Option Event) (f₀ f : File) : Prop :=
  (f = .new ∧ f₀ = .new) ∨ ∃ v, 1 ≤ v ∧ v ≤ DB_VERSION ∧ f₀.At fromStr v f

/-- What a start leaves that is cut short. -/
def File.Left (fromStr : String → Option Event) (f₀ f : File) : Prop :=
  f₀.Resumable fromStr f ∨ (f.Stuck ∧ f₀.From fromStr f)

section Migrations

variable {eng : Sql.Engine} {fromStr : String → Option Event} {f₀ f : File} {v w : Nat}

/-- A version is where a start may end. -/
theorem File.At.left (h : f₀.At fromStr v f) (hpos : 1 ≤ v) (hle : v ≤ DB_VERSION) :
    f₀.Left fromStr f := .inl (.inr ⟨v, hpos, hle, h⟩)

theorem File.At.complete (h : f₀.At fromStr DB_VERSION f) : f.Complete := by
  obtain ⟨t, ht⟩ := Option.isSome_iff_exists.mp (h.sound.tagThere (by decide))
  have ht16 := h.sound.tag t ht
  refine ⟨h.sound.columns, ?_, h.sound.userVerification (by decide),
    (h.sound.accounts (by decide)).1, (h.sound.accounts (by decide)).2,
    h.sound.nameClaims (by decide)⟩
  rw [ht, Option.any_some, ht16]
  rfl

/-- Up to version 15 nothing is asked of the tags. -/
theorem File.From.of_old (h : RowsKept f₀.events f.events) (hv : f.userVersion ≤ 15) :
    f₀.From fromStr f := ⟨h, fun _ _ hge => absurd hge (by omega)⟩

/-- A migration from a version to the next one. -/
def Migrates (fromStr : String → Option Event) (f₀ : File) (v : Nat) (mig : Start Nat) : Prop :=
  Crash.Triple (File.At fromStr f₀ v) mig (fun n f => n = v + 1 ∧ f₀.At fromStr (v + 1) f)
    (File.Left fromStr f₀) fun _ => False

/-- A migration made of one batch. -/
theorem migrates_batch {statements : List Statement}
    (h : ∀ f, f₀.At fromStr v f →
      Crash.Passes (File.Left fromStr f₀) (File.At fromStr f₀ (v + 1)) statements f) :
    Migrates fromStr f₀ v (do executeBatch statements; pure (v + 1)) :=
  (Crash.Triple.batch h).bind fun _ => Crash.Triple.pure fun _ hf => ⟨rfl, hf⟩

/-- The columns and tables of two neighbouring versions are the same. -/
theorem File.At.setVersion (h : f₀.At fromStr v f) (hcol : columnsAt w = columnsAt v)
    (hv : v ≤ w) (hthere : 3 ≤ w → f.tag.isSome = true) (htag : decide (16 ≤ w) = decide (16 ≤ v))
    (huser : 4 ≤ w → f.userVerification.isSome = true)
    (hacc : 18 ≤ w → f.account = true ∧ f.invoice = true) (hnames : 19 ≤ w → f.nameClaims = true) :
    File.At fromStr f₀ w { f with userVersion := w } where
  version := rfl
  sound :=
    { columns := hcol ▸ h.sound.columns
      refs := fun hw => h.sound.refs (hv.trans hw)
      tagThere := hthere
      tag := fun t ht => htag ▸ h.sound.tag t ht
      userVerification := huser
      accounts := hacc
      nameClaims := hnames
      reads := h.sound.reads }
  origin := by
    refine ⟨h.origin.kept, fun h1 h15 hw => ?_⟩
    have hge : 16 ≤ f.userVersion := by
      rw [h.version]
      exact of_decide_eq_true (htag ▸ decide_eq_true hw)
    exact h.origin.tags h1 h15 hge

/-- Tables a version does not ask for may come and go. -/
theorem File.At.congr (h : f₀.At fromStr v f) {g : File} (hversion : g.userVersion = f.userVersion)
    (hcolumns : g.columns = f.columns) (hevents : g.events = f.events)
    (hrefs : v ≤ 2 → g.eventRef = f.eventRef ∧ g.pubkeyRef = f.pubkeyRef) (htag : g.tag = f.tag)
    (huser : f.userVerification.isSome = true → g.userVerification.isSome = true)
    (haccount : f.account = true → g.account = true)
    (hinvoice : f.invoice = true → g.invoice = true)
    (hnames : f.nameClaims = true → g.nameClaims = true) : f₀.At fromStr v g where
  version := hversion.trans h.version
  sound :=
    { columns := hcolumns.trans h.sound.columns
      refs := by
        intro hv
        rw [(hrefs hv).1, (hrefs hv).2, hevents]
        exact h.sound.refs hv
      tagThere := fun hv => htag ▸ h.sound.tagThere hv
      tag := fun t ht => h.sound.tag t (htag ▸ ht)
      userVerification := fun hv => huser (h.sound.userVerification hv)
      accounts := fun hv => ⟨haccount (h.sound.accounts hv).1, hinvoice (h.sound.accounts hv).2⟩
      nameClaims := fun hv => hnames (h.sound.nameClaims hv)
      reads := fun r hr => h.sound.reads r (hevents ▸ hr) }
  origin := by
    refine ⟨hevents ▸ h.origin.kept, fun h1 h15 h16 => ?_⟩
    rw [File.TagsRebuilt, htag, hevents]
    exact h.origin.tags h1 h15 (hversion ▸ h16)

/-- Only the version changes. -/
theorem migrates_indexes (hpos : 1 ≤ v) (hv : v < DB_VERSION)
    (hcol : columnsAt (v + 1) = columnsAt v) (hthere : 3 ≤ v)
    (htag : decide (16 ≤ v + 1) = decide (16 ≤ v)) (huser : 4 ≤ v) (hacc : v < 17) :
    Migrates fromStr f₀ v (migIndexes (v + 1)) := by
  refine migrates_batch fun f hf => ⟨hf.left hpos hv.le, _, rfl, ?_⟩
  exact hf.setVersion hcol (Nat.le_succ v) (fun _ => hf.sound.tagThere hthere) htag
    (fun _ => hf.sound.userVerification huser) (fun h => absurd h (by omega))
    (fun h => absurd h (by omega))

/-! ### Updates of rows -/

/-- Rows of one event are read alike. -/
theorem FileRow.SameEvent.reads {r s : FileRow} (h : r.SameEvent s)
    (hs : s.row15.Reads fromStr) : r.row15.Reads fromStr := by
  obtain ⟨e, he, hkind, hcreated⟩ := hs
  exact ⟨e, by rw [row15, h.content]; exact he, by rw [row15, h.kind]; exact hkind,
    by rw [row15, h.createdAt]; exact hcreated⟩

theorem FileRow.SameEvent.writtenTags {r s : FileRow} (h : r.SameEvent s) :
    r.row15.writtenTags fromStr = s.row15.writtenTags fromStr := by
  rw [EventRow15.writtenTags, EventRow15.writtenTags, row15, row15]
  simp only [h.content, h.id]

section MapEvents

variable {g : FileRow → FileRow} {hid : ∀ r, (g r).id = r.id}

@[simp] theorem File.mapEvents_ids :
    (f.mapEvents g hid).events.map FileRow.id = f.events.map FileRow.id := by
  rw [mapEvents, List.map_map]
  exact List.map_congr_left fun r _ => hid r

/-- A migration that hides replaced rows keeps what comes from where. -/
theorem File.From.mapEvents (h : f₀.From fromStr f) (hsame : ∀ r, (g r).SameEvent r)
    (hhides : ∀ r ∈ f.events, (g r).hidden = some true →
      r.hidden = some true ∨ Superseded f.events r) : f₀.From fromStr (f.mapEvents g hid) where
  kept := h.kept.map hsame hhides
  tags := by
    intro h1 h15 h16
    obtain ⟨rows, htag, hperm⟩ := h.tags h1 h15 h16
    refine ⟨rows, htag, ?_⟩
    rw [File.mapEvents, List.flatMap_map]
    have heq : (fun r => (g r).row15.writtenTags fromStr) =
        fun r : FileRow => r.row15.writtenTags fromStr :=
      funext fun r => (hsame r).writtenTags
    rwa [heq]

theorem File.At.mapEvents (h : f₀.At fromStr v f) (hsame : ∀ r, (g r).SameEvent r)
    (hhides : ∀ r ∈ f.events, (g r).hidden = some true →
      r.hidden = some true ∨ Superseded f.events r) :
    f₀.At fromStr v (f.mapEvents g hid) where
  version := h.version
  sound :=
    { columns := h.sound.columns
      refs := by
        intro hv
        obtain ⟨es, ps, hes, hps, hfk⟩ := h.sound.refs hv
        exact ⟨es, ps, hes, hps, fun x hx => by rw [mapEvents_ids]; exact hfk x hx⟩
      tagThere := h.sound.tagThere
      tag := h.sound.tag
      userVerification := h.sound.userVerification
      accounts := h.sound.accounts
      nameClaims := h.sound.nameClaims
      reads := by
        intro r' hr'
        obtain ⟨r, hr, rfl⟩ := List.mem_map.mp hr'
        exact (hsame r).reads (h.sound.reads r hr) }
  origin := h.origin.mapEvents hsame hhides

end MapEvents

/-- A column the file does not have is added. -/
theorem addColumn_eq {has : Columns → Bool} {add : Columns → Columns} {null : FileRow → FileRow}
    {hid : ∀ r, (null r).id = r.id} {c : Columns} (hc : f.columns = some c) (hno : has c = false) :
    addColumn has add null hid f =
      .ok { f.mapEvents null hid with columns := some (add c) } := by
  rw [addColumn, hc]
  simp [hno]

theorem migrates_1 : Migrates fromStr f₀ 1 mig1To2 := by
  refine migrates_batch fun f hf => ⟨hf.left (by decide) (by decide), _,
    addColumn_eq hf.sound.columns rfl, ?_⟩
  have hadded : f₀.At fromStr 1 (f.mapEvents (fun r => { r with hidden := none }) fun _ => rfl) :=
    hf.mapEvents (fun r => ⟨rfl, rfl, rfl, rfl, rfl, rfl⟩) (fun r _ h => (by cases h))
  have hshown : f₀.At fromStr 1 ((f.mapEvents (fun r => { r with hidden := none })
      fun _ => rfl).mapEvents (fun r => { r with hidden := some false }) fun _ => rfl) :=
    hadded.mapEvents (fun r => ⟨rfl, rfl, rfl, rfl, rfl, rfl⟩) (fun r _ h => (by cases h))
  refine ⟨.inr ⟨.inl ⟨hf.version, rfl⟩, ⟨hadded.origin.kept, hadded.origin.tags⟩⟩, _, rfl,
    .inr ⟨.inl ⟨hf.version, rfl⟩, ⟨hshown.origin.kept, hshown.origin.tags⟩⟩, _, rfl, ?_⟩
  exact
    { version := rfl
      sound := { hshown.sound with
        columns := rfl
        refs := fun _ => hshown.sound.refs (by decide)
        tagThere := fun h => absurd h (by decide)
        userVerification := fun h => absurd h (by decide)
        accounts := fun h => absurd h (by decide)
        nameClaims := fun h => absurd h (by decide) }
      origin := .of_old hshown.origin.kept (show 2 ≤ 15 by decide) }

/-! ### Transactions -/

theorem migrates_tx {body : Upgrade Unit} {Q : File → Prop} {P : File → Prop}
    (hleft : ∀ f, P f → f₀.Left fromStr f) (hok : ∀ f, P f → ∃ f', body f = .ok ((), f') ∧ Q f') :
    Crash.Triple P (inTransaction body) (fun _ => Q) (File.Left fromStr f₀) fun _ => False := by
  refine Crash.Triple.commit hleft ?_ ?_
  · rintro f ⟨⟩ f' hf heq
    obtain ⟨f'', hbody, hQ⟩ := hok f hf
    simp only [hbody] at heq
    cases heq
    exact hQ
  · intro f err hf heq
    obtain ⟨f'', hbody, -⟩ := hok f hf
    simp only [hbody] at heq
    cases heq

/-- The file with other rows in table `tag`. -/
def File.withTags (f : File) (rows : List TagRow15) : File := { f with tag := some (.v15 rows) }

/-- Tags may be rewritten up to version 15. -/
theorem File.At.withTags (h : f₀.At fromStr v f) (hv : v ≤ 15) (rows : List TagRow15) :
    f₀.At fromStr v (f.withTags rows) where
  version := h.version
  sound := { h.sound with
    columns := h.sound.columns
    refs := h.sound.refs
    tagThere := fun _ => rfl
    tag := by
      rintro t ⟨⟩
      exact (decide_eq_false (by omega)).symm
    userVerification := h.sound.userVerification
    accounts := h.sound.accounts
    nameClaims := h.sound.nameClaims
    reads := h.sound.reads }
  origin := .of_old h.origin.kept (h.version.trans_le hv)

/-- A tag of a stored event is inserted. -/
theorem insertTag15_eq {rows : List TagRow15} {row : TagRow15}
    (hid : row.eventId ∈ f.events.map FileRow.id) :
    insertTag15 row (f.withTags rows) = .ok ((), f.withTags (rows ++ [row])) := by
  rw [insertTag15]
  exact if_pos hid

/-- A reference of a stored event is copied. -/
theorem insertRef_ok (rows : List TagRow15) {x : Nat × String × String}
    (hid : x.1 ∈ f.events.map FileRow.id) :
    ∃ rows', insertRef x (f.withTags rows) = .ok ((), f.withTags rows') := by
  rw [insertRef]
  split_ifs
  · exact ⟨_, insertTag15_eq hid⟩
  · exact ⟨rows, rfl⟩

/-- The references are copied into the new table. -/
theorem copyRefs_ok {es ps : List RefRow} (rows : List TagRow15) (hes : f.eventRef = some es)
    (hps : f.pubkeyRef = some ps) (hfk : ∀ x ∈ es ++ ps, x.eventId ∈ f.events.map FileRow.id) :
    ∃ rows', copyRefs (f.withTags rows) = .ok ((), f.withTags rows') := by
  have hid : ∀ x ∈ refTags es ps, x.1 ∈ f.events.map FileRow.id := by
    intro x hx
    rw [refTags, List.mem_dedup, List.mem_append, List.mem_map, List.mem_map] at hx
    rcases hx with ⟨y, hy, rfl⟩ | ⟨y, hy, rfl⟩
    · exact hfk y (List.mem_append_left _ hy)
    · exact hfk y (List.mem_append_right _ hy)
  obtain ⟨s', hloop, rows', rfl⟩ := Sql.forM_ok insertRef (l := refTags es ps)
    (I := fun _ s => ∃ rows', s = f.withTags rows')
    (by
      rintro done x s hx ⟨rows', rfl⟩
      obtain ⟨rows'', h⟩ := insertRef_ok rows' (hid x hx)
      exact ⟨_, h, rows'', rfl⟩)
    (s := f.withTags rows) ⟨rows, rfl⟩
  refine ⟨rows', Sql.bind_eq_ok.mpr ⟨f.withTags rows, f.withTags rows, rfl, ?_⟩⟩
  simp only [File.withTags, hes, hps] at hloop ⊢
  exact hloop

theorem migrates_2 : Migrates fromStr f₀ 2 mig2To3 := by
  have hbatch : Crash.Triple (File.At fromStr f₀ 2)
      (executeBatch [createTag (.v15 []), setVersion 3])
      (fun _ f => f₀.At fromStr 3 f ∧ ∃ es ps, f.eventRef = some es ∧ f.pubkeyRef = some ps ∧
        ∀ x ∈ es ++ ps, x.eventId ∈ f.events.map FileRow.id)
      (File.Left fromStr f₀) fun _ => False := by
    refine Crash.Triple.batch fun f hf => ⟨hf.left (by decide) (by decide), _, rfl, ?_⟩
    have hcreated : f₀.At fromStr 2 { f with tag := some (f.tag.getD (.v15 [])) } :=
      { version := hf.version
        sound := { hf.sound with
          columns := hf.sound.columns
          refs := hf.sound.refs
          tagThere := fun _ => rfl
          tag := by
            rintro t ⟨⟩
            rcases htag : f.tag with _ | t
            · rfl
            · exact hf.sound.tag t htag
          userVerification := hf.sound.userVerification
          accounts := hf.sound.accounts
          nameClaims := hf.sound.nameClaims
          reads := hf.sound.reads }
        origin := .of_old hf.origin.kept (hf.version.trans_le (by decide)) }
    refine ⟨hcreated.left (by decide) (by decide), _, rfl, ?_, hf.sound.refs (by decide)⟩
    exact hcreated.setVersion rfl (by decide) (fun _ => rfl) rfl (fun h => absurd h (by decide))
      (fun h => absurd h (by decide)) (fun h => absurd h (by decide))
  refine hbatch.bind fun _ => (migrates_tx (Q := File.At fromStr f₀ 3) ?_ ?_).bind fun _ =>
    Crash.Triple.pure fun _ hf => ⟨rfl, hf⟩
  · exact fun f hf => hf.1.left (by decide) (by decide)
  · rintro f ⟨hf, es, ps, hes, hps, hfk⟩
    obtain ⟨t, ht⟩ := Option.isSome_iff_exists.mp (hf.sound.tagThere (by decide))
    have ht15 := hf.sound.tag t ht
    rcases t with rows | rows
    · obtain ⟨rows', hcopy⟩ := copyRefs_ok rows hes hps hfk
      have hself : f.withTags rows = f := by
        rw [File.withTags, ← ht]
      rw [hself] at hcopy
      exact ⟨_, hcopy, hf.withTags (by decide) rows'⟩
    · cases ht15

theorem migrates_3 : Migrates fromStr f₀ 3 mig3To4 := by
  refine migrates_batch fun f hf => ⟨hf.left (by decide) (by decide), _, rfl, ?_⟩
  have hcreated : f₀.At fromStr 3
      { f with userVerification := some (f.userVerification.getD []) } :=
    hf.congr rfl rfl rfl (fun _ => ⟨rfl, rfl⟩) rfl (fun _ => rfl) id id id
  refine ⟨hcreated.left (by decide) (by decide), _, rfl, ?_⟩
  exact hcreated.setVersion rfl (by decide) (fun _ => hf.sound.tagThere (by decide)) rfl
    (fun _ => rfl) (fun h => absurd h (by decide)) (fun h => absurd h (by decide))

/-- The tables of references may be gone already. -/
theorem migrates_4 : Migrates fromStr f₀ 4 mig4To5 := by
  refine migrates_batch fun f hf => ⟨hf.left (by decide) (by decide), _, rfl, ?_⟩
  have hone : f₀.At fromStr 4 { f with eventRef := none } :=
    hf.congr rfl rfl rfl (fun h => absurd h (by decide)) rfl id id id id
  have htwo : f₀.At fromStr 4 { f with eventRef := none, pubkeyRef := none } :=
    hone.congr rfl rfl rfl (fun h => absurd h (by decide)) rfl id id id id
  refine ⟨hone.left (by decide) (by decide), _, rfl, htwo.left (by decide) (by decide), _, rfl, ?_⟩
  exact htwo.setVersion rfl (by decide) (fun _ => hf.sound.tagThere (by decide)) rfl
    (fun _ => hf.sound.userVerification (by decide)) (fun h => absurd h (by decide))
    (fun h => absurd h (by decide))

/-! ### The first rebuild of the tags -/

/-- A tag of a stored event is inserted, if it is searchable. -/
theorem insertTagOf15_ok (rows : List TagRow15) {i : Nat} (hid : i ∈ f.events.map FileRow.id)
    (t : List String) :
    ∃ rows', insertTagOf15 i t (f.withTags rows) = .ok ((), f.withTags rows') := by
  rcases t with _ | ⟨tagname, _ | ⟨tagval, rest⟩⟩
  · exact ⟨rows, rfl⟩
  · exact ⟨rows, rfl⟩
  · rw [insertTagOf15]
    split_ifs
    · exact ⟨rows, rfl⟩
    · exact ⟨_, insertTag15_eq hid⟩
    · exact ⟨_, insertTag15_eq hid⟩

/-- The tags of a row that reads are rebuilt. -/
theorem rebuildRow_ok (rows : List TagRow15) {r : FileRow} (hr : r ∈ f.events)
    (hreads : r.row15.Reads fromStr) :
    ∃ rows', rebuildRow fromStr r (f.withTags rows) = .ok ((), f.withTags rows') := by
  obtain ⟨e, he, -, -⟩ := hreads
  obtain ⟨s', hloop, rows', rfl⟩ := Sql.forM_ok (insertTagOf15 r.id)
    (l := e.tags.filter fun x => 1 < x.length) (I := fun _ s => ∃ rows', s = f.withTags rows')
    (by
      rintro done t s - ⟨rows', rfl⟩
      obtain ⟨rows'', h⟩ := insertTagOf15_ok rows' (List.mem_map_of_mem hr) t
      exact ⟨_, h, rows'', rfl⟩)
    (s := f.withTags rows) ⟨rows, rfl⟩
  have he' : fromStr r.content = some e := he
  exact ⟨rows', by rw [rebuildRow, he']; exact hloop⟩

theorem migrates_5 : Migrates fromStr f₀ 5 (mig5To6 eng fromStr) := by
  refine (migrates_tx (Q := File.At fromStr f₀ 6) (fun f hf => hf.left (by decide) (by decide))
    fun f hf => ?_).bind fun _ => Crash.Triple.pure fun _ hf => ⟨rfl, hf⟩
  obtain ⟨t, ht⟩ := Option.isSome_iff_exists.mp (hf.sound.tagThere (by decide))
  have ht15 := hf.sound.tag t ht
  have hclear : clearTags f = .ok ((), f.withTags []) := by
    rcases t with rows | rows
    · rw [clearTags, ht]
      rfl
    · cases ht15
  obtain ⟨s', hloop, rows', rfl⟩ := Sql.forM_ok (rebuildRow fromStr)
    (l := Sql.orderByAsc eng FileRow.id f.events) (I := fun _ s => ∃ rows', s = f.withTags rows')
    (by
      rintro done r s hr ⟨rows', rfl⟩
      have hr : r ∈ f.events := Sql.mem_orderByAsc.mp hr
      obtain ⟨rows'', h⟩ := rebuildRow_ok rows' hr (hf.sound.reads r hr)
      exact ⟨_, h, rows'', rfl⟩)
    (s := f.withTags []) ⟨[], rfl⟩
  have hat := hf.withTags (by decide) rows'
  refine ⟨_, Sql.bind_eq_ok.mpr ⟨(), _, hclear, Sql.bind_eq_ok.mpr ⟨_, _, rfl,
    Sql.bind_eq_ok.mpr ⟨(), _, hloop, rfl⟩⟩⟩, ?_⟩
  exact hat.setVersion rfl (by decide) (fun _ => rfl) rfl
    (fun _ => hat.sound.userVerification (by decide)) (fun h => absurd h (by decide))
    (fun h => absurd h (by decide))

/-! ### A new column -/

/-- Between the column and the version that has it the file is stuck. -/
theorem migrates_column {has : Columns → Bool} {add : Columns → Columns}
    {null : FileRow → FileRow} {hid : ∀ r, (null r).id = r.id} (hpos : 3 < v) (hv : v < DB_VERSION)
    (hacc : v < 17) (hno : has (columnsAt v) = false) (hadd : add (columnsAt v) = columnsAt (v + 1))
    (htag : decide (16 ≤ v + 1) = decide (16 ≤ v)) (hsame : ∀ r, (null r).SameEvent r)
    (hhidden : ∀ r, (null r).hidden = r.hidden)
    (hstuck : ∀ g : File, g.userVersion = v → g.columns = some (columnsAt (v + 1)) → g.Stuck) :
    Migrates fromStr f₀ v
      (do executeBatch [addColumn has add null hid, setVersion (v + 1)]; pure (v + 1)) := by
  refine migrates_batch fun f hf => ⟨hf.left (Nat.one_le_of_lt hpos) hv.le, _,
    addColumn_eq hf.sound.columns hno, ?_⟩
  have hadded : f₀.At fromStr v (f.mapEvents null hid) :=
    hf.mapEvents hsame fun r _ h => .inl (hhidden r ▸ h)
  refine ⟨.inr ⟨hstuck _ hf.version (congrArg some hadd),
    ⟨hadded.origin.kept, hadded.origin.tags⟩⟩, _, rfl, ?_⟩
  exact
    { version := rfl
      sound :=
        { columns := congrArg some hadd
          refs := fun h => absurd h (by omega)
          tagThere := fun _ => hadded.sound.tagThere hpos.le
          tag := fun t ht => htag ▸ hadded.sound.tag t ht
          userVerification := fun _ => hadded.sound.userVerification hpos
          accounts := fun h => absurd h (by omega)
          nameClaims := fun h => absurd h (by omega)
          reads := hadded.sound.reads }
      origin := by
        refine ⟨hadded.origin.kept, fun h1 h15 hw => hadded.origin.tags h1 h15 ?_⟩
        rw [hadded.version]
        exact of_decide_eq_true (htag ▸ decide_eq_true hw) }

theorem migrates_6 : Migrates fromStr f₀ 6 mig6To7 :=
  migrates_column (by decide) (by decide) (by decide) rfl rfl rfl
    (fun _ => ⟨rfl, rfl, rfl, rfl, rfl, rfl⟩) (fun _ => rfl)
    fun _ hv hc => .inr (.inl ⟨hv, by rw [hc]; rfl⟩)

theorem migrates_16 : Migrates fromStr f₀ 16 mig16To17 :=
  migrates_column (by decide) (by decide) (by decide) rfl rfl rfl
    (fun _ => ⟨rfl, rfl, rfl, rfl, rfl, rfl⟩) (fun _ => rfl)
    fun _ hv hc => .inr (.inr (.inl ⟨hv, by rw [hc]; rfl⟩))

/-! ### Replaced events -/

/-- What an update hides has a row of its author and kind that is not older. -/
theorem File.At.hideOlder (h : f₀.At fromStr 11 f) {x : Int × Bytes} (hx : ∀ r : FileRow,
    r.kind = x.1 → replaceableRow r = true) :
    ∃ f', hideOlder eng x f = .ok ((), f') ∧ f₀.At fromStr 11 f' := by
  refine ⟨_, rfl, h.mapEvents ?_ ?_⟩
  · intro r
    split_ifs
    · exact ⟨rfl, rfl, rfl, rfl, rfl, rfl⟩
    · exact .refl r
  · intro r hr hhid
    split_ifs at hhid with hold
    · right
      simp only [Bool.and_eq_true, beq_iff_eq, Bool.not_eq_true'] at hold
      obtain ⟨⟨⟨-, hkind⟩, hauthor⟩, hnot⟩ := hold
      have hmem : r ∈ f.events.filter fun r => r.kind == x.1 && r.author == x.2 := by
        simp [hr, hkind, hauthor]
      rcases htop : Sql.orderByDesc eng FileRow.createdAt
        (f.events.filter fun r => r.kind == x.1 && r.author == x.2) with _ | ⟨s, rest⟩
      · have hnil : r ∈ Sql.orderByDesc eng FileRow.createdAt _ := Sql.mem_orderByDesc.mpr hmem
        rw [htop] at hnil
        cases hnil
      · have hs := Sql.mem_orderByDesc.mp (htop ▸ List.mem_cons_self ..)
        simp only [List.mem_filter, Bool.and_eq_true, beq_iff_eq] at hs
        refine ⟨hx r hkind, s, hs.1, hs.2.1.trans hkind.symm, hs.2.2.trans hauthor.symm, ?_,
          Sql.key_le_head htop r hmem⟩
        rw [htop] at hnot
        intro heq
        simp [heq] at hnot
    · exact .inl hhid

theorem migrates_11 : Migrates fromStr f₀ 11 (mig11To12 eng) := by
  refine (migrates_tx (Q := File.At fromStr f₀ 12) (fun f hf => hf.left (by decide) (by decide))
    fun f hf => ?_).bind fun _ => Crash.Triple.pure fun _ hf => ⟨rfl, hf⟩
  obtain ⟨s', hloop, hat⟩ := Sql.forM_ok (hideOlder eng)
    (l := (Sql.orderByAsc eng FileRow.id (f.events.filter replaceableRow)).map fun r =>
      (r.kind, r.author))
    (I := fun _ s => f₀.At fromStr 11 s)
    (by
      intro done x s hx hs
      obtain ⟨q, hq, rfl⟩ := List.mem_map.mp hx
      have hrep : replaceableRow q = true :=
        (List.mem_filter.mp (Sql.mem_orderByAsc.mp hq)).2
      refine hs.hideOlder fun r hkind => ?_
      rwa [replaceableRow, hkind])
    (s := f) hf
  refine ⟨_, Sql.bind_eq_ok.mpr ⟨f, f, rfl, Sql.bind_eq_ok.mpr ⟨(), _, hloop, rfl⟩⟩, ?_⟩
  exact hat.setVersion rfl (by decide) (fun _ => hat.sound.tagThere (by decide)) rfl
    (fun _ => hat.sound.userVerification (by decide)) (fun h => absurd h (by decide))
    (fun h => absurd h (by decide))

/-! ### Hidden events -/

/-- Hidden rows may go at version 15. -/
theorem File.At.deleteHidden (h : f₀.At fromStr 15 f) :
    f₀.At fromStr 15 (f.deleteEvents fun r => r.hidden == some true) where
  version := h.version
  sound :=
    { columns := h.sound.columns
      refs := fun hv => absurd hv (by decide)
      tagThere := fun _ => by
        obtain ⟨t, ht⟩ := Option.isSome_iff_exists.mp (h.sound.tagThere (by decide))
        rw [File.deleteEvents, ht]
        rfl
      tag := by
        intro t ht
        rw [File.deleteEvents, Option.map_eq_some_iff] at ht
        obtain ⟨u, hu, rfl⟩ := ht
        have hu15 := h.sound.tag u hu
        rcases u with rows | rows
        · rfl
        · cases hu15
      userVerification := fun _ => by
        obtain ⟨t, ht⟩ := Option.isSome_iff_exists.mp (h.sound.userVerification (by decide))
        rw [File.deleteEvents, ht]
        rfl
      accounts := h.sound.accounts
      nameClaims := h.sound.nameClaims
      reads := fun r hr => h.sound.reads r (List.mem_filter.mp hr).1 }
  origin := .of_old h.origin.kept.dropHidden h.version.le

/-- The version is set first, so a start that loses power here is not made up for. -/
theorem migrates_14 : Migrates fromStr f₀ 14 mig14To15 := by
  have hbatch : Crash.Triple (File.At fromStr f₀ 14) (executeBatch [Sqlite.setVersion 15])
      (fun _ => File.At fromStr f₀ 15) (File.Left fromStr f₀) fun _ => False :=
    Crash.Triple.batch fun f hf => ⟨hf.left (by decide) (by decide), _, rfl,
      hf.setVersion rfl (by decide) (fun _ => hf.sound.tagThere (by decide)) rfl
        (fun _ => hf.sound.userVerification (by decide)) (fun h => absurd h (by decide))
        (fun h => absurd h (by decide))⟩
  refine hbatch.bind fun _ => (Crash.Triple.batch fun f hf => ?_).bind fun _ =>
    Crash.Triple.pure (P := File.At fromStr f₀ 15) fun _ hf => ⟨rfl, hf⟩
  exact ⟨hf.left (by decide) (by decide), _, rfl, hf.deleteHidden⟩

/-! ### The tags of version 16 -/

theorem migrates_15 : Migrates fromStr f₀ 15 (mig15To16Start eng fromStr) := by
  refine (migrates_tx (Q := File.At fromStr f₀ 16) (fun f hf => hf.left (by decide) (by decide))
    fun f hf => ?_).bind fun _ => Crash.Triple.pure fun _ hf => ⟨rfl, hf⟩
  obtain ⟨t, ht⟩ := Option.isSome_iff_exists.mp (hf.sound.tagThere (by decide))
  obtain ⟨rows, hmig, hperm⟩ := mig15To16_ok eng (show ∀ row ∈ (f.database t).events, _ by
    intro row hrow
    obtain ⟨r, hr, rfl⟩ := List.mem_map.mp hrow
    exact hf.sound.reads r hr)
  refine ⟨{ f with userVersion := 16, tag := some (.v16 rows) }, ?_, ?_⟩
  · rw [recreate, ht]
    simp only [hmig]
    rfl
  · exact
      { version := rfl
        sound :=
          { columns := hf.sound.columns
            refs := fun hv => absurd hv (by decide)
            tagThere := fun _ => rfl
            tag := by
              rintro t ⟨⟩
              rfl
            userVerification := fun _ => hf.sound.userVerification (by decide)
            accounts := fun hv => absurd hv (by decide)
            nameClaims := fun hv => absurd hv (by decide)
            reads := hf.sound.reads }
        origin := by
          refine ⟨hf.origin.kept, fun _ _ _ => ⟨rows, rfl, ?_⟩⟩
          rwa [File.database, List.flatMap_map] at hperm }

/-! ### The last tables -/

theorem migrates_17 : Migrates fromStr f₀ 17 mig17To18 := by
  refine migrates_batch fun f hf => ⟨hf.left (by decide) (by decide), _, rfl, ?_⟩
  have hone : f₀.At fromStr 17 { f with invoice := true } :=
    hf.congr rfl rfl rfl (fun _ => ⟨rfl, rfl⟩) rfl id id (fun _ => rfl) id
  have htwo : f₀.At fromStr 17 { f with invoice := true, account := true } :=
    hone.congr rfl rfl rfl (fun _ => ⟨rfl, rfl⟩) rfl id (fun _ => rfl) id id
  refine ⟨hone.left (by decide) (by decide), _, rfl, htwo.left (by decide) (by decide), _, rfl, ?_⟩
  exact htwo.setVersion rfl (by decide) (fun _ => hf.sound.tagThere (by decide)) rfl
    (fun _ => hf.sound.userVerification (by decide)) (fun _ => ⟨rfl, rfl⟩)
    (fun h => absurd h (by decide))

theorem migrates_18 : Migrates fromStr f₀ 18 mig18To19 := by
  refine migrates_batch fun f hf => ⟨hf.left (by decide) (by decide), _, rfl, ?_⟩
  have hcreated : f₀.At fromStr 18 { f with nameClaims := true } :=
    hf.congr rfl rfl rfl (fun _ => ⟨rfl, rfl⟩) rfl id id id fun _ => rfl
  refine ⟨hcreated.left (by decide) (by decide), _, rfl, ?_⟩
  exact hcreated.setVersion rfl (by decide) (fun _ => hf.sound.tagThere (by decide)) rfl
    (fun _ => hf.sound.userVerification (by decide)) (fun _ => hf.sound.accounts (by decide))
    (fun _ => rfl)

end Migrations

end Floonet.Sqlite
