import Floonet.Sqlite.Restarts

/-!
# Starts that are cut short

Whatever cuts a start short, the next one finds the file where it can go on, or stuck
(`upgradeDb_triple`, `upgradeDb_stuck`). So over any number of starts the file comes to the
current version unless it gets stuck, and then it stays as it is (`upgradeDb_resumes`); and
either way no event is lost but the hidden and the replaced ones (`upgradeDb_keeps`).
-/

namespace Floonet.Sqlite

variable {eng : Sql.Engine} {fromStr : String → Option Event} {f₀ f g : File} {v : Nat}

/-! ## The chain of migrations

Each migration is tried when the version is its own. The triples of the single migrations are put
together by induction on the list. -/

/-- The schema of a new file is one batch, and its version is the first statement of it. -/
theorem migInit_triple :
    Crash.Triple (fun f => f = .new ∧ f₀ = .new) migInit
      (fun n f => n = DB_VERSION ∧ f₀.At fromStr DB_VERSION f) (File.Left fromStr f₀)
      fun _ => False := by
  refine (Crash.Triple.batch (Q := File.At fromStr f₀ DB_VERSION) ?_).bind fun _ =>
    Crash.Triple.pure fun _ hf => ⟨rfl, hf⟩
  rintro _ ⟨rfl, rfl⟩
  have hfrom : ∀ f : File, f.events = [] → File.new.From fromStr f := fun f hf =>
    ⟨hf ▸ RowsKept.refl List.nodup_nil, fun h => absurd h (by decide)⟩
  have hstuck : ∀ f : File, f.events = [] → f.userVersion = DB_VERSION → ¬ f.Complete →
      File.new.Left fromStr f := fun f hnil hv hnot =>
    .inr ⟨.inr (.inr (.inr ⟨hv, hnot⟩)), hfrom f hnil⟩
  refine ⟨.inl (.inl ⟨rfl, rfl⟩), _, rfl, hstuck _ rfl rfl (by decide), _, rfl,
    hstuck _ rfl rfl (by decide), _, rfl, hstuck _ rfl rfl (by decide), _, rfl,
    hstuck _ rfl rfl (by decide), _, rfl, hstuck _ rfl rfl (by decide), _, rfl,
    hstuck _ rfl rfl (by decide), _, rfl, ?_⟩
  exact
    { version := rfl
      sound :=
        { columns := rfl
          refs := fun h => absurd h (by decide)
          tagThere := fun _ => rfl
          tag := by
            rintro t ⟨⟩
            rfl
          userVerification := fun _ => rfl
          accounts := fun _ => ⟨rfl, rfl⟩
          nameClaims := fun _ => rfl
          reads := fun r hr => absurd hr List.not_mem_nil }
      origin := hfrom _ rfl }

/-- Each migration goes on from where the one before it ends. -/
def Consecutive (fromStr : String → Option Event) (f₀ : File) :
    Nat → List (Nat × Start Nat) → Prop
  | k, [] => k = DB_VERSION
  | k, x :: rest =>
    x.1 = k ∧ k < DB_VERSION ∧ Migrates fromStr f₀ k x.2 ∧ Consecutive fromStr f₀ (k + 1) rest

theorem migrations_consecutive :
    Consecutive fromStr f₀ 1 (migrations eng fromStr).tail :=
  ⟨rfl, by decide, migrates_1, rfl, by decide, migrates_2, rfl, by decide, migrates_3,
    rfl, by decide, migrates_4, rfl, by decide, migrates_5, rfl, by decide, migrates_6,
    rfl, by decide, migrates_indexes (by decide) (by decide) rfl (by decide) rfl (by decide)
      (by decide),
    rfl, by decide, migrates_indexes (by decide) (by decide) rfl (by decide) rfl (by decide)
      (by decide),
    rfl, by decide, migrates_indexes (by decide) (by decide) rfl (by decide) rfl (by decide)
      (by decide),
    rfl, by decide, migrates_indexes (by decide) (by decide) rfl (by decide) rfl (by decide)
      (by decide),
    rfl, by decide, migrates_11,
    rfl, by decide, migrates_indexes (by decide) (by decide) rfl (by decide) rfl (by decide)
      (by decide),
    rfl, by decide, migrates_indexes (by decide) (by decide) rfl (by decide) rfl (by decide)
      (by decide),
    rfl, by decide, migrates_14, rfl, by decide, migrates_15, rfl, by decide, migrates_16,
    rfl, by decide, migrates_17, rfl, by decide, migrates_18, rfl⟩

/-- The file is at the version the start goes by, which is not behind the migrations done. -/
structure File.Stage (fromStr : String → Option Event) (f₀ : File) (k v : Nat) (f : File) :
    Prop where
  pos : 1 ≤ v
  reached : k ≤ v
  le_current : v ≤ DB_VERSION
  here : f₀.At fromStr v f

theorem whenAt_triple {mig : Start Nat} (hv : v < DB_VERSION) (hmig : Migrates fromStr f₀ v mig)
    (w : Nat) :
    Crash.Triple (f₀.Stage fromStr v w) (whenAt v mig w) (f₀.Stage fromStr (v + 1))
      (File.Left fromStr f₀) fun _ => False := by
  refine Crash.Triple.ite (fun hw => ?_) fun hw => ?_
  · subst hw
    refine Crash.Triple.conseq hmig (fun _ h => h.here) ?_ (fun _ => id) fun _ => id
    rintro _ f ⟨rfl, hf⟩
    exact ⟨Nat.succ_pos w, le_rfl, hv, hf⟩
  · exact Crash.Triple.pure fun f h =>
      ⟨h.pos, Nat.succ_le_of_lt (lt_of_le_of_ne h.reached (Ne.symm hw)), h.le_current, h.here⟩

theorem foldlM_triple {migs : List (Nat × Start Nat)} {k : Nat}
    (hmigs : Consecutive fromStr f₀ k migs) (w : Nat) :
    Crash.Triple (f₀.Stage fromStr k w) (migs.foldlM (fun v x => whenAt x.1 x.2 v) w)
      (fun _ => File.At fromStr f₀ DB_VERSION) (File.Left fromStr f₀) fun _ => False := by
  induction migs generalizing k w with
  | nil =>
    refine Crash.Triple.pure fun f hf => ?_
    obtain rfl : w = DB_VERSION := le_antisymm hf.le_current (hmigs ▸ hf.reached)
    exact hf.here
  | cons x rest ih =>
    obtain ⟨rfl, hk, hmig, hrest⟩ := hmigs
    exact (whenAt_triple hk hmig w).bind fun w' => ih hrest w'

/-! ## One start -/

/-- A start that goes on with a file brings it to the current version. -/
theorem upgradeDb_triple :
    Crash.Triple (File.Resumable fromStr f₀) (upgradeDb eng fromStr)
      (fun n f => n = DB_VERSION ∧ f₀.At fromStr DB_VERSION f) (File.Left fromStr f₀)
      fun _ => False := by
  refine (Crash.Triple.read (Q := fun a f => a = f ∧ f₀.Resumable fromStr f)
    fun f hf => ⟨rfl, hf⟩).bind fun a => ?_
  have hle : ∀ f, a = f ∧ f₀.Resumable fromStr f → a.userVersion ≤ DB_VERSION := by
    rintro f ⟨rfl, ⟨rfl, -⟩ | ⟨v, -, hv, hat⟩⟩
    · exact Nat.zero_le _
    · rwa [hat.version]
  refine Crash.Triple.ite (fun hlt => ?_) fun _ => ?_
  · exact Crash.Triple.throw fun f hf => absurd hlt (Nat.not_lt.mpr (hle f hf))
  refine Crash.Triple.bind (Q := fun _ => f₀.At fromStr DB_VERSION) ?_ fun _ =>
    Crash.Triple.pure fun _ hf => ⟨rfl, hf⟩
  -- the first migration is the one of a new file, and it is followed by none
  refine Crash.Triple.bind (Q := f₀.Stage fromStr 1) ?_ fun w =>
    foldlM_triple migrations_consecutive w
  refine Crash.Triple.ite (fun hzero => ?_) fun hpos => ?_
  · refine Crash.Triple.conseq migInit_triple ?_ ?_ (fun _ => id) fun _ => id
    · rintro f ⟨rfl, hnew | ⟨v, hpos, -, hat⟩⟩
      · exact hnew
      · rw [← hat.version, hzero] at hpos
        cases hpos
    · rintro _ f ⟨rfl, hf⟩
      exact ⟨by decide, by decide, le_rfl, hf⟩
  · refine Crash.Triple.pure ?_
    rintro f ⟨rfl, ⟨rfl, -⟩ | ⟨v, hv, hle, hat⟩⟩
    · exact absurd rfl hpos
    · obtain rfl := hat.version
      exact ⟨hv, hv, hle, hat⟩

/-- The migrations for other versions are passed over. -/
theorem foldlM_skip {migs : List (Nat × Start Nat)} (h : v ∉ migs.map Prod.fst) :
    migs.foldlM (fun v x => whenAt x.1 x.2 v) v = (pure v : Start Nat) := by
  induction migs with
  | nil => rfl
  | cons x rest ih =>
    rw [List.map_cons, List.mem_cons, not_or] at h
    rw [List.foldlM_cons, whenAt, if_neg h.1]
    exact ih h.2

/-- Where the migration for its version panics at once, so does the start. -/
theorem foldlM_panics (before after : List (Nat × Start Nat)) {mig : Start Nat}
    (hbefore : v ∉ before.map Prod.fst)
    (hmig : Crash.Triple (fun f => f = g) mig (fun _ _ => False) (fun f => f = g) fun f => f = g)
    {Q : Nat → File → Prop} :
    Crash.Triple (fun f => f = g)
      ((before ++ (v, mig) :: after).foldlM (fun v x => whenAt x.1 x.2 v) v) Q
      (fun f => f = g) fun f => f = g := by
  induction before with
  | nil =>
    refine Crash.Triple.bind (Q := fun _ _ => False) ?_ fun _ _ _ h => h.elim
    exact Crash.Triple.ite (fun _ => hmig) fun hne => absurd rfl hne
  | cons x rest ih =>
    rw [List.map_cons, List.mem_cons, not_or] at hbefore
    rw [List.cons_append, List.foldlM_cons, whenAt, if_neg hbefore.1]
    exact ih hbefore.2

/-- A column that is there cannot be added. -/
theorem addColumn_panics {has : Columns → Bool} {add : Columns → Columns}
    {null : FileRow → FileRow} {hid : ∀ r, (null r).id = r.id} (hthere : g.columns.any has = true)
    {rest : List Statement} {n : Nat} :
    Crash.Triple (fun f => f = g)
      (do executeBatch (addColumn has add null hid :: rest); pure n) (fun _ _ => False)
      (fun f => f = g) fun f => f = g := by
  refine Crash.Triple.bind (Q := fun _ _ => False) ?_ fun _ _ _ h => h.elim
  refine Crash.Triple.bind (Q := fun _ _ => False) ?_ fun _ _ _ h => h.elim
  have herr : addColumn has add null hid g = .error .duplicateColumn := by
    rw [addColumn]
    rcases hc : g.columns with _ | c <;> rw [hc] at hthere
    · cases hthere
    · exact if_pos hthere
  refine Crash.Triple.commit (fun _ => id) ?_ fun f _ hf _ => hf
  rintro f a f' rfl heq
  rw [herr] at heq
  cases heq

/-- A start leaves a stuck file as it is. -/
theorem upgradeDb_stuck (hg : g.Stuck) :
    Crash.Triple (fun f => f = g) (upgradeDb eng fromStr) (fun _ f => f = g) (fun f => f = g)
      fun f => f = g := by
  refine (Crash.Triple.read (Q := fun a f => a = g ∧ f = g) fun f hf => ⟨hf, hf⟩).bind fun a =>
    Crash.Triple.of_pure ?_
  rintro rfl
  refine Crash.Triple.ite (fun _ => Crash.Triple.throw fun _ => id) fun _ => ?_
  refine Crash.Triple.bind (Q := fun _ f => f = a) ?_ fun _ => Crash.Triple.pure fun _ => id
  rcases hg with ⟨hv, hcol⟩ | ⟨hv, hcol⟩ | ⟨hv, hcol⟩ | ⟨hv, -⟩
  · rw [hv]
    exact foldlM_panics ((migrations eng fromStr).take 1)
      ((migrations eng fromStr).drop 2) (by simp [migrations]) (addColumn_panics hcol)
  · rw [hv]
    exact foldlM_panics ((migrations eng fromStr).take 6)
      ((migrations eng fromStr).drop 7) (by simp [migrations]) (addColumn_panics hcol)
  · rw [hv]
    exact foldlM_panics ((migrations eng fromStr).take 16)
      ((migrations eng fromStr).drop 17) (by simp [migrations]) (addColumn_panics hcol)
  · rw [hv, foldlM_skip (by simp [migrations, DB_VERSION])]
    exact Crash.Triple.pure fun _ => id

/-! ## Any number of starts -/

/-- A file no start has touched, or one that is at a version. -/
def File.Sound (fromStr : String → Option Event) (f : File) : Prop :=
  f = .new ∨ 1 ≤ f.userVersion ∧ f.userVersion ≤ DB_VERSION ∧ f.SoundAt fromStr f.userVersion

/-- A sound file can be started on. -/
theorem File.Sound.resumable (h : f.Sound fromStr) : f.Resumable fromStr f := by
  rcases h with rfl | ⟨hpos, hle, hsound⟩
  · exact .inl ⟨rfl, rfl⟩
  · refine .inr ⟨_, hpos, hle, rfl, hsound, RowsKept.refl f.id_nodup, fun _ h15 h16 => ?_⟩
    exact absurd (h16.trans h15) (by decide)

theorem File.Resumable.from (h : f₀.Resumable fromStr f) : f₀.From fromStr f := by
  rcases h with ⟨rfl, rfl⟩ | ⟨v, -, -, hat⟩
  · exact ⟨RowsKept.refl List.nodup_nil, fun h => absurd h (by decide)⟩
  · exact hat.origin

/-- Whatever cuts a start short, it leaves a file the next one goes on with, or a stuck one. -/
theorem upgradeDb_left (eng : Sql.Engine) :
    Crash.Triple (File.Left fromStr f₀) (upgradeDb eng fromStr) (fun _ => File.Left fromStr f₀)
      (File.Left fromStr f₀) (File.Left fromStr f₀) := by
  rintro n f (hres | ⟨hstuck, hfrom⟩)
  · refine Crash.Triple.conseq upgradeDb_triple (fun _ => id) ?_ (fun _ => id)
      (fun _ h => h.elim) n f hres
    rintro _ g ⟨-, hat⟩
    exact hat.left (by decide) le_rfl
  · have hleft : ∀ g, g = f → f₀.Left fromStr g := by
      rintro g rfl
      exact .inr ⟨hstuck, hfrom⟩
    exact Crash.Triple.conseq (upgradeDb_stuck hstuck) (fun _ => id) (fun _ => hleft) hleft hleft
      n f rfl

/-- The file is at the current version, with everything that belongs to it. -/
structure File.Current (f : File) : Prop where
  version : f.userVersion = DB_VERSION
  complete : f.Complete

theorem File.Stuck.not_current (h : f.Stuck) : ¬ f.Current := by
  rintro ⟨hv, hcomplete⟩
  rcases h with ⟨hv', -⟩ | ⟨hv', -⟩ | ⟨hv', -⟩ | ⟨-, hnot⟩
  · cases hv.symm.trans hv'
  · cases hv.symm.trans hv'
  · cases hv.symm.trans hv'
  · exact hnot hcomplete

/-- However often the starts before were cut short: the next one that is left alone brings the
file to the current version, unless the file is stuck, and then no start changes it. -/
theorem upgradeDb_resumes (eng : Sql.Engine) (h : f₀.Sound fromStr) (ns : List (Option Nat)) :
    let f := Machine.run (upgradeDb eng fromStr).next f₀ ns
    (¬ f.Stuck → ∃ f', upgradeDb eng fromStr none f = (.returned DB_VERSION none, f') ∧
      f'.Current) ∧
    (f.Stuck → ¬ f.Current ∧ ∀ ms, Machine.run (upgradeDb eng fromStr).next f ms = f) := by
  have hleft := (upgradeDb_left eng).restarts (fun _ _ => id) (fun _ => id) (fun _ => id) ns
    (.inl h.resumable)
  refine ⟨fun hnot => ?_, fun hstuck => ⟨hstuck.not_current, fun ms => ?_⟩⟩
  · rcases hleft with hres | ⟨hstuck, -⟩
    · obtain ⟨_, f', hrun, rfl, hat⟩ := upgradeDb_triple.completes hres
      exact ⟨f', hrun, hat.version, hat.complete⟩
    · exact absurd hstuck hnot
  · exact (upgradeDb_stuck hstuck).restarts (fun _ _ => id) (fun _ => id) (fun _ => id) ms rfl

/-- A file of version 6 with one event. -/
def sampleSix : File where
  userVersion := 6
  columns := some (columnsAt 6)
  events := [{
    id := 1
    eventHash := Hex.ofNat 32 sampleTagged.id
    createdAt := 1700000400
    author := Hex.ofNat 32 sampleTagged.pubkey
    kind := 1
    content := sampleTagged.event.eventStr
    hidden := some false
    delegatedBy := none
    expiresAt := none }]
  eventRef := none
  pubkeyRef := none
  tag := some (.v15 [])
  userVerification := some []
  account := false
  invoice := false
  nameClaims := false
  id_nodup := by simp

theorem sampleSix_sound : sampleSix.Sound sampleFromStr := by
  refine .inr ⟨by decide, by decide, rfl, fun h => absurd h (by decide), fun _ => rfl, ?_,
    fun _ => rfl, fun h => absurd h (by decide), fun h => absurd h (by decide), ?_⟩
  · rintro t ⟨⟩
    rfl
  · intro r hr
    obtain rfl := List.mem_singleton.mp hr
    exact ⟨_, if_pos rfl, rfl, rfl⟩

/-- Power lost in front of the first commit does no harm, and after it there is no way on. -/
theorem sampleSix_resumes :
    (∃ f', upgradeDb (Sql.Engine.inOrder 9) sampleFromStr none
        (Machine.run (upgradeDb (Sql.Engine.inOrder 9) sampleFromStr).next sampleSix [some 0]) =
      (.returned DB_VERSION none, f') ∧ f'.Current) ∧
    ¬ (Machine.run (upgradeDb (Sql.Engine.inOrder 9) sampleFromStr).next sampleSix
        [some 1]).Current :=
  ⟨(upgradeDb_resumes _ sampleSix_sound [some 0]).1 (by decide),
    ((upgradeDb_resumes _ sampleSix_sound [some 1]).2 (by decide)).1⟩

/-- Over any number of starts, whole ones and such that are cut short, no event is invented,
none but hidden and replaced ones are hidden or dropped, and from version 16 on the tags of a
file that was older are those of its events. -/
theorem upgradeDb_keeps (eng : Sql.Engine) (h : f₀.Sound fromStr) (ns : List (Option Nat)) :
    let f := Machine.run (upgradeDb eng fromStr).next f₀ ns
    RowsKept f₀.events f.events ∧
    (1 ≤ f₀.userVersion → f₀.userVersion ≤ 15 → 16 ≤ f.userVersion → f.TagsRebuilt fromStr) := by
  have hleft := (upgradeDb_left eng).restarts (fun _ _ => id) (fun _ => id) (fun _ => id) ns
    (.inl h.resumable)
  rcases hleft with hres | ⟨-, hfrom⟩
  · exact ⟨hres.from.kept, hres.from.tags⟩
  · exact ⟨hfrom.kept, hfrom.tags⟩

/-- The second start brings the file to the latest version. -/
theorem sampleSix_version :
    (Machine.run (upgradeDb (Sql.Engine.inOrder 9) sampleFromStr).next sampleSix
      [some 4, none]).userVersion = DB_VERSION := by
  decide +kernel

/-- The note of the file comes through a start that is cut short and one that is not, and then its
tags are those of the note. -/
theorem sampleSix_keeps :
    let f := Machine.run (upgradeDb (Sql.Engine.inOrder 9) sampleFromStr).next sampleSix
      [some 4, none]
    RowsKept sampleSix.events f.events ∧ f.TagsRebuilt sampleFromStr := by
  obtain ⟨hkept, htags⟩ := upgradeDb_keeps (Sql.Engine.inOrder 9) sampleSix_sound [some 4, none]
  refine ⟨hkept, htags (by decide) (by decide) ?_⟩
  rw [sampleSix_version]
  decide

end Floonet.Sqlite
