import Floonet.Recorded
import Floonet.Sqlite.Frame
import Floonet.Sqlite.Param

/-!
# Coordinates of parameterized replaceable events

The coordinate of an event is its author, its kind and `distinctParam`, the value
of its first `d` tag. The store keeps coordinates apart through tag rows, and
those are another notion: a missing value leaves no row, and a second `d` tag
leaves one more.

So two things can go wrong. Two events of one coordinate can both be stored, when
the clean-up does not reach the older one; writes that never meet such a pair keep
one row for each coordinate (`onePerCoordinate_of_indexed`). And an event can refuse or
remove one of another coordinate, through a `d` tag of that one which is not its
first; `staysInside_iff` says exactly when that happens.
-/

namespace Floonet.Sqlite

open Hex (Bytes)

variable {eng : Sql.Engine} {db : Db} {e : Event} {hash author : Bytes}

/-! ## One event for each coordinate

The clean-up finds older events through their tag rows, and skips the newest one it finds. So the
uniqueness is kept by a write when the stored events of its coordinate have a tag row for it and the
new event, or another one, is the newest. -/

/-- Rows of one author and kind with the same `distinctParam` are one row. -/
def OnePerCoordinate (db : Db) : Prop :=
  ∀ r ∈ db.events, ∀ s ∈ db.events, r.author = s.author → r.kind = s.kind →
    ∀ d, r.content.distinctParam = some d → s.content.distinctParam = some d → r = s

/-- Nothing stands against the insert of the event. -/
def inserts (db : Db) (e : Event) : Prop :=
  shadowed db e = false ∧ representable e = true ∧
    ∀ s ∈ db.events, Hex.decode e.id ≠ some s.eventHash

theorem Accepts.inserts (hacc : Accepts db e hash author) : inserts db e :=
  ⟨hacc.not_shadowed, hacc.representable, fun _ hs => hacc.ne_hash hs⟩

/-- The clean-up after the event reaches a row that carries its parameter `d`: because the event
has a tag row with it, or because the row has two of them or is not the newest one that has one. -/
def reaches (eng : Sql.Engine) (db : Db) (e : Event) (d : String) (r : EventRow) : Prop :=
  carries e d = true ∨ 2 ≤ r.content.searchableTags.count ("d", d) ∨
    newestParam eng db e.kind r.author d ≠ some r.id

/-- The clean-up of an accepted event, on the stored rows that carry its parameter. -/
theorem swept_iff_reaches (hcoh : db.Coherent) (hacc : Accepts db e hash author) {d : String}
    (hd : e.distinctParam = some d) {r : EventRow} (hr : r ∈ db.events) (ha : r.author = author)
    (hk : r.kind = e.kind) (hc : carries r.content d = true) :
    swept eng (inserted db e hash author hacc.hash_new) e author r = true ↔
      reaches eng db e d r := by
  have hskip : r.id ∈ olderParam eng db r.kind r.author d ↔ _ := mem_olderParam_iff hcoh hr hc
  rw [hk, ha] at hskip
  rw [reaches, ha]
  by_cases hce : carries e d = true
  · rw [swept_old hcoh hacc hd hce hr]
    simp only [hk, ha, hc, hce, and_self, true_or]
  · rw [swept_old_of_not_carries hacc hd (by simpa using hce), hskip]
    simp only [hk, ha, hce, true_and, Bool.false_eq_true, false_or]

/-- If the event is inserted and does not sweep itself away, then every other stored event of its
coordinate has a tag row for it, and the clean-up reaches it. -/
def Indexed (eng : Sql.Engine) (db : Db) (e : Event) : Prop :=
  inserts db e → ∀ d, e.distinctParam = some d → e.searchableTags.count ("d", d) < 2 →
    ∀ r ∈ db.events, Hex.decode e.pubkey = some r.author → r.kind = e.kind →
      r.content.distinctParam = some d → carries r.content d = true ∧ reaches eng db e d r

/-- An accepted event takes the place of the row it shares its coordinate with. -/
theorem swept_of_indexed (hcoh : db.Coherent) (hacc : Accepts db e hash author)
    (hidx : Indexed eng db e) {d : String} (hd : e.distinctParam = some d)
    (honce : e.searchableTags.count ("d", d) < 2) {r : EventRow} (hr : r ∈ db.events)
    (ha : r.author = author) (hk : r.kind = e.kind) (hdr : r.content.distinctParam = some d) :
    swept eng (inserted db e hash author hacc.hash_new) e author r = true := by
  obtain ⟨hcr, hreach⟩ := hidx hacc.inserts d hd honce r hr (by rw [hacc.decode_pubkey, ha]) hk hdr
  exact (swept_iff_reaches hcoh hacc hd hr ha hk hcr).mpr hreach

/-- One write keeps one row for each coordinate. -/
theorem OnePerCoordinate.write (hcoh : db.Coherent) (hone : OnePerCoordinate db)
    (hidx : Indexed eng db e) : OnePerCoordinate (write eng db e) := by
  rcases write_cases eng db e with hw | ⟨hash, author, hacc, -, hw⟩
  · rw [hw]
    exact hone
  · rw [hw]
    -- a surviving stored row never shares the coordinate of the new one, if that survives too
    have hnew : ∀ r ∈ db.events,
        swept eng (inserted db e hash author hacc.hash_new) e author r = false →
        swept eng (inserted db e hash author hacc.hash_new) e author
          (eventRow db.nextRowid hash author e) = false →
        r.author = author → r.kind = e.kind → ∀ d, r.content.distinctParam = some d →
        e.distinctParam ≠ some d := by
      intro r hr hs hself ha hk d hdr hd
      have honce : e.searchableTags.count ("d", d) < 2 := by
        by_contra htwice
        rw [(swept_new hcoh hacc hd).mpr (not_lt.mp htwice)] at hself
        cases hself
      rw [swept_of_indexed hcoh hacc hidx hd honce hr ha hk hdr] at hs
      cases hs
    intro r' hr' s' hs' ha hk d hdr hds
    obtain ⟨r, hr, hswr, rfl⟩ := (mem_accepted hacc).mp hr'
    obtain ⟨s, hs, hsws, rfl⟩ := (mem_accepted hacc).mp hs'
    simp only [Db.hideRow_author, Db.hideRow_kind, Db.hideRow_content] at ha hk hdr hds
    rcases hr with hr | rfl <;> rcases hs with hs | rfl
    · rw [hone r hr s hs ha hk d hdr hds]
    · exact absurd hds (hnew r hr hswr hsws ha hk d hdr)
    · exact absurd hdr (hnew s hs hsws hswr ha.symm hk.symm d hds)
    · rfl

/-- **One event for each coordinate.** Along writes that are indexed where they
meet their coordinate, every state has at most one row for each coordinate. -/
theorem onePerCoordinate_of_indexed (eng : Sql.Engine) (es : List Event)
    (h : Machine.Along (write eng) (Indexed eng) Db.empty es) (n : Nat) :
    OnePerCoordinate (writes eng (es.take n)) := by
  have hinv := Machine.invariant_along (P := fun db => Db.Coherent db ∧ OnePerCoordinate db)
    (fun db e _ hidx hdb => ⟨hdb.1.write eng e, hdb.2.write hdb.1 hidx⟩) (h.take n)
    ⟨writes_coherent eng [], fun r hr => absurd hr List.not_mem_nil⟩
  exact hinv.2

/-- A list with the coordinate `b`. -/
def sampleOther : Recorded where
  id := 0x4d1f8ec4027e7bf8a51e73b45cd8e441870741293cd6b531a1255e62e200a552
  pubkey := 0x5cbdf0646e5db4eaa398f365f2ea7a0e3d419b7e0330e39ce92bddedcac4f9bc
  sigR := 0xb4d8393f04af6965703fbf8e48f4a981ca09fdf42434b3c13047fc073a2fc616
  sigS := 0xda6e40ba1f4b6e255300808d303219ee20f66a3dd0951fa3dc8debc0d8033d82
  createdAt := 1700000031
  kind := 30000
  tags := [["d", "b"]]
  content := ""

/-- Its update. -/
def sampleOtherUpdate : Recorded where
  id := 0xace7286d94f22ded6c8880018a49a50ade38390cfb060d8dc3cdfc5fb3f7d5f5
  pubkey := 0x5cbdf0646e5db4eaa398f365f2ea7a0e3d419b7e0330e39ce92bddedcac4f9bc
  sigR := 0x35a48552c86803824c5743c332a4a46c77dc1082956a8264c92fcd94207135ab
  sigS := 0x56d95672c7df185f68335b72c1eb567154a21ca4c1c3538af29625ed7bda0f2e
  createdAt := 1700000032
  kind := 30000
  tags := [["d", "b"]]
  content := ""

theorem sampleOther_onePerCoordinate :
    OnePerCoordinate (writes (Sql.Engine.inOrder 32766)
      ([sampleOther.event, sampleOtherUpdate.event].take 2)) := by
  refine onePerCoordinate_of_indexed (Sql.Engine.inOrder 32766)
    [sampleOther.event, sampleOtherUpdate.event] ⟨?_, ?_, trivial⟩ 2
  · exact fun _ _ _ _ r hr => absurd hr List.not_mem_nil
  · intro _ d hd _ r hr _ _ _
    have hr : r ∈ (writes (Sql.Engine.inOrder 32766) [sampleOther.event]).events := hr
    obtain ⟨e, he, -, hrow⟩ := exists_rowOf hr
    obtain rfl := List.mem_singleton.mp he
    obtain rfl : d = "b" := by
      rw [← Option.some.injEq, ← hd]
      decide
    have he : carries sampleOtherUpdate.event "b" = true := by decide
    refine ⟨?_, .inl he⟩
    rw [hrow.content]
    decide

/-- A list without `d` tag. -/
def sampleBare : Recorded where
  id := 0x772739c44803bd0dda4f0d82413ef8c51b6a86b12040b0e4f41e3265e6ba4561
  pubkey := 0x5cbdf0646e5db4eaa398f365f2ea7a0e3d419b7e0330e39ce92bddedcac4f9bc
  sigR := 0x9bdd39ee51a730b5c815f649391d1e6c8d3ca46ddb9c2cae7c1eae31d6c8c974
  sigS := 0x3f9ca4421ec8e5b79d40b12a7b39d7246035a418181edfa318e3dd5909df8e3e
  createdAt := 1700000020
  kind := 30000
  tags := []
  content := ""

/-- Its update. -/
def sampleBareUpdate : Recorded where
  id := 0x98aead56883675c4b021898616c6edd5429d95d4bfbe9a3d64c9ead721918754
  pubkey := 0x5cbdf0646e5db4eaa398f365f2ea7a0e3d419b7e0330e39ce92bddedcac4f9bc
  sigR := 0xb11c05cfa840e565533d3592927ee8dd6dfcb613fc512a706708125a3751d773
  sigS := 0xaacf69c27d965cf9a2bc733c6b38fa922b10e9002f7c13a1c7771843f0a1ffc1
  createdAt := 1700000021
  kind := 30000
  tags := []
  content := ""

/-- Without a tag row the update does not meet the list it replaces: both are
stored, and the coordinate with the empty value has two rows. -/
theorem sampleBare_twice :
    sampleBare.event.Validated (Recorded.crypto [sampleBare, sampleBareUpdate]) ∧
      sampleBareUpdate.event.Validated (Recorded.crypto [sampleBare, sampleBareUpdate]) ∧
      ¬ OnePerCoordinate (writes (Sql.Engine.inOrder 32766)
        [sampleBare.event, sampleBareUpdate.event]) := by
  refine ⟨Recorded.validated (by decide) (by simp), Recorded.validated (by decide) (by simp), ?_⟩
  intro hone
  have hrows : (writes (Sql.Engine.inOrder 32766)
      [sampleBare.event, sampleBareUpdate.event]).events.map
        (fun r => (r.id, r.author, r.kind, r.content.distinctParam)) =
      [(1, Hex.ofNat 32 sampleBare.pubkey, 30000, some ""),
        (2, Hex.ofNat 32 sampleBare.pubkey, 30000, some "")] := by
    decide +kernel
  obtain ⟨r, hr, hr1⟩ := List.mem_map.mp (hrows ▸ List.mem_cons_self ..)
  obtain ⟨s, hs, hs2⟩ := List.mem_map.mp
    (hrows ▸ List.mem_cons_of_mem _ (List.mem_cons_self ..))
  simp only [Prod.mk.injEq] at hr1 hs2
  obtain ⟨hid, ha, hk, hd⟩ := hr1
  obtain ⟨hid', ha', hk', hd'⟩ := hs2
  have := hone r hr s hs (ha.trans ha'.symm) (hk.trans hk'.symm) "" hd hd'
  rw [this, hid'] at hid
  cases hid

/-! ## Replacement inside the coordinate

Conversely an event with a second `d` tag is found under the coordinate of another one. Both the
refusing query and the clean-up reach it. -/

/-- The row has the author, the kind and the parameter of the event. -/
structure SameCoordinate (e : Event) (r : EventRow) : Prop where
  author : Hex.decode e.pubkey = some r.author
  kind : r.kind = e.kind
  distinctParam : r.content.distinctParam = e.distinctParam

/-- The rows the refusing query of parameterized kinds returns. -/
def refusing (db : Db) (e : Event) : List EventRow :=
  match e.distinctParam with
  | some d => (newerParam db (Hex.decode e.pubkey) e.kind e.createdAt d).map Prod.fst
  | none => []

/-- Every row other than the event itself that its write deletes, or because of
which it is refused, has its coordinate. -/
def StaysInside (eng : Sql.Engine) (db : Db) (e : Event) : Prop :=
  ∀ r ∈ db.events, Hex.decode e.id ≠ some r.eventHash →
    (∀ r' ∈ (write eng db e).events, r'.id ≠ r.id) ∨ r ∈ refusing db e → SameCoordinate e r

/-- A stored event of the same author and kind that carries the parameter `d` of
another event in a `d` tag which is not its first. -/
structure Foreign (e : Event) (d : String) (r : EventRow) : Prop where
  author : Hex.decode e.pubkey = some r.author
  kind : r.kind = e.kind
  carries : carries r.content d = true
  distinctParam : r.content.distinctParam ≠ some d
  other : Hex.decode e.id ≠ some r.eventHash

/-- The foreign row is not older and refuses the event, or the event is inserted and the clean-up
reaches the row. -/
def meets (eng : Sql.Engine) (db : Db) (e : Event) (d : String) (r : EventRow) : Prop :=
  (fitsI64 e.createdAt = true ∧ e.createdAt ≤ r.createdAt) ∨
    (inserts db e ∧ reaches eng db e d r)

/-- The rows that refuse an event are those of its coordinate. -/
theorem mem_refusing (hcoh : db.Coherent) {d : String} (hd : e.distinctParam = some d)
    (hpk : Hex.decode e.pubkey = some author) {r : EventRow} :
    r ∈ refusing db e ↔
      r ∈ db.events ∧ r.author = author ∧ r.kind = e.kind ∧ carries r.content d = true ∧
        fitsI64 e.createdAt = true ∧ e.createdAt ≤ r.createdAt := by
  have hkind := Event.isParamReplaceable_iff.mp (isParamReplaceable_of_distinctParam hd)
  have hfk : fitsI64 e.kind = true := by
    rw [fitsI64, decide_eq_true_eq]
    omega
  rw [refusing, hd, hpk]
  simp only [List.mem_map]
  by_cases hfc : fitsI64 e.createdAt = true
  · simp only [mem_newerParam hcoh hfk hfc]
    refine ⟨?_, ?_⟩
    · rintro ⟨rt, ⟨s, hs, ha, hk, hc, hle, rfl⟩, rfl⟩
      exact ⟨hs, ha, hk, hc, hfc, hle⟩
    · rintro ⟨hr, ha, hk, hc, -, hle⟩
      exact ⟨_, ⟨r, hr, ha, hk, hc, hle, rfl⟩, rfl⟩
  · simp [newerParam, hfc]

/-- **When replacement stays inside the coordinate.** In every reachable store
and for every validated event of a parameterized replaceable kind: exactly when
the event meets no foreign row. -/
theorem staysInside_iff (crypto : Crypto) (eng : Sql.Engine) (ops : List Op) (e : Event)
    (hval : e.Validated crypto) (hkind : 30000 ≤ e.kind ∧ e.kind < 40000) :
    StaysInside eng (run eng ops) e ↔
      ∀ d, e.distinctParam = some d → ∀ r ∈ (run eng ops).events, Foreign e d r →
        ¬ meets eng (run eng ops) e d r := by
  have hcoh := run_coherent eng ops
  obtain ⟨hash, hid, -⟩ := hval.exists_decode_id
  obtain ⟨author, hpk, -⟩ := hval.exists_decode_pubkey
  obtain ⟨d, hd⟩ := exists_distinctParam (Event.isParamReplaceable_iff.mpr hkind)
  have hlim : overLimit eng e = false := by
    rw [overLimit, Bool.and_eq_false_iff]
    left
    simp only [beq_eq_false_iff_ne]
    omega
  refine ⟨?_, ?_⟩
  · rintro h d' hd' r hr hf hm
    obtain rfl : d = d' := Option.some.inj (hd.symm.trans hd')
    have ha : r.author = author := Option.some.inj (hf.author.symm.trans hpk)
    refine hf.distinctParam ((h r hr hf.other ?_).distinctParam.trans hd)
    rcases hm with ⟨hfc, hle⟩ | ⟨⟨hs, hrep, hnew⟩, hmet⟩
    · exact Or.inr ((mem_refusing hcoh hd hpk).mpr ⟨hr, ha, hf.kind, hf.carries, hfc, hle⟩)
    · have hacc : Accepts (run eng ops) e hash author := by
        refine ⟨hs, hrep, hid, hpk, fun hmem => ?_⟩
        obtain ⟨s, hs', rfl⟩ := List.mem_map.mp hmem
        exact hnew s hs' hid
      exact Or.inl ((deleted_iff hr).mpr ⟨hash, author, hacc, hlim,
        (swept_iff_reaches hcoh hacc hd hr ha hf.kind hf.carries).mpr hmet⟩)
  · intro h r hr hother hgone
    rcases hgone with hgone | hrefuse
    · obtain ⟨hash', author', hacc, -, hs⟩ := (deleted_iff hr).mp hgone
      obtain ⟨hk, ha, -⟩ := swept_le hs
      have hc := carries_of_swept hcoh hacc hd hr hs
      refine ⟨by rw [hacc.decode_pubkey, ha], hk, ?_⟩
      by_contra hne
      rw [hd] at hne
      refine h d hd r hr ⟨by rw [hacc.decode_pubkey, ha], hk, hc, hne, hother⟩
        (Or.inr ⟨hacc.inserts, (swept_iff_reaches hcoh hacc hd hr ha hk hc).mp hs⟩)
    · obtain ⟨-, ha, hk, hc, hfc, hle⟩ := (mem_refusing hcoh hd hpk).mp hrefuse
      refine ⟨by rw [hpk, ha], hk, ?_⟩
      by_contra hne
      rw [hd] at hne
      exact h d hd r hr ⟨by rw [hpk, ha], hk, hc, hne, hother⟩ (Or.inl ⟨hfc, hle⟩)

/-- The update meets the one list stored, which has its own coordinate. -/
theorem sampleOther_staysInside :
    StaysInside (Sql.Engine.inOrder 32766)
      (run (Sql.Engine.inOrder 32766) [.persistEvent sampleOther.event])
      sampleOtherUpdate.event := by
  refine (staysInside_iff (Recorded.crypto [sampleOther, sampleOtherUpdate]) _ _ _
    (Recorded.validated (by decide) (by simp)) (by decide)).mpr ?_
  intro d hd r hr hf _
  obtain ⟨e, he, -, hrow⟩ := exists_rowOf_run hr
  obtain rfl : e = sampleOther.event := by simpa [written] using he
  refine hf.distinctParam ?_
  rw [hrow.content, ← hd]
  decide

/-- A list with the coordinate `a` and a second `d` tag. -/
def sampleTwoParams : Recorded where
  id := 0x97b992c8f5706db59fba9fc0f66c9ba3a0480ded9a572129d180d0f45b715100
  pubkey := 0x5cbdf0646e5db4eaa398f365f2ea7a0e3d419b7e0330e39ce92bddedcac4f9bc
  sigR := 0x10c6e8dd70bc166c3f989e118400aa8f5cc96bdcc6050f4664dd6ddf814b3c89
  sigS := 0xb049357444562fb64adb04a6575ab0e9a41e32a9974bb0f8a32f94a41c64758b
  createdAt := 1700000030
  kind := 30000
  tags := [["d", "a"], ["d", "b"]]
  content := ""

/-- The list with the coordinate `a` is stored; one with the coordinate `b`
deletes it, because of its second `d` tag. -/
theorem sampleTwoParams_destroyed :
    sampleTwoParams.event.Validated (Recorded.crypto [sampleTwoParams, sampleOther]) ∧
      sampleOther.event.Validated (Recorded.crypto [sampleTwoParams, sampleOther]) ∧
      (30000 ≤ sampleOther.event.kind ∧ sampleOther.event.kind < 40000) ∧
      ¬ StaysInside (Sql.Engine.inOrder 32766)
        (run (Sql.Engine.inOrder 32766) [.persistEvent sampleTwoParams.event])
        sampleOther.event := by
  refine ⟨Recorded.validated (by decide) (by simp), Recorded.validated (by decide) (by simp),
    by decide, fun h => ?_⟩
  have hbefore : (run (Sql.Engine.inOrder 32766)
      [.persistEvent sampleTwoParams.event]).events.map
        (fun r => (r.id, r.eventHash, r.content.distinctParam)) =
      [(1, Hex.ofNat 32 sampleTwoParams.id, some "a")] := by
    decide +kernel
  have hafter : (write (Sql.Engine.inOrder 32766) (run (Sql.Engine.inOrder 32766)
      [.persistEvent sampleTwoParams.event]) sampleOther.event).events.map EventRow.id = [2] := by
    decide +kernel
  obtain ⟨r, hr, hr1⟩ := List.mem_map.mp (hbefore ▸ List.mem_cons_self ..)
  simp only [Prod.mk.injEq] at hr1
  obtain ⟨hid, hhash, hd⟩ := hr1
  have hgone : ∀ r' ∈ (write (Sql.Engine.inOrder 32766) (run (Sql.Engine.inOrder 32766)
      [.persistEvent sampleTwoParams.event]) sampleOther.event).events, r'.id ≠ r.id := by
    intro r' hr'
    have : r'.id ∈ [2] := hafter ▸ List.mem_map_of_mem hr'
    rw [List.mem_singleton.mp this, hid]
    decide
  have hne : Hex.decode sampleOther.event.id ≠ some r.eventHash := by
    rw [Recorded.decode_event_id, hhash]
    decide +kernel
  have := (h r hr hne (Or.inl hgone)).distinctParam
  rw [hd] at this
  revert this
  decide

end Floonet.Sqlite
