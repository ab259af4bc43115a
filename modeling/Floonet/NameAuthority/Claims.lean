import Mathlib.Data.List.Nodup
import Mathlib.Data.List.Perm.Basic

/-!
# The claims store

The `name_claims` table: one row per claimed name, where a release sets
`released_at` instead of deleting the row. Two constraints are kept by the
database itself, the primary key on `name` and the partial unique index on `pubkey`
over the rows that are not released, and they are fields of the table type here. An
insert that would break them does not happen and reports why.
-/

namespace Floonet.NameAuthority

/-- A row of `name_claims`. -/
structure Claim where
  name : String
  pubkey : String
  createdAt : Nat
  releasedAt : Option Nat
  deriving DecidableEq

/-- `released_at IS NULL` -/
def Claim.active (r : Claim) : Bool := r.releasedAt.isNone

/-- The table, with what its primary key and its partial unique index enforce. -/
@[ext] structure NameClaims where
  rows : List Claim
  /-- `name TEXT PRIMARY KEY` -/
  name_key : (rows.map Claim.name).Nodup
  /-- `UNIQUE INDEX … ON name_claims(pubkey) WHERE released_at IS NULL` -/
  active_pubkey : ((rows.filter Claim.active).map Claim.pubkey).Nodup

/-- Errors of a statement on the claims store. -/
inductive ClaimError where
  | constraintViolation
  /-- busy, disk full, … -/
  | other
  deriving DecidableEq

namespace NameClaims

/-- The table as the migration creates it. -/
def empty : NameClaims := ⟨[], List.nodup_nil, List.nodup_nil⟩

/-! ## Operations

A statement works on the list of rows, and the two uniqueness fields are proved for what it
leaves: reviving or releasing a row keeps the names, and a release can only shorten the list of
active rows. -/

/-- Active (non-released) pubkey for a name. -/
def lookup (t : NameClaims) (name : String) : Option String :=
  (t.rows.find? fun r => r.name == name && r.active).map Claim.pubkey

/-- Active name owned by a pubkey. -/
def nameOf (t : NameClaims) (pubkey : String) : Option String :=
  (t.rows.find? fun r => r.pubkey == pubkey && r.active).map Claim.name

/-- The row a claim leaves. -/
def claimed (name pubkey : String) (now : Nat) : Claim := ⟨name, pubkey, now, none⟩

/-- The row under `name` replaced. -/
def revive (rows : List Claim) (name pubkey : String) (now : Nat) : List Claim :=
  rows.map fun r => if r.name = name then claimed name pubkey now else r

/-- The row under `name` released, if it is active. -/
def releaseRow (name : String) (now : Nat) (r : Claim) : Claim :=
  if r.name = name ∧ r.active then { r with releasedAt := some now } else r

/-- Some active row belongs to `pubkey`: the unique index would be violated. -/
def hasActive (rows : List Claim) (pubkey : String) : Bool :=
  rows.any fun r => r.pubkey == pubkey && r.active

section Rows

variable {t : NameClaims} {rows : List Claim} {r : Claim} {name pubkey : String} {now : Nat}

@[simp] theorem active_claimed : (claimed name pubkey now).active = true := rfl

theorem map_name_revive : (revive rows name pubkey now).map Claim.name = rows.map Claim.name := by
  rw [revive, List.map_map]
  refine List.map_congr_left fun r _ => ?_
  simp only [Function.comp_apply]
  split_ifs with h
  · exact h.symm
  · rfl

theorem name_releaseRow (r : Claim) : (releaseRow name now r).name = r.name := by
  rw [releaseRow]
  split_ifs <;> rfl

theorem pubkey_releaseRow (r : Claim) : (releaseRow name now r).pubkey = r.pubkey := by
  rw [releaseRow]
  split_ifs <;> rfl

theorem active_releaseRow (r : Claim) :
    (releaseRow name now r).active = (r.active && !(r.name == name)) := by
  rw [releaseRow]
  by_cases hn : r.name = name
  · by_cases ha : r.active = true
    · rw [if_pos ⟨hn, ha⟩]
      simp [hn, Claim.active]
    · rw [if_neg (fun h => ha h.2)]
      simp [hn, ha]
  · rw [if_neg (fun h => hn h.1)]
    simp [hn]

theorem map_name_release :
    (rows.map (releaseRow name now)).map Claim.name = rows.map Claim.name := by
  rw [List.map_map]
  exact List.map_congr_left fun r _ => name_releaseRow r

theorem not_hasActive_iff :
    hasActive rows pubkey = false ↔ ∀ r ∈ rows, r.active = true → r.pubkey ≠ pubkey := by
  rw [hasActive, List.any_eq_false]
  simp only [Bool.and_eq_true, beq_iff_eq]
  exact ⟨fun h r hr ha hp => h r hr ⟨hp, ha⟩, fun h r hr hpa => h r hr hpa.2 hpa.1⟩

/-- Releasing rows leaves a part of the active rows. -/
theorem active_release_sublist :
    (((rows.map (releaseRow name now)).filter Claim.active).map Claim.pubkey).Sublist
      ((rows.filter Claim.active).map Claim.pubkey) := by
  induction rows with
  | nil => exact List.Sublist.refl _
  | cons r rows ih =>
    by_cases ha : r.active = true
    · by_cases hn : r.name = name
      · rw [List.map_cons, List.filter_cons_of_neg (by simp [active_releaseRow, hn]),
          List.filter_cons_of_pos ha, List.map_cons]
        exact ih.cons _
      · rw [List.map_cons, List.filter_cons_of_pos (by simp [active_releaseRow, hn, ha]),
          List.filter_cons_of_pos ha, List.map_cons, List.map_cons, pubkey_releaseRow]
        exact ih.cons_cons _
    · rw [List.map_cons, List.filter_cons_of_neg (by simp [active_releaseRow, ha]),
        List.filter_cons_of_neg ha]
      exact ih

/-- Reviving a released row adds its new owner to the active ones, and nobody else. -/
theorem active_revive (hkey : (rows.map Claim.name).Nodup) {row : Claim} (hrow : row ∈ rows)
    (hname : row.name = name) (hrel : row.active = false) :
    (((revive rows name pubkey now).filter Claim.active).map Claim.pubkey).Perm
      (pubkey :: (rows.filter Claim.active).map Claim.pubkey) := by
  induction rows with
  | nil => cases hrow
  | cons r rows ih =>
    rw [List.map_cons, List.nodup_cons] at hkey
    by_cases hn : r.name = name
    · -- the row itself; the rest of the table has other names
      have hrest : revive rows name pubkey now = rows := by
        rw [revive]
        conv_rhs => rw [← List.map_id rows]
        refine List.map_congr_left fun s hs => if_neg fun hsn => hkey.1 ?_
        rw [hn, ← hsn]
        exact List.mem_map_of_mem hs
      have hr : r = row := by
        rcases List.mem_cons.mp hrow with h | h
        · exact h.symm
        · refine absurd ?_ hkey.1
          rw [hn, ← hname]
          exact List.mem_map_of_mem h
      have hcons : revive (r :: rows) name pubkey now = claimed name pubkey now :: rows := by
        rw [revive, List.map_cons, if_pos hn]
        exact congrArg _ hrest
      rw [hcons, List.filter_cons_of_pos active_claimed, List.map_cons,
        List.filter_cons_of_neg (by simp [hr, hrel])]
      exact List.Perm.refl _
    · have hmem : row ∈ rows := by
        rcases List.mem_cons.mp hrow with rfl | h
        · exact absurd hname hn
        · exact h
      have hcons : revive (r :: rows) name pubkey now = r :: revive rows name pubkey now := by
        rw [revive, List.map_cons, if_neg hn]
        rfl
      rw [hcons]
      by_cases ha : r.active = true
      · rw [List.filter_cons_of_pos ha, List.filter_cons_of_pos ha, List.map_cons, List.map_cons]
        exact ((ih hkey.2 hmem).cons _).trans (List.Perm.swap _ _ _)
      · rw [List.filter_cons_of_neg ha, List.filter_cons_of_neg ha]
        exact ih hkey.2 hmem

/-- A row for a name that has none yet. -/
def add (t : NameClaims) (name pubkey : String) (now : Nat)
    (hname : ∀ r ∈ t.rows, r.name ≠ name) (hidx : hasActive t.rows pubkey = false) :
    NameClaims where
  rows := t.rows ++ [claimed name pubkey now]
  name_key := by
    rw [List.map_append, List.map_singleton, List.nodup_append]
    refine ⟨t.name_key, List.nodup_singleton _, ?_⟩
    intro n hn m hm
    obtain ⟨r, hr, rfl⟩ := List.mem_map.mp hn
    rw [List.mem_singleton.mp hm]
    exact hname r hr
  active_pubkey := by
    rw [List.filter_append, List.map_append, List.filter_cons_of_pos active_claimed,
      List.filter_nil, List.map_singleton, List.nodup_append]
    refine ⟨t.active_pubkey, List.nodup_singleton _, ?_⟩
    intro q hq m hm
    obtain ⟨r, hr, rfl⟩ := List.mem_map.mp hq
    rw [List.mem_singleton.mp hm]
    exact not_hasActive_iff.mp hidx r (List.mem_of_mem_filter hr) (List.of_mem_filter hr)

/-- The released row of a name given to a new owner. -/
def takeOver (t : NameClaims) (row : Claim) (pubkey : String) (now : Nat) (hrow : row ∈ t.rows)
    (hrel : row.active = false) (hidx : hasActive t.rows pubkey = false) : NameClaims where
  rows := revive t.rows row.name pubkey now
  name_key := by
    rw [map_name_revive]
    exact t.name_key
  active_pubkey := by
    rw [(active_revive t.name_key hrow rfl hrel).nodup_iff, List.nodup_cons]
    refine ⟨?_, t.active_pubkey⟩
    intro hq
    obtain ⟨r, hr, hrq⟩ := List.mem_map.mp hq
    exact not_hasActive_iff.mp hidx r (List.mem_of_mem_filter hr) (List.of_mem_filter hr) hrq

/-- The row under a name, active or not. -/
def row (t : NameClaims) (name : String) : Option Claim := t.rows.find? fun r => r.name == name

theorem name_ne_of_row (h : t.row name = none) : ∀ r ∈ t.rows, r.name ≠ name := by
  intro r hr
  simpa using List.find?_eq_none.mp h r hr

theorem mem_of_row (h : t.row name = some r) : r ∈ t.rows := List.mem_of_find?_eq_some h

theorem name_of_row (h : t.row name = some r) : r.name = name := by
  simpa using List.find?_some h

/-- The claim statement of `register`: `INSERT … ON CONFLICT(name) DO UPDATE … WHERE
released_at IS NOT NULL`. A conflict on the name is looked at before the index on the
key. The count is the number of rows written. -/
def insert (t : NameClaims) (name pubkey : String) (now : Nat) :
    NameClaims × Except ClaimError Nat :=
  match hrow : t.row name with
  | none =>
    if hidx : hasActive t.rows pubkey = false then
      (t.add name pubkey now (name_ne_of_row hrow) hidx, .ok 1)
    else (t, .error .constraintViolation)
  | some row =>
    if hrel : row.active = false then
      if hidx : hasActive t.rows pubkey = false then
        (t.takeOver row pubkey now (mem_of_row hrow) hrel hidx, .ok 1)
      else (t, .error .constraintViolation)
    else (t, .ok 0)

/-- The release statement of `unregister`: `UPDATE name_claims SET released_at = ?2 WHERE
name = ?1 AND released_at IS NULL`. -/
def release (t : NameClaims) (name : String) (now : Nat) : NameClaims × Except ClaimError Nat :=
  (⟨t.rows.map (releaseRow name now), by
      rw [map_name_release]
      exact t.name_key, active_release_sublist.nodup t.active_pubkey⟩,
    .ok (t.rows.countP fun r => r.name == name && r.active))

end Rows

/-! ## What the operations do to the active rows

The rest of the development speaks of active pairs only. These lemmas say what a lookup reads from
them and what a statement makes of them. -/

/-- `(name, pubkey)` is an active row. -/
def Active (t : NameClaims) (name pubkey : String) : Prop :=
  ∃ r ∈ t.rows, r.active = true ∧ r.name = name ∧ r.pubkey = pubkey

section Active

variable {t : NameClaims} {name pubkey n p q : String} {now : Nat}

theorem Active.pubkey_unique (h : t.Active n p) (h' : t.Active n q) : p = q := by
  obtain ⟨r, hr, -, hn, rfl⟩ := h
  obtain ⟨s, hs, -, hm, rfl⟩ := h'
  rw [List.inj_on_of_nodup_map t.name_key hr hs (hn.trans hm.symm)]

theorem Active.name_unique {m : String} (h : t.Active n p) (h' : t.Active m p) : n = m := by
  obtain ⟨r, hr, ha, rfl, hp⟩ := h
  obtain ⟨s, hs, hb, rfl, hq⟩ := h'
  rw [List.inj_on_of_nodup_map t.active_pubkey (List.mem_filter.mpr ⟨hr, ha⟩)
    (List.mem_filter.mpr ⟨hs, hb⟩) (hp.trans hq.symm)]

/-- The lookup of a name finds its owner. -/
theorem lookup_eq_some : t.lookup n = some p ↔ t.Active n p := by
  refine ⟨?_, ?_⟩
  · intro h
    obtain ⟨r, hr, rfl⟩ := Option.map_eq_some_iff.mp h
    have hp := List.find?_some hr
    rw [Bool.and_eq_true, beq_iff_eq] at hp
    exact ⟨r, List.mem_of_find?_eq_some hr, hp.2, hp.1, rfl⟩
  · intro h
    obtain ⟨r, hr, ha, hn, rfl⟩ := id h
    rcases hf : t.rows.find? (fun r => r.name == n && r.active) with _ | s
    · exact absurd (List.find?_eq_none.mp hf r hr) (by simp [hn, ha])
    · have hs := List.find?_some hf
      rw [Bool.and_eq_true, beq_iff_eq] at hs
      have hact : t.Active n s.pubkey := ⟨s, List.mem_of_find?_eq_some hf, hs.2, hs.1, rfl⟩
      rw [lookup, hf, Option.map_some, hact.pubkey_unique h]

/-- The lookup of a key finds its name. -/
theorem nameOf_eq_some : t.nameOf p = some n ↔ t.Active n p := by
  refine ⟨?_, ?_⟩
  · intro h
    obtain ⟨r, hr, rfl⟩ := Option.map_eq_some_iff.mp h
    have hp := List.find?_some hr
    rw [Bool.and_eq_true, beq_iff_eq] at hp
    exact ⟨r, List.mem_of_find?_eq_some hr, hp.2, rfl, hp.1⟩
  · intro h
    obtain ⟨r, hr, ha, rfl, hp⟩ := id h
    rcases hf : t.rows.find? (fun r => r.pubkey == p && r.active) with _ | s
    · exact absurd (List.find?_eq_none.mp hf r hr) (by simp [hp, ha])
    · have hs := List.find?_some hf
      rw [Bool.and_eq_true, beq_iff_eq] at hs
      have hact : t.Active s.name p := ⟨s, List.mem_of_find?_eq_some hf, hs.2, rfl, hs.1⟩
      rw [nameOf, hf, Option.map_some, hact.name_unique h]

/-- A name that is not found has no owner. -/
theorem not_active_of_lookup (h : t.lookup n = none) : ¬t.Active n p := by
  intro hact
  rw [lookup_eq_some.mpr hact] at h
  cases h

/-- A name without owner is not found. -/
theorem lookup_eq_none (h : ∀ q, ¬t.Active n q) : t.lookup n = none :=
  Option.eq_none_iff_forall_ne_some.mpr fun q hq => h q (lookup_eq_some.mp hq)

/-- A key without name is not found. -/
theorem nameOf_eq_none (h : ∀ m, ¬t.Active m p) : t.nameOf p = none :=
  Option.eq_none_iff_forall_ne_some.mpr fun m hm => h m (nameOf_eq_some.mp hm)

theorem active_add (hname : ∀ r ∈ t.rows, r.name ≠ name) (hidx : hasActive t.rows pubkey = false) :
    (t.add name pubkey now hname hidx).Active n q ↔ t.Active n q ∨ (n = name ∧ q = pubkey) := by
  refine ⟨?_, ?_⟩
  · rintro ⟨r, hr, ha, rfl, rfl⟩
    rcases List.mem_append.mp hr with hr | hr
    · exact .inl ⟨r, hr, ha, rfl, rfl⟩
    · rw [List.mem_singleton.mp hr]
      exact .inr ⟨rfl, rfl⟩
  · rintro (⟨r, hr, ha, rfl, rfl⟩ | ⟨rfl, rfl⟩)
    · exact ⟨r, List.mem_append_left _ hr, ha, rfl, rfl⟩
    · exact ⟨_, List.mem_append_right _ (List.mem_singleton_self _), active_claimed, rfl, rfl⟩

/-- A released name that is claimed again has its new owner. -/
theorem active_takeOver {row : Claim} {hrow : row ∈ t.rows} {hrel : row.active = false}
    {hidx : hasActive t.rows pubkey = false} :
    (t.takeOver row pubkey now hrow hrel hidx).Active n q ↔
      t.Active n q ∨ (n = row.name ∧ q = pubkey) := by
  refine ⟨?_, ?_⟩
  · rintro ⟨r, hr, ha, rfl, rfl⟩
    obtain ⟨s, hs, rfl⟩ := List.mem_map.mp hr
    by_cases hname : s.name = row.name
    · rw [if_pos hname]
      exact .inr ⟨rfl, rfl⟩
    · rw [if_neg hname] at ha ⊢
      exact .inl ⟨s, hs, ha, rfl, rfl⟩
  · rintro (⟨s, hs, ha, rfl, rfl⟩ | ⟨rfl, rfl⟩)
    · refine ⟨s, List.mem_map.mpr ⟨s, hs, if_neg ?_⟩, ha, rfl, rfl⟩
      intro hname
      -- one row per name, and the row under this one is released
      rw [List.inj_on_of_nodup_map t.name_key hs hrow hname, hrel] at ha
      cases ha
    · exact ⟨_, List.mem_map.mpr ⟨row, hrow, if_pos rfl⟩, active_claimed, rfl, rfl⟩

theorem not_active_of_hasActive (h : hasActive t.rows pubkey = false) : ¬t.Active n pubkey := by
  rintro ⟨r, hr, ha, -, hp⟩
  exact not_hasActive_iff.mp h r hr ha hp

/-- At most one active row per name. -/
theorem countP_name_le_one (t : NameClaims) (name : String) :
    (t.rows.countP fun r => r.name == name && r.active) ≤ 1 := by
  have hcount := List.nodup_iff_count_le_one.mp t.name_key name
  rw [List.count_eq_countP, List.countP_map] at hcount
  refine Nat.le_trans (List.countP_mono_left fun r _ h => ?_) hcount
  rw [Bool.and_eq_true] at h
  exact h.1

/-- A name is counted when it has an owner. -/
theorem countP_name_pos_iff :
    (0 < t.rows.countP fun r => r.name == n && r.active) ↔ ∃ q, t.Active n q := by
  rw [List.countP_pos_iff]
  refine ⟨?_, ?_⟩
  · rintro ⟨r, hr, hact⟩
    rw [Bool.and_eq_true, beq_iff_eq] at hact
    exact ⟨r.pubkey, r, hr, hact.2, hact.1, rfl⟩
  · rintro ⟨q, r, hr, ha, hn, -⟩
    exact ⟨r, hr, by simp [hn, ha]⟩

/-- At most one active row per key. -/
theorem countP_pubkey_le_one (t : NameClaims) (pubkey : String) :
    (t.rows.countP fun r => r.pubkey == pubkey && r.active) ≤ 1 := by
  have hcount := List.nodup_iff_count_le_one.mp t.active_pubkey pubkey
  rw [List.count_eq_countP, List.countP_map, List.countP_filter] at hcount
  exact hcount

/-- A claim writes one row for a name and a key that were both free, or nothing. -/
theorem insert_cases (t : NameClaims) (name pubkey : String) (now : Nat) :
    ((t.insert name pubkey now).2 = .ok 1 ∧ (∀ q, ¬t.Active name q) ∧ (∀ n, ¬t.Active n pubkey) ∧
      ∀ n q, (t.insert name pubkey now).1.Active n q ↔ t.Active n q ∨ (n = name ∧ q = pubkey)) ∨
    ((∀ n, (t.insert name pubkey now).2 ≠ .ok (n + 1)) ∧ (t.insert name pubkey now).1 = t) := by
  rw [insert]
  split
  case h_1 hrow =>
    split_ifs with hidx
    · refine .inl ⟨rfl, ?_, fun n => not_active_of_hasActive hidx, fun n q =>
        active_add (name_ne_of_row hrow) hidx⟩
      rintro q ⟨r, hr, -, hn, -⟩
      exact name_ne_of_row hrow r hr hn
    · exact .inr ⟨fun n => by simp, rfl⟩
  case h_2 row hrow =>
    split_ifs with hrel hidx
    · refine .inl ⟨rfl, ?_, fun n => not_active_of_hasActive hidx, fun n q => ?_⟩
      · rintro q ⟨r, hr, ha, hn, -⟩
        rw [List.inj_on_of_nodup_map t.name_key hr (mem_of_row hrow)
          (hn.trans (name_of_row hrow).symm), hrel] at ha
        cases ha
      · rw [active_takeOver, name_of_row hrow]
    · exact .inr ⟨fun n => by simp, rfl⟩
    · exact .inr ⟨fun n => by simp, rfl⟩

/-- A release ends the claim on its name and no other. -/
theorem active_release : (t.release name now).1.Active n p ↔ t.Active n p ∧ n ≠ name := by
  refine ⟨?_, ?_⟩
  · rintro ⟨r, hr, ha, rfl, rfl⟩
    obtain ⟨s, hs, rfl⟩ := List.mem_map.mp hr
    rw [active_releaseRow, Bool.and_eq_true] at ha
    rw [name_releaseRow, pubkey_releaseRow]
    exact ⟨⟨s, hs, ha.1, rfl, rfl⟩, by simpa using ha.2⟩
  · rintro ⟨⟨s, hs, ha, rfl, rfl⟩, hne⟩
    exact ⟨_, List.mem_map_of_mem hs, by simp [active_releaseRow, ha, hne], name_releaseRow s,
      pubkey_releaseRow s⟩

end Active

end NameClaims

end Floonet.NameAuthority
