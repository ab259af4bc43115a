import Floonet.Sqlite.Rows

/-!
# The expiry sweep and its readers

Three comparisons decide about an expiration: `exp <= now` when an event arrives,
`expires_at > now` in a query and `expires_at <= now` in the sweep. They are
complements, so the sweep takes away nothing a query would still return, now or
later (`rows_deleteExpired`), and of a stored event it takes away exactly what had
expired (`expiry_invisible`).
-/

namespace Floonet.Sqlite

open Hex (Bytes)

variable {eng : Sql.Engine} {db db' : Db} {f : ReqFilter} {e : Event} {r : EventRow}
  {t t' n : Nat}

/-- The row is swept at this time. -/
def expiredRow (now : Nat) (r : EventRow) : Bool :=
  fitsI64 now && r.expiresAt.any fun exp => decide (exp ≤ now)

theorem deleteExpired_eq (db : Db) (now : Nat) :
    deleteExpired db now = db.deleteEvents (expiredRow now) := rfl

/-- A row that is swept meets no query at that time or later. -/
theorem selects_eq_false (h : expiredRow t r = true) (hle : t ≤ t') :
    (queryFromFilter f t').selects db r = false := by
  rcases hsel : (queryFromFilter f t').selects db r with _ | _
  · rfl
  · obtain ⟨-, hexp⟩ := visible_of_selects hsel
    rw [expiredRow, Bool.and_eq_true, Option.any_eq_true] at h
    obtain ⟨-, exp, hsome, hexpired⟩ := h
    rw [hsome, Option.all_some, decide_eq_true_iff] at hexp
    rw [decide_eq_true_iff] at hexpired
    omega

/-- A row that stays is looked at as before: the cascade leaves its tags alone. -/
theorem selects_deleteExpired (hr : r ∈ db.events) (h : expiredRow t r = false) (q : Query) :
    q.selects (deleteExpired db t) r = q.selects db r := by
  have htags := Db.tagsOf_deleteEvents hr h
  have hholds : Component.holds (deleteExpired db t) r = Component.holds db r :=
    funext (holds_congr htags)
  rw [Query.selects, Query.selects, hholds]

/-- The rows a query returns do not depend on an earlier sweep. -/
theorem rows_deleteExpired (hle : t ≤ t') :
    (queryFromFilter f t').rows eng (deleteExpired db t) = (queryFromFilter f t').rows eng db := by
  have hfound : (deleteExpired db t).events.filter
        ((queryFromFilter f t').selects (deleteExpired db t)) =
      db.events.filter ((queryFromFilter f t').selects db) := by
    rw [deleteExpired_eq, Db.deleteEvents, List.filter_filter]
    refine List.filter_congr fun r hr => ?_
    rcases hexp : expiredRow t r with _ | _
    · rw [Bool.not_false, Bool.and_true]
      exact selects_deleteExpired hr hexp _
    · rw [Bool.not_true, Bool.and_false, selects_eq_false hexp hle]
  rw [Query.rows, Query.rows, hfound]

/-- A row that a write adds has the expiration of the event. -/
theorem expiresAt_of_persistEvent (h : persistEvent eng db e = .ok (n, db'))
    (hr : r ∈ db'.events) (hnew : r.eventHash ∉ db.events.map EventRow.eventHash) :
    r.expiresAt = e.expiration := by
  rcases persistEvent_cases eng db e with ⟨err, herr⟩ | hdup | ⟨hash, author, hacc, -, hok⟩
  · rw [h] at herr
    cases herr
  · rw [h] at hdup
    cases hdup
    exact absurd (List.mem_map_of_mem hr) hnew
  · rw [h] at hok
    cases hok
    obtain ⟨s, hs, -, rfl⟩ := (mem_accepted hacc).mp hr
    rw [Db.hideRow_eventHash] at hnew
    rcases hs with hs | rfl
    · exact absurd (List.mem_map_of_mem hs) hnew
    · rw [Db.hideRow_expiresAt]
      rfl

/-- The condition of a query on a row is that it has not expired. -/
theorem unexpired_holds_iff (hexp : r.expiresAt = e.expiration) :
    (Component.unexpired t).holds db r = !e.isExpired t := by
  rw [Component.holds, hexp, Event.isExpired]
  rcases e.expiration with _ | exp
  · rfl
  · simp only [Option.all_some, ← decide_not, not_le]

/-- The sweep takes a row when it has expired. -/
theorem expiredRow_eq (hexp : r.expiresAt = e.expiration) (ht : t < 2 ^ 63) :
    expiredRow t r = e.isExpired t := by
  have hfits : fitsI64 t = true := decide_eq_true ht
  rw [expiredRow, hfits, Bool.true_and, hexp, Event.isExpired]
  rcases e.expiration with _ | exp <;> rfl

/-- The sweep is invisible to readers, and arrival, query and sweep agree on what has
expired. Times are seconds of the system clock, a signed count of 64 bits. -/
theorem expiry_invisible (eng : Sql.Engine) (db : Db) :
    (∀ f t t', t ≤ t' → (queryFromFilter f t').rows eng (deleteExpired db t) =
      (queryFromFilter f t').rows eng db) ∧
    ∀ e n db', persistEvent eng db e = .ok (n, db') → ∀ r ∈ db'.events,
      r.eventHash ∉ db.events.map EventRow.eventHash → ∀ t < 2 ^ 63,
        (e.isExpired t = false → (Component.unexpired t).holds db' r = true ∧
          r ∈ (deleteExpired db' t).events) ∧
        (e.isExpired t = true → (Component.unexpired t).holds db' r = false ∧
          r ∉ (deleteExpired db' t).events) := by
  refine ⟨fun f t t' hle => rows_deleteExpired hle, ?_⟩
  intro e n db' h r hr hnew t ht
  have hexp := expiresAt_of_persistEvent h hr hnew
  rw [unexpired_holds_iff hexp, deleteExpired_eq, Db.mem_deleteEvents, expiredRow_eq hexp ht]
  refine ⟨?_, ?_⟩
  · intro hlive
    exact ⟨by rw [hlive]; rfl, hr, hlive⟩
  · intro hdead
    refine ⟨by rw [hdead]; rfl, ?_⟩
    rintro ⟨-, hlive⟩
    rw [hdead] at hlive
    cases hlive

/-- A note that expires. -/
def sampleExpiring : Recorded where
  id := 0xdad8287461c61860ac11626451ffc10e1c21f4b642084f7b83b666774c3612a0
  pubkey := 0x5cbdf0646e5db4eaa398f365f2ea7a0e3d419b7e0330e39ce92bddedcac4f9bc
  sigR := 0xebe0a1e42a049bebb73b32de791ab13b7c3df70b65b0e8e327e7b01efc07c3a8
  sigS := 0xf2f700ccdda95ea6c6740bde056a2e02f0298574254812bbd427344dd2cd467f
  createdAt := 1700000300
  kind := 1
  tags := [["expiration", "1700000500"], ["t", "grin"]]
  content := "gone soon"

/-- It stays up to the second before, and goes in the second it names. -/
theorem sampleExpiring_swept : ∃ n db',
    persistEvent (Sql.Engine.inOrder 32766) Db.empty sampleExpiring.event = .ok (n, db') ∧
      ∃ r ∈ db'.events, r ∈ (deleteExpired db' 1700000499).events ∧
        r ∉ (deleteExpired db' 1700000500).events := by
  have hlen : (write (Sql.Engine.inOrder 32766) Db.empty sampleExpiring.event).events.length = 1 := by
    decide +kernel
  rcases h : persistEvent (Sql.Engine.inOrder 32766) Db.empty sampleExpiring.event with
    err | ⟨n, db'⟩
  · rw [write, h] at hlen
    cases hlen
  · rw [write, h] at hlen
    obtain ⟨r, hr⟩ := List.length_eq_one_iff.mp hlen
    have hmem : r ∈ db'.events := by rw [hr]; exact List.mem_singleton_self r
    have hexact := (expiry_invisible (Sql.Engine.inOrder 32766) Db.empty).2 _ _ _ h r hmem
      List.not_mem_nil
    refine ⟨n, db', rfl, r, hmem, ?_, ?_⟩
    · exact ((hexact 1700000499 (by decide)).1 (by decide +kernel)).2
    · exact ((hexact 1700000500 (by decide)).2 (by decide +kernel)).2

end Floonet.Sqlite
