import Floonet.Postgres.Multiplicity
import Floonet.Postgres.Run

/-!
# Expiry on Postgres

The query compares `expires_at` with the clock of the server and the clean-up with the clock of
the relay. The clean-up takes no row that a query would still return (`found_sweep`), as long as
the server is not behind the relay. What both look at is a column that is cast from a `u64`: an
expiration beyond the years of chrono is never reached, and one from `2 ^ 63` on is read as a
time before 1970 (`expiration_kept_iff`).
-/

namespace Floonet.Postgres

open Hex (Bytes)

variable {server : Server} {db : Db} {e : Event} {r : EventRow} {t : Nat}

/-! ## The clean-up and the readers

A row that is swept meets no query from then on, and the others keep their tags, so they are
joined as often as before. -/

/-- A row that is swept meets no query from that time on. -/
theorem meets_eq_false {q : Query} {now : Int} (h : expiredRow t r = true)
    (ht : asI64 t * 1000000 ≤ now) : q.meets now r = false := by
  rw [expiredRow, Bool.and_eq_true, Option.any_eq_true] at h
  obtain ⟨-, exp, hexp, hle⟩ := h
  rw [decide_eq_true_iff] at hle
  have hnot : (r.expiresAt.all fun exp => decide (now < exp * 1000000)) = false := by
    rw [hexp, Option.all_some, decide_eq_false_iff_not, not_lt]
    omega
  rw [Query.meets, hnot, Bool.and_false]

/-- A row that stays is joined as often as before. -/
theorem countP_on_deleteEvents {p : EventRow → Bool} (hr : r ∈ db.events) (hp : p r = false)
    (j : TagJoin) : (db.deleteEvents p).tags.countP (j.on r) = db.tags.countP (j.on r) := by
  rw [Db.deleteEvents, List.countP_filter]
  refine List.countP_congr fun t _ => ?_
  rw [Bool.and_eq_true]
  refine and_iff_left_of_imp fun hon => List.any_eq_true.mpr ⟨r, hr, ?_⟩
  rw [hp, (TagJoin.on_iff.mp hon).1, beq_self_eq_true]
  rfl

/-- Rows that come to nothing can be left out. -/
theorem flatMap_filter_eq {α β : Type} {p : α → Bool} {g g' : α → List β} {l : List α}
    (hout : ∀ a ∈ l, p a = false → g a = []) (hin : ∀ a ∈ l, p a = true → g' a = g a) :
    (l.filter p).flatMap g' = l.flatMap g := by
  induction l with
  | nil => rfl
  | cons a l ih =>
    have ih := ih (fun b hb => hout b (List.mem_cons_of_mem _ hb))
      fun b hb => hin b (List.mem_cons_of_mem _ hb)
    rcases hp : p a with _ | _
    · rw [List.filter_cons_of_neg (by rw [hp]; exact Bool.false_ne_true), List.flatMap_cons, ih,
        hout a (List.mem_cons_self ..) hp, List.nil_append]
    · rw [List.filter_cons_of_pos hp, List.flatMap_cons, List.flatMap_cons, ih,
        hin a (List.mem_cons_self ..) hp]

/-- The rows a query finds do not depend on an earlier clean-up. -/
theorem found_sweep (q : Query) {now : Int} (ht : asI64 t * 1000000 ≤ now) :
    q.found (sweep db t) now = q.found db now := by
  rw [Query.found, Query.found, joined_eq, joined_eq, List.filter_flatMap, List.filter_flatMap,
    sweep_eq]
  refine flatMap_filter_eq ?_ ?_
  · intro r _ hp
    have hexp : expiredRow t r = true := by simpa using hp
    rw [List.filter_replicate, if_neg (by rw [meets_eq_false hexp ht]; exact Bool.false_ne_true)]
  · intro r hr hp
    have hexp : expiredRow t r = false := by simpa using hp
    have hcount : q.joins.map (fun j => (db.deleteEvents (expiredRow t)).tags.countP (j.on r)) =
        q.joins.map fun j => db.tags.countP (j.on r) :=
      List.map_congr_left fun j _ => countP_on_deleteEvents hr hexp j
    rw [hcount]

/-! ## The clean-up and the event

The column holds the expiration as it was cast. It has expired when the event has, unless the cast
makes an early time of a late one. -/

/-- The condition of a query on expiry, at a time in seconds. -/
def unexpired (t : Nat) (r : EventRow) : Bool :=
  r.expiresAt.all fun exp => decide ((t : Int) * 1000000 < exp * 1000000)

/-- A time up to the last one of chrono is bound as it is. -/
theorem asI64_of_le_maxUtc (ht : (t : Int) ≤ maxUtc) : asI64 t = t :=
  asI64_of_lt (by rw [maxUtc] at ht; omega)

/-- The query and the clean-up agree on what is expired. -/
theorem unexpired_eq (ht : (t : Int) ≤ maxUtc) : unexpired t r = !expiredRow t r := by
  have hbound : Representable t ∧ minTimestamptz ≤ asI64 t := by
    rw [Representable, asI64_of_le_maxUtc ht, minUtc, minTimestamptz]
    omega
  rw [unexpired, expiredRow, decide_eq_true hbound, Bool.true_and, asI64_of_le_maxUtc ht]
  rcases r.expiresAt with _ | exp
  · rfl
  · rw [Option.all_some, Option.any_some, ← decide_not, decide_eq_decide]
    omega

theorem expiration_lt {x : Nat} (h : e.expiration = some x) : x < 2 ^ 64 := by
  rw [Event.expiration, Option.bind_eq_some_iff] at h
  obtain ⟨s, -, h⟩ := h
  simp only [parseU64] at h
  generalize (if s.toList.head? = some '+' then s.toList.tail else s.toList) = digits at h
  split_ifs at h with hcond
  cases h
  exact hcond.2.2

theorem asI64_of_ge {x : Nat} (hlow : 2 ^ 63 ≤ x) (hlt : x < 2 ^ 64) :
    asI64 x = (x : Int) - 2 ^ 64 := by
  have hmod : x % 2 ^ 64 = x := Nat.mod_eq_of_lt hlt
  simp only [asI64, hmod, if_neg (not_lt.mpr hlow)]

/-- The expiration reaches the column as the time it is, or as none the clock will reach. -/
def KeepsExpiration (e : Event) : Prop :=
  ∀ x, e.expiration = some x → x < 2 ^ 63 ∨ asI64 x < minTimestamptz

/-- The column and the event agree on what has expired if the cast keeps the expiration. An
expiration that is cast to a time in the past has the event expired from the start. -/
theorem unexpired_iff (hrow : db.RowHolds e r) (hst : Storable server e) :
    (∀ t : Nat, (t : Int) ≤ maxUtc → (unexpired t r = true ↔ e.isExpired t = false)) ↔
      KeepsExpiration e := by
  rw [KeepsExpiration]
  have hcol := hrow.expiresAt
  have hbound := hst.expiresAt
  rcases hexp : e.expiration with _ | x
  · rw [hexp, Option.bind_none] at hcol
    refine iff_of_true (fun t _ => ?_) (by simp)
    simp [unexpired, hcol, Event.isExpired, hexp]
  rw [hexp, Option.bind_some] at hcol hbound
  simp only [Option.some.injEq, forall_eq', Event.isExpired, hexp, decide_eq_false_iff_not, not_le]
  have hlt := expiration_lt hexp
  by_cases hfit : x < 2 ^ 63
  · refine iff_of_true (fun t ht => ?_) (.inl hfit)
    have hx := asI64_of_lt hfit
    by_cases hrep : Representable x
    · rw [timestampOpt_of_representable hrep, hx] at hcol
      rw [unexpired, hcol, Option.all_some, decide_eq_true_iff]
      omega
    · -- beyond the last time of chrono
      rw [timestampOpt_of_not_representable hrep] at hcol
      rw [Representable, hx, minUtc] at hrep
      rw [unexpired, hcol, Option.all_none]
      refine iff_of_true rfl ?_
      rw [maxUtc] at hrep ht
      omega
  · have hx := asI64_of_ge (not_lt.mp hfit) hlt
    by_cases hrep : Representable x
    · rw [timestampOpt_of_representable hrep] at hcol hbound
      have hmin := hbound _ rfl
      refine iff_of_false (fun h => ?_) ?_
      · have hzero := h 0 (by rw [maxUtc]; decide)
        rw [unexpired, hcol, Option.all_some, decide_eq_true_iff] at hzero
        have := hzero.mpr (by omega)
        omega
      · rintro (h | h)
        · exact hfit h
        · omega
    · rw [timestampOpt_of_not_representable hrep] at hcol
      refine iff_of_true (fun t ht => ?_) (.inr ?_)
      · rw [unexpired, hcol, Option.all_none]
        refine iff_of_true rfl ?_
        rw [maxUtc] at ht
        omega
      · rw [Representable, hx, minUtc, maxUtc] at hrep
        rw [hx, minTimestamptz]
        omega

/-- **The clean-up of expired events.** No query that runs at the time of a clean-up or later can
tell whether it ran. Of a stored event the clean-up takes the row exactly when a query no longer
returns it; and both are when the event has expired, at every time up to the last one of chrono,
if and only if the cast to `i64` keeps the expiration. -/
theorem sweep_invisible (server : Server) (ops : List Op) :
    (∀ (eng : Sql.Engine) (q : Query) (t : Nat) (now : Int), asI64 t * 1000000 ≤ now →
      q.rows eng (sweep (run server ops) t) now = q.rows eng (run server ops) now) ∧
    ∀ r ∈ (run server ops).events, ∃ e ∈ written ops, (run server ops).RowHolds e r ∧
      (∀ t : Nat, (t : Int) ≤ maxUtc →
        (r ∈ (sweep (run server ops) t).events ↔ unexpired t r = true)) ∧
      ((∀ t : Nat, (t : Int) ≤ maxUtc →
        (r ∈ (sweep (run server ops) t).events ↔ e.isExpired t = false)) ↔
        KeepsExpiration e) := by
  refine ⟨fun eng q t now ht => ?_, fun r hr => ?_⟩
  · rw [Query.rows, Query.rows, found_sweep q ht]
  · obtain ⟨e, ⟨he, hst⟩, hrow⟩ := run_holds server ops r hr
    have hmem : ∀ t : Nat, (t : Int) ≤ maxUtc →
        (r ∈ (sweep (run server ops) t).events ↔ unexpired t r = true) := by
      intro t ht
      rw [sweep_eq, Db.mem_deleteEvents, unexpired_eq ht, Bool.not_eq_true']
      exact and_iff_right hr
    refine ⟨e, he, hrow, hmem, ?_⟩
    rw [← unexpired_iff hrow hst]
    exact forall₂_congr fun t ht => by rw [hmem t ht]

end Floonet.Postgres
