import Mathlib.Data.List.Induction
import Mathlib.Data.List.Count

/-!
# A sliding window

A limiter that allows a call when fewer than `max` of the earlier calls it allowed are
less than `window` old. Its log is a list of times with the answers given. No set of
times that lie less than a window apart holds more than `max` allowed calls
(`countP_log_le`), whatever the order of the calls.
-/

namespace SlidingWindow

variable (max window : Nat)

/-- How many calls of the log were allowed and still count. -/
def counting (now : Nat) (log : List (Nat × Bool)) : Nat :=
  log.countP fun e => e.2 && decide (now - e.1 < window)

/-- One more call. -/
def call (log : List (Nat × Bool)) (now : Nat) : List (Nat × Bool) :=
  log ++ [(now, decide (counting window now log < max))]

/-- The log of calls at these times. -/
def log (times : List Nat) : List (Nat × Bool) := times.foldl (call max window) []

/-- The times at which the calls of a log were allowed. -/
def allowed (log : List (Nat × Bool)) : List Nat := (log.filter (·.2)).map (·.1)

variable {max window : Nat}

theorem log_concat (times : List Nat) (now : Nat) :
    log max window (times ++ [now]) = call max window (log max window times) now := by
  rw [log, log, List.foldl_append, List.foldl_cons, List.foldl_nil]

theorem allowed_concat (log : List (Nat × Bool)) (now : Nat) (r : Bool) :
    allowed (log ++ [(now, r)]) = allowed log ++ if r then [now] else [] := by
  rw [allowed, List.filter_append, List.map_append]
  cases r <;> rfl

/-- What counts, from the times alone. -/
theorem counting_eq (now : Nat) (log : List (Nat × Bool)) :
    counting window now log = ((allowed log).filter fun t => decide (now - t < window)).length := by
  rw [counting, allowed, List.filter_map, List.length_map, List.filter_filter,
    List.countP_eq_length_filter]
  refine congrArg List.length (List.filter_congr fun e _ => ?_)
  exact Bool.and_comm _ _

/-- Each answer of a log counts what is before it. -/
theorem answer_of_log {times : List Nat} {earlier later : List (Nat × Bool)} {e : Nat × Bool}
    (h : log max window times = earlier ++ e :: later) :
    e.2 = decide (counting window e.1 earlier < max) := by
  induction times using List.reverseRecOn generalizing later with
  | nil => simp [log] at h
  | append_singleton times now ih =>
    rw [log_concat, call] at h
    rcases List.eq_nil_or_concat later with rfl | ⟨later, x, rfl⟩
    · obtain ⟨hlog, he⟩ := List.append_inj' h rfl
      rw [← hlog, ← (List.cons.inj he).1]
    · rw [List.concat_eq_append, ← List.cons_append, ← List.append_assoc] at h
      exact ih (List.append_inj' h rfl).1

/-- Times that lie less than a window apart hold at most `max` allowed calls. -/
theorem countP_log_le {p : Nat → Bool} (hp : ∀ s t, p s = true → p t = true → t - s < window)
    (times : List Nat) : ((log max window times).countP fun e => e.2 && p e.1) ≤ max := by
  induction times using List.reverseRecOn with
  | nil => exact Nat.zero_le _
  | append_singleton times now ih =>
    rw [log_concat, call, List.countP_append, List.countP_singleton]
    split_ifs with hnow
    · rw [Bool.and_eq_true, decide_eq_true_iff] at hnow
      -- everything in the set counts at the time of the last call
      have hle : ((log max window times).countP fun e => e.2 && p e.1) ≤
          counting window now (log max window times) := by
        refine List.countP_mono_left fun e _ he => ?_
        rw [Bool.and_eq_true] at he ⊢
        exact ⟨he.1, decide_eq_true (hp _ _ he.2 hnow.2)⟩
      omega
    · exact ih

end SlidingWindow
