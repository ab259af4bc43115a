import Mathlib.Data.List.Basic

/-!
# Transactions

The body of a transaction works on the state statement by statement, and may fail at any of
them. It is committed as a whole or not at all: after an error the state is the one the
transaction began with.

A loop over rows has one rule for each of its ends: an invariant on the rows done so far for a
loop that comes through (`forM_ok`), and what every turn that comes through has checked
(`forall_of_forM_ok`).
-/

namespace Sql

variable {σ ε α β : Type}

/-- A sequence of statements, each of which may fail. -/
abbrev Tx (σ ε : Type) : Type → Type := StateT σ (Except ε)

/-- Commit what the body leaves, or drop the transaction on an error. -/
def transaction (body : Tx σ ε α) (s : σ) : Except ε α × σ :=
  match body s with
  | .ok (a, s') => (.ok a, s')
  | .error err => (.error err, s)

/-- A body that ends well is committed. -/
theorem transaction_ok {body : Tx σ ε α} {s s' : σ} {a : α} (h : body s = .ok (a, s')) :
    transaction body s = (.ok a, s') := by
  rw [transaction, h]

theorem transaction_error {body : Tx σ ε α} {s : σ} {err : ε} (h : body s = .error err) :
    transaction body s = (.error err, s) := by
  rw [transaction, h]

/-- A sequence that comes through has come through both parts. -/
theorem bind_eq_ok {m : Tx σ ε α} {f : α → Tx σ ε β} {s s' : σ} {b : β} :
    (m >>= f) s = .ok (b, s') ↔ ∃ a t, m s = .ok (a, t) ∧ f a t = .ok (b, s') := by
  change (m s >>= fun p => f p.1 p.2) = _ ↔ _
  rcases m s with err | ⟨a, t⟩
  · exact ⟨(by intro h; cases h), (by rintro ⟨a, t, h, -⟩; cases h)⟩
  · refine ⟨fun h => ⟨a, t, rfl, h⟩, ?_⟩
    rintro ⟨_, _, h, hf⟩
    cases h
    exact hf

section Loop

variable {step : α → Tx σ ε Unit} {l : List α}

theorem forM_cons (x : α) (l : List α) : (x :: l).forM step = (step x >>= fun _ => l.forM step) :=
  List.forM_cons

/-- A loop whose every turn comes through, and keeps an invariant on the rows done so far. -/
theorem forM_ok (step : α → Tx σ ε Unit) {I : List α → σ → Prop}
    (hstep : ∀ done x s, x ∈ l → I done s → ∃ s', step x s = .ok ((), s') ∧ I (done ++ [x]) s')
    {s : σ} (hs : I [] s) : ∃ s', l.forM step s = .ok ((), s') ∧ I l s' := by
  suffices hgen : ∀ (rest done : List α) (s : σ), (∀ x ∈ rest, x ∈ l) → I done s →
      ∃ s', rest.forM step s = .ok ((), s') ∧ I (done ++ rest) s' from
    hgen l [] s (fun _ hx => hx) hs
  intro rest
  induction rest with
  | nil =>
    intro done s _ hI
    exact ⟨s, rfl, by rwa [List.append_nil]⟩
  | cons x rest ih =>
    intro done s hmem hI
    obtain ⟨t, hx, ht⟩ := hstep done x s (hmem x List.mem_cons_self) hI
    obtain ⟨s', hrest, hs'⟩ := ih (done ++ [x]) t (fun y hy => hmem y (List.mem_cons_of_mem x hy)) ht
    refine ⟨s', ?_, ?_⟩
    · rw [forM_cons]
      exact bind_eq_ok.mpr ⟨(), t, hx, hrest⟩
    · rwa [List.append_cons]

/-- What every turn that comes through has checked holds of all rows of a loop that does. -/
theorem forall_of_forM_ok {P : α → Prop} (hstep : ∀ x s s', step x s = .ok ((), s') → P x)
    {s s' : σ} (h : l.forM step s = .ok ((), s')) : ∀ x ∈ l, P x := by
  induction l generalizing s with
  | nil => exact fun x hx => absurd hx List.not_mem_nil
  | cons y l ih =>
    rw [forM_cons] at h
    obtain ⟨_, t, hy, hrest⟩ := bind_eq_ok.mp h
    intro x hx
    rcases List.mem_cons.mp hx with rfl | hx
    · exact hstep x s t hy
    · exact ih hrest x hx

end Loop

end Sql
