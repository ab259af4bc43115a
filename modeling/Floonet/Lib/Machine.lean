import Mathlib.Data.List.Induction

/-!
# Runs of a deterministic state machine

A machine is a step function on states and inputs; a run feeds it a list of
inputs. Three ways to reason about a whole run from its steps: an invariant that
every step keeps (`invariant`), one that is kept only by steps meeting a
condition on the state they start in (`invariant_along`), and one that talks
about the inputs seen so far (`history`). For machines that answer their inputs, a
simulation compares two of them (`outputs_eq_of_simulation`).
-/

namespace Machine

variable {σ ι : Type} (step : σ → ι → σ)

/-- The state after a list of inputs. -/
def run (s : σ) (is : List ι) : σ := is.foldl step s

@[simp] theorem run_nil (s : σ) : run step s [] = s := rfl

@[simp] theorem run_cons (s : σ) (i : ι) (is : List ι) :
    run step s (i :: is) = run step (step s i) is := rfl

theorem run_append (s : σ) (is js : List ι) :
    run step s (is ++ js) = run step (run step s is) js := List.foldl_append

theorem run_concat (s : σ) (is : List ι) (i : ι) :
    run step s (is ++ [i]) = step (run step s is) i := by
  rw [run_append, run_cons, run_nil]

variable {step}

/-- What every step of the run keeps holds at its end. -/
theorem invariant {P : σ → Prop} {is : List ι} {s : σ}
    (hstep : ∀ t, ∀ i ∈ is, P t → P (step t i)) (h : P s) : P (run step s is) := by
  induction is generalizing s with
  | nil => exact h
  | cons i is ih =>
    refine ih (fun t j hj => hstep t j (List.mem_cons_of_mem _ hj)) ?_
    exact hstep s i (List.mem_cons_self ..) h

variable (step) in
/-- Every step of the run meets `C` in the state it starts in. -/
def Along (C : σ → ι → Prop) : σ → List ι → Prop
  | _, [] => True
  | s, i :: is => C s i ∧ Along C (step s i) is

instance decidableAlong {C : σ → ι → Prop} [∀ s i, Decidable (C s i)] :
    ∀ (s : σ) (is : List ι), Decidable (Along step C s is)
  | _, [] => isTrue trivial
  | s, i :: is => @instDecidableAnd _ _ _ (decidableAlong (step s i) is)

/-- What holds everywhere holds along a run. -/
theorem along_of_forall {C : σ → ι → Prop} {is : List ι} {s : σ} (h : ∀ t, ∀ i ∈ is, C t i) :
    Along step C s is := by
  induction is generalizing s with
  | nil => trivial
  | cons i is ih =>
    exact ⟨h s i (List.mem_cons_self ..), ih fun t j hj => h t j (List.mem_cons_of_mem _ hj)⟩

/-- A condition along two runs, one after the other. -/
theorem along_append {C : σ → ι → Prop} {is js : List ι} {s : σ} :
    Along step C s (is ++ js) ↔ Along step C s is ∧ Along step C (run step s is) js := by
  induction is generalizing s with
  | nil => exact ⟨fun h => ⟨trivial, h⟩, fun h => h.2⟩
  | cons i is ih =>
    rw [List.cons_append, Along, Along, ih, run_cons, and_assoc]

/-- A run along `C` stopped early is one too. -/
theorem Along.take {C : σ → ι → Prop} {is : List ι} {s : σ} (h : Along step C s is) (n : Nat) :
    Along step C s (is.take n) := by
  induction is generalizing s n with
  | nil => rwa [List.take_nil]
  | cons i is ih =>
    cases n with
    | zero => trivial
    | succ n => exact ⟨h.1, ih h.2 n⟩

/-- What every step meeting `C` keeps holds at the end of a run along `C`. -/
theorem invariant_along {C : σ → ι → Prop} {P : σ → Prop} {is : List ι} {s : σ}
    (hstep : ∀ t, ∀ i ∈ is, C t i → P t → P (step t i)) (hC : Along step C s is) (h : P s) :
    P (run step s is) := by
  induction is generalizing s with
  | nil => exact h
  | cons i is ih =>
    obtain ⟨hi, hrest⟩ := hC
    refine ih (fun t j hj => hstep t j (List.mem_cons_of_mem _ hj)) hrest ?_
    exact hstep s i (List.mem_cons_self ..) hi h

/-- Two conditions on steps that agree wherever the second one has held so far. `J` may
speak about the inputs that are still to come. -/
theorem along_congr {C D : σ → ι → Prop} {J : σ → List ι → Prop}
    (hiff : ∀ t i is, J t (i :: is) → (C t i ↔ D t i))
    (hstep : ∀ t i is, J t (i :: is) → D t i → J (step t i) is) {s : σ} {is : List ι}
    (h : J s is) : Along step C s is ↔ Along step D s is := by
  induction is generalizing s with
  | nil => rfl
  | cons i is ih =>
    rw [Along, Along, hiff s i is h]
    exact and_congr_right fun hD => ih (hstep s i is h hD)

/-- Induction over the inputs in the order they arrive. -/
theorem history {P : List ι → σ → Prop} {s : σ} (h : P [] s)
    (hstep : ∀ is i, P is (run step s is) → P (is ++ [i]) (step (run step s is) i))
    (is : List ι) : P is (run step s is) := by
  induction is using List.reverseRecOn with
  | nil => exact h
  | append_singleton is i ih =>
    rw [run_concat]
    exact hstep is i ih

section Outputs

variable {τ ο : Type}

/-- The outputs of a run of a machine that answers every input. -/
def outputs (f : σ → ι → σ × ο) : σ → List ι → List ο
  | _, [] => []
  | s, i :: is => (f s i).2 :: outputs f (f s i).1 is

theorem outputs_concat (f : σ → ι → σ × ο) (s : σ) (is : List ι) (i : ι) :
    outputs f s (is ++ [i]) =
      outputs f s is ++ [(f (run (fun s i => (f s i).1) s is) i).2] := by
  induction is generalizing s with
  | nil => rfl
  | cons j is ih => rw [List.cons_append, outputs, ih, outputs, run_cons, List.cons_append]

/-- Two machines answer alike along a run whose steps keep them related. -/
theorem outputs_eq_of_simulation {f : σ → ι → σ × ο} {g : τ → ι → τ × ο} {R : σ → τ → Prop}
    {C : σ → ι → Prop} {is : List ι} {s : σ} {t : τ}
    (hstep : ∀ s t i, C s i → R s t → (f s i).2 = (g t i).2 ∧ R (f s i).1 (g t i).1) (h : R s t)
    (hC : Along (fun s i => (f s i).1) C s is) : outputs f s is = outputs g t is := by
  induction is generalizing s t with
  | nil => rfl
  | cons i is ih =>
    obtain ⟨hout, hnext⟩ := hstep s t i hC.1 h
    rw [outputs, outputs, hout, ih hnext hC.2]

end Outputs

end Machine
