import Floonet.Lib.Machine

/-!
# Programs on durable state

A program works on state that survives it. What it does to that state it does in commits, each
of them atomic, and the power can go off in front of any of them: what was committed stays, and
the next thing that happens is a new start. A program may also give up with an error.

A triple says of a program what holds when it returns, when the power goes off under it, and
when it gives up. A program that finds its own precondition again after each of these can be
started any number of times (`Triple.restarts`), and once it is left alone it comes through
(`Triple.completes`).
-/

namespace Crash

variable {σ ε α β : Type}

/-- How a program ends. -/
inductive Ended (ε α : Type) where
  /-- it returns, and the power is good for so many more commits -/
  | returned (a : α) (left : Option Nat)
  | powerLoss
  | failed (err : ε)

/-- A program, from the number of commits the power is good for (`none` when it stays on) and
the state it finds, to the state it leaves. -/
def Prog (σ ε α : Type) : Type := Option Nat → σ → Ended ε α × σ

namespace Prog

/-- No step. -/
protected def pure (a : α) : Prog σ ε α := fun n s => (.returned a n, s)

/-- The second program runs with the commits that are left, unless the first one ended the run. -/
protected def bind (m : Prog σ ε α) (f : α → Prog σ ε β) : Prog σ ε β := fun n s =>
  match m n s with
  | (.returned a left, s') => f a left s'
  | (.powerLoss, s') => (.powerLoss, s')
  | (.failed err, s') => (.failed err, s')

instance : Monad (Prog σ ε) where
  pure := Prog.pure
  bind := Prog.bind

/-- Read the state. -/
def read : Prog σ ε σ := fun n s => (.returned s n, s)

/-- Give up. -/
def throw (err : ε) : Prog σ ε α := fun _ s => (.failed err, s)

/-- One commit. A body that fails leaves the state as it was. -/
def commit (body : σ → Except ε (α × σ)) : Prog σ ε α := fun n s =>
  if n = some 0 then (.powerLoss, s)
  else
    match body s with
    | .ok (a, s') => (.returned a (n.map Nat.pred), s')
    | .error err => (.failed err, s)

/-- A batch of statements, each of them committed for itself. -/
def batch {δ : Type} (fail : δ → ε) : List (σ → Except δ σ) → Prog σ ε Unit
  | [] => pure ()
  | st :: rest => do
    commit fun s =>
      match st s with
      | .ok s' => .ok ((), s')
      | .error err => .error (fail err)
    batch fail rest

/-- The states a program may leave the next one. -/
def next (m : Prog σ ε α) (s : σ) (n : Option Nat) : σ := (m n s).2

end Prog

/-! ### One run -/

section Run

variable {m : Prog σ ε α} {f : α → Prog σ ε β} {n left : Option Nat} {s t : σ} {a : α}

theorem Prog.bind_of_returned (h : m n s = (.returned a left, t)) : (m >>= f) n s = f a left t := by
  change Prog.bind m f n s = _
  rw [Prog.bind, h]

theorem Prog.bind_of_powerLoss (h : m n s = (.powerLoss, t)) : (m >>= f) n s = (.powerLoss, t) := by
  change Prog.bind m f n s = _
  rw [Prog.bind, h]

theorem Prog.bind_of_failed {err : ε} (h : m n s = (.failed err, t)) :
    (m >>= f) n s = (.failed err, t) := by
  change Prog.bind m f n s = _
  rw [Prog.bind, h]

section Commit

variable {body : σ → Except ε (α × σ)}

theorem Prog.commit_powerLoss : Prog.commit body (some 0) s = (.powerLoss, s) := by
  rw [Prog.commit, if_pos rfl]

theorem Prog.commit_ok (hn : n ≠ some 0) (h : body s = .ok (a, t)) :
    Prog.commit body n s = (.returned a (n.map Nat.pred), t) := by
  rw [Prog.commit, if_neg hn, h]

theorem Prog.commit_error (hn : n ≠ some 0) {err : ε} (h : body s = .error err) :
    Prog.commit body n s = (.failed err, s) := by
  rw [Prog.commit, if_neg hn, h]

end Commit

end Run

/-- From here the batch goes through to `Q`, and is in `C` in front of each of its statements. -/
def Passes {δ : Type} (C Q : σ → Prop) : List (σ → Except δ σ) → σ → Prop
  | [], s => Q s
  | st :: rest, s => C s ∧ ∃ s', st s = .ok s' ∧ Passes C Q rest s'

/-! ## Triples

A triple says of a program where it can be when it returns, fails or loses power. The rules follow
the constructors, and only commits can change the state. -/

/-- A program ended in `Q`, lost power in `C`, or gave up in `F`. It does not lose power that
stays on. -/
def Meets (Q : α → σ → Prop) (C F : σ → Prop) (n : Option Nat) : Ended ε α × σ → Prop
  | (.returned a left, s) => Q a s ∧ (n = none → left = none)
  | (.powerLoss, s) => C s ∧ n ≠ none
  | (.failed _, s) => F s

/-- From a state in `P` the program returns in `Q`, loses power in `C`, or gives up in `F`. -/
def Triple (P : σ → Prop) (m : Prog σ ε α) (Q : α → σ → Prop) (C F : σ → Prop) : Prop :=
  ∀ n s, P s → Meets Q C F n (m n s)

namespace Triple

variable {P P' : σ → Prop} {Q Q' : α → σ → Prop} {R : β → σ → Prop} {C C' F F' : σ → Prop}
  {m : Prog σ ε α} {f : α → Prog σ ε β}

/-- The rule of a program without steps. -/
protected theorem pure {a : α} (h : ∀ s, P s → Q a s) : Triple P (pure a : Prog σ ε α) Q C F :=
  fun _ s hs => ⟨h s hs, id⟩

/-- The rule of a read: the state is known afterwards. -/
theorem read {Q : σ → σ → Prop} (h : ∀ s, P s → Q s s) :
    Triple P (Prog.read : Prog σ ε σ) Q C F := fun _ s hs => ⟨h s hs, id⟩

theorem throw {err : ε} (h : ∀ s, P s → F s) : Triple P (Prog.throw err : Prog σ ε α) Q C F :=
  fun _ s hs => h s hs

/-- The rule of sequence: the first program's end is where the second one starts. -/
protected theorem bind (hm : Triple P m Q C F) (hf : ∀ a, Triple (Q a) (f a) R C F) :
    Triple P (m >>= f) R C F := by
  intro n s hs
  have h := hm n s hs
  change Meets R C F n (Prog.bind m f n s)
  rw [Prog.bind]
  rcases hrun : m n s with ⟨⟨a, left⟩ | _ | err, s'⟩ <;> rw [hrun] at h
  · have hnext := hf a left s' h.1
    simp only
    rcases hrun' : f a left s' with ⟨⟨b, left'⟩ | _ | err, s''⟩ <;> rw [hrun'] at hnext
    · exact ⟨hnext.1, fun hn => hnext.2 (h.2 hn)⟩
    · exact ⟨hnext.1, fun hn => hnext.2 (h.2 hn)⟩
    · exact hnext
  · exact h
  · exact h

/-- Before a commit the power can go off, and the body may fail. -/
theorem commit {body : σ → Except ε (α × σ)} (hC : ∀ s, P s → C s)
    (hok : ∀ s a s', P s → body s = .ok (a, s') → Q a s')
    (herr : ∀ s err, P s → body s = .error err → F s) : Triple P (Prog.commit body) Q C F := by
  intro n s hs
  rw [Prog.commit]
  split_ifs with hn
  · exact ⟨hC s hs, by rw [hn]; exact Option.some_ne_none 0⟩
  · rcases hbody : body s with err | ⟨a, s'⟩
    · exact herr s err hs hbody
    · refine ⟨hok s a s' hs hbody, ?_⟩
      rintro rfl
      rfl

theorem conseq (h : Triple P m Q C F) (hP : ∀ s, P' s → P s) (hQ : ∀ a s, Q a s → Q' a s)
    (hC : ∀ s, C s → C' s) (hF : ∀ s, F s → F' s) : Triple P' m Q' C' F' := by
  intro n s hs
  have h := h n s (hP s hs)
  rcases hrun : m n s with ⟨⟨a, left⟩ | _ | err, s'⟩ <;> rw [hrun] at h
  · exact ⟨hQ a s' h.1, h.2⟩
  · exact ⟨hC s' h.1, h.2⟩
  · exact hF s' h

/-- The precondition may be taken apart first. -/
theorem of_forall {ι : Type} {P : ι → σ → Prop} (h : ∀ i, Triple (P i) m Q C F) :
    Triple (fun s => ∃ i, P i s) m Q C F := fun n s ⟨i, hs⟩ => h i n s hs

/-- The rule of a case that is decided by the state. -/
theorem or (h : Triple P m Q C F) (h' : Triple P' m Q C F) :
    Triple (fun s => P s ∨ P' s) m Q C F := fun n s hs => hs.elim (h n s) (h' n s)

/-- A fact that does not speak about the state. -/
theorem of_pure {p : Prop} (h : p → Triple P m Q C F) : Triple (fun s => p ∧ P s) m Q C F :=
  fun n s hs => h hs.1 n s hs.2

theorem ite {c : Prop} [Decidable c] {m' : Prog σ ε α} (ht : c → Triple P m Q C F)
    (hf : ¬ c → Triple P m' Q C F) : Triple P (if c then m else m') Q C F := by
  split_ifs with h
  · exact ht h
  · exact hf h

/-- The rule of a batch, statement by statement. -/
theorem batch {δ : Type} {fail : δ → ε} {statements : List (σ → Except δ σ)} {Q : σ → Prop}
    (h : ∀ s, P s → Passes C Q statements s) :
    Triple P (Prog.batch fail statements) (fun _ => Q) C F := by
  induction statements generalizing P with
  | nil => exact Triple.pure h
  | cons st rest ih =>
    refine (Triple.commit (Q := fun _ => Passes C Q rest) (fun s hs => (h s hs).1) ?_ ?_).bind
      fun _ => ih fun _ hs => hs
    · rintro s ⟨⟩ s' hs heq
      obtain ⟨-, t, ht, hrest⟩ := h s hs
      rw [ht] at heq
      cases heq
      exact hrest
    · intro s err hs heq
      obtain ⟨-, t, ht, -⟩ := h s hs
      rw [ht] at heq
      cases heq

/-! ## Starts -/

/-- What holds of the state a program leaves, however it ended. -/
theorem state {S : σ → Prop} (h : Triple P m Q C F) (hQ : ∀ a s, Q a s → S s)
    (hC : ∀ s, C s → S s) (hF : ∀ s, F s → S s) (n : Option Nat) {s : σ} (hs : P s) :
    S (m.next s n) := by
  have hrun := h n s hs
  rw [Prog.next]
  rcases heq : m n s with ⟨⟨a, left⟩ | _ | err, t⟩ <;> rw [heq] at hrun
  · exact hQ a t hrun.1
  · exact hC t hrun.1
  · exact hF t hrun

/-- However often the program is started and cut short, what it needs is there again. -/
theorem restarts (h : Triple P m Q C F) (hQ : ∀ a s, Q a s → P s) (hC : ∀ s, C s → P s)
    (hF : ∀ s, F s → P s) (ns : List (Option Nat)) {s : σ} (hs : P s) :
    P (Machine.run m.next s ns) :=
  Machine.invariant (fun _ n _ ht => h.state hQ hC hF n ht) hs

/-- With the power on, a program that does not fail comes through. -/
theorem completes (h : Triple P m Q C fun _ => False) {s : σ} (hs : P s) :
    ∃ a s', m none s = (.returned a none, s') ∧ Q a s' := by
  have hrun := h none s hs
  rcases heq : m none s with ⟨⟨a, left⟩ | _ | err, s'⟩ <;> rw [heq] at hrun
  · obtain rfl := hrun.2 rfl
    exact ⟨a, s', rfl, hrun.1⟩
  · exact absurd rfl hrun.2
  · exact absurd hrun id

end Triple

end Crash
