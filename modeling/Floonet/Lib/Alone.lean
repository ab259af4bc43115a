import Floonet.Lib.Process

/-!
# Programs that run undisturbed

`Alone exec E F s past p` is the weakest precondition of a program that no other program
interferes with: run from the state `s`, with any inputs that `E` allows, it ends with a
state, a history and a result that satisfy `F`. It is read off the program node by node
(`Alone.ret`, `Alone.call`, `Alone.bind`).

Two situations make it a fact about schedules: a thread that is the only one to move
(`System.alone_run`), and schedules where a request arrives only when all threads have
finished (`System.at_rest`).
-/

namespace Process

variable {Op : Type} {Res : Op → Type} {α β ρ σ ε : Type}

/-- Run alone from `s`, with inputs that `E` allows, the program ends in `F`. -/
inductive Alone (exec : σ → ε → (o : Op) → σ × Res o) (E : σ → Op → ε → Prop)
    (F : σ → List (Call Op Res) → α → Prop) : σ → List (Call Op Res) → Proc Op Res α → Prop where
  | ret {s : σ} {past : List (Call Op Res)} {a : α} : F s past a → Alone exec E F s past (.ret a)
  | call {s : σ} {past : List (Call Op Res)} {o : Op} {k : Res o → Proc Op Res α} :
    (∀ e, E s o e →
      Alone exec E F (exec s e o).1 (⟨o, (exec s e o).2⟩ :: past) (k (exec s e o).2)) →
    Alone exec E F s past (.call o k)

section Rules

variable {exec : σ → ε → (o : Op) → σ × Res o} {E : σ → Op → ε → Prop}
  {F : σ → List (Call Op Res) → α → Prop} {s : σ} {past : List (Call Op Res)}

/-- A program that returns ends where it is. -/
theorem alone_ret {a : α} : Alone exec E F s past (.ret a) ↔ F s past a := by
  refine ⟨?_, .ret⟩
  rintro ⟨h⟩
  exact h

/-- A program that calls goes on from every reply that can come. -/
theorem alone_call {o : Op} {k : Res o → Proc Op Res α} : Alone exec E F s past (.call o k) ↔
    ∀ e, E s o e →
      Alone exec E F (exec s e o).1 (⟨o, (exec s e o).2⟩ :: past) (k (exec s e o).2) := by
  refine ⟨?_, .call⟩
  rintro ⟨⟩
  assumption

/-- Sequencing. -/
theorem Alone.bind {G : σ → List (Call Op Res) → β → Prop} {p : Proc Op Res β}
    {f : β → Proc Op Res α} (hp : Alone exec E G s past p)
    (hf : ∀ s' past' b, G s' past' b → Alone exec E F s' past' (f b)) :
    Alone exec E F s past (p >>= f) := by
  induction hp with
  | ret h => exact hf _ _ _ h
  | call _ ih => exact .call fun e he => ih e he

/-- What follows from the end holds at the end. -/
theorem Alone.imp {G : σ → List (Call Op Res) → α → Prop} {p : Proc Op Res α}
    (hp : Alone exec E F s past p) (hF : ∀ s' past' a, F s' past' a → G s' past' a) :
    Alone exec E G s past p := by
  induction hp with
  | ret h => exact .ret (hF _ _ _ h)
  | call _ ih => exact .call fun e he => ih e he

theorem Alone.map {G : σ → List (Call Op Res) → β → Prop} {p : Proc Op Res β} {f : β → α}
    (hp : Alone exec E G s past p) (hf : ∀ s' past' b, G s' past' b → F s' past' (f b)) :
    Alone exec E F s past (f <$> p) :=
  hp.bind fun s' past' b hb => .ret (hf s' past' b hb)

/-- A contract and what its operations keep. -/
theorem Obeys.alone {Q : List (Call Op Res) → Op → Prop} {G : List (Call Op Res) → α → Prop}
    {I : σ → Prop} {p : Proc Op Res α} (hp : Obeys Q G past p) (hs : I s)
    (hI : ∀ s past o e, Q past o → E s o e → I s → I (exec s e o).1) :
    Alone exec E (fun s past a => I s ∧ G past a) s past p := by
  induction hp generalizing s with
  | ret h => exact .ret ⟨hs, h⟩
  | call hq _ ih => exact .call fun e he => ih _ (hI s _ _ e hq he hs)

end Rules

namespace System

variable {sys : System σ ρ ε Op Res α} {E : σ → Op → ε → Prop}
  {F : σ → List (Call Op Res) → α → Prop} {c : Config σ ρ Op Res α} {n : Nat} {r : ρ}

/-- A finished thread does nothing. -/
theorem run_finished {past : List (Call Op Res)} {a : α}
    (hn : c.threads[n]? = some ⟨r, past, .ret a⟩) (es : List ε) :
    Machine.run sys.step c (es.map (.run n)) = c := by
  induction es with
  | nil => rfl
  | cons e es ih =>
    have hstep : sys.step c (.run n e) = c := by simp only [step, hn]
    rw [List.map_cons, Machine.run_cons, hstep, ih]

/-- The only thread that moves goes through its program. -/
theorem alone_run {past : List (Call Op Res)} {p : Proc Op Res α} {es : List ε}
    (hn : c.threads[n]? = some ⟨r, past, p⟩) (hp : Alone sys.exec E F c.shared past p)
    (hE : ∀ e ∈ es, ∀ s o, E s o e) : ∃ past' p',
    (Machine.run sys.step c (es.map (.run n))).threads[n]? = some ⟨r, past', p'⟩ ∧
      Alone sys.exec E F (Machine.run sys.step c (es.map (.run n))).shared past' p' ∧
      (p'.next = none ∨ past'.length = past.length + es.length) := by
  induction es generalizing c past p with
  | nil => exact ⟨past, p, hn, hp, .inr rfl⟩
  | cons e es ih =>
    cases p with
    | ret a =>
      rw [run_finished hn]
      exact ⟨past, .ret a, hn, hp, .inl rfl⟩
    | call o k =>
      rw [List.map_cons, Machine.run_cons, step_run hn]
      have hE' : ∀ e' ∈ es, ∀ s o, E s o e' := fun e' he' => hE e' (List.mem_cons_of_mem _ he')
      have hself : (sys.fire c n e r past o k).threads[n]? =
          some (sys.fired c.shared e r past o k) :=
        List.getElem?_set_self (List.getElem?_eq_some_iff.mp hn).1
      obtain ⟨past', p', hn', hp', hlen⟩ :=
        ih hself (alone_call.mp hp e (hE e (List.mem_cons_self ..) _ _)) hE'
      refine ⟨past', p', hn', hp', hlen.imp id fun h => ?_⟩
      rw [h, List.length_cons, List.length_cons]
      omega

/-- Requests arrive only when all threads have finished. -/
def Sequential (c : Config σ ρ Op Res α) : Act ρ ε → Prop
  | .spawn _ => ∀ t ∈ c.threads, t.code.next = none
  | .run _ _ => True

/-- The inputs of a step are allowed. -/
def Allowed (E : σ → Op → ε → Prop) (c : Config σ ρ Op Res α) : Act ρ ε → Prop
  | .spawn _ => True
  | .run i e => ∀ o ∈ c.next i, E c.shared o e

/-- All threads have finished and `J` holds, or all but one have, which leads back to `J`. -/
def AtRest (sys : System σ ρ ε Op Res α) (E : σ → Op → ε → Prop) (J : σ → Prop)
    (c : Config σ ρ Op Res α) : Prop :=
  ((∀ t ∈ c.threads, t.code.next = none) ∧ J c.shared) ∨
    ∃ (n : Nat) (t : Thread ρ Op Res α), c.threads[n]? = some t ∧
      Alone sys.exec E (fun s _ _ => J s) c.shared t.past t.code ∧
      ∀ (m : Nat) (u : Thread ρ Op Res α), m ≠ n → c.threads[m]? = some u → u.code.next = none

section Sequential

variable {J : σ → Prop}

/-- Once all threads are finished, the state is at rest. -/
theorem AtRest.of_finished (h : AtRest sys E J c) (hdone : ∀ t ∈ c.threads, t.code.next = none) :
    J c.shared := by
  obtain ⟨-, hJ⟩ | ⟨n, ⟨r, past, p⟩, hn, hp, -⟩ := h
  · exact hJ
  · cases p with
    | ret a => exact alone_ret.mp hp
    | call o k => exact absurd (hdone _ (List.mem_of_getElem? hn)) (by simp [Proc.next])

/-- A new thread runs alone from here. -/
theorem AtRest.spawn (h : AtRest sys E J c) (hdone : ∀ t ∈ c.threads, t.code.next = none)
    (hprog : J c.shared → Alone sys.exec E (fun s _ _ => J s) c.shared [] (sys.program r)) :
    AtRest sys E J (sys.step c (.spawn r)) := by
  refine .inr ⟨c.threads.length, ⟨r, [], sys.program r⟩, List.getElem?_concat_length,
    hprog (h.of_finished hdone), ?_⟩
  intro m u hm hu
  obtain ⟨rfl, -⟩ | hu := getElem?_spawn hu
  · exact absurd rfl hm
  · exact hdone u (List.mem_of_getElem? hu)

/-- A call of the running thread leaves the rest of its run. -/
theorem AtRest.fire {i : Nat} {e : ε} {past : List (Call Op Res)} {o : Op}
    {k : Res o → Proc Op Res α} (h : AtRest sys E J c) (hE : E c.shared o e)
    (hi : c.threads[i]? = some ⟨r, past, .call o k⟩) : AtRest sys E J (sys.fire c i e r past o k) := by
  obtain ⟨hdone, -⟩ | ⟨n, t, hn, hp, hother⟩ := h
  · exact absurd (hdone _ (List.mem_of_getElem? hi)) (by simp [Proc.next])
  · by_cases hin : i = n
    · subst hin
      rw [hi] at hn
      cases hn
      refine .inr ⟨i, sys.fired c.shared e r past o k,
        List.getElem?_set_self (List.getElem?_eq_some_iff.mp hi).1, alone_call.mp hp e hE, ?_⟩
      intro m u hm hu
      obtain ⟨rfl, -⟩ | ⟨-, hu⟩ := getElem?_fire hu
      · exact absurd rfl hm
      · exact hother m u hm hu
    · exact absurd (hother i _ hin hi) (by simp [Proc.next])

end Sequential

/-- In a schedule of requests that come one after the other, what each of them keeps when
it runs alone holds whenever all have finished. -/
theorem at_rest {J : σ → Prop} {R : ρ → Prop} {s : σ} {acts : List (Act ρ ε)}
    (hprog : ∀ r s, R r → J s → Alone sys.exec E (fun s _ _ => J s) s [] (sys.program r)) (hs : J s)
    (hreqs : ∀ r, Act.spawn r ∈ acts → R r)
    (hseq : Machine.Along sys.step (fun c a => Sequential c a ∧ Allowed E c a) (init s) acts)
    (hdone : ∀ t ∈ (sys.run s acts).threads, t.code.next = none) : J (sys.run s acts).shared := by
  have hrest : AtRest sys E J (sys.run s acts) := by
    refine Machine.invariant_along ?_ hseq (.inl ⟨fun t ht => (by cases ht), hs⟩)
    rintro c act hmem ⟨hseq, hallowed⟩ hrest
    cases act with
    | spawn r => exact hrest.spawn hseq fun hJ => hprog r _ (hreqs r hmem) hJ
    | run i e =>
      obtain ⟨r, past, o, k, hi, heq⟩ | heq := step_run_cases sys c i e
      · rw [heq]
        exact hrest.fire (hallowed o (Config.next_of_getElem? hi)) hi
      · rw [heq]
        exact hrest
  exact hrest.of_finished hdone

end System

end Process
