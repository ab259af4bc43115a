import Floonet.Lib.Machine

/-!
# Interleaved programs over shared state

A program is a tree of atomic operations: each node names one operation, and what
comes after it depends on the answer. Any number of programs run against one
shared state, and the scheduler decides at every step which of them performs its
next operation. An operation may read an input of the environment (a clock
reading, the answer of a remote server, a failure).

Two things are recorded besides the shared state: what each program has done so
far (`Thread.past`), and every operation performed (`Config.trace`, newest
first).

* `Obeys Q F past p` is a contract of the program text alone: every operation that
  `p` can perform, after `past`, satisfies `Q`, and every result satisfies `F`,
  whatever the operations answer.
* `Sound` says that a pool of threads is where its programs can be, and that what
  threads remember has happened.
* `invariant_along` turns contracts and one lemma per step into a fact about
  every interleaving.
-/

namespace Process

variable {Op : Type} {Res : Op → Type} {α β ρ σ ε : Type}

/-! ## Programs -/

/-- A program over the operations `Op`, where `o : Op` answers in `Res o`. -/
inductive Proc (Op : Type) (Res : Op → Type) (α : Type) : Type where
  /-- finished with a result -/
  | ret : α → Proc Op Res α
  /-- one atomic operation, then what its answer leads to -/
  | call : (o : Op) → (Res o → Proc Op Res α) → Proc Op Res α

namespace Proc

/-- Graft a continuation onto every result. -/
protected def bind : Proc Op Res α → (α → Proc Op Res β) → Proc Op Res β
  | ret a, f => f a
  | call o k, f => call o fun r => (k r).bind f

instance : Monad (Proc Op Res) where
  pure := ret
  bind := Proc.bind

/-- A single operation. -/
def perform (o : Op) : Proc Op Res (Res o) := call o ret

/-- The result, once finished. -/
def result : Proc Op Res α → Option α
  | ret a => some a
  | call _ _ => none

/-- The next operation, until then. -/
def next : Proc Op Res α → Option Op
  | ret _ => none
  | call o _ => some o

/-- A program with a result has returned it. -/
theorem result_eq_some {p : Proc Op Res α} {a : α} (h : p.result = some a) : p = ret a := by
  cases p with
  | ret b =>
    cases h
    rfl
  | call o k => cases h

@[simp] theorem pure_eq (a : α) : (pure a : Proc Op Res α) = ret a := rfl

@[simp] theorem ret_bind (a : α) (f : α → Proc Op Res β) :
    (ret a : Proc Op Res α) >>= f = f a := rfl

@[simp] theorem call_bind (o : Op) (k : Res o → Proc Op Res α) (f : α → Proc Op Res β) :
    call o k >>= f = call o fun r => k r >>= f := rfl

@[simp] theorem perform_bind (o : Op) (f : Res o → Proc Op Res β) :
    (perform o : Proc Op Res (Res o)) >>= f = call o f := rfl

end Proc

/-- An operation with the answer it got. -/
structure Call (Op : Type) (Res : Op → Type) : Type where
  op : Op
  answer : Res op

/-! ## Contracts

A contract says which operation a program may perform after which operations and answers, and with
what it may return. It is checked along the program once. -/

/-- Every operation the program can perform satisfies `Q` and every result satisfies
`F`, each judged by what was done before, newest first. -/
inductive Obeys (Q : List (Call Op Res) → Op → Prop) (F : List (Call Op Res) → α → Prop) :
    List (Call Op Res) → Proc Op Res α → Prop where
  | ret {past : List (Call Op Res)} {a : α} : F past a → Obeys Q F past (.ret a)
  | call {past : List (Call Op Res)} {o : Op} {k : Res o → Proc Op Res α} :
    Q past o → (∀ r, Obeys Q F (⟨o, r⟩ :: past) (k r)) → Obeys Q F past (.call o k)

section Obeys

variable {Q : List (Call Op Res) → Op → Prop} {F : List (Call Op Res) → α → Prop}
  {past : List (Call Op Res)}

/-- A program that returns has the result that its contract allows. -/
theorem obeys_ret {a : α} : Obeys Q F past (.ret a) ↔ F past a := by
  refine ⟨?_, .ret⟩
  rintro ⟨h⟩
  exact h

/-- A program that calls may make the call, and obeys after every reply. -/
theorem obeys_call {o : Op} {k : Res o → Proc Op Res α} :
    Obeys Q F past (.call o k) ↔ Q past o ∧ ∀ r, Obeys Q F (⟨o, r⟩ :: past) (k r) := by
  refine ⟨?_, fun h => .call h.1 h.2⟩
  intro h
  cases h with
  | call hq hk => exact ⟨hq, hk⟩

/-- A contract may be weakened. -/
theorem Obeys.imp {Q' : List (Call Op Res) → Op → Prop} {p : Proc Op Res α}
    (hp : Obeys Q F past p) (hQ : ∀ past' o, Q past' o → Q' past' o) : Obeys Q' F past p := by
  induction hp with
  | ret h => exact .ret h
  | call hq _ ih => exact .call (hQ _ _ hq) ih

/-- Contracts compose: the first part promises `G` of its result, the second
starts from there. -/
theorem Obeys.bind {G : List (Call Op Res) → β → Prop} {p : Proc Op Res β}
    {f : β → Proc Op Res α} (hp : Obeys Q G past p)
    (hf : ∀ past' b, G past' b → Obeys Q F past' (f b)) : Obeys Q F past (p >>= f) := by
  induction hp with
  | ret h => exact hf _ _ h
  | call hq _ ih => exact .call hq ih

theorem Obeys.map {G : List (Call Op Res) → β → Prop} {p : Proc Op Res β} {f : β → α}
    (hp : Obeys Q G past p) (hf : ∀ past' b, G past' b → F past' (f b)) :
    Obeys Q F past (f <$> p) :=
  hp.bind fun past' b hb => .ret (hf past' b hb)

/-- A finished program has a result of its contract. -/
theorem Obeys.of_result {p : Proc Op Res α} {a : α} (hp : Obeys Q F past p)
    (hr : p.result = some a) : F past a := by
  cases hp with
  | ret h =>
    cases hr
    exact h
  | call hq hk => cases hr

/-- An unfinished one has a next operation. -/
theorem Obeys.of_running {p : Proc Op Res α} (hp : Obeys Q F past p) (hr : p.result = none) :
    ∃ o, Q past o := by
  cases hp with
  | ret h => cases hr
  | call hq hk => exact ⟨_, hq⟩

theorem Obeys.of_next {p : Proc Op Res α} {o : Op} (hp : Obeys Q F past p)
    (ho : p.next = some o) : Q past o := by
  cases hp with
  | ret h => cases ho
  | call hq hk =>
    cases ho
    exact hq

end Obeys

/-! ## Pools of threads -/

/-- A running program: what it serves, what it has done, what is left. -/
structure Thread (ρ Op : Type) (Res : Op → Type) (α : Type) : Type where
  request : ρ
  past : List (Call Op Res)
  code : Proc Op Res α

/-- One operation as it was performed. -/
structure Move (σ ρ Op : Type) (Res : Op → Type) (α : Type) : Type where
  thread : Nat
  request : ρ
  call : Call Op Res
  before : σ
  after : σ
  /-- the result, if the operation was the last one -/
  reply : Option α

/-- The shared state, the threads and every operation performed, newest first. -/
structure Config (σ ρ Op : Type) (Res : Op → Type) (α : Type) : Type where
  shared : σ
  threads : List (Thread ρ Op Res α)
  trace : List (Move σ ρ Op Res α)

/-- What the scheduler can do next. -/
inductive Act (ρ ε : Type) : Type where
  /-- a request arrives -/
  | spawn : ρ → Act ρ ε
  /-- a thread performs its next operation, with the environment's input -/
  | run : Nat → ε → Act ρ ε

/-- The next operation of a thread. -/
def Config.next (c : Config σ ρ Op Res α) (i : Nat) : Option Op :=
  c.threads[i]?.bind fun t => t.code.next

theorem Config.next_of_getElem? {c : Config σ ρ Op Res α} {i : Nat} {r : ρ}
    {past : List (Call Op Res)} {o : Op} {k : Res o → Proc Op Res α}
    (h : c.threads[i]? = some ⟨r, past, .call o k⟩) : c.next i = some o := by
  rw [next, h]
  rfl

/-- A property of each entry of a trace and what came before it. -/
theorem forall_split_cons {γ : Type} {Q : γ → List γ → Prop} {x : γ} {xs : List γ} (hx : Q x xs)
    (hxs : ∀ later y earlier, xs = later ++ y :: earlier → Q y earlier) :
    ∀ later y earlier, x :: xs = later ++ y :: earlier → Q y earlier := by
  intro later y earlier h
  cases later with
  | nil =>
    cases h
    exact hx
  | cons z later =>
    rw [List.cons_append, List.cons.injEq] at h
    exact hxs later y earlier h.2

/-! Requests may be given under other names. -/

section Rename

variable {τ : Type} (f : τ → ρ)

/-- The thread of the renamed request. -/
def Thread.rename (t : Thread τ Op Res α) : Thread ρ Op Res α := ⟨f t.request, t.past, t.code⟩

/-- The move of the renamed request. -/
def Move.rename (m : Move σ τ Op Res α) : Move σ ρ Op Res α :=
  ⟨m.thread, f m.request, m.call, m.before, m.after, m.reply⟩

/-- All threads and moves with their requests renamed. -/
def Config.rename (c : Config σ τ Op Res α) : Config σ ρ Op Res α :=
  ⟨c.shared, c.threads.map (Thread.rename f), c.trace.map (Move.rename f)⟩

/-- The action with its request renamed. -/
def Act.rename : Act τ ε → Act ρ ε
  | .spawn r => .spawn (f r)
  | .run i e => .run i e

end Rename

/-- The program of each request and the meaning of each operation. -/
structure System (σ ρ ε Op : Type) (Res : Op → Type) (α : Type) : Type where
  program : ρ → Proc Op Res α
  exec : σ → ε → (o : Op) → σ × Res o

namespace System

variable (sys : System σ ρ ε Op Res α)

/-- The configuration before any request. -/
def init (s : σ) : Config σ ρ Op Res α := ⟨s, [], []⟩

/-- A thread performs `o` and goes on with `k`. -/
def fire (c : Config σ ρ Op Res α) (i : Nat) (e : ε) (r : ρ) (past : List (Call Op Res)) (o : Op)
    (k : Res o → Proc Op Res α) : Config σ ρ Op Res α :=
  let out := sys.exec c.shared e o
  { shared := out.1
    threads := c.threads.set i ⟨r, ⟨o, out.2⟩ :: past, k out.2⟩
    trace := ⟨i, r, ⟨o, out.2⟩, c.shared, out.1, (k out.2).result⟩ :: c.trace }

/-- One step of the scheduler. A finished or unknown thread does nothing. -/
def step (c : Config σ ρ Op Res α) : Act ρ ε → Config σ ρ Op Res α
  | .spawn r => { c with threads := c.threads ++ [⟨r, [], sys.program r⟩] }
  | .run i e =>
    match c.threads[i]? with
    | some ⟨r, past, .call o k⟩ => sys.fire c i e r past o k
    | _ => c

/-- The configuration after a schedule, started on shared state `s`. -/
def run (s : σ) (acts : List (Act ρ ε)) : Config σ ρ Op Res α :=
  Machine.run sys.step (init s) acts

variable {sys}

/-- A step of a thread that has a call. -/
theorem step_run {c : Config σ ρ Op Res α} {i : Nat} {e : ε} {r : ρ} {past : List (Call Op Res)}
    {o : Op} {k : Res o → Proc Op Res α} (h : c.threads[i]? = some ⟨r, past, .call o k⟩) :
    sys.step c (.run i e) = sys.fire c i e r past o k := by
  simp only [step, h]

/-- A step of the scheduler on a thread fires its next operation or does nothing. -/
theorem step_run_cases (sys : System σ ρ ε Op Res α) (c : Config σ ρ Op Res α) (i : Nat) (e : ε) :
    (∃ r past o k, c.threads[i]? = some ⟨r, past, .call o k⟩ ∧
      sys.step c (.run i e) = sys.fire c i e r past o k) ∨ sys.step c (.run i e) = c := by
  rcases h : c.threads[i]? with _ | ⟨r, past, _ | ⟨o, k⟩⟩
  · exact .inr (by simp only [step, h])
  · exact .inr (by simp only [step, h])
  · exact .inl ⟨r, past, o, k, rfl, step_run h⟩

/-- A step on renamed requests. -/
theorem step_rename {τ : Type} (f : τ → ρ) (code : τ → Proc Op Res α) (c : Config σ τ Op Res α)
    {a : Act τ ε} (hcode : ∀ r, a = .spawn r → sys.program (f r) = code r) :
    sys.step (c.rename f) (a.rename f) = (step ⟨code, sys.exec⟩ c a).rename f := by
  cases a with
  | spawn r =>
    simp only [Act.rename, step, Config.rename, hcode r rfl, List.map_append, List.map_singleton]
    rfl
  | run i e =>
    simp only [Act.rename, step, Config.rename, List.getElem?_map]
    rcases c.threads[i]? with _ | ⟨r, past, _ | ⟨o, k⟩⟩
    · rfl
    · rfl
    · simp only [Option.map_some, Thread.rename, fire, List.map_set, List.map_cons]
      rfl

/-- A schedule of renamed requests runs the same programs. -/
theorem run_rename {τ : Type} (f : τ → ρ) (code : τ → Proc Op Res α) (s : σ)
    {acts : List (Act τ ε)} (hcode : ∀ r, Act.spawn r ∈ acts → sys.program (f r) = code r) :
    sys.run s (acts.map (Act.rename f)) = (run ⟨code, sys.exec⟩ s acts).rename f := by
  suffices h : ∀ c : Config σ τ Op Res α, Machine.run sys.step (c.rename f)
      (acts.map (Act.rename f)) = (Machine.run (step ⟨code, sys.exec⟩) c acts).rename f from
    h (init s)
  induction acts with
  | nil => exact fun c => rfl
  | cons a acts ih =>
    intro c
    have hstep := step_rename f code c fun r hr => hcode r (hr ▸ List.mem_cons_self ..)
    rw [List.map_cons, Machine.run_cons, Machine.run_cons, hstep]
    exact ih (fun r hr => hcode r (List.mem_cons_of_mem _ hr)) _

/-- A condition on the steps of a renamed schedule. -/
theorem along_rename {τ : Type} (f : τ → ρ) (code : τ → Proc Op Res α)
    {C : Config σ ρ Op Res α → Act ρ ε → Prop} {c : Config σ τ Op Res α} {acts : List (Act τ ε)}
    (hcode : ∀ r, Act.spawn r ∈ acts → sys.program (f r) = code r)
    (h : Machine.Along (step ⟨code, sys.exec⟩) (fun c a => C (c.rename f) (a.rename f)) c acts) :
    Machine.Along sys.step C (c.rename f) (acts.map (Act.rename f)) := by
  induction acts generalizing c with
  | nil => trivial
  | cons a acts ih =>
    refine ⟨h.1, ?_⟩
    rw [step_rename f code c fun r hr => hcode r (hr ▸ List.mem_cons_self ..)]
    exact ih (fun r hr => hcode r (List.mem_cons_of_mem _ hr)) h.2

/-! ## Threads after a step -/

section Threads

variable {c : Config σ ρ Op Res α} {i j : Nat} {e : ε} {r : ρ} {past : List (Call Op Res)}
  {o : Op} {k : Res o → Proc Op Res α} {t : Thread ρ Op Res α}

/-- The thread that fired. -/
def fired (sys : System σ ρ ε Op Res α) (s : σ) (e : ε) (r : ρ) (past : List (Call Op Res)) (o : Op)
    (k : Res o → Proc Op Res α) : Thread ρ Op Res α :=
  ⟨r, ⟨o, (sys.exec s e o).2⟩ :: past, k (sys.exec s e o).2⟩

/-- After an operation a thread is the one that fired, or as it was. -/
theorem getElem?_fire (h : (sys.fire c i e r past o k).threads[j]? = some t) :
    (j = i ∧ t = sys.fired c.shared e r past o k) ∨ (j ≠ i ∧ c.threads[j]? = some t) := by
  simp only [fire, List.getElem?_set] at h
  split_ifs at h with hij hlt
  · exact .inl ⟨hij.symm, (Option.some.inj h).symm⟩
  · exact .inr ⟨fun hji => hij hji.symm, h⟩

/-- After a step, a thread is the one that moved or was there before. -/
theorem mem_fire (h : t ∈ (sys.fire c i e r past o k).threads) :
    t = sys.fired c.shared e r past o k ∨ t ∈ c.threads :=
  (List.mem_or_eq_of_mem_set h).symm

/-- A thread is the new one or was there before. -/
theorem mem_spawn (h : t ∈ (sys.step c (.spawn r)).threads) :
    t = ⟨r, [], sys.program r⟩ ∨ t ∈ c.threads := by
  rcases List.mem_append.mp h with h | h
  · exact .inr h
  · exact .inl (List.mem_singleton.mp h)

/-- An operation moves one thread in or out of a count. -/
theorem countP_fire (sys : System σ ρ ε Op Res α) (e : ε) (p : Thread ρ Op Res α → Bool)
    (h : c.threads[i]? = some ⟨r, past, .call o k⟩) :
    (sys.fire c i e r past o k).threads.countP p + (if p ⟨r, past, .call o k⟩ then 1 else 0) =
      c.threads.countP p + if p (sys.fired c.shared e r past o k) then 1 else 0 := by
  obtain ⟨hlt, heq⟩ := List.getElem?_eq_some_iff.mp h
  have hle := List.boole_getElem_le_countP (p := p) hlt
  have hset := List.countP_set (p := p) (a := sys.fired c.shared e r past o k) hlt
  rw [heq] at hle hset
  change (c.threads.set i (sys.fired c.shared e r past o k)).countP p + _ = _
  omega

/-- After an arrival a thread is the new one, or as it was. -/
theorem getElem?_spawn (h : (c.threads ++ [⟨r, [], sys.program r⟩])[j]? = some t) :
    (j = c.threads.length ∧ t = ⟨r, [], sys.program r⟩) ∨ c.threads[j]? = some t := by
  rw [List.getElem?_append] at h
  split_ifs at h with hj
  · exact .inr h
  · rw [List.getElem?_singleton] at h
    split_ifs at h with h0
    exact .inl ⟨by omega, (Option.some.inj h).symm⟩

end Threads

/-! ## Invariants of every interleaving

The threads of a pool keep their contracts under any schedule, so an invariant has to be looked at
one permitted operation at a time. -/

/-- Each thread is at a point of its program that its contract covers, what it remembers
has happened, and what it replied is where it stopped. -/
structure Sound (Q : ρ → List (Call Op Res) → Op → Prop) (F : ρ → List (Call Op Res) → α → Prop)
    (c : Config σ ρ Op Res α) : Prop where
  obeys : ∀ {i : Nat} {t : Thread ρ Op Res α}, c.threads[i]? = some t →
    Obeys (Q t.request) (F t.request) t.past t.code
  past : ∀ {i : Nat} {t : Thread ρ Op Res α}, c.threads[i]? = some t → ∀ x ∈ t.past,
    ∃ m ∈ c.trace, m.thread = i ∧ m.request = t.request ∧ m.call = x
  moves : ∀ m ∈ c.trace, ∃ t, c.threads[m.thread]? = some t ∧ t.request = m.request ∧
    ∀ a, m.reply = some a → t.code = .ret a

section Invariant

variable {Q : ρ → List (Call Op Res) → Op → Prop} {F : ρ → List (Call Op Res) → α → Prop}
  {c : Config σ ρ Op Res α}

theorem Sound.init (s : σ) : Sound Q F (System.init s : Config σ ρ Op Res α) where
  obeys := by
    intro i t h
    simp [System.init] at h
  past := by
    intro i t h
    simp [System.init] at h
  moves := by
    intro m hm
    cases hm

theorem Sound.of_mem (hc : Sound Q F c) {t : Thread ρ Op Res α} (ht : t ∈ c.threads) :
    Obeys (Q t.request) (F t.request) t.past t.code := by
  obtain ⟨i, hi⟩ := List.getElem?_of_mem ht
  exact hc.obeys hi

/-- A new thread keeps the contract of its program. -/
theorem Sound.spawn (hc : Sound Q F c) {r : ρ} (hr : Obeys (Q r) (F r) [] (sys.program r)) :
    Sound Q F (sys.step c (.spawn r)) where
  obeys := by
    intro i t h
    obtain ⟨-, rfl⟩ | h := getElem?_spawn h
    · exact hr
    · exact hc.obeys h
  past := by
    intro i t h x hx
    obtain ⟨-, rfl⟩ | h := getElem?_spawn h
    · cases hx
    · exact hc.past h x hx
  moves := by
    intro m hm
    obtain ⟨t, ht, hreq⟩ := hc.moves m hm
    exact ⟨t, List.getElem?_append_left (List.getElem?_eq_some_iff.mp ht).1 ▸ ht, hreq⟩

theorem Sound.fire (hc : Sound Q F c) {i : Nat} {e : ε} {r : ρ} {past : List (Call Op Res)}
    {o : Op} {k : Res o → Proc Op Res α} (hi : c.threads[i]? = some ⟨r, past, .call o k⟩) :
    Sound Q F (sys.fire c i e r past o k) where
  obeys := by
    intro j t h
    obtain ⟨-, rfl⟩ | ⟨-, h⟩ := getElem?_fire h
    · exact (obeys_call.mp (hc.obeys hi)).2 _
    · exact hc.obeys h
  past := by
    intro j t h x hx
    obtain ⟨rfl, rfl⟩ | ⟨-, h⟩ := getElem?_fire h
    · rcases List.mem_cons.mp hx with rfl | hx
      · exact ⟨_, List.mem_cons_self .., rfl, rfl, rfl⟩
      · obtain ⟨m, hm, hmi⟩ := hc.past hi x hx
        exact ⟨m, List.mem_cons_of_mem _ hm, hmi⟩
    · obtain ⟨m, hm, hmi⟩ := hc.past h x hx
      exact ⟨m, List.mem_cons_of_mem _ hm, hmi⟩
  moves := by
    intro m hm
    have hlt : i < c.threads.length := (List.getElem?_eq_some_iff.mp hi).1
    have hself : (sys.fire c i e r past o k).threads[i]? = some (sys.fired c.shared e r past o k) :=
      List.getElem?_set_self hlt
    rcases List.mem_cons.mp hm with rfl | hm
    · exact ⟨_, hself, rfl, fun a ha => Proc.result_eq_some ha⟩
    · obtain ⟨t, ht, hreq, hcode⟩ := hc.moves m hm
      by_cases hmi : m.thread = i
      · -- the thread was still running, so it had not replied
        rw [hmi] at ht ⊢
        rw [hi] at ht
        cases ht
        refine ⟨_, hself, hreq, fun a ha => ?_⟩
        exact absurd (hcode a ha) (by simp)
      · exact ⟨t, (List.getElem?_set_ne fun h => hmi h.symm).trans ht, hreq, hcode⟩

/-- What arrivals and operations keep, under the condition `C` on each step, holds
at the end of every schedule along `C` that starts from a sound configuration. Operations
may be assumed to come from threads that obey their contract. -/
theorem invariant_from {C : Config σ ρ Op Res α → Act ρ ε → Prop}
    {P : Config σ ρ Op Res α → Prop} {acts : List (Act ρ ε)}
    (hprog : ∀ r, Obeys (Q r) (F r) [] (sys.program r)) (hc : Sound Q F c) (hP : P c)
    (hspawn : ∀ c r, Sound Q F c → C c (.spawn r) → P c → P (sys.step c (.spawn r)))
    (hfire : ∀ c i e r past o k, Sound Q F c → C c (.run i e) → P c →
      c.threads[i]? = some ⟨r, past, .call o k⟩ → P (sys.fire c i e r past o k))
    (hC : Machine.Along sys.step C c acts) :
    Sound Q F (Machine.run sys.step c acts) ∧ P (Machine.run sys.step c acts) := by
  refine Machine.invariant_along (P := fun c => Sound Q F c ∧ P c) ?_ hC ⟨hc, hP⟩
  rintro c act - hact ⟨hc, hP⟩
  cases act with
  | spawn r => exact ⟨hc.spawn (hprog r), hspawn c r hc hact hP⟩
  | run i e =>
    obtain ⟨r, past, o, k, hi, heq⟩ | heq := step_run_cases sys c i e
    · rw [heq]
      exact ⟨hc.fire hi, hfire c i e r past o k hc hact hP hi⟩
    · rw [heq]
      exact ⟨hc, hP⟩

/-- The same for a schedule from the start. -/
theorem invariant_along {C : Config σ ρ Op Res α → Act ρ ε → Prop}
    {P : Config σ ρ Op Res α → Prop} {s : σ} {acts : List (Act ρ ε)}
    (hprog : ∀ r, Obeys (Q r) (F r) [] (sys.program r)) (hinit : P (init s))
    (hspawn : ∀ c r, Sound Q F c → C c (.spawn r) → P c → P (sys.step c (.spawn r)))
    (hfire : ∀ c i e r past o k, Sound Q F c → C c (.run i e) → P c →
      c.threads[i]? = some ⟨r, past, .call o k⟩ → P (sys.fire c i e r past o k))
    (hC : Machine.Along sys.step C (init s) acts) :
    Sound Q F (sys.run s acts) ∧ P (sys.run s acts) :=
  invariant_from hprog (Sound.init s) hinit hspawn hfire hC

/-- The same, without a condition on the steps. -/
theorem invariant {P : Config σ ρ Op Res α → Prop} {s : σ}
    (hprog : ∀ r, Obeys (Q r) (F r) [] (sys.program r)) (hinit : P (init s))
    (hspawn : ∀ c r, Sound Q F c → P c → P (sys.step c (.spawn r)))
    (hfire : ∀ c i e r past o k, Sound Q F c → P c →
      c.threads[i]? = some ⟨r, past, .call o k⟩ → P (sys.fire c i e r past o k))
    (acts : List (Act ρ ε)) : Sound Q F (sys.run s acts) ∧ P (sys.run s acts) := by
  have hall : Machine.Along sys.step (fun _ _ => True) (init s) acts :=
    Machine.along_of_forall fun _ _ _ => trivial
  exact invariant_along hprog hinit (fun c r hc _ => hspawn c r hc)
    (fun c i e r past o k hc _ => hfire c i e r past o k hc) hall

/-- What every operation of a thread that obeys its contract is like, every operation of
every schedule is like. -/
theorem forall_moves {M : Move σ ρ Op Res α → Prop} {s : σ} {acts : List (Act ρ ε)}
    (hprog : ∀ r, Obeys (Q r) (F r) [] (sys.program r))
    (hfire : ∀ s i e r past o k, Obeys (Q r) (F r) past (.call o k) →
      M ⟨i, r, ⟨o, (sys.exec s e o).2⟩, s, (sys.exec s e o).1, (k (sys.exec s e o).2).result⟩) :
    ∀ m ∈ (sys.run s acts).trace, M m := by
  refine (invariant (P := fun c => ∀ m ∈ c.trace, M m) hprog ?_ ?_ ?_ acts).2
  · intro m hm
    cases hm
  · exact fun c r _ hP => hP
  · intro c i e r past o k hc hP hi m hm
    rcases List.mem_cons.mp hm with rfl | hm
    · exact hfire c.shared i e r past o k (hc.obeys hi)
    · exact hP m hm

/-- Every schedule leads to a sound configuration. -/
theorem sound_run (hprog : ∀ r, Obeys (Q r) (F r) [] (sys.program r)) (s : σ)
    (acts : List (Act ρ ε)) : Sound Q F (sys.run s acts) :=
  (invariant (P := fun _ => True) hprog trivial (fun _ _ _ _ => trivial)
    (fun _ _ _ _ _ _ _ _ _ _ => trivial) acts).1

end Invariant

end System

end Process
