import Floonet.Lib.Broadcast
import Floonet.NameAuthority.Signed
import Floonet.Payment.Thread

/-!
# The invoice page waits for its invoice

A request for `/invoice` puts a message on the payment channel and waits for the answer of
the payment thread on the same channel. It makes a new receiver for every message it waits
for, so it sees a message only if that is the first one sent after the receiver was made.
`Timely` says when this gets the page its reply.
-/

namespace Floonet.Payment

open NameAuthority
open Broadcast (Chan)

/-- What the page shows. -/
inductive PageReply where
  | invoice (info : InvoiceInfo)
  | alreadyAdmitted
  /-- "Sorry, could not get invoice" -/
  | noInvoice
  deriving DecidableEq

/-- Where the handler of the request is. -/
inductive HandlerState where
  /-- it has not asked yet -/
  | asking
  /-- it is about to make a receiver -/
  | subscribing
  /-- it waits for the message of this number -/
  | waiting (pos : Nat)
  | done (reply : PageReply)
  deriving DecidableEq

/-- What the handler does with a message: it is done, or waits for another one. -/
def onMessage (pubkey : String) : PaymentMessage → HandlerState
  | .invoice mPubkey info => if mPubkey = pubkey then .done (.invoice info) else .subscribing
  | .accountAdmitted mPubkey => if mPubkey = pubkey then .done .alreadyAdmitted else .subscribing
  | _ => .subscribing

/-- A handler, the payment thread and the channel between them. -/
structure Page where
  cfg : PayToRelay
  keys : Keys
  /-- the pubkey in the query string -/
  pubkey : String

namespace Page

/-- The channel of the payment thread, and how far the page and the thread are. -/
structure State where
  chan : Chan PaymentMessage
  handler : HandlerState
  /-- the number of the handler's message -/
  request : Option Nat
  /-- the receiver of the payment thread -/
  paymentRx : Nat
  /-- the message the payment thread works on, and what is left to do -/
  task : Option (Nat × Task Unit)
  /-- the numbers of the replies to the handler's message -/
  replies : List Nat
  /-- the numbers of the messages the handler got -/
  received : List Nat

/-- A step of the page's handler or of the payment thread. -/
inductive Action where
  /-- the handler sends its message; is there an account already? -/
  | ask (hasAccount : Bool)
  /-- the handler makes a receiver -/
  | subscribe
  /-- the handler looks at its receiver -/
  | poll
  /-- the payment thread looks at its receiver -/
  | take
  /-- the payment thread performs one operation, which is answered -/
  | work (answer : (o : Op) → o.Res)
  /-- another task sends a message -/
  | other (m : PaymentMessage)

variable (pg : Page)

/-- The relay has started; the request comes in when it likes. -/
def start (capacity : Nat) : State where
  chan := .new capacity
  handler := .asking
  request := none
  paymentRx := 0
  task := none
  replies := []
  received := []

/-- One operation of the payment thread on the message of number `n`. -/
def perform (st : State) (n : Nat) (o : Op) (rest : Task Unit) : State :=
  match o with
  | .send m =>
    { st with
      chan := st.chan.send m
      task := some (n, rest)
      replies := if st.request = some n then st.replies ++ [st.chan.tail] else st.replies }
  | _ => { st with task := some (n, rest) }

/-- What a step does. One that is not due changes nothing. -/
def step (st : State) : Action → State
  | .ask hasAccount =>
    match st.handler with
    | .asking =>
      { st with
        chan := st.chan.send (if hasAccount then .checkAccount pg.pubkey else .newAccount pg.pubkey)
        handler := .subscribing
        request := some st.chan.tail }
    | _ => st
  | .subscribe =>
    match st.handler with
    | .subscribing => { st with handler := .waiting st.chan.subscribe }
    | _ => st
  | .poll =>
    match st.handler with
    | .waiting pos =>
      match st.chan.recv pos with
      | .empty => st
      -- `while let Ok(..)` ends
      | .lagged _ => { st with handler := .done .noInvoice }
      | .got m => { st with handler := onMessage pg.pubkey m, received := st.received ++ [pos] }
    | _ => st
  | .take =>
    match st.task with
    | some _ => st
    | none =>
      match st.chan.recv st.paymentRx with
      | .empty => st
      | .lagged next => { st with paymentRx := next }
      | .got m =>
        { st with
          paymentRx := st.paymentRx + 1
          task := some (st.paymentRx, runInternal pg.cfg pg.keys m) }
  | .work answer =>
    match st.task with
    | none => st
    | some (_, .ret _) => { st with task := none }
    | some (n, .call o k) => perform st n o (k (answer o))
  | .other m => { st with chan := st.chan.send m }

/-- The state after a sequence of steps. -/
def run (capacity : Nat) (acts : List Action) : State :=
  Machine.run pg.step (start capacity) acts

/-- The handler has nothing left to do but wait: it is done, or has read all there is. -/
def Settled (st : State) : Prop :=
  (∃ reply, st.handler = .done reply) ∨ st.handler = .waiting st.chan.tail

/-- The step sends a reply to the handler's message. -/
def Replies (st : State) : Action → Prop
  | .work _ => ∃ n m k, st.task = some (n, .call (.send m) k) ∧ st.request = some n
  | _ => False

/-- When a reply is sent, the handler waits on a receiver made after the last message. When
the handler looks for a reply, it is still kept. -/
def Timely (st : State) (a : Action) : Prop :=
  (Replies st a → st.handler = .waiting st.chan.tail) ∧
    ∀ pos ∈ st.replies, a = .poll → st.handler = .waiting pos → ¬ st.chan.Lags pos

/-! ## What a step can do

Of all the operations of the payment thread only those that send matter here; the others are
quiet. The invariants below go through the five kinds of steps. -/

variable {pg} {st : State} {a : Action} {p : Nat}

/-- A step that neither reads nor replies. -/
structure Quiet (st st' : State) : Prop where
  handler : st'.handler = st.handler ∨ (st.handler = .asking ∧ st'.handler = .subscribing)
  tail : st.chan.tail ≤ st'.chan.tail
  replies : st'.replies = st.replies
  received : st'.received = st.received

theorem Quiet.refl (st : State) : Quiet st st := ⟨.inl rfl, le_rfl, rfl, rfl⟩

/-- A handler that got a message does not wait. -/
theorem onMessage_ne_waiting (pubkey : String) (m : PaymentMessage) (pos : Nat) :
    onMessage pubkey m ≠ .waiting pos := by
  cases m <;> simp only [onMessage, ne_eq, reduceCtorEq, not_false_eq_true]
  · split_ifs <;> simp
  · split_ifs <;> simp

/-- An operation sends a reply, or it is quiet. -/
theorem perform_cases (st : State) (n : Nat) (o : Op) (rest : Task Unit) :
    (¬ ((∃ m, o = .send m) ∧ st.request = some n) ∧ Quiet st (perform st n o rest)) ∨
    ((∃ m, o = .send m) ∧ st.request = some n ∧
      (perform st n o rest).handler = st.handler ∧
      (perform st n o rest).received = st.received ∧
      (perform st n o rest).replies = st.replies ++ [st.chan.tail] ∧
      (perform st n o rest).chan.tail = st.chan.tail + 1) := by
  cases o with
  | send m =>
    by_cases hreq : st.request = some n
    · refine .inr ⟨⟨m, rfl⟩, hreq, rfl, rfl, ?_, Chan.tail_send⟩
      rw [perform, if_pos hreq]
    · refine .inl ⟨fun h => hreq h.2, .inl rfl, ?_, ?_, rfl⟩
      · rw [perform, Chan.tail_send]
        exact Nat.le_succ _
      · rw [perform, if_neg hreq]
  | _ =>
    refine .inl ⟨?_, .inl rfl, le_rfl, rfl, rfl⟩
    rintro ⟨⟨m, hm⟩, -⟩
    cases hm

/-- A step is quiet, makes a receiver, reads a message, finds it lost, or sends a reply. -/
theorem step_cases (pg : Page) (st : State) (a : Action) :
    (¬ Replies st a ∧ Quiet st (pg.step st a)) ∨
    (¬ Replies st a ∧ st.handler = .subscribing ∧
      pg.step st a = { st with handler := .waiting st.chan.tail }) ∨
    (∃ pos handler, ¬ Replies st a ∧ st.handler = .waiting pos ∧ pos < st.chan.tail ∧
      (∀ q, handler ≠ .waiting q) ∧
      pg.step st a = { st with handler, received := st.received ++ [pos] }) ∨
    (∃ pos, ¬ Replies st a ∧ a = .poll ∧ st.handler = .waiting pos ∧ st.chan.Lags pos ∧
      pg.step st a = { st with handler := .done .noInvoice }) ∨
    (Replies st a ∧ (pg.step st a).handler = st.handler ∧
      (pg.step st a).received = st.received ∧
      (pg.step st a).replies = st.replies ++ [st.chan.tail] ∧
      (pg.step st a).chan.tail = st.chan.tail + 1) := by
  cases a with
  | ask hasAccount =>
    refine .inl ⟨id, ?_⟩
    rcases hh : st.handler with _ | _ | pos | reply <;> simp only [step, hh]
    · refine ⟨.inr ⟨hh, rfl⟩, ?_, rfl, rfl⟩
      rw [Chan.tail_send]
      exact Nat.le_succ _
    all_goals exact .refl st
  | subscribe =>
    rcases hh : st.handler with _ | _ | pos | reply
    · exact .inl ⟨id, by simp only [step, hh]; exact .refl st⟩
    · exact .inr (.inl ⟨id, rfl, by simp only [step, hh]; rfl⟩)
    · exact .inl ⟨id, by simp only [step, hh]; exact .refl st⟩
    · exact .inl ⟨id, by simp only [step, hh]; exact .refl st⟩
  | poll =>
    rcases hh : st.handler with _ | _ | pos | reply
    · exact .inl ⟨id, by simp only [step, hh]; exact .refl st⟩
    · exact .inl ⟨id, by simp only [step, hh]; exact .refl st⟩
    · by_cases hlag : st.chan.Lags pos
      · refine .inr (.inr (.inr (.inl ⟨pos, id, rfl, rfl, hlag, ?_⟩)))
        simp only [step, hh, Chan.recv_of_lags hlag]
      · by_cases hlt : pos < st.chan.tail
        · obtain ⟨m, -, hm⟩ := Chan.recv_of_lt hlag hlt
          refine .inr (.inr (.inl ⟨pos, onMessage pg.pubkey m, id, rfl, hlt,
            onMessage_ne_waiting pg.pubkey m, ?_⟩))
          simp only [step, hh, hm]
        · refine .inl ⟨id, ?_⟩
          simp only [step, hh, Chan.recv_of_tail_le (Nat.le_of_not_lt hlt)]
          exact .refl st
    · exact .inl ⟨id, by simp only [step, hh]; exact .refl st⟩
  | take =>
    refine .inl ⟨id, ?_⟩
    rcases ht : st.task with _ | t <;> simp only [step, ht]
    · rcases st.chan.recv st.paymentRx with _ | next | m <;> exact ⟨.inl rfl, le_rfl, rfl, rfl⟩
    · exact .refl st
  | work answer =>
    rcases ht : st.task with _ | ⟨n, _ | ⟨o, k⟩⟩
    · refine .inl ⟨?_, by simp only [step, ht]; exact .refl st⟩
      rintro ⟨n, m, k, h, -⟩
      rw [ht] at h
      cases h
    · refine .inl ⟨?_, by simp only [step, ht]; exact ⟨.inl rfl, le_rfl, rfl, rfl⟩⟩
      rintro ⟨n, m, k, h, -⟩
      rw [ht] at h
      cases h
    · have hstep : pg.step st (.work answer) = perform st n o (k (answer o)) := by
        simp only [step, ht]
      rw [hstep]
      rcases perform_cases st n o (k (answer o)) with ⟨hnot, hq⟩ | ⟨⟨m, rfl⟩, hreq, h⟩
      · refine .inl ⟨?_, hq⟩
        rintro ⟨n', m, k', h, hreq⟩
        rw [ht] at h
        cases h
        exact hnot ⟨⟨m, rfl⟩, hreq⟩
      · exact .inr (.inr (.inr (.inr ⟨⟨n, m, k, ht, hreq⟩, h⟩)))
  | other m =>
    refine .inl ⟨id, .inl rfl, ?_, rfl, rfl⟩
    rw [step, Chan.tail_send]
    exact Nat.le_succ _

/-! ## Reading forward only

A receiver starts at the end of the channel and only moves forward, so what was sent before it was
made is behind it for good. -/

/-- Receivers and replies are where the channel has been, and the handler reads forward. -/
structure Ordered (st : State) : Prop where
  replies : ∀ p ∈ st.replies, p < st.chan.tail
  received : ∀ p ∈ st.received, p < st.chan.tail
  waiting : ∀ pos, st.handler = .waiting pos → pos ≤ st.chan.tail ∧ ∀ p ∈ st.received, p < pos

theorem ordered_start (capacity : Nat) : Ordered (start capacity) where
  replies p h := absurd h List.not_mem_nil
  received p h := absurd h List.not_mem_nil
  waiting pos h := by cases h

theorem ordered_step (h : Ordered st) (a : Action) : Ordered (pg.step st a) := by
  rcases step_cases pg st a with ⟨-, hq⟩ | ⟨-, -, hs⟩ | ⟨pos, handler, -, hw, hlt, hne, hs⟩ |
    ⟨pos, -, -, hw, -, hs⟩ | ⟨-, hh, hrec, hrep, ht⟩
  · refine ⟨fun p hp => ?_, fun p hp => ?_, fun pos hw => ?_⟩
    · rw [hq.replies] at hp
      exact (h.replies p hp).trans_le hq.tail
    · rw [hq.received] at hp
      exact (h.received p hp).trans_le hq.tail
    · rcases hq.handler with hh | ⟨-, hh⟩
      · rw [hh] at hw
        obtain ⟨hle, hall⟩ := h.waiting pos hw
        exact ⟨hle.trans hq.tail, fun p hp => hall p (hq.received ▸ hp)⟩
      · rw [hh] at hw
        cases hw
  · rw [hs]
    refine ⟨h.replies, h.received, fun pos hw => ?_⟩
    cases hw
    exact ⟨le_rfl, h.received⟩
  · rw [hs]
    refine ⟨h.replies, fun p hp => ?_, fun q hq => absurd hq (hne q)⟩
    rcases List.mem_append.mp hp with hp | hp
    · exact h.received p hp
    · exact List.mem_singleton.mp hp ▸ hlt
  · rw [hs]
    exact ⟨h.replies, h.received, fun pos hw => by cases hw⟩
  · refine ⟨fun p hp => ?_, fun p hp => ?_, fun pos hw => ?_⟩
    · rw [hrep] at hp
      rw [ht]
      rcases List.mem_append.mp hp with hp | hp
      · exact Nat.lt_succ_of_lt (h.replies p hp)
      · exact List.mem_singleton.mp hp ▸ Nat.lt_succ_self _
    · rw [hrec] at hp
      rw [ht]
      exact Nat.lt_succ_of_lt (h.received p hp)
    · rw [hh] at hw
      obtain ⟨hle, hall⟩ := h.waiting pos hw
      rw [ht, hrec]
      exact ⟨Nat.le_succ_of_le hle, hall⟩

/-! ## A reply that was missed

A reply in front of which the handler has no receiver is never read, whatever comes after. So a
run whose reply arrives had timely steps only. -/

/-- A message the handler will never get. -/
structure Missed (p : Nat) (st : State) : Prop where
  sent : p < st.chan.tail
  unread : p ∉ st.received
  elsewhere : st.handler ≠ .waiting p

theorem missed_step (h : Missed p st) (a : Action) : Missed p (pg.step st a) := by
  rcases step_cases pg st a with ⟨-, hq⟩ | ⟨-, -, hs⟩ | ⟨pos, handler, -, hw, hlt, hne, hs⟩ |
    ⟨pos, -, -, hw, -, hs⟩ | ⟨-, hh, hrec, -, ht⟩
  · refine ⟨h.sent.trans_le hq.tail, hq.received ▸ h.unread, ?_⟩
    rcases hq.handler with hh | ⟨-, hh⟩ <;> rw [hh]
    · exact h.elsewhere
    · exact fun hw => by cases hw
  · rw [hs]
    refine ⟨h.sent, h.unread, fun hw => ?_⟩
    have := h.sent
    cases hw
    exact absurd this (lt_irrefl _)
  · rw [hs]
    refine ⟨h.sent, fun hp => ?_, hne p⟩
    rcases List.mem_append.mp hp with hp | hp
    · exact h.unread hp
    · exact h.elsewhere (by rw [hw, List.mem_singleton.mp hp])
  · rw [hs]
    exact ⟨h.sent, h.unread, fun hw => by cases hw⟩
  · exact ⟨ht ▸ Nat.lt_succ_of_lt h.sent, hrec ▸ h.unread, hh ▸ h.elsewhere⟩

/-- What was sent as a reply stays one. -/
theorem replies_step (h : p ∈ st.replies) (a : Action) : p ∈ (pg.step st a).replies := by
  rcases step_cases pg st a with ⟨-, hq⟩ | ⟨-, -, hs⟩ | ⟨pos, handler, -, -, -, -, hs⟩ |
    ⟨pos, -, -, -, -, hs⟩ | ⟨-, -, -, hrep, -⟩
  · rwa [hq.replies]
  · rwa [hs]
  · rwa [hs]
  · rwa [hs]
  · rw [hrep]
    exact List.mem_append_left _ h

/-- A step that is not timely loses a reply. -/
theorem missed_of_not_timely (h : Ordered st) (ha : ¬ Timely st a) :
    ∃ p ∈ (pg.step st a).replies, Missed p (pg.step st a) := by
  rw [Timely, not_and_or] at ha
  rcases ha with ha | ha
  · push Not at ha
    obtain ⟨hreply, hne⟩ := ha
    rcases step_cases pg st a with ⟨hno, -⟩ | ⟨hno, -⟩ | ⟨-, -, hno, -⟩ | ⟨-, hno, -⟩ |
      ⟨-, hh, hrec, hrep, ht⟩
    · exact absurd hreply hno
    · exact absurd hreply hno
    · exact absurd hreply hno
    · exact absurd hreply hno
    · refine ⟨st.chan.tail, ?_, ht ▸ Nat.lt_succ_self _, ?_, hh ▸ hne⟩
      · rw [hrep]
        exact List.mem_append_right _ (List.mem_singleton_self _)
      · rw [hrec]
        exact fun hp => absurd (h.received _ hp) (lt_irrefl _)
  · push Not at ha
    obtain ⟨p, hp, rfl, hw, hlag⟩ := ha
    have hs : pg.step st .poll = { st with handler := .done .noInvoice } := by
      simp only [step, hw, Chan.recv_of_lags hlag]
    refine ⟨p, replies_step hp .poll, ?_⟩
    rw [hs]
    exact ⟨h.replies p hp, fun hr => absurd ((h.waiting p hw).2 p hr) (lt_irrefl _),
      fun hd => by cases hd⟩

/-- If no reply is lost, every step was timely. -/
theorem along_of_received {acts : List Action} (h : Ordered st)
    (hall : ∀ p ∈ (Machine.run pg.step st acts).replies,
      p ∈ (Machine.run pg.step st acts).received) : Machine.Along pg.step Timely st acts := by
  induction acts generalizing st with
  | nil => trivial
  | cons a rest ih =>
    refine ⟨?_, ih (ordered_step h a) hall⟩
    by_contra ha
    obtain ⟨p, hp, hmiss⟩ : ∃ p ∈ (pg.step st a).replies, Missed p (pg.step st a) :=
      missed_of_not_timely h ha
    have hlost : p ∈ (Machine.run pg.step st (a :: rest)).replies ∧
        Missed p (Machine.run pg.step st (a :: rest)) := by
      rw [Machine.run_cons]
      exact Machine.invariant (P := fun st => p ∈ State.replies st ∧ Missed p st)
        (fun t b _ ht => ⟨replies_step ht.1 b, missed_step ht.2 b⟩) ⟨hp, hmiss⟩
    exact hlost.2.unread (hall p hlost.1)

/-! ## A reply that gets through

Conversely, while all steps are timely, each reply is either read or ahead of the waiting handler,
and the channel does not drop it. -/

/-- Every reply was read, or the handler waits for it. -/
def Expected (st : State) : Prop := ∀ p ∈ st.replies, p ∈ st.received ∨ st.handler = .waiting p

/-- A timely step keeps what is expected. -/
theorem expected_step (h : Expected st) (ha : Timely st a) : Expected (pg.step st a) := by
  intro p hp
  rcases step_cases pg st a with ⟨-, hq⟩ | ⟨-, hh, hs⟩ | ⟨pos, handler, -, hw, -, -, hs⟩ |
    ⟨pos, -, rfl, hw, hlag, hs⟩ | ⟨hreply, hh, hrec, hrep, -⟩
  · rw [hq.replies] at hp
    rw [hq.received]
    refine (h p hp).imp_right fun hw => ?_
    rcases hq.handler with hh | ⟨hh, -⟩
    · rw [hh, hw]
    · rw [hh] at hw
      cases hw
  · rw [hs] at hp ⊢
    refine (h p hp).imp_right fun hw => ?_
    rw [hh] at hw
    cases hw
  · rw [hs] at hp ⊢
    refine .inl ?_
    rcases h p hp with hp | hp
    · exact List.mem_append_left _ hp
    · rw [hw] at hp
      cases hp
      exact List.mem_append_right _ (List.mem_singleton_self _)
  · rw [hs] at hp ⊢
    refine .inl ((h p hp).resolve_right fun hp' => ?_)
    rw [hw] at hp'
    cases hp'
    exact ha.2 _ hp rfl hw hlag
  · rw [hrep] at hp
    rw [hrec, hh]
    rcases List.mem_append.mp hp with hp | hp
    · exact h p hp
    · exact .inr (List.mem_singleton.mp hp ▸ ha.1 hreply)

/-- **The reply of the payment thread.** In every run of the handler, the payment thread and
other senders after which the handler has nothing left to do, it got every reply to its
message if and only if every step was timely: the reply is the first message after the
handler made the receiver it waits on, and is still kept when the handler looks. -/
theorem reply_delivered_iff (pg : Page) (capacity : Nat) (acts : List Action)
    (hsettled : Settled (pg.run capacity acts)) :
    (∀ p ∈ (pg.run capacity acts).replies, p ∈ (pg.run capacity acts).received) ↔
      Machine.Along pg.step Timely (start capacity) acts := by
  have hord : Ordered (pg.run capacity acts) :=
    Machine.invariant (fun _ a _ h => ordered_step h a) (ordered_start capacity)
  refine ⟨along_of_received (ordered_start capacity), fun hal p hp => ?_⟩
  have hexp : Expected (pg.run capacity acts) :=
    Machine.invariant_along (fun _ a _ ha h => expected_step h ha) hal
      fun _ h => absurd h List.not_mem_nil
  refine (hexp p hp).resolve_right fun hw => ?_
  rcases hsettled with ⟨reply, hd⟩ | hd
  · rw [hd] at hw
    cases hw
  · rw [hd] at hw
    cases hw
    exact absurd (hord.replies _ hp) (lt_irrefl _)

end Page

/-! ## What counts as a reply

The handler takes the first answer for its pubkey. The contract of the payment thread bounds what
it can send, so the reply is an invoice or an admission of that pubkey. -/

/-- An answer for the pubkey. -/
def Answers (pubkey : String) (m : PaymentMessage) : Prop :=
  (∃ info, m = .invoice pubkey info) ∨ m = .accountAdmitted pubkey

/-- The payment thread sends nothing but answers for the pubkey. -/
def SendsAnswers (pubkey : String) (_ : List Call) : Op → Prop
  | .send m => Answers pubkey m
  | _ => True

section SendsAnswers

open Process (Obeys)

variable {cfg : PayToRelay} {keys : Keys} {past : List Call} {pubkey : String}

/-- The thread answers the key that asked: with a new invoice. -/
theorem createInvoice_sendsAnswers {key : String} {amount : Nat} :
    Obeys (SendsAnswers pubkey) (fun _ _ => True) past
      (createInvoice cfg pubkey key amount) := by
  refine .call trivial fun info => ?_
  rcases info with _ | info
  · exact .ret trivial
  · refine .call trivial fun r => ?_
    rcases r with err | _
    · exact .ret trivial
    · change Obeys _ _ _ (if _ then _ else _)
      split_ifs
      · exact .call trivial fun sent => .ret trivial
      · exact .ret trivial

theorem getInvoiceInfo_sendsAnswers {amount : Nat} :
    Obeys (SendsAnswers pubkey) (fun _ _ => True) past
      (getInvoiceInfo cfg keys pubkey amount) := by
  rw [getInvoiceInfo]
  rcases keys.fromPkStr pubkey with _ | key
  · exact .ret trivial
  · refine .call trivial fun r => ?_
    rcases r with err | fresh
    · exact .ret trivial
    · cases fresh with
      | true => exact createInvoice_sendsAnswers
      | false =>
        refine .call trivial fun r => ?_
        rcases r with err | _ | info
        · exact createInvoice_sendsAnswers
        · exact createInvoice_sendsAnswers
        · exact .ret trivial

theorem invoiceFor_sendsAnswers :
    Obeys (SendsAnswers pubkey) (fun _ _ => True) past (invoiceFor cfg keys pubkey) := by
  refine getInvoiceInfo_sendsAnswers.bind fun past' info _ => ?_
  rcases info with _ | info
  · exact .ret trivial
  · exact .call (.inl ⟨info, rfl⟩) fun _ => .ret trivial

theorem checkInvoiceStatus_sendsAnswers {hash : String} :
    Obeys (SendsAnswers pubkey) (fun _ _ => True) past (checkInvoiceStatus hash) := by
  refine .call trivial fun status => ?_
  rcases status with _ | status
  · exact .ret trivial
  · refine .call trivial fun r => ?_
    rcases r with err | pk
    · exact .ret trivial
    · exact .ret trivial

theorem checkAccount_sendsAnswers :
    Obeys (SendsAnswers pubkey) (fun _ _ => True) past (checkAccount cfg keys pubkey) := by
  rw [checkAccount]
  rcases keys.fromPkStr pubkey with _ | key
  · exact .ret trivial
  · refine .call trivial fun r => ?_
    rcases r with err | _ | info
    · exact invoiceFor_sendsAnswers
    · exact invoiceFor_sendsAnswers
    · refine checkInvoiceStatus_sendsAnswers.bind fun past' status _ => ?_
      rcases status with _ | status
      · exact .ret trivial
      · cases status with
        | unpaid => exact .call (.inl ⟨info, rfl⟩) fun _ => .ret trivial
        | expired => exact .call (.inl ⟨info, rfl⟩) fun _ => .ret trivial
        | paid =>
          refine .call trivial fun r => ?_
          rcases r with err | _
          · exact .ret trivial
          · exact .call (.inr rfl) fun _ => .ret trivial

/-- A message of the page is only ever answered for the page's pubkey. -/
theorem runInternal_sendsAnswers (hasAccount : Bool) :
    Obeys (SendsAnswers pubkey) (fun _ _ => True) past
      (runInternal cfg keys
        (if hasAccount then .checkAccount pubkey else .newAccount pubkey)) := by
  cases hasAccount with
  | false => exact invoiceFor_sendsAnswers
  | true => exact checkAccount_sendsAnswers

end SendsAnswers

namespace Page

variable {pg : Page} {st : State} {a : Action}

/-- The handler's message is on the channel, the payment thread answers it for the page's
pubkey, and so are all replies. -/
structure Addressed (pg : Page) (st : State) : Prop where
  request : ∀ n, st.request = some n → ∃ hasAccount : Bool, st.chan.log[n]? =
    some (if hasAccount then .checkAccount pg.pubkey else .newAccount pg.pubkey)
  asking : st.handler = .asking → st.request = none
  taken : ∀ n t, st.task = some (n, t) → n < st.chan.tail
  task : ∀ n t, st.task = some (n, t) → st.request = some n →
    ∃ past, Process.Obeys (SendsAnswers pg.pubkey) (fun _ _ => True) past t
  replies : ∀ p ∈ st.replies, ∃ m, st.chan.log[p]? = some m ∧ Answers pg.pubkey m

theorem addressed_start (pg : Page) (capacity : Nat) : Addressed pg (start capacity) where
  request n h := by cases h
  asking _ := rfl
  taken n t h := by cases h
  task n t h := by cases h
  replies p h := absurd h List.not_mem_nil

/-- Another message changes nothing. -/
theorem Addressed.send (h : Addressed pg st) (m : PaymentMessage) :
    Addressed pg { st with chan := st.chan.send m } where
  request n hn := (h.request n hn).imp fun _ hm => Chan.getElem?_send hm m
  asking := h.asking
  taken n t ht := by
    rw [Chan.tail_send]
    exact Nat.lt_succ_of_lt (h.taken n t ht)
  task := h.task
  replies p hp := (h.replies p hp).imp fun _ hm => ⟨Chan.getElem?_send hm.1 m, hm.2⟩

/-- So does an operation of the payment thread that goes on as it should. -/
theorem Addressed.next (h : Addressed pg st) {n : Nat} {t : Task Unit} (hn : n < st.chan.tail)
    (ht : st.request = some n →
      ∃ past, Process.Obeys (SendsAnswers pg.pubkey) (fun _ _ => True) past t) :
    Addressed pg { st with task := some (n, t) } where
  request := h.request
  asking := h.asking
  taken n' t' h' := by
    cases h'
    exact hn
  task n' t' h' := by
    cases h'
    exact ht
  replies := h.replies

/-- A call of the thread keeps the addresses. -/
theorem Addressed.perform (h : Addressed pg st) {n : Nat} {o : Op} {k : o.Res → Task Unit}
    (ht : st.task = some (n, .call o k)) (r : o.Res) :
    Addressed pg (perform st n o (k r)) := by
  have hnext : st.request = some n → ∃ past : List Call,
      SendsAnswers pg.pubkey past o ∧
        Process.Obeys (SendsAnswers pg.pubkey) (fun _ _ => True) (⟨o, r⟩ :: past) (k r) := by
    intro hreq
    obtain ⟨past, hob⟩ := h.task n _ ht hreq
    rw [Process.obeys_call] at hob
    exact ⟨past, hob.1, hob.2 r⟩
  have hlt := h.taken n _ ht
  cases o with
  | send m =>
    have hs := (h.send m).next (t := k r)
      (show n < (st.chan.send m).tail by rw [Chan.tail_send]; exact Nat.lt_succ_of_lt hlt)
      fun hreq => (hnext hreq).imp' _ fun _ hp => hp.2
    refine ⟨hs.request, hs.asking, hs.taken, hs.task, fun p hp => ?_⟩
    rw [Page.perform] at hp
    split_ifs at hp with hreq
    · rcases List.mem_append.mp hp with hp | hp
      · exact hs.replies p hp
      · obtain ⟨past, hm, -⟩ := hnext hreq
        rw [List.mem_singleton.mp hp]
        exact ⟨m, Chan.getElem?_send_tail, hm⟩
    · exact hs.replies p hp
  | _ => exact h.next hlt fun hreq => (hnext hreq).imp' _ fun _ hp => hp.2

theorem addressed_step (h : Addressed pg st) (a : Action) : Addressed pg (pg.step st a) := by
  cases a with
  | ask hasAccount =>
    rcases hh : st.handler with _ | _ | pos | reply <;> simp only [step, hh]
    · have hs := h.send (if hasAccount then .checkAccount pg.pubkey else .newAccount pg.pubkey)
      refine ⟨fun n hn => ?_, fun hd => (by cases hd), hs.taken, fun n t ht hn => ?_, hs.replies⟩
      · cases hn
        exact ⟨hasAccount, Chan.getElem?_send_tail⟩
      · -- what the payment thread works on was sent before
        cases hn
        exact absurd (h.taken _ t ht) (lt_irrefl _)
    all_goals exact h
  | subscribe =>
    rcases hh : st.handler with _ | _ | pos | reply <;> simp only [step, hh]
    · exact h
    · exact ⟨h.request, fun hd => (by cases hd), h.taken, h.task, h.replies⟩
    all_goals exact h
  | poll =>
    rcases hh : st.handler with _ | _ | pos | reply <;> simp only [step, hh]
    · exact h
    · exact h
    · rcases st.chan.recv pos with _ | next | m
      · exact h
      · exact ⟨h.request, fun hd => (by cases hd), h.taken, h.task, h.replies⟩
      · refine ⟨h.request, fun hd => absurd hd ?_, h.taken, h.task, h.replies⟩
        cases m <;> simp only [onMessage, reduceCtorEq, not_false_eq_true]
        · split_ifs <;> simp
        · split_ifs <;> simp
    · exact h
  | take =>
    rcases ht : st.task with _ | t
    · rcases hr : st.chan.recv st.paymentRx with _ | next | m <;> simp only [step, ht, hr]
      · exact h
      · exact ⟨h.request, h.asking, fun n t hd => (by cases hd), fun n t hd => (by cases hd),
          h.replies⟩
      · have hnext := h.next (t := runInternal pg.cfg pg.keys m) (Chan.lt_tail_of_recv hr) ?_
        · exact ⟨hnext.request, hnext.asking, hnext.taken, hnext.task, hnext.replies⟩
        · intro hreq
          obtain ⟨hasAccount, hm⟩ := h.request _ hreq
          rw [Chan.getElem?_of_recv hr] at hm
          cases hm
          exact ⟨[], runInternal_sendsAnswers hasAccount⟩
    · simp only [step, ht]
      exact h
  | work answer =>
    rcases ht : st.task with _ | ⟨n, _ | ⟨o, k⟩⟩ <;> simp only [step, ht]
    · exact h
    · exact ⟨h.request, h.asking, fun n t hd => (by cases hd), fun n t hd => (by cases hd),
        h.replies⟩
    · exact h.perform ht (answer o)
  | other m => exact h.send m

/-- Every reply is an invoice or an admission for the page's pubkey, and ends the waiting. -/
theorem replies_addressed (pg : Page) (capacity : Nat) (acts : List Action) :
    ∀ p ∈ (pg.run capacity acts).replies, ∃ m,
      (pg.run capacity acts).chan.log[p]? = some m ∧ Answers pg.pubkey m :=
  (Machine.invariant (fun _ a _ h => addressed_step h a) (addressed_start pg capacity) :
    Addressed pg (pg.run capacity acts)).replies

/-! ## A run that gets its invoice and one that waits for ever -/

/-- A page of an applicant who is new. -/
def samplePage : Page where
  cfg := ⟨true, 1000, 0, true, false, none⟩
  keys := NameAuthority.sampleKeys
  pubkey := "5cbdf0646e5db4eaa398f365f2ea7a0e3d419b7e0330e39ce92bddedcac4f9bc"

/-- The database takes what it is given and the processor hands out an invoice. -/
def sampleAnswer : (o : Op) → o.Res
  | .unixTime => (0 : Nat)
  | .limits (.allow _ _ _ _) => true
  | .limits (.authEventFresh _ _) => true
  | .limits (.cooldownActive _ _ _) => false
  | .limits (.recordOp _ _) => ()
  | .claims (.lookup _) => none
  | .claims (.nameOf _) => none
  | .claims (.insert _ _) => .ok 1
  | .claims (.release _) => .ok 0
  | .repo (.createAccount _) => .ok true
  | .repo (.admitAccount _ _) => .ok ()
  | .repo (.getAccountBalance _) => .error .noRows
  | .repo (.updateAccountBalance _ _ _) => .ok ()
  | .repo (.createInvoiceRecord _ _) => .ok ()
  | .repo (.updateInvoice _ _) => .ok samplePage.pubkey
  | .repo (.getUnpaidInvoice _) => .ok none
  | .processor (.getInvoice key amount) =>
    some ⟨key, "inv-1", "https://pay.example/inv-1", amount, .unpaid, "admission"⟩
  | .processor (.checkInvoice _) => some .unpaid
  | .send _ => ()
  | .sendAdmissionMessage _ _ => true
  | .publish _ => true

/-- The payment thread takes the message and performs its four operations. -/
def sampleWork : List Action := .take :: List.replicate 4 (.work sampleAnswer)

/-- The handler makes its receiver before the payment thread gets to the message. -/
def sampleInTime : List Action := [.ask false, .subscribe] ++ sampleWork ++ [.poll]

/-- The handler makes its receiver after the reply was sent. -/
def sampleTooLate : List Action := [.ask false] ++ sampleWork ++ [.subscribe, .poll]

theorem sampleInTime_delivered :
    Settled (samplePage.run 4096 sampleInTime) ∧
      (samplePage.run 4096 sampleInTime).replies = [1] ∧
      ∀ p ∈ (samplePage.run 4096 sampleInTime).replies,
        p ∈ (samplePage.run 4096 sampleInTime).received := by
  have hdone : Settled (samplePage.run 4096 sampleInTime) := .inl ⟨_, rfl⟩
  refine ⟨hdone, rfl, (reply_delivered_iff samplePage 4096 sampleInTime hdone).mpr ?_⟩
  have hsilent : ∀ (st : State) (a : Action), a ≠ .poll → ∀ pos ∈ st.replies, a = .poll →
      st.handler = .waiting pos → ¬ st.chan.Lags pos := fun _ _ hne _ _ h => absurd h hne
  refine ⟨⟨fun h => h.elim, hsilent _ _ (by simp)⟩, ⟨fun h => h.elim, hsilent _ _ (by simp)⟩,
    ⟨fun h => h.elim, hsilent _ _ (by simp)⟩, ⟨fun _ => rfl, hsilent _ _ (by simp)⟩,
    ⟨fun _ => rfl, hsilent _ _ (by simp)⟩, ⟨fun _ => rfl, hsilent _ _ (by simp)⟩,
    ⟨fun _ => rfl, hsilent _ _ (by simp)⟩, ⟨fun h => h.elim, fun pos hpos _ _ => ?_⟩, trivial⟩
  obtain rfl : pos = 1 := List.mem_singleton.mp hpos
  decide

/-- The reply is on the channel, the handler waits for the next one, and nothing more comes. -/
theorem sampleTooLate_missed :
    Settled (samplePage.run 4096 sampleTooLate) ∧
      (samplePage.run 4096 sampleTooLate).handler = .waiting 2 ∧
      (samplePage.run 4096 sampleTooLate).replies = [1] ∧
      ¬ ∀ p ∈ (samplePage.run 4096 sampleTooLate).replies,
        p ∈ (samplePage.run 4096 sampleTooLate).received := by
  refine ⟨.inr rfl, rfl, rfl, fun h => ?_⟩
  exact absurd (h 1 (List.mem_singleton_self _)) List.not_mem_nil

end Page

end Floonet.Payment
