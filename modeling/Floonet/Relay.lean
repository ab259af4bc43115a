import Floonet.NameAuthority.Contract
import Floonet.Payment.Thread

/-!
# The relay as a system of concurrent tasks

Requests to the write endpoints of the name authority, messages to the payment thread
and events for the database writer, in any order and any interleaving of their atomic
operations. `Relay.obeys` collects the contracts of all of them.
-/

namespace Floonet

open NameAuthority Payment
open Process (Obeys System)

/-- What arrives. -/
inductive Request where
  | register (req : HttpRequest)
  | unregister (name : String) (req : HttpRequest)
  | payment (m : PaymentMessage)
  | event (pubkey : String)

/-- What a task ends with. -/
inductive Answer where
  | http (resp : Response)
  | finished

/-- The configured relay. -/
structure Relay where
  authority : Authority
  payToRelay : PayToRelay
  engine : Sql.Engine

/-- Shared state, tasks and history. -/
abbrev Configuration : Type := Process.Config Shared Request Op Op.Res Answer

/-- A task of the relay, with what it has done. -/
abbrev Task.Thread : Type := Process.Thread Request Op Op.Res Answer

/-- One operation as it was performed. -/
abbrev Move : Type := Process.Move Shared Request Op Op.Res Answer

/-- Arrivals and steps, as the scheduler orders them. -/
abbrev Action : Type := Process.Act Request Env

namespace Relay

variable (rl : Relay)

/-- The task of each request. -/
def program : Request → Task Answer
  | .register req => .http <$> register rl.authority req
  | .unregister name req => .http <$> unregister rl.authority name req
  | .payment m => (fun _ => .finished) <$> runInternal rl.payToRelay rl.authority.keys m
  | .event pubkey => (fun _ => .finished) <$> dbWriter rl.payToRelay rl.authority.keys pubkey

/-- The relay as a system. -/
def system : System Shared Request Env Op Op.Res Answer := ⟨rl.program, Op.exec rl.engine⟩

/-- A call takes as long as its environment says. -/
theorem clock_exec {s : Shared} {e : Env} (o : Op) :
    (rl.system.exec s e o).1.clock = s.clock + e.elapsed := Op.exec_clock o

/-- The configuration a schedule leads to, from empty tables at a clock reading. -/
def run (clock : Nat) (acts : List Action) : Configuration :=
  rl.system.run (Shared.start clock) acts

/-- What a request may do next. -/
def Calls : Request → List Call → Op → Prop
  | .register req => RegisterCall rl.authority req
  | .unregister name req => UnregisterCall rl.authority (strToLowercase name) req
  | .payment _ => PaymentCall rl.payToRelay rl.authority.keys
  | .event _ => WriterCall rl.payToRelay

/-- How a request may end. -/
def Results : Request → List Call → Answer → Prop
  | .register req, past, .http resp => RegisterResult rl.authority req past resp
  | .unregister _ _, past, .http resp => UnregisterResult past resp
  | .payment _, _, .finished => True
  | .event _, _, .finished => True
  | _, _, _ => False

/-- Every request keeps to the contract of its program. -/
theorem obeys (r : Request) : Obeys (rl.Calls r) (rl.Results r) [] (rl.program r) := by
  cases r with
  | register req => exact (register_obeys rl.authority req).map fun _ _ h => h
  | unregister name req => exact (unregister_obeys rl.authority name req).map fun _ _ h => h
  | payment m => exact (runInternal_obeys m).map fun _ _ _ => trivial
  | event pubkey => exact (dbWriter_obeys pubkey).map fun _ _ _ => trivial

/-! Who performs what. -/

/-- Only register requests insert. -/
theorem insert_inv {r : Request} {past : List Call} {n p : String}
    (h : rl.Calls r past (insertOp n p)) :
    ∃ req, r = .register req ∧ RegisterCall rl.authority req past (insertOp n p) := by
  cases r with
  | register req => exact ⟨req, rfl, h⟩
  | unregister name req => cases h
  | payment m => exact absurd h id
  | event pk => exact absurd h id

/-- The sections of the maps that the tasks go through. -/
theorem limits_inv {r : Request} {past : List Call} {o : Op} (h : rl.Calls r past o) (ho : ∃ lo, o = .limits lo) :
    (∃ bucket ip, (bucket = "na-reg" ∨ bucket = "na-unreg") ∧
      o = allowWriteOp rl.authority bucket ip) ∨
    (∃ id, o = freshOp rl.authority id) ∨ (∃ pk, o = cooldownOp rl.authority pk) ∨
    ∃ pk, o = recordReleaseOp pk := by
  obtain ⟨lo, rfl⟩ := ho
  cases r with
  | register req =>
    cases h with
    | allow => exact .inl ⟨_, _, .inl rfl, rfl⟩
    | fresh _ _ _ => exact .inr (.inl ⟨_, rfl⟩)
    | cooldown _ _ => exact .inr (.inr (.inl ⟨_, rfl⟩))
    | gate _ _ _ hg => exact absurd hg.inGate (by simp [Op.inGate])
  | unregister name req =>
    cases h with
    | allow => exact .inl ⟨_, _, .inr rfl, rfl⟩
    | fresh _ _ => exact .inr (.inl ⟨_, rfl⟩)
    | record _ _ => exact .inr (.inr (.inr ⟨_, rfl⟩))
  | payment m => exact absurd h id
  | event pk => exact absurd h id

/-- A configuration that contracts cover. -/
abbrev Sound (c : Configuration) : Prop := System.Sound rl.Calls rl.Results c

end Relay

end Floonet
