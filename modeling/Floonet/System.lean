import Floonet.Lib.Process
import Floonet.NameAuthority.Claims
import Floonet.NameAuthority.Limits
import Floonet.Sqlite.Account

/-!
# The relay's shared state and its atomic operations

Request handlers, the payment thread and the database writer run concurrently. What
they share is the claims store, the two in-memory maps of the name authority, the
account and invoice tables and the clock; each mutex section, each repository call
and each call to the payment processor is one atomic operation. What a step reads
from outside (time passing, a database failure, the answer of the processor's server)
is its input `Env`.

`auth_event_fresh`, `cooldown_active` and `allow` read the clock and then lock the
mutex. Here the reading belongs to the section, so the sections of a run come in the
order of their readings.
-/

namespace Floonet

open NameAuthority Payment Sqlite

/-! ## Operations

An operation is one section of a mutex, one statement on the claims store, one call of the
repository or one request to the processor. -/

/-- Sections of the `rate` and `seen_auth` mutexes. Windows are in nanoseconds. -/
inductive LimitOp where
  | allow (bucket ip : String) (max window : Nat)
  | authEventFresh (window : Nat) (eventId : String)
  | cooldownActive (bucket key : String) (window : Nat)
  | recordOp (bucket key : String)
  deriving DecidableEq

/-- What the call on the limiter returns. -/
@[reducible] def LimitOp.Res : LimitOp → Type
  | allow _ _ _ _ => Bool
  | authEventFresh _ _ => Bool
  | cooldownActive _ _ _ => Bool
  | recordOp _ _ => Unit

/-- Sections of the `db` mutex of the name authority. -/
inductive ClaimOp where
  | lookup (name : String)
  | nameOf (pubkey : String)
  | insert (name pubkey : String)
  | release (name : String)
  deriving DecidableEq

/-- What the statement on the name claims returns. -/
@[reducible] def ClaimOp.Res : ClaimOp → Type
  | lookup _ => Option String
  | nameOf _ => Option String
  | insert _ _ => Except ClaimError Nat
  | release _ => Except ClaimError Nat

/-- Calls to the payment processor. -/
inductive ProcessorOp where
  | getInvoice (key : String) (amount : Nat)
  | checkInvoice (paymentHash : String)
  deriving DecidableEq

/-- `none` is an error. -/
@[reducible] def ProcessorOp.Res : ProcessorOp → Type
  | getInvoice _ _ => Option InvoiceInfo
  | checkInvoice _ => Option InvoiceStatus

/-- The atomic operations. -/
inductive Op where
  /-- `unix_time()` -/
  | unixTime
  | limits (o : LimitOp)
  | claims (o : ClaimOp)
  | repo (o : RepoOp)
  | processor (o : ProcessorOp)
  /-- `payment_tx.send` -/
  | send (m : PaymentMessage)
  /-- `send_admission_message`: true when both messages were written -/
  | sendAdmissionMessage (pubkey : String) (info : InvoiceInfo)
  /-- what `db_writer` does with an event between the payment check and the charge:
  true when the event was written or broadcast -/
  | publish (pubkey : String)
  deriving DecidableEq

/-- What the call returns. -/
@[reducible] def Op.Res : Op → Type
  | unixTime => Nat
  | limits o => o.Res
  | claims o => o.Res
  | repo o => o.Res
  | processor o => o.Res
  | send _ => Unit
  | sendAdmissionMessage _ _ => Bool
  | publish _ => Bool

/-- A program over these operations. -/
abbrev Task (α : Type) : Type := Process.Proc Op Op.Res α

/-- An operation with its answer. -/
abbrev Call : Type := Process.Call Op Op.Res

/-! ## State -/

/-- What the tasks of the relay share. -/
structure Shared where
  /-- nanoseconds since the epoch -/
  clock : Nat
  limits : Limits
  claims : NameClaims
  accounts : Accounts

/-- The state at start-up, with empty tables. -/
def Shared.start (clock : Nat) : Shared := ⟨clock, .empty, .empty, .empty⟩

/-- The input of a step. -/
structure Env where
  /-- nanoseconds since the last step -/
  elapsed : Nat := 0
  /-- a database call fails, leaving the database as it was -/
  fails : Bool := false
  /-- what `check_invoice` returns for a payment hash, `none` for an error -/
  checkInvoice : String → Option InvoiceStatus := fun _ => none
  /-- what `get_invoice` obtains, `none` for an error -/
  newInvoice : Option NewInvoice := none
  /-- whether the event or the direct messages get written -/
  written : Bool := true

namespace Shared

/-- Time passes. -/
def tick (s : Shared) (e : Env) : Shared := { s with clock := s.clock + e.elapsed }

/-- `unix_time()`: whole seconds. -/
def unixTime (s : Shared) : Nat := s.clock / 1000000000

@[simp] theorem tick_limits (s : Shared) (e : Env) : (s.tick e).limits = s.limits := rfl

@[simp] theorem tick_claims (s : Shared) (e : Env) : (s.tick e).claims = s.claims := rfl

@[simp] theorem tick_accounts (s : Shared) (e : Env) : (s.tick e).accounts = s.accounts := rfl

@[simp] theorem tick_clock (s : Shared) (e : Env) : (s.tick e).clock = s.clock + e.elapsed := rfl

end Shared

/-! ## Meaning of the operations -/

/-- A section of the in-memory maps at an instant. -/
def LimitOp.exec (l : Limits) (now : Nat) : (o : LimitOp) → Limits × o.Res
  | allow bucket ip max window => l.allow now bucket ip max window
  | authEventFresh window eventId => l.authEventFresh now window eventId
  | cooldownActive bucket key window => l.cooldownActive now bucket key window
  | recordOp bucket key => (l.recordOp now bucket key, ())

/-- A section of the claims store. `lookup` and `name_of` turn an error into `None`. -/
def ClaimOp.exec (t : NameClaims) (now : Nat) (fails : Bool) : (o : ClaimOp) → NameClaims × o.Res
  | lookup name => (t, if fails then none else t.lookup name)
  | nameOf pubkey => (t, if fails then none else t.nameOf pubkey)
  | insert name pubkey => if fails then (t, .error .other) else t.insert name pubkey now
  | release name => if fails then (t, .error .other) else t.release name now

/-- A call to the processor. -/
def ProcessorOp.answer (e : Env) : (o : ProcessorOp) → o.Res
  | getInvoice key amount => e.newInvoice.map fun inv => inv.info key amount
  | checkInvoice hash => e.checkInvoice hash

/-- One atomic operation. -/
def Op.exec (eng : Sql.Engine) (s : Shared) (e : Env) : (o : Op) → Shared × o.Res
  | unixTime => (s.tick e, (s.tick e).unixTime)
  | limits o =>
    let out := o.exec s.limits (s.tick e).clock
    ({ s.tick e with limits := out.1 }, out.2)
  | claims o =>
    let out := o.exec s.claims (s.tick e).unixTime e.fails
    ({ s.tick e with claims := out.1 }, out.2)
  | repo o =>
    if e.fails then (s.tick e, o.fail)
    else
      let out := s.accounts.exec eng (s.tick e).unixTime o
      ({ s.tick e with accounts := out.1 }, out.2)
  | processor o => (s.tick e, o.answer e)
  | send _ => (s.tick e, ())
  | sendAdmissionMessage _ _ => (s.tick e, e.written)
  | publish _ => (s.tick e, e.written)

/-! ## What an operation leaves alone -/

section Frame

variable {eng : Sql.Engine} {s : Shared} {e : Env}

theorem Op.exec_clock (o : Op) : (o.exec eng s e).1.clock = s.clock + e.elapsed := by
  cases o with
  | repo o =>
    rw [exec]
    split_ifs <;> rfl
  | _ => rfl

/-- Only sections of the claims store change it. -/
theorem Op.exec_claims {o : Op} (h : ∀ c, o ≠ .claims c) : (o.exec eng s e).1.claims = s.claims := by
  cases o with
  | claims c => exact absurd rfl (h c)
  | repo o =>
    rw [exec]
    split_ifs <;> rfl
  | _ => rfl

/-- Only repository calls change the tables. -/
theorem Op.exec_accounts {o : Op} (h : ∀ r, o ≠ .repo r) :
    (o.exec eng s e).1.accounts = s.accounts := by
  cases o with
  | repo r => exact absurd rfl (h r)
  | _ => rfl

/-- A call on the repository that does not fail changes the accounts only. -/
theorem Op.exec_repo {r : RepoOp} (hf : e.fails = false) : Op.exec eng s e (.repo r) =
    ({ s.tick e with accounts := (s.accounts.exec eng (s.tick e).unixTime r).1 },
      (s.accounts.exec eng (s.tick e).unixTime r).2) := by
  rw [exec, if_neg (by simp [hf])]

/-- A repository call fails and changes nothing, or is carried out. -/
theorem Op.exec_repo_cases (eng : Sql.Engine) (s : Shared) (e : Env) (r : RepoOp) :
    (e.fails = true ∧ (Op.exec eng s e (.repo r)).1.accounts = s.accounts ∧
      (Op.exec eng s e (.repo r)).2 = r.fail) ∨
    (e.fails = false ∧ ∃ now, (Op.exec eng s e (.repo r)).1.accounts = (s.accounts.exec eng now r).1 ∧
      (Op.exec eng s e (.repo r)).2 = (s.accounts.exec eng now r).2) := by
  rcases hf : e.fails with _ | _
  · rw [Op.exec_repo hf]
    exact .inr ⟨rfl, _, rfl, rfl⟩
  · rw [exec, if_pos hf]
    exact .inl ⟨rfl, rfl, rfl⟩

/-- What an operation does to the tables. -/
theorem Op.writes_exec (eng : Sql.Engine) (s : Shared) (e : Env) (o : Op) :
    (o.exec eng s e).1.accounts = s.accounts ∨
    ∃ r, o = .repo r ∧ e.fails = false ∧ s.accounts.Writes r (o.exec eng s e).1.accounts := by
  cases o with
  | repo r =>
    obtain ⟨-, heq, -⟩ | ⟨hf, now, heq, -⟩ := Op.exec_repo_cases eng s e r
    · exact .inl heq
    · exact .inr ⟨r, rfl, hf, heq ▸ s.accounts.writes_exec eng now r⟩
  | _ => exact .inl rfl

/-- Only sections of the maps change them. -/
theorem Op.exec_limits {o : Op} (h : ∀ c, o ≠ .limits c) : (o.exec eng s e).1.limits = s.limits := by
  cases o with
  | limits c => exact absurd rfl (h c)
  | repo o =>
    rw [exec]
    split_ifs <;> rfl
  | _ => rfl

end Frame

end Floonet
