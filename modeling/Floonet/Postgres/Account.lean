import Floonet.Lib.Outcome
import Floonet.Sqlite.Account

/-!
# Accounts and invoices in Postgres

The account and invoice operations of `PostgresRepo`, statement by statement. A balance is
a `bigint`, and a sum that does not fit is an error. `u64` amounts are cast `as i64` when
they are bound and `as u64` when they are read, so a column keeps the bits of its amount.

Where `SqliteRepo` runs one transaction, `update_invoice` runs three statements on their
own, and two failures are panics here.
-/

namespace Floonet.Postgres

open Payment
open Sqlite (RepoOp)
open Sql (InI64)

/-- The tables as Postgres stores them. -/
abbrev Accounts : Type := Ledger Int

/-- What the statements leave to the server. -/
structure AccountServer extends Sql.Engine where
  /-- the payment hash fits the pages of its index -/
  indexable : String → Bool

/-- A text the server takes: no NUL character. -/
def storableText (s : String) : Bool := !s.toList.contains (Char.ofNat 0)

/-- The cast `as u64`, which wraps. -/
def asU64 (z : Int) : Nat := (z % 2 ^ 64).toNat

/-- What a call returns when it succeeds. -/
@[reducible] def Ret : RepoOp → Type
  | .createAccount _ => Bool
  | .admitAccount _ _ => Unit
  | .getAccountBalance _ => Bool × Nat
  | .updateAccountBalance _ _ _ => Unit
  | .createInvoiceRecord _ _ => Unit
  | .updateInvoice _ _ => String
  | .getUnpaidInvoice _ => Option InvoiceInfo

namespace Accounts

variable (server : AccountServer) (l : Accounts)

/-- Create account. Every error of the insert reads as a conflict. -/
def createAccount (key : String) : Accounts × Outcome RepoError Bool :=
  if h : l.account? key = none then (l.addAccount key 0 h, .ok true) else (l, .ok false)

/-- `UPDATE account SET balance = balance + z … WHERE pubkey = key`, unless the sum is out
of range. -/
def updateBalance (key : String) (grant : Bool) (z : Int) : Option Accounts :=
  if ∀ a ∈ l.account? key, InI64 (a.balance + z) then some (l.adjust key grant fun b => b + z)
  else none

/-- Admit account. -/
def admitAccount (key : String) (admissionCost : Nat) : Accounts × Outcome RepoError Unit :=
  match l.updateBalance key true (-asI64 admissionCost) with
  | some l' => (l', .ok ())
  | none => (l, .err .other)

/-- Gets if the account is admitted and balance. -/
def getAccountBalance (key : String) : Outcome RepoError (Bool × Nat) :=
  match l.account? key with
  | none => .err .noRows
  | some a => .ok (a.isAdmitted, asU64 a.balance)

/-- Update account balance. -/
def updateAccountBalance (key : String) (positive : Bool) (newBalance : Nat) :
    Accounts × Outcome RepoError Unit :=
  match l.updateBalance key false (if positive then asI64 newBalance else -asI64 newBalance) with
  | some l' => (l', .ok ())
  | none => (l, .err .other)

/-- Create invoice record, at a clock reading in microseconds. -/
def createInvoiceRecord (key : String) (info : InvoiceInfo) (now : Nat) :
    Accounts × Outcome RepoError Unit :=
  if storableText info.paymentHash && server.indexable info.paymentHash &&
      storableText info.bolt11 && storableText info.memo then
    if hnew : l.invoice? info.paymentHash = none then
      if hacc : (l.account? key).isSome then
        (l.addInvoice ⟨info.paymentHash, key, info.bolt11, info.amount, info.status, info.memo, now⟩
          hnew hacc, .ok ())
      else (l, .panic)
    else (l, .panic)
  else (l, .panic)

/-- Update invoice record. The status stays changed when the credit fails. -/
def updateInvoice (paymentHash : String) (status : InvoiceStatus) :
    Accounts × Outcome RepoError String :=
  if storableText paymentHash then
    match l.invoice? paymentHash with
    | none => (l, .err .noRows)
    | some inv =>
      let l' : Accounts := l.setStatus paymentHash status
      if inv.status = .unpaid ∧ status = .paid then
        match l'.updateBalance inv.pubkey false (asI64 inv.amount) with
        | some l'' => (l'', .ok inv.pubkey)
        | none => (l', .err .other)
      else (l', .ok inv.pubkey)
  else (l, .err .other)

/-- The rows `get_unpaid_invoice` chooses from. -/
def invoicesOf (key : String) : List Invoice := l.invoices.filter fun i => i.pubkey == key

/-- Get the most recent invoice for a given pubkey; the invoice must be unpaid and not
expired. The query does not look at the status. -/
def getUnpaidInvoice (key : String) : Outcome RepoError (Option InvoiceInfo) :=
  match Sql.orderByDesc server.toEngine Invoice.createdAt (l.invoicesOf key) with
  | [] => .ok none
  | i :: _ => .ok (some ⟨key, i.paymentHash, i.invoice, i.amount, .unpaid, i.description⟩)

/-- One call. -/
def exec (now : Nat) : (o : RepoOp) → Accounts × Outcome RepoError (Ret o)
  | .createAccount key => l.createAccount key
  | .admitAccount key cost => l.admitAccount key cost
  | .getAccountBalance key => (l, l.getAccountBalance key)
  | .updateAccountBalance key positive amount => l.updateAccountBalance key positive amount
  | .createInvoiceRecord key info => l.createInvoiceRecord server key info now
  | .updateInvoice hash status => l.updateInvoice hash status
  | .getUnpaidInvoice key => (l, l.getUnpaidInvoice server key)

end Accounts

end Floonet.Postgres
