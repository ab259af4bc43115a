import Floonet.Utils

/-!
# Invoices and the payment processor

The invoice record that passes between the payment processor, the payment thread and
the repository, and the GoblinPay processor's reading of its server's answers.
-/

namespace Floonet.Payment

/-- Possible states of an invoice. -/
inductive InvoiceStatus where
  | unpaid
  | paid
  | expired
  deriving DecidableEq

/-- Invoice information. `confirmed_at` is never read. -/
structure InvoiceInfo where
  pubkey : String
  paymentHash : String
  bolt11 : String
  amount : Nat
  status : InvoiceStatus
  memo : String
  deriving DecidableEq

/-- Message variants for the payment channel. -/
inductive PaymentMessage where
  | newAccount : String → PaymentMessage
  | checkAccount : String → PaymentMessage
  | accountAdmitted : String → PaymentMessage
  | invoice : String → InvoiceInfo → PaymentMessage
  | invoicePaid : String → PaymentMessage
  deriving DecidableEq

/-- What a processor hands out for a new invoice. -/
structure NewInvoice where
  paymentHash : String
  bolt11 : String
  status : InvoiceStatus
  memo : String
  deriving DecidableEq

/-- Every processor fills in the key and the amount it was asked for. -/
def NewInvoice.info (inv : NewInvoice) (key : String) (amount : Nat) : InvoiceInfo :=
  ⟨key, inv.paymentHash, inv.bolt11, amount, inv.status, inv.memo⟩

namespace GoblinPay

/-- Unknown statuses are treated as expired: fail closed. -/
def statusFrom (status : String) : InvoiceStatus :=
  if status = "paid" then .paid else if status = "open" then .unpaid else .expired

/-- The characters of an invoice id. -/
def idChar (c : Char) : Bool := c.isAlphanum || c == '-' || c == '_'

/-- Ask GoblinPay for the invoice's current status; `server` is what `GET
/invoice/{id}` reports, `none` when the request fails. -/
def checkInvoice (server : String → Option String) (paymentHash : String) :
    Option InvoiceStatus :=
  if paymentHash.toList.all idChar then (server paymentHash).map statusFrom else none

end GoblinPay

end Floonet.Payment
