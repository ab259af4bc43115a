import Floonet.NameAuthority.Authority

/-!
# The payment thread and the charges of the database writer

`Payment::run_internal` handles one message of the payment channel; `?` on an error
ends the handling of that message. `db_writer` looks at the account before it accepts
an event and charges the author after it was written; what happens in between (NIP-05,
the external admission service, the write itself) is the operation `publish`.
-/

namespace Floonet.Payment

open NameAuthority
open Process (Obeys)

/-- The `[pay_to_relay]` settings, with the whitelist of `[authorization]`. -/
structure PayToRelay where
  enabled : Bool
  admissionCost : Nat
  costPerEvent : Nat
  signUps : Bool
  directMessage : Bool
  whitelist : Option (List String)

variable (cfg : PayToRelay) (keys : Keys)

/-! ## The payment thread

A message of the channel is handled to its end before the next one is taken, and each early return
of the source is an end of the program. -/

/-- A new invoice from the processor, persisted, and sent to the key by direct message
if so configured. -/
def createInvoice (pubkey key : String) (amount : Nat) : Task (Option InvoiceInfo) :=
  .call (getInvoiceOp key amount) fun
    | none => .ret none
    | some info =>
      .call (recordInvoiceOp key info) fun
        | .error _ => .ret none
        | .ok () =>
          if cfg.directMessage then
            .call (.sendAdmissionMessage pubkey info) fun sent =>
              .ret (if sent then some info else none)
          else .ret (some info)

/-- Get invoice info: the active invoice if there is one, otherwise a new one. -/
def getInvoiceInfo (pubkey : String) (amount : Nat) : Task (Option InvoiceInfo) :=
  match keys.fromPkStr pubkey with
  | none => .ret none
  | some key =>
    .call (createAccountOp key) fun
      | .error _ => .ret none
      | .ok true => createInvoice cfg pubkey key amount
      | .ok false =>
        .call (unpaidOp key) fun
          | .ok (some info) => .ret (some info)
          | _ => createInvoice cfg pubkey key amount

/-- Check paid status of invoice, and record it. -/
def checkInvoiceStatus (paymentHash : String) : Task (Option InvoiceStatus) :=
  .call (checkOp paymentHash) fun
    | none => .ret none
    | some status =>
      .call (updateInvoiceOp paymentHash status) fun
        | .error _ => .ret none
        | .ok _ => .ret (some status)

/-- Invoice for a key that has none outstanding. -/
def invoiceFor (pubkey : String) : Task Unit := do
  match ← getInvoiceInfo cfg keys pubkey cfg.admissionCost with
  | none => return ()
  | some info => Process.Proc.call (.send (.invoice pubkey info)) .ret

/-- `CheckAccount`: the most recent unpaid invoice is checked with the processor. -/
def checkAccount (pubkey : String) : Task Unit :=
  match keys.fromPkStr pubkey with
  | none => .ret ()
  | some key =>
    .call (unpaidOp key) fun
      | .ok (some info) => do
        match ← checkInvoiceStatus info.paymentHash with
        | none => return ()
        | some .paid =>
          Process.Proc.call (admitOp key cfg.admissionCost) fun
            | .error _ => .ret ()
            | .ok () => .call (.send (.accountAdmitted pubkey)) .ret
        | some _ => Process.Proc.call (.send (.invoice pubkey info)) .ret
      | _ => invoiceFor cfg keys pubkey

/-- Admit the owner that the invoice row names. -/
def admitOwner (pubkey : String) : Task Unit :=
  match keys.fromPkStr pubkey with
  | none => .ret ()
  | some key => .call (admitOp key cfg.admissionCost) fun _ => .ret ()

/-- `InvoicePaid`: anyone can send it, with any hash, through the webhooks. -/
def invoicePaid (paymentHash : String) : Task Unit := do
  match ← checkInvoiceStatus paymentHash with
  | some .paid =>
    Process.Proc.call (updateInvoiceOp paymentHash .paid) fun
      | .error _ => .ret ()
      | .ok pubkey => admitOwner cfg keys pubkey
  | _ => return ()

/-- One message of the payment channel. -/
def runInternal : PaymentMessage → Task Unit
  | .newAccount pubkey => invoiceFor cfg keys pubkey
  | .checkAccount pubkey => checkAccount cfg keys pubkey
  | .invoicePaid paymentHash => invoicePaid cfg keys paymentHash
  -- used by `server`
  | .accountAdmitted _ => .ret ()
  | .invoice _ _ => .ret ()

/-! ## The database writer -/

/-- The event is charged for, if it was written and writing costs. -/
def charge (key : String) (written : Bool) : Task Unit :=
  if written && 0 < cfg.costPerEvent then
    .call (.repo (.updateAccountBalance key false cfg.costPerEvent)) fun _ => .ret ()
  else .ret ()

/-- An event of an author who has to pay. -/
def paidEvent (pubkey key : String) : Task Unit :=
  .call (balanceOp key) fun
    | .ok (false, _) => .call (.send (.checkAccount pubkey)) .ret
    | .ok (true, balance) =>
      if balance < cfg.costPerEvent then .ret ()
      else .call (.publish pubkey) fun written => charge cfg key written
    | .error .noRows =>
      if cfg.signUps && cfg.directMessage then .call (.send (.newAccount pubkey)) .ret
      else .ret ()
    | .error .other => .ret ()

/-- What `db_writer` does with an event of `pubkey`, as far as payment goes. -/
def dbWriter (pubkey : String) : Task Unit :=
  let listed := cfg.whitelist.any fun allowed => allowed.contains pubkey
  if !cfg.enabled then
    if cfg.whitelist.isSome && !listed then .ret ()
    else .call (.publish pubkey) fun _ => .ret ()
  else if listed then .call (.publish pubkey) fun _ => .ret ()
  else
    match keys.fromPkStr pubkey with
    -- `unwrap`; the pubkey of a validated event parses
    | none => .ret ()
    | some key => paidEvent cfg pubkey key

/-! ## What they can do

As for the endpoints, each program has a contract: which operation may follow which answers. The
invariants of the payment module only use these. -/

/-- The operations of the payment thread. An account is admitted only after the processor
reported an invoice of it as paid, and that was recorded. -/
def PaymentCall (past : List Call) : Op → Prop
  | .repo (.admitAccount key cost) => cost = cfg.admissionCost ∧ ∃ hash pk,
      (⟨checkOp hash, some .paid⟩ : Call) ∈ past ∧
      (⟨updateInvoiceOp hash .paid, .ok pk⟩ : Call) ∈ past ∧
      ((∃ info : InvoiceInfo, info.paymentHash = hash ∧
        (⟨unpaidOp key, .ok (some info)⟩ : Call) ∈ past) ∨ keys.fromPkStr pk = some key)
  | .repo (.createInvoiceRecord key info) =>
      (⟨getInvoiceOp key cfg.admissionCost, some info⟩ : Call) ∈ past
  | .repo (.createAccount key) => keys.fromPkStr key = some key
  | .repo (.getAccountBalance _) => False
  | .repo (.updateAccountBalance _ _ _) => False
  | .limits _ => False
  | .claims _ => False
  | .publish _ => False
  | _ => True

/-- The operations of the writer. It charges an account once, after reading that the
account is admitted and can pay. -/
def WriterCall (past : List Call) : Op → Prop
  | .repo (.getAccountBalance _) => past = []
  | .repo (.updateAccountBalance key positive amount) => positive = false ∧
      amount = cfg.costPerEvent ∧ ∃ written balance pubkey, cfg.costPerEvent ≤ balance ∧
      past = [⟨.publish pubkey, written⟩, ⟨balanceOp key, .ok (true, balance)⟩]
  | .send _ => True
  | .publish _ => True
  | _ => False

section Obeys

variable {cfg keys} {past : List Call}

theorem createInvoice_obeys {pubkey key : String} :
    Obeys (PaymentCall cfg keys) (fun _ _ => True) past
      (createInvoice cfg pubkey key cfg.admissionCost) := by
  refine .call trivial fun info => ?_
  rcases info with _ | info
  · exact .ret trivial
  · refine .call (List.mem_cons_self ..) fun r => ?_
    rcases r with err | _
    · exact .ret trivial
    · change Obeys _ _ _ (if _ then _ else _)
      split_ifs
      · exact .call trivial fun sent => .ret trivial
      · exact .ret trivial

/-- The contract of an invoice that may be there. -/
theorem getInvoiceInfo_obeys {pubkey : String} :
    Obeys (PaymentCall cfg keys) (fun _ _ => True) past
      (getInvoiceInfo cfg keys pubkey cfg.admissionCost) := by
  rw [getInvoiceInfo]
  rcases hk : keys.fromPkStr pubkey with _ | key
  · exact .ret trivial
  · refine .call (keys.fromPkStr_idem hk) fun r => ?_
    rcases r with err | fresh
    · exact .ret trivial
    · cases fresh with
      | true => exact createInvoice_obeys
      | false =>
        refine .call trivial fun r => ?_
        rcases r with err | _ | info
        · exact createInvoice_obeys
        · exact createInvoice_obeys
        · exact .ret trivial

theorem invoiceFor_obeys {pubkey : String} :
    Obeys (PaymentCall cfg keys) (fun _ _ => True) past (invoiceFor cfg keys pubkey) := by
  refine getInvoiceInfo_obeys.bind fun past' info _ => ?_
  rcases info with _ | info
  · exact .ret trivial
  · exact .call trivial fun _ => .ret trivial

/-- A recorded status is one the processor reported. -/
theorem checkInvoiceStatus_obeys {hash : String} :
    Obeys (PaymentCall cfg keys) (fun past' status => ∀ st, status = some st →
      ∃ pk, past' = ⟨updateInvoiceOp hash st, .ok pk⟩ :: ⟨checkOp hash, some st⟩ :: past) past
      (checkInvoiceStatus hash) := by
  refine .call trivial fun status => ?_
  rcases status with _ | status
  · exact .ret (fun st h => by cases h)
  · refine .call trivial fun r => ?_
    rcases r with err | pk
    · exact .ret (fun st h => by cases h)
    · refine .ret fun st h => ?_
      cases h
      exact ⟨pk, rfl⟩

/-- The contract of a look at an account. -/
theorem checkAccount_obeys {pubkey : String} :
    Obeys (PaymentCall cfg keys) (fun _ _ => True) past (checkAccount cfg keys pubkey) := by
  rw [checkAccount]
  rcases keys.fromPkStr pubkey with _ | key
  · exact .ret trivial
  · refine .call trivial fun r => ?_
    rcases r with err | _ | info
    · exact invoiceFor_obeys
    · exact invoiceFor_obeys
    · refine checkInvoiceStatus_obeys.bind fun past' status hstatus => ?_
      rcases status with _ | status
      · exact .ret trivial
      · obtain ⟨pk, rfl⟩ := hstatus status rfl
        cases status with
        | unpaid => exact .call trivial fun _ => .ret trivial
        | expired => exact .call trivial fun _ => .ret trivial
        | paid =>
          refine .call ?_ fun r => ?_
          · exact ⟨rfl, info.paymentHash, pk, by simp, by simp, .inl ⟨info, rfl, by simp⟩⟩
          · rcases r with err | _
            · exact .ret trivial
            · exact .call trivial fun _ => .ret trivial

/-- The contract of an admission after a payment. -/
theorem admitOwner_obeys {hash pubkey : String}
    (hcheck : (⟨checkOp hash, some .paid⟩ : Call) ∈ past)
    (hupdate : (⟨updateInvoiceOp hash .paid, .ok pubkey⟩ : Call) ∈ past) :
    Obeys (PaymentCall cfg keys) (fun _ _ => True) past (admitOwner cfg keys pubkey) := by
  rw [admitOwner]
  rcases hk : keys.fromPkStr pubkey with _ | key
  · exact .ret trivial
  · exact .call ⟨rfl, hash, pubkey, hcheck, hupdate, .inr hk⟩ fun _ => .ret trivial

/-- The contract of a payment that was reported. -/
theorem invoicePaid_obeys {hash : String} :
    Obeys (PaymentCall cfg keys) (fun _ _ => True) past (invoicePaid cfg keys hash) := by
  refine checkInvoiceStatus_obeys.bind fun past' status hstatus => ?_
  rcases status with _ | status
  · exact .ret trivial
  · obtain ⟨pk, rfl⟩ := hstatus status rfl
    cases status with
    | unpaid => exact .ret trivial
    | expired => exact .ret trivial
    | paid =>
      refine .call trivial fun r => ?_
      rcases r with err | pubkey
      · exact .ret trivial
      · have hcheck : (⟨checkOp hash, some .paid⟩ : Call) ∈
            (⟨updateInvoiceOp hash .paid, .ok pubkey⟩ : Call) ::
              ⟨updateInvoiceOp hash .paid, .ok pk⟩ :: ⟨checkOp hash, some .paid⟩ :: past := by simp
        exact admitOwner_obeys hcheck (List.mem_cons_self ..)

theorem runInternal_obeys (m : PaymentMessage) :
    Obeys (PaymentCall cfg keys) (fun _ _ => True) past (runInternal cfg keys m) := by
  cases m with
  | newAccount pubkey => exact invoiceFor_obeys
  | checkAccount pubkey => exact checkAccount_obeys
  | invoicePaid hash => exact invoicePaid_obeys
  | accountAdmitted pubkey => exact .ret trivial
  | invoice pubkey info => exact .ret trivial

theorem charge_obeys {key pubkey : String} {written : Bool} {balance : Nat}
    (hb : cfg.costPerEvent ≤ balance) :
    Obeys (WriterCall cfg) (fun _ _ => True)
      [⟨.publish pubkey, written⟩, ⟨balanceOp key, .ok (true, balance)⟩]
      (charge cfg key written) := by
  rw [charge]
  split_ifs
  · exact .call ⟨rfl, rfl, written, balance, pubkey, hb, rfl⟩ fun _ => .ret trivial
  · exact .ret trivial

theorem paidEvent_obeys {pubkey key : String} :
    Obeys (WriterCall cfg) (fun _ _ => True) [] (paidEvent cfg pubkey key) := by
  refine .call rfl fun r => ?_
  rcases r with err | ⟨admitted, balance⟩
  · cases err with
    | noRows =>
      change Obeys _ _ _ (if _ then _ else _)
      split_ifs
      · exact .call trivial fun _ => .ret trivial
      · exact .ret trivial
    | other => exact .ret trivial
  · cases admitted with
    | false => exact .call trivial fun _ => .ret trivial
    | true =>
      change Obeys _ _ _ (if balance < cfg.costPerEvent then _ else _)
      split_ifs with hlt
      · exact .ret trivial
      · exact .call trivial fun written => charge_obeys (not_lt.mp hlt)

theorem dbWriter_obeys (pubkey : String) :
    Obeys (WriterCall cfg) (fun _ _ => True) [] (dbWriter cfg keys pubkey) := by
  simp only [dbWriter]
  split_ifs
  · exact .ret trivial
  · exact .call trivial fun _ => .ret trivial
  · exact .call trivial fun _ => .ret trivial
  · rcases keys.fromPkStr pubkey with _ | key
    · exact .ret trivial
    · exact paidEvent_obeys

end Obeys

end Floonet.Payment
