import Floonet.NameAuthority.Recharge
import Floonet.NameAuthority.Undisturbed

/-!
# Outstanding invoices

The gate polls one invoice of a key, the latest that is still recorded as unpaid. A
payment of another one is overlooked: first contacts that race leave two unpaid invoices
(`first_contacts_race`), and an invoice that was once reported as anything but open or
paid is recorded as expired and replaced for good. In runs where a key never has two
unpaid invoices, a payment of an invoice that is not recorded as expired lets the key
pass (`paid_invoice_passes`).
-/

namespace Floonet.NameAuthority

open Payment
open Sqlite (Accounts RepoOp)
open Process (Alone System Obeys)

/-! ## The condition

The gate looks at the latest unpaid invoice only. So a key must not get a second one while the
first is unpaid, and none that is recorded as paid from the start. -/

/-- A new invoice of the key is not paid already, and not a second unpaid one. -/
def InvoiceStep (key : String) (l : Accounts) : RepoOp → Prop
  | .createInvoiceRecord k info => k = key → l.invoice? info.paymentHash = none →
      info.status ≠ .paid ∧
        (info.status = .unpaid → ∀ inv ∈ l.invoices, inv.pubkey = key → inv.status ≠ .unpaid)
  | _ => True

/-- The condition on a step; a call that fails records nothing. -/
def OneInvoice (key : String) (c : Configuration) : Action → Prop
  | .spawn _ => True
  | .run i e => e.fails = false → ∀ o ∈ (c.next i).bind repoCall, InvoiceStep key c.shared.accounts o

instance (key : String) (l : Accounts) : (o : RepoOp) → Decidable (InvoiceStep key l o)
  | .createInvoiceRecord k _ => inferInstanceAs (Decidable (k = key → _ → _))
  | .createAccount _ => isTrue trivial
  | .admitAccount _ _ => isTrue trivial
  | .getAccountBalance _ => isTrue trivial
  | .updateAccountBalance _ _ _ => isTrue trivial
  | .updateInvoice _ _ => isTrue trivial
  | .getUnpaidInvoice _ => isTrue trivial

instance (key : String) (c : Configuration) : (a : Action) → Decidable (OneInvoice key c a)
  | .spawn _ => isTrue trivial
  | .run i e => inferInstanceAs (Decidable (e.fails = false → ∀ o ∈ (c.next i).bind repoCall, _))

/-! ## The invariant

At most one invoice of the key is unpaid, and once one is recorded as paid the key is admitted, or
a pending request that is still running is about to admit it. -/

/-- At most one invoice of the key is unpaid, and a paid one has led to the admission, or
is about to. -/
structure Settled (rl : Relay) (paid : PaidNames) (key : String) (c : Configuration) : Prop where
  funds : Funds rl paid key c
  fits : ∀ hash inv, c.shared.accounts.invoice? hash = some inv → fitsI64 inv.amount = true
  single : ∀ hash hash' i j, c.shared.accounts.invoice? hash = some i →
    c.shared.accounts.invoice? hash' = some j → i.pubkey = key → j.pubkey = key →
    i.status = .unpaid → j.status = .unpaid → hash = hash'
  settled : ∀ hash inv, c.shared.accounts.invoice? hash = some inv → inv.pubkey = key →
    inv.status = .paid → c.shared.accounts.Admitted key ∨
      ∃ t ∈ c.threads, pending key t = true ∧ t.code.next.isSome = true

section Invariant

variable {rl : Relay} {paid : PaidNames} {key : String} {c : Configuration} {i : Nat} {e : Env}
  {r : Request} {past : List Call} {o : Op} {k : o.Res → Task Answer}

/-- The name authority records invoices as paid or expired. -/
theorem update_inv (hr : asksForName r = true) {hash : String} {status : InvoiceStatus}
    (h : rl.Calls r past (updateInvoiceOp hash status)) : status = .paid ∨ status = .expired := by
  obtain ⟨_, _, _, -, hg⟩ := repo_inv hr h
  cases hg with
  | markPaid _ => exact .inl rfl
  | markExpired _ => exact .inr rfl

/-- Repository calls of the name authority come from register requests. -/
theorem register_of_repo (hr : asksForName r = true) {op : RepoOp}
    (h : rl.Calls r past (.repo op)) : ∃ req, r = .register req := by
  cases r with
  | register req => exact ⟨req, rfl⟩
  | unregister name req => cases h
  | payment m => cases hr
  | event pk => cases hr

/-- A pending request is still running. -/
theorem running_of_pending {t : Task.Thread}
    (hobeys : Obeys (rl.Calls t.request) (rl.Results t.request) t.past t.code)
    (hreg : ∃ req, t.request = .register req) (hp : pending key t = true) :
    t.code.next.isSome = true := by
  obtain ⟨req, hreq⟩ := hreg
  obtain ⟨hash, rest, hpast⟩ := pending_inv hp
  rcases hcode : t.code with ans | ⟨o, k⟩
  · rw [hcode, hreq, hpast] at hobeys
    have hresult := Process.obeys_ret.mp hobeys
    cases ans with
    | finished => exact absurd hresult id
    | http resp =>
      obtain ⟨_, _, _, -, -, hg⟩ := RegisterResult.gate_inv hresult rfl
      cases hg
  · rfl

theorem Settled.init (clock : Nat) : Settled rl paid key (System.init (Shared.start clock)) where
  funds := .init clock
  fits := fun hash inv h => (by cases h)
  single := fun hash hash' i j h => (by cases h)
  settled := fun hash inv h => (by cases h)

theorem Settled.spawn (h : Settled rl paid key c) (hr : asksForName r = true) :
    Settled rl paid key (rl.system.step c (.spawn r)) where
  funds := h.funds.spawn hr
  fits := h.fits
  single := h.single
  settled := by
    intro hash inv hinv hkey hpaid
    obtain hadm | ⟨t, ht, hp⟩ := h.settled hash inv hinv hkey hpaid
    · exact .inl hadm
    · exact .inr ⟨t, List.mem_append_left _ ht, hp⟩

theorem Settled.fits_fire (h : Settled rl paid key c) (hash : String) (inv : Invoice)
    (hinv : (rl.system.exec c.shared e o).1.accounts.invoice? hash = some inv) :
    fitsI64 inv.amount = true := by
  obtain heq | ⟨op, rfl, -, hw⟩ := Op.writes_exec rl.engine c.shared e o
  · exact h.fits hash inv (heq ▸ hinv)
  · obtain ⟨status, hold, -⟩ | ⟨info, -, -, hamount, -, -, hfit⟩ := hw.invoice_inv hinv
    · have hfit := h.fits hash _ hold
      exact hfit
    · rw [hamount]
      exact hfit

/-- Where an unpaid invoice comes from. -/
theorem Settled.unpaid_inv (h : Settled rl paid key c) (hc : rl.Sound c)
    (hC : OneInvoice key c (.run i e)) (hi : c.threads[i]? = some ⟨r, past, .call o k⟩)
    {hash : String} {inv : Invoice} (hkey : inv.pubkey = key) (hunpaid : inv.status = .unpaid)
    (hinv : (rl.system.exec c.shared e o).1.accounts.invoice? hash = some inv) :
    c.shared.accounts.invoice? hash = some inv ∨
      ∃ info, o = recordInvoiceOp key info ∧ info.paymentHash = hash ∧
        ∀ hash' j, c.shared.accounts.invoice? hash' = some j → j.pubkey = key →
          j.status ≠ .unpaid := by
  obtain heq | ⟨op, rfl, hf, hw⟩ := Op.writes_exec rl.engine c.shared e o
  · exact .inl (heq ▸ hinv)
  · obtain ⟨status, hold, hstatus⟩ | ⟨info, rfl, hhash, -, hst, hnew, -⟩ := hw.invoice_inv hinv
    · rcases hstatus with rfl | rfl
      · exact .inl hold
      · -- nothing is recorded as unpaid again
        rw [hunpaid] at hi
        rcases update_inv (h.funds.requests _ (List.mem_of_getElem? hi))
          (Process.obeys_call.mp (hc.obeys hi)).1 with hs | hs
        · cases hs
        · cases hs
    · rw [hkey]
      refine .inr ⟨info, rfl, hhash, fun hash' j hj hkj => ?_⟩
      have hstep := hC hf (.createInvoiceRecord inv.pubkey info)
        (by rw [Process.Config.next_of_getElem? hi]; rfl) hkey (hhash ▸ hnew)
      exact hstep.2 (hst.symm.trans hunpaid) j (Ledger.mem_of_invoice? hj).1 hkj

theorem Settled.single_fire (h : Settled rl paid key c) (hc : rl.Sound c)
    (hC : OneInvoice key c (.run i e)) (hi : c.threads[i]? = some ⟨r, past, .call o k⟩)
    (hash hash' : String) (x y : Invoice)
    (hx : (rl.system.exec c.shared e o).1.accounts.invoice? hash = some x)
    (hy : (rl.system.exec c.shared e o).1.accounts.invoice? hash' = some y)
    (hkx : x.pubkey = key) (hky : y.pubkey = key) (hux : x.status = .unpaid)
    (huy : y.status = .unpaid) : hash = hash' := by
  obtain hold | ⟨info, rfl, rfl, hnone⟩ := h.unpaid_inv hc hC hi hkx hux hx
  · obtain hold' | ⟨info, rfl, rfl, hnone⟩ := h.unpaid_inv hc hC hi hky huy hy
    · exact h.single hash hash' x y hold hold' hkx hky hux huy
    · exact absurd hux (hnone hash x hold hkx)
  · obtain hold' | ⟨info', ho, rfl, -⟩ := h.unpaid_inv hc hC hi hky huy hy
    · exact absurd huy (hnone hash' y hold' hky)
    · cases ho
      rfl

/-- What a pending request does next. -/
theorem grant_of_pending (hkept : Remembered rl c) (hc : rl.Sound c) (hr : asksForName r = true)
    (hpaid : rl.authority.paid = some paid) (hi : c.threads[i]? = some ⟨r, past, .call o k⟩)
    (hp : pending key ⟨r, past, .call o k⟩ = true) : o = admitOp key paid.priceNanogrin := by
  obtain ⟨hash, rest, hpast⟩ := pending_inv hp
  obtain rfl : past = _ := hpast
  have hcall := (Process.obeys_call.mp (hc.obeys hi)).1
  have hgrant : ∃ k cost, o = admitOp k cost := by
    cases r with
    | register req =>
      cases hcall with
      | gate _ _ _ hg =>
        cases hg with
        | grant _ => exact ⟨_, _, rfl⟩
      | insertPaid _ _ _ hres => cases hres
    | unregister name req => cases hcall
    | payment m => cases hr
    | event pk => cases hr
  obtain ⟨k', cost, rfl⟩ := hgrant
  obtain ⟨rfl, hp'⟩ := pending_of_grant hkept hc hr hpaid hi
  obtain ⟨_, _, hpast'⟩ := pending_inv hp'
  cases hpast'
  rfl

/-- The price of a recorded invoice can be taken. -/
theorem Settled.admit_ok (h : Settled rl paid key c) (hf : e.fails = false) {hash : String}
    {inv : Invoice} (hinv : c.shared.accounts.invoice? hash = some inv) :
    (rl.system.exec c.shared e (admitOp key paid.priceNanogrin)).2 = .ok () := by
  have hexec : rl.system.exec c.shared e (admitOp key paid.priceNanogrin) =
      ({ c.shared.tick e with accounts :=
          (c.shared.accounts.admitAccount key paid.priceNanogrin).1 },
        (c.shared.accounts.admitAccount key paid.priceNanogrin).2) := Op.exec_repo hf
  have hfit := h.fits hash inv hinv
  rw [h.funds.amounts hash inv hinv] at hfit
  rw [hexec, Accounts.admitAccount, if_pos hfit]

/-- An invoice that was paid before the step. -/
theorem Settled.paid_fire (h : Settled rl paid key c) (hc : rl.Sound c)
    (hpaid : rl.authority.paid = some paid) (hf : e.fails = false)
    (hi : c.threads[i]? = some ⟨r, past, .call o k⟩) {hash : String} {inv : Invoice}
    (hinv : c.shared.accounts.invoice? hash = some inv) (hkey : inv.pubkey = key)
    (hst : inv.status = .paid) :
    (rl.system.fire c i e r past o k).shared.accounts.Admitted key ∨
      ∃ t ∈ (rl.system.fire c i e r past o k).threads,
        pending key t = true ∧ t.code.next.isSome = true := by
  obtain hadm | ⟨t, ht, hp, hrun⟩ := h.settled hash inv hinv hkey hst
  · exact .inl (admitted_fire o hadm)
  · obtain ⟨j, hj⟩ := List.getElem?_of_mem ht
    by_cases hji : i = j
    · -- the pending request takes its step
      subst hji
      rw [hi] at hj
      cases hj
      obtain rfl := grant_of_pending h.funds.kept hc
        (h.funds.requests _ (List.mem_of_getElem? hi)) hpaid hi hp
      exact .inl (admitted_of_grant h.funds.kept hc hi (h.admit_ok hf hinv))
    · exact .inr ⟨t, List.mem_of_getElem? ((List.getElem?_set_ne hji).trans hj), hp, hrun⟩

/-- Who records a payment is about to admit the key. -/
theorem pending_of_record (hc : rl.Sound c) (hf : e.fails = false) (hr : asksForName r = true)
    {hash : String} {inv : Invoice} {k : (updateInvoiceOp hash .paid).Res → Task Answer}
    (hi : c.threads[i]? = some ⟨r, past, .call (updateInvoiceOp hash .paid) k⟩)
    (hinv : c.shared.accounts.invoice? hash = some inv) (hkey : inv.pubkey = key) :
    ∃ t ∈ (rl.system.fire c i e r past (updateInvoiceOp hash .paid) k).threads,
      pending key t = true ∧ t.code.next.isSome = true := by
  have hexec : rl.system.exec c.shared e (updateInvoiceOp hash .paid) =
      ({ c.shared.tick e with accounts := (c.shared.accounts.updateInvoice hash .paid).1 },
        (c.shared.accounts.updateInvoice hash .paid).2) := Op.exec_repo hf
  have hans : (rl.system.exec c.shared e (updateInvoiceOp hash .paid)).2 = .ok key := by
    rw [hexec, ← hkey]
    exact Accounts.updateInvoice_ok hinv .paid
  have hself : (rl.system.fire c i e r past (updateInvoiceOp hash .paid) k).threads[i]? =
      some (rl.system.fired c.shared e r past (updateInvoiceOp hash .paid) k) :=
    List.getElem?_set_self (List.getElem?_eq_some_iff.mp hi).1
  have hp : pending key (rl.system.fired c.shared e r past (updateInvoiceOp hash .paid) k) =
      true := by
    simp only [pending, System.fired, List.head?_cons, Option.any_some, hans, recordsPaid, beq_self_eq_true]
  refine ⟨_, List.mem_of_getElem? hself, hp, running_of_pending ((hc.fire hi).obeys hself) ?_ hp⟩
  exact register_of_repo hr (Process.obeys_call.mp (hc.obeys hi)).1

/-- A paid invoice is either still being worked on or settled. -/
theorem Settled.settled_fire (h : Settled rl paid key c) (hc : rl.Sound c)
    (hpaid : rl.authority.paid = some paid) (hf : e.fails = false)
    (hC : OneInvoice key c (.run i e)) (hi : c.threads[i]? = some ⟨r, past, .call o k⟩)
    (hash : String) (inv : Invoice)
    (hinv : (rl.system.exec c.shared e o).1.accounts.invoice? hash = some inv)
    (hkey : inv.pubkey = key) (hst : inv.status = .paid) :
    (rl.system.fire c i e r past o k).shared.accounts.Admitted key ∨
      ∃ t ∈ (rl.system.fire c i e r past o k).threads,
        pending key t = true ∧ t.code.next.isSome = true := by
  obtain heq | ⟨op, rfl, -, hw⟩ := Op.writes_exec rl.engine c.shared e o
  · exact h.paid_fire hc hpaid hf hi (heq ▸ hinv) hkey hst
  · obtain ⟨status, hold, hstatus⟩ | ⟨info, rfl, hhash, -, hinfo, hnew, -⟩ := hw.invoice_inv hinv
    · rcases hstatus with rfl | rfl
      · exact h.paid_fire hc hpaid hf hi hold hkey hst
      · -- the payment is recorded in this step
        rcases inv with ⟨_, _, _, _, st, _, _⟩
        obtain rfl : st = .paid := hst
        exact .inr (pending_of_record hc hf (h.funds.requests _ (List.mem_of_getElem? hi)) hi hold
          hkey)
    · have hstep := hC hf (.createInvoiceRecord inv.pubkey info)
        (by rw [Process.Config.next_of_getElem? hi]; rfl) hkey (hhash ▸ hnew)
      exact absurd (hinfo.symm.trans hst) hstep.1

theorem Settled.fire (h : Settled rl paid key c) (hc : rl.Sound c)
    (hpaid : rl.authority.paid = some paid) (hf : e.fails = false)
    (hcredited : Credited key c (.run i e)) (hC : OneInvoice key c (.run i e))
    (hi : c.threads[i]? = some ⟨r, past, .call o k⟩) :
    Settled rl paid key (rl.system.fire c i e r past o k) where
  funds := h.funds.fire hc hpaid hcredited hi
  fits := h.fits_fire
  single := h.single_fire hc hC hi
  settled := h.settled_fire hc hpaid hf hC hi

end Invariant

/-! ## The gate on its own

The last request runs when all others are finished. Then nothing is pending, so by the invariant
the gate finds the account admitted or the paid invoice unpaid. -/

section Gate

variable {eng : Sql.Engine} {paid : PaidNames} {key hash : String} {l : Accounts} {s : Shared}
  {past : List Call}

/-- No repository error, and the processor reports the invoice as paid. -/
def Reported (hash : String) (e : Env) : Prop := e.fails = false ∧ e.checkInvoice hash = some .paid

/-- The last operation is not one of the gate. -/
def OutOfGate (past : List Call) : Prop := ∀ x ∈ past.head?, Op.inGate x.op = false

/-- How the gate ends when it lets the key pass. -/
abbrev Passes : Shared → List Call → Option Response → Prop :=
  GateEnds (fun _ => True) fun _ past => OutOfGate past

/-- A repository call whose answer does not depend on the clock. -/
theorem alone_repo {E : Shared → Op → Env → Prop} (hE : ∀ s o e, E s o e → e.fails = false)
    (op : RepoOp) (ans : op.Res) {k : op.Res → Task (Option Response)}
    (hs : s.accounts = l) (hans : ∀ now, (l.exec eng now op).2 = ans)
    (h : ∀ s' now, s'.accounts = (l.exec eng now op).1 →
      Alone (Op.exec eng) E Passes s' (⟨.repo op, ans⟩ :: past) (k ans)) :
    Alone (Op.exec eng) E Passes s past (.call (.repo op) k) := by
  refine .call fun e he => ?_
  rw [Op.exec_repo (hE _ _ _ he), hs, hans]
  exact h _ _ rfl

/-- Alone, a confirmed payment is let through. -/
theorem confirm_alone {info : InvoiceInfo} {inv : Invoice} (hs : s.accounts = l)
    (hinv : l.invoice? info.paymentHash = some inv) (hfit : fitsI64 paid.priceNanogrin = true) :
    Alone (Op.exec eng) (fun _ _ e => Reported hash e) Passes s past (confirm paid key info) := by
  refine alone_repo (fun _ _ _ he => he.1) (.updateInvoice _ _) (.ok inv.pubkey) hs
    (fun now => Accounts.updateInvoice_ok hinv .paid) fun s' now hs' => ?_
  refine alone_repo (fun _ _ _ he => he.1) (.admitAccount _ _) (.ok ()) hs' (fun now => ?_)
    fun s'' now _ => .ret trivial
  rw [Accounts.exec, Accounts.admitAccount, if_pos hfit]

/-- The gate of an admitted key, whose account can be read. -/
theorem gate_admitted {E : Shared → Op → Env → Prop} (hE : ∀ s o e, E s o e → e.fails = false)
    (hcov : Covered l key 0) (hadm : l.Admitted key) (hs : s.accounts = l) :
    Alone (Op.exec eng) E Passes s past (gate paid key) := by
  obtain ⟨b, hb⟩ := hcov.read hadm
  exact alone_repo hE (.getAccountBalance _) (.ok (true, b)) hs (fun now => hb)
    fun s' now _ => .ret trivial

/-- The gate of a key whose only unpaid invoice has been paid. -/
theorem gate_unpaid {inv : Invoice} (hinv : l.invoice? hash = some inv) (hkey : inv.pubkey = key)
    (hunpaid : inv.status = .unpaid) (hfit : fitsI64 paid.priceNanogrin = true)
    (hsingle : ∀ j ∈ l.unpaidInvoices key, j.paymentHash = hash) (hs : s.accounts = l) :
    Alone (Op.exec eng) (fun _ _ e => Reported hash e) Passes s past (gate paid key) := by
  have hout : ∀ s', s'.accounts = l → ∀ past, Alone (Op.exec eng) (fun _ _ e => Reported hash e)
      Passes s' past (outstanding paid key) := by
    intro s' hs' past
    obtain ⟨info, hinfo, rfl⟩ := Accounts.getUnpaidInvoice_of_single eng hinv hkey hunpaid hsingle
    refine alone_repo (fun _ _ _ he => he.1) (.getUnpaidInvoice _) (.ok (some info)) hs'
      (fun now => hinfo) fun s' now hs' => ?_
    refine .call fun e he => ?_
    have hcheck : (Op.exec eng s' e (checkOp info.paymentHash)).2 = some .paid := he.2
    rw [hcheck]
    exact confirm_alone hs' hinv hfit
  refine alone_repo (fun _ _ _ he => he.1) (.getAccountBalance _) (l.getAccountBalance key) hs
    (fun now => rfl) fun s' now hs' => ?_
  rcases l.getAccountBalance key with err | ⟨_ | _, b⟩
  · exact hout s' hs' _
  · exact hout s' hs' _
  · exact .ret trivial

/-- Outside the gate the accounts stay as they are. -/
theorem around_gate : Around (Op.exec eng) (fun s => s.accounts = l) (fun _ => True)
    fun _ past => OutOfGate past where
  before := by
    intro s o e past ho hs
    refine ⟨(Op.exec_accounts fun r hr => ?_).trans hs, fun x hx => ?_⟩
    · rw [hr] at ho
      cases ho
    · cases hx
      exact ho
  after := by
    intro s o e past ho _ x hx
    cases hx
    exact ho

/-- When all requests have finished, an invoice that has been paid and is not recorded as
expired opens the gate. -/
theorem Settled.gate_alone {rl : Relay} {c : Configuration} (h : Settled rl paid key c)
    (hdone : ∀ t ∈ c.threads, t.code.next = none) (hinv : InvoiceOf c.shared.accounts hash key)
    (hopen : c.shared.accounts.Admitted key ∨
      ∀ inv ∈ c.shared.accounts.invoice? hash, inv.status ≠ .expired)
    (hs : s.accounts = c.shared.accounts) :
    Alone (Op.exec eng) (fun _ _ e => Reported hash e) Passes s past (gate paid key) := by
  by_cases hadm : c.shared.accounts.Admitted key
  · exact gate_admitted (fun _ _ _ he => he.1) (h.funds.covered.mono (Nat.zero_le _)) hadm hs
  · obtain ⟨inv, hinv, hkey⟩ := hinv
    have hunpaid : inv.status = .unpaid := by
      rcases hst : inv.status
      · rfl
      · -- a recorded payment has led to the admission
        obtain hadm' | ⟨t, ht, -, hrun⟩ := h.settled hash inv hinv hkey hst
        · exact absurd hadm' hadm
        · rw [hdone t ht] at hrun
          cases hrun
      · exact absurd hst (hopen.resolve_left hadm inv hinv)
    have hfit := h.fits hash inv hinv
    rw [h.funds.amounts hash inv hinv] at hfit
    refine gate_unpaid hinv hkey hunpaid hfit (fun j hj => ?_) hs
    rw [Accounts.unpaidInvoices, List.mem_filter, Bool.and_eq_true, beq_iff_eq, beq_iff_eq] at hj
    exact h.single _ _ j inv (Ledger.invoice?_eq_some hj.1 rfl) hinv hj.2.1 hkey hj.2.2 hunpaid

/-- Who ends outside the gate is not refused by it. -/
theorem not_refused_of_alone {exec : Shared → Env → (o : Op) → Shared × o.Res}
    {E : Shared → Op → Env → Prop} {r : Request} {p : Task Answer}
    (h : Alone exec E (fun _ past _ => OutOfGate past) s past p) :
    refusedByGate ⟨r, past, p⟩ = false := by
  cases p with
  | call o k => rfl
  | ret ans =>
    have hout := Process.alone_ret.mp h
    rcases past with _ | ⟨x, rest⟩
    · rfl
    · exact hout x rfl

end Gate

/-! ## Runs -/

/-- A request that comes when nothing else runs, for which the gate, on the tables as they
are, lets its key pass. -/
theorem next_request_passes (rl : Relay) (clock : Nat) (xs : List Action) (req : HttpRequest)
    (key : String) (hkey : req.signer rl.authority = some key) {E : Shared → Op → Env → Prop}
    {es : List Env} (hes : ∀ e ∈ es, ∀ s o, E s o e)
    (hgate : ∀ s past paid, rl.authority.paid = some paid →
      s.accounts = (rl.run clock xs).shared.accounts →
      Alone (Op.exec rl.engine) E Passes s past (gate paid key)) :
    ∃ t, (rl.run clock (xs ++ .spawn (.register req) ::
        es.map (.run (rl.run clock xs).threads.length))).threads[
          (rl.run clock xs).threads.length]? = some t ∧
      refusedByGate t = false ∧ (12 ≤ es.length → t.code.next = none) := by
  have hn : (rl.system.step (rl.run clock xs) (.spawn (.register req))).threads[
      (rl.run clock xs).threads.length]? = some ⟨.register req, [], rl.program (.register req)⟩ :=
    List.getElem?_concat_length
  have halone : Alone rl.system.exec E (fun _ past _ => OutOfGate past)
      (rl.run clock xs).shared [] (rl.program (.register req)) := by
    refine Alone.map (register_alone around_gate rfl ?_) fun _ _ _ h => h
    intro s past paid key' hp hk hs
    obtain rfl : key' = key := Option.some.inj (hk.symm.trans hkey)
    exact hgate s past paid hp hs
  obtain ⟨past, p, ht, hp, hlen⟩ := System.alone_run hn halone hes
  have hrun : rl.run clock (xs ++ .spawn (.register req) ::
      es.map (.run (rl.run clock xs).threads.length)) = Machine.run rl.system.step
        (rl.system.step (rl.run clock xs) (.spawn (.register req)))
        (es.map (.run (rl.run clock xs).threads.length)) := Machine.run_append ..
  rw [hrun]
  refine ⟨_, ht, not_refused_of_alone hp, fun h12 => ?_⟩
  obtain hnone | hlen := hlen
  · exact hnone
  · rw [← hrun] at ht
    have hobeys := (System.sound_run rl.obeys (Shared.start clock) _).obeys ht
    rcases hnext : p.next with _ | o
    · rfl
    · have hle := RegisterCall.length_le (hobeys.of_next hnext)
      have hrank := Op.rank_le o
      simp only [List.length_nil] at hlen hle
      omega

/-- In every run of requests to the name authority without repository errors in which each
payment of the key is recorded while its invoice is unpaid and the key never has a second
unpaid invoice: once all requests have finished, an invoice of the key that is paid at the
processor lets the next request pass, unless it was recorded as expired. -/
theorem paid_invoice_passes (rl : Relay) (paid : PaidNames) (hpaid : rl.authority.paid = some paid)
    (key : String) (clock : Nat) (xs : List Action) (req : HttpRequest)
    (hkey : req.signer rl.authority = some key) (hash : String) (es : List Env)
    (hxs : Machine.Along rl.system.step
      (fun c a => NameTraffic a ∧ ErrorFree a ∧ Credited key c a ∧ OneInvoice key c a)
      (System.init (Shared.start clock)) xs)
    (hdone : ∀ t ∈ (rl.run clock xs).threads, t.code.next = none)
    (hinv : InvoiceOf (rl.run clock xs).shared.accounts hash key)
    (hopen : (rl.run clock xs).shared.accounts.Admitted key ∨
      ∀ inv ∈ (rl.run clock xs).shared.accounts.invoice? hash, inv.status ≠ .expired)
    (hes : ∀ e ∈ es, Reported hash e) :
    ∃ t, (rl.run clock (xs ++ .spawn (.register req) ::
        es.map (.run (rl.run clock xs).threads.length))).threads[
          (rl.run clock xs).threads.length]? = some t ∧
      refusedByGate t = false ∧ (12 ≤ es.length → t.code.next = none) := by
  obtain ⟨hc, hsettled⟩ := System.invariant_along (P := Settled rl paid key) rl.obeys
    (.init clock) (fun c r _ hC hP => hP.spawn hC.1)
    (fun c i e r past o k hc hC hP hi => hP.fire hc hpaid hC.2.1 hC.2.2.1 hC.2.2.2 hi) hxs
  refine next_request_passes rl clock xs req key hkey (E := fun _ _ e => Reported hash e)
    (fun e he _ _ => hes e he) ?_
  intro s past paid' hp hs
  obtain rfl : paid' = paid := Option.some.inj (hp.symm.trans hpaid)
  exact hsettled.gate_alone hdone hinv hopen hs

/-! ## Samples -/

open NameAuthority.Arrival (runsWith)

/-- Ada asks for a name twice at once; both requests find no invoice, and the second invoice
is recorded a second later. -/
def firstContacts : List (Process.Act Arrival Env) :=
  .spawn .ada :: .spawn .ada2 :: runsWith {} 0 8 ++ runsWith {} 1 8 ++
    runsWith (paidEnv "inv-1") 0 3 ++ runsWith { paidEnv "inv-2" with elapsed := secs 1 } 1 3

/-- Ada asks once and pays. -/
def firstContact : List (Process.Act Arrival Env) := .spawn .ada :: runsWith (paidEnv "inv-1") 0 11

/-- Only the first invoice is paid. -/
def firstPaid : Env where
  checkInvoice hash := some (if hash = "inv-1" then .paid else .unpaid)

/-- All samples have finished. -/
theorem finished_of_sample {clock : Nat} {acts : List (Process.Act Arrival Env)}
    (h : ∀ t ∈ (sampleRun (some samplePaid) clock acts).threads, t.code.next.isNone = true) :
    ∀ t ∈ ((sampleRelay (some samplePaid)).run clock
      (acts.map (Process.Act.rename Arrival.request))).threads, t.code.next = none := by
  rw [run_samples]
  intro t ht
  obtain ⟨u, hu, rfl⟩ := List.mem_map.mp ht
  exact Option.isNone_iff_eq_none.mp (h u hu)

/-- The recorded invoice. -/
theorem invoice_of_sample (clock : Nat) (acts : List (Process.Act Arrival Env)) (hash : String)
    (inv : Invoice)
    (h : (sampleRun (some samplePaid) clock acts).shared.accounts.invoice? hash = some inv) :
    ((sampleRelay (some samplePaid)).run clock
      (acts.map (Process.Act.rename Arrival.request))).shared.accounts.invoice? hash =
      some inv := by
  rwa [shared_samples]

theorem paid_invoice_passes_ada : ∃ t,
    ((sampleRelay (some samplePaid)).run (secs 1700000007)
      (firstContact.map (Process.Act.rename Arrival.request) ++
        .spawn (.register (Signed.registerAda2.register "203.0.113.7")) ::
        (List.replicate 12 firstPaid).map
          (.run ((sampleRelay (some samplePaid)).run (secs 1700000007)
            (firstContact.map (Process.Act.rename Arrival.request))).threads.length))).threads[
      ((sampleRelay (some samplePaid)).run (secs 1700000007)
        (firstContact.map (Process.Act.rename Arrival.request))).threads.length]? = some t ∧
    refusedByGate t = false ∧ (12 ≤ (List.replicate 12 firstPaid).length → t.code.next = none) := by
  have hinv := invoice_of_sample (secs 1700000007) firstContact "inv-1" ⟨"inv-1",
    Signed.registerAda.pubkey, "https://pay.example/inv-1", 1000000000, .unpaid, "admission",
    1700000007⟩ (by decide +kernel)
  refine paid_invoice_passes (sampleRelay (some samplePaid)) samplePaid rfl
    Signed.registerAda.pubkey (secs 1700000007)
    (firstContact.map (Process.Act.rename Arrival.request))
    (Signed.registerAda2.register "203.0.113.7") ?_ "inv-1" (List.replicate 12 firstPaid) ?_ ?_
    ⟨_, hinv, rfl⟩ (.inr ?_) ?_
  · exact Signed.signer_lib Signed.distinct_samples
      (by simp [Signed.samples] : Signed.registerAda2 ∈ Signed.samples)
  · exact along_samples _ (by decide +kernel)
  · exact finished_of_sample (by decide +kernel)
  · intro inv hmem
    rw [hinv] at hmem
    cases hmem
    exact fun h => (by cases h)
  · intro e he
    rw [List.eq_of_mem_replicate he]
    exact ⟨rfl, rfl⟩

theorem firstContacts_refused :
    ((sampleRun (some samplePaid) (secs 1700000007)
      (firstContacts ++ .spawn .ada3 :: runsWith firstPaid 2 12)).threads[2]?.map
        fun t => refusedByGate (t.rename Arrival.request)) = some true := by
  decide +kernel

theorem first_contacts_race :
    Machine.Along (sampleRelay (some samplePaid)).system.step
      (fun _ a => NameTraffic a ∧ ErrorFree a) (System.init (Shared.start (secs 1700000007)))
      (firstContacts.map (Process.Act.rename Arrival.request)) ∧
    (∀ t ∈ ((sampleRelay (some samplePaid)).run (secs 1700000007)
      (firstContacts.map (Process.Act.rename Arrival.request))).threads, t.code.next = none) ∧
    InvoiceOf ((sampleRelay (some samplePaid)).run (secs 1700000007)
      (firstContacts.map (Process.Act.rename Arrival.request))).shared.accounts "inv-1"
      Signed.registerAda.pubkey ∧
    (∀ e ∈ List.replicate 12 firstPaid, Reported "inv-1" e) ∧
    ¬∃ t, ((sampleRelay (some samplePaid)).run (secs 1700000007)
      (firstContacts.map (Process.Act.rename Arrival.request) ++ .spawn Arrival.ada3.request ::
        (runsWith firstPaid 2 12).map (Process.Act.rename Arrival.request))).threads[
          ((sampleRelay (some samplePaid)).run (secs 1700000007)
            (firstContacts.map (Process.Act.rename Arrival.request))).threads.length]? = some t ∧
      refusedByGate t = false := by
  refine ⟨along_samples _ (by decide +kernel), finished_of_sample (by decide +kernel),
    ⟨⟨"inv-1", Signed.registerAda.pubkey, "https://pay.example/inv-1", 1000000000, .unpaid,
      "admission", 1700000007⟩, invoice_of_sample _ _ _ _ (by decide +kernel), rfl⟩, ?_, ?_⟩
  · intro e he
    rw [List.eq_of_mem_replicate he]
    exact ⟨rfl, rfl⟩
  · rintro ⟨t, ht, hpass⟩
    obtain ⟨u, hu, rfl⟩ := thread_of_sample (x := .ada3) (n := 2) (by decide +kernel) ht
    have hrefused := firstContacts_refused
    rw [hu, Option.map_some, hpass] at hrefused
    cases hrefused

end Floonet.NameAuthority
