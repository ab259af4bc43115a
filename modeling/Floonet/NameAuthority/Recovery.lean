import Floonet.NameAuthority.Outstanding

/-!
# Repository failures

Recording a payment and admitting the key are two transactions. When the second one fails,
the request ends with an error and no later one looks at the invoice again
(`admission_lost`). In runs where requests of a key come one after the other and an
admission only fails if the key is already admitted, every other failure is recovered from:
between requests, a key with a paid invoice is admitted and its next request passes
(`payment_recovered`).
-/

namespace Floonet.NameAuthority

open Payment
open Sqlite (Accounts RepoOp)
open Process (Alone System Act)

/-! ## The condition

Two writes belong together: the payment is recorded and credited, then the key is admitted. A
payment is out of reach of later requests when the second one fails after the first, when an
invoice is recorded as paid from the start, or when the balance has no room for the credit. -/

/-- What may not happen to the key: an admission that fails, an invoice that is paid when it
is recorded, both unless the key is admitted; and a credit without room for it. -/
def RecoverableStep (key : String) (s : Shared) (e : Env) : RepoOp → Prop
  | .admitAccount k _ => k = key → e.fails = true → s.accounts.Admitted key
  | .createInvoiceRecord k info => k = key → e.fails = false → info.status = .paid →
      s.accounts.Admitted key
  | .updateInvoice hash .paid => e.fails = false → ∀ inv ∈ s.accounts.invoice? hash,
      inv.amount = 0 ∨ ∀ a ∈ s.accounts.account? key, hasRoom inv.amount a.balance = true
  | _ => True

instance (key : String) (s : Shared) (e : Env) : (o : RepoOp) →
    Decidable (RecoverableStep key s e o)
  | .admitAccount k _ => inferInstanceAs (Decidable (k = key → _ → _))
  | .createInvoiceRecord k _ => inferInstanceAs (Decidable (k = key → _ → _ → _))
  | .updateInvoice _ .paid => inferInstanceAs (Decidable (_ → ∀ inv ∈ _, _))
  | .updateInvoice _ .unpaid => isTrue trivial
  | .updateInvoice _ .expired => isTrue trivial
  | .createAccount _ => isTrue trivial
  | .getAccountBalance _ => isTrue trivial
  | .updateAccountBalance _ _ _ => isTrue trivial
  | .getUnpaidInvoice _ => isTrue trivial

/-- The condition on a call. -/
def Recoverable (key : String) (s : Shared) (o : Op) (e : Env) : Prop :=
  ∀ r ∈ repoCall o, RecoverableStep key s e r

instance (key : String) (s : Shared) (o : Op) (e : Env) : Decidable (Recoverable key s o e) :=
  inferInstanceAs (Decidable (∀ r ∈ repoCall o, _))

instance (c : Configuration) : (a : Action) → Decidable (System.Sequential c a)
  | .spawn _ => inferInstanceAs (Decidable (∀ t ∈ c.threads, _))
  | .run _ _ => isTrue trivial

instance (key : String) (c : Configuration) :
    (a : Action) → Decidable (System.Allowed (Recoverable key) c a)
  | .spawn _ => isTrue trivial
  | .run i _ => inferInstanceAs (Decidable (∀ o ∈ c.next i, _))

/-! ## Between requests

When no request of the key is running, each paid invoice has led to the admission or is still
unpaid in the table, where the next request finds it. -/

/-- Invoices of the key carry the price. -/
def Priced (paid : PaidNames) (key : String) (l : Accounts) : Prop :=
  ∀ hash inv, l.invoice? hash = some inv → inv.pubkey = key →
    inv.amount = paid.priceNanogrin ∧ fitsI64 inv.amount = true

/-- A paid invoice of the key has led to its admission, and its account can be read. -/
structure Recovered (paid : PaidNames) (key : String) (l : Accounts) : Prop where
  admitted : ∀ hash inv, l.invoice? hash = some inv → inv.pubkey = key → inv.status = .paid →
    l.Admitted key
  priced : Priced paid key l
  covered : Covered l key 0

/-- A payment has been recorded and credited, and the key is about to be admitted. -/
structure Confirming (paid : PaidNames) (key : String) (l : Accounts) : Prop where
  account : (l.account? key).isSome
  fits : fitsI64 paid.priceNanogrin = true
  priced : Priced paid key l
  covered : Covered l key paid.priceNanogrin

section Writes

variable {paid : PaidNames} {key hash : String} {l l' : Accounts} {o : RepoOp} {inv : Invoice}

/-- Prices stay, if new invoices are at the price. -/
theorem Priced.writes (h : Priced paid key l) (hw : l.Writes o l')
    (hnew : ∀ info, o = .createInvoiceRecord key info → info.amount = paid.priceNanogrin) :
    Priced paid key l' := by
  intro hash inv hinv hkey
  obtain ⟨status, hold, -⟩ | ⟨info, rfl, -, hamount, -, -, hfit⟩ := hw.invoice_inv hinv
  · have hpriced := h hash _ hold hkey
    exact hpriced
  · rw [hamount]
    exact ⟨hnew info (by rw [hkey]), hfit⟩

/-- A write that does not confirm a payment. -/
theorem Recovered.writes (h : Recovered paid key l) (hw : l.Writes o l')
    (hnew : ∀ info, o = .createInvoiceRecord key info →
      info.amount = paid.priceNanogrin ∧ (info.status = .paid → l.Admitted key))
    (hupdate : ∀ hash, o ≠ .updateInvoice hash .paid) (hcov : Covered l' key 0) :
    Recovered paid key l' where
  admitted := by
    intro hash inv hinv hkey hpaid
    obtain ⟨status, hold, hstatus⟩ | ⟨info, rfl, -, -, hst, -, -⟩ := hw.invoice_inv hinv
    · rcases hstatus with rfl | ho
      · exact hw.admitted (h.admitted hash _ hold hkey hpaid)
      · rw [hpaid] at ho
        exact absurd ho (hupdate hash)
    · exact hw.admitted ((hnew info (by rw [hkey])).2 (hst.symm.trans hpaid))
  priced := h.priced.writes hw fun info ho => (hnew info ho).1
  covered := hcov

theorem Recovered.createAccount (h : Recovered paid key l) (eng : Sql.Engine) (now : Nat) :
    Recovered paid key (l.exec eng now (.createAccount key)).1 := by
  refine h.writes (l.writes_exec eng now _) (fun info ho => (by cases ho))
    (fun hash ho => (by cases ho)) ?_
  rw [Accounts.exec, Accounts.createAccount]
  split_ifs with hnew
  · exact h.covered.addAccount hnew fun _ => rfl
  · exact h.covered

theorem Recovered.record (h : Recovered paid key l) (eng : Sql.Engine) (now : Nat)
    {info : InvoiceInfo} (hamount : info.amount = paid.priceNanogrin)
    (hpaid : info.status = .paid → l.Admitted key) :
    Recovered paid key (l.exec eng now (.createInvoiceRecord key info)).1 := by
  refine h.writes (l.writes_exec eng now _) ?_ (fun hash ho => (by cases ho)) ?_
  · intro info' ho
    cases ho
    exact ⟨hamount, hpaid⟩
  · rw [Accounts.exec, Accounts.createInvoiceRecord]
    split_ifs
    · exact h.covered
    · exact h.covered
    · exact h.covered
    · exact h.covered

theorem Recovered.expire (h : Recovered paid key l) (eng : Sql.Engine) (now : Nat)
    (hash : String) :
    Recovered paid key (l.exec eng now (.updateInvoice hash .expired)).1 := by
  refine h.writes (l.writes_exec eng now _) (fun info ho => (by cases ho))
    (fun hash ho => (by cases ho)) ?_
  rw [Accounts.exec]
  obtain ⟨err, heq⟩ | ⟨inv, hinv, ⟨-, hst, -⟩ | ⟨-, heq⟩⟩ :=
    Accounts.updateInvoice_cases l hash .expired
  · rw [heq]
    exact h.covered
  · cases hst
  · rw [heq]
    exact h.covered

/-- The payment of an unpaid invoice is recorded. -/
theorem Recovered.credit (h : Recovered paid key l) (eng : Sql.Engine) (now : Nat)
    (hinv : l.invoice? hash = some inv) (hkey : inv.pubkey = key) (hunpaid : inv.status = .unpaid)
    (hroom : inv.amount = 0 ∨ ∀ a ∈ l.account? key, hasRoom inv.amount a.balance = true) :
    Confirming paid key (l.exec eng now (.updateInvoice hash .paid)).1 := by
  obtain ⟨hamount, hfit⟩ := h.priced hash inv hinv hkey
  have hpriced := h.priced.writes (l.writes_exec eng now (.updateInvoice hash .paid))
    fun info ho => (by cases ho)
  obtain ⟨a, ha, hak⟩ := List.mem_map.mp (l.invoice_fkey inv (Ledger.mem_of_invoice? hinv).1)
  have hacc := Ledger.account?_eq_some ha (hak.trans hkey)
  rw [Accounts.exec] at hpriced ⊢
  obtain ⟨err, heq⟩ | ⟨inv', hinv', ⟨-, -, heq⟩ | ⟨hne, -⟩⟩ :=
    Accounts.updateInvoice_cases l hash .paid
  · have hok := Accounts.updateInvoice_ok hinv .paid
    rw [heq] at hok
    cases hok
  · rw [hinv] at hinv'
    cases hinv'
    rw [heq, hkey] at hpriced ⊢
    have hcov : Covered (l.setStatus hash .paid) key 0 := h.covered
    refine ⟨?_, hamount ▸ hfit, hpriced, ?_⟩
    · rw [Ledger.account?_adjust]
      exact Option.isSome_map.trans (Option.isSome_iff_exists.mpr ⟨a, hacc⟩)
    · exact (hcov.credit hroom).mono (by omega)
  · rw [hinv] at hinv'
    cases hinv'
    exact absurd ⟨hunpaid, rfl⟩ hne

/-- The key is admitted. -/
theorem Confirming.grant (h : Confirming paid key l) (eng : Sql.Engine) (now : Nat) :
    Recovered paid key (l.exec eng now (.admitAccount key paid.priceNanogrin)).1 := by
  have hpriced := h.priced.writes (l.writes_exec eng now (.admitAccount key paid.priceNanogrin))
    fun info ho => (by cases ho)
  rw [Accounts.exec, Accounts.admitAccount, if_pos h.fits] at hpriced ⊢
  obtain ⟨a, ha⟩ := Option.isSome_iff_exists.mp h.account
  have hcov : Covered l key (0 + paid.priceNanogrin) := h.covered.mono (by omega)
  refine ⟨fun _ _ _ _ _ => ?_, hpriced, hcov.grant⟩
  refine ⟨_, Ledger.account?_adjust.trans (congrArg _ ha), ?_⟩
  rw [Ledger.adjustRow, if_pos (Ledger.mem_of_account? ha).2]
  exact Bool.or_true _

/-- It was already. -/
theorem Confirming.recovered (h : Confirming paid key l) (hadm : l.Admitted key) :
    Recovered paid key l :=
  ⟨fun _ _ _ _ _ => hadm, h.priced, h.covered.mono (Nat.zero_le _)⟩

end Writes

/-! ## One request -/

section Gate

variable {eng : Sql.Engine} {paid : PaidNames} {key : String} {s : Shared} {past : List Call}

/-- What the gate leaves. -/
abbrev Recovers (paid : PaidNames) (key : String) : Shared → List Call → Option Response → Prop :=
  GateEnds (fun s => Recovered paid key s.accounts) fun s _ => Recovered paid key s.accounts

/-- A repository call fails, or is carried out. -/
theorem recovers_repo {op : RepoOp} {k : op.Res → Task (Option Response)}
    (hfail : ∀ e s', RecoverableStep key s e op → e.fails = true → s'.accounts = s.accounts →
      Alone (Op.exec eng) (Recoverable key) (Recovers paid key) s' (⟨.repo op, op.fail⟩ :: past)
        (k op.fail))
    (hok : ∀ e s' now, RecoverableStep key s e op → e.fails = false →
      s'.accounts = (s.accounts.exec eng now op).1 →
      Alone (Op.exec eng) (Recoverable key) (Recovers paid key) s'
        (⟨.repo op, (s.accounts.exec eng now op).2⟩ :: past) (k (s.accounts.exec eng now op).2)) :
    Alone (Op.exec eng) (Recoverable key) (Recovers paid key) s past (.call (.repo op) k) := by
  refine .call fun e he => ?_
  have hstep : RecoverableStep key s e op := he op rfl
  rcases hf : e.fails with _ | _
  · rw [Op.exec_repo hf]
    exact hok e _ _ hstep hf rfl
  · rw [Op.exec, if_pos hf]
    exact hfail e _ hstep hf rfl

/-- A gate that returns has done no harm. -/
theorem recovers_ret {l : Accounts} (h : Recovered paid key l) (hs : s.accounts = l)
    (resp : Option Response) :
    Alone (Op.exec eng) (Recoverable key) (Recovers paid key) s past (.ret resp) := by
  subst hs
  cases resp with
  | none => exact .ret h
  | some resp => exact .ret h

theorem newInvoice_recovers (h : Recovered paid key s.accounts) :
    Alone (Op.exec eng) (Recoverable key) (Recovers paid key) s past
      (some <$> newInvoice paid key) := by
  refine .call fun e _ => ?_
  have hacc : Recovered paid key
      (Op.exec eng s e (getInvoiceOp key paid.priceNanogrin)).1.accounts := h
  rcases hinv : (Op.exec eng s e (getInvoiceOp key paid.priceNanogrin)).2 with _ | info
  · exact recovers_ret hacc rfl _
  · have hamount : info.amount = paid.priceNanogrin := by
      obtain ⟨inv, -, rfl⟩ := Option.map_eq_some_iff.mp hinv
      rfl
    refine recovers_repo (fun e' s' _ _ hs' => recovers_ret hacc hs' _) ?_
    intro e' s' now hstep hf hs'
    have hafter := hacc.record eng now hamount (hstep rfl hf)
    generalize ((Op.exec eng s e (getInvoiceOp key paid.priceNanogrin)).1.accounts.exec eng now
      (.createInvoiceRecord key info)).2 = r
    rcases r with err | u
    · exact recovers_ret hafter hs' _
    · exact recovers_ret hafter hs' _

/-- A confirmed payment admits the key, or is not noted down. -/
theorem confirm_recovers {info : InvoiceInfo} {inv : Invoice} (h : Recovered paid key s.accounts)
    (hinv : s.accounts.invoice? info.paymentHash = some inv) (hkey : inv.pubkey = key)
    (hunpaid : inv.status = .unpaid) :
    Alone (Op.exec eng) (Recoverable key) (Recovers paid key) s past (confirm paid key info) := by
  refine recovers_repo (fun e s' _ _ hs' => recovers_ret h hs' _) ?_
  intro e s' now hstep hf hs'
  have hmid := h.credit eng now hinv hkey hunpaid (hstep hf inv hinv)
  have hans : (s.accounts.exec eng now (.updateInvoice info.paymentHash .paid)).2 =
      .ok inv.pubkey := Accounts.updateInvoice_ok hinv .paid
  rw [← hs'] at hmid
  rw [hans]
  refine recovers_repo ?_ ?_
  · -- an admission that fails is not needed
    intro e s'' hstep hf hs''
    exact recovers_ret (hmid.recovered (hstep rfl hf)) hs'' _
  · intro e s'' now _ _ hs''
    generalize (s'.accounts.exec eng now (.admitAccount key paid.priceNanogrin)).2 = r
    rcases r with err | u
    · exact recovers_ret (hmid.grant eng now) hs'' _
    · exact recovers_ret (hmid.grant eng now) hs'' _

theorem poll_recovers {info : InvoiceInfo} {inv : Invoice} (h : Recovered paid key s.accounts)
    (hinv : s.accounts.invoice? info.paymentHash = some inv) (hkey : inv.pubkey = key)
    (hunpaid : inv.status = .unpaid) :
    Alone (Op.exec eng) (Recoverable key) (Recovers paid key) s past (poll paid key info) := by
  refine .call fun e _ => ?_
  have hacc : (Op.exec eng s e (checkOp info.paymentHash)).1.accounts = s.accounts := rfl
  generalize (Op.exec eng s e (checkOp info.paymentHash)).2 = status
  rcases status with _ | status
  · exact recovers_ret h hacc _
  · cases status with
    | unpaid => exact recovers_ret h hacc _
    | paid => exact confirm_recovers h hinv hkey hunpaid
    | expired =>
      refine recovers_repo (fun e' s' _ _ hs' => newInvoice_recovers (hs'.symm ▸ h)) ?_
      intro e' s' now _ _ hs'
      have hafter := h.expire eng now info.paymentHash
      exact newInvoice_recovers (hs'.symm ▸ hafter)

theorem outstanding_recovers (h : Recovered paid key s.accounts) :
    Alone (Op.exec eng) (Recoverable key) (Recovers paid key) s past (outstanding paid key) := by
  have hfirst : ∀ s' past, Recovered paid key s'.accounts →
      Alone (Op.exec eng) (Recoverable key) (Recovers paid key) s' past
        (.call (createAccountOp key) fun _ => some <$> newInvoice paid key) := by
    intro s' past h
    refine recovers_repo (fun e s'' _ _ hs'' => newInvoice_recovers (hs''.symm ▸ h)) ?_
    intro e s'' now _ _ hs''
    exact newInvoice_recovers (hs''.symm ▸ h.createAccount eng now)
  refine recovers_repo (fun e s' _ _ hs' => hfirst _ _ (hs'.symm ▸ h)) ?_
  intro e s' now _ _ hs'
  have hacc : s'.accounts = s.accounts := hs'
  rcases hr : (s.accounts.exec eng now (.getUnpaidInvoice key)).2 with err | _ | info
  · exact hfirst _ _ (hacc.symm ▸ h)
  · exact hfirst _ _ (hacc.symm ▸ h)
  · obtain ⟨inv, hinv, hkey, hunpaid, -⟩ := Accounts.of_getUnpaidInvoice hr
    rw [← hacc] at h hinv
    exact poll_recovers h hinv hkey hunpaid

/-- The gate leads back to a state it recovers from. -/
theorem gate_recovers (h : Recovered paid key s.accounts) :
    Alone (Op.exec eng) (Recoverable key) (Recovers paid key) s past (gate paid key) := by
  refine recovers_repo (fun e s' _ _ hs' => outstanding_recovers (hs'.symm ▸ h)) ?_
  intro e s' now _ _ hs'
  have hacc : s'.accounts = s.accounts := hs'
  rcases (s.accounts.exec eng now (.getAccountBalance key)).2 with err | ⟨_ | _, b⟩
  · exact outstanding_recovers (hacc.symm ▸ h)
  · exact outstanding_recovers (hacc.symm ▸ h)
  · exact recovers_ret h hacc _

end Gate

/-! ## Runs -/

/-- The request registers a name for the key. -/
def RegisterOf (rl : Relay) (key : String) (r : Request) : Prop :=
  ∃ req, r = .register req ∧ req.signer rl.authority = some key

theorem Recovered.init (paid : PaidNames) (key : String) (clock : Nat) :
    Recovered paid key (Shared.start clock).accounts where
  admitted := fun hash inv h => (by cases h)
  priced := fun hash inv h => (by cases h)
  covered := fun a h => (by cases h)

/-- The steps around the gate do no harm. -/
theorem around_recovered (eng : Sql.Engine) (paid : PaidNames) (key : String) :
    Around (Op.exec eng) (fun s => Recovered paid key s.accounts)
      (fun s => Recovered paid key s.accounts) fun s _ => Recovered paid key s.accounts := by
  have hkeep : ∀ s (o : Op) e, Op.inGate o = false → Recovered paid key s.accounts →
      Recovered paid key (o.exec eng s e).1.accounts := by
    intro s o e ho h
    rw [Op.exec_accounts fun r hr => ?_]
    · exact h
    · rw [hr] at ho
      cases ho
  exact ⟨fun s o e _ ho h => ⟨hkeep s o e ho h, hkeep s o e ho h⟩,
    fun s o e _ ho h => hkeep s o e ho h⟩

/-- A register request alone does no harm, whatever fails. -/
theorem register_recovers {rl : Relay} {paid : PaidNames} (hpaid : rl.authority.paid = some paid)
    {key : String} {r : Request} {s : Shared} (hr : RegisterOf rl key r)
    (h : Recovered paid key s.accounts) :
    Alone rl.system.exec (Recoverable key) (fun s _ _ => Recovered paid key s.accounts) s []
      (rl.system.program r) := by
  obtain ⟨req, rfl, hkey⟩ := hr
  refine Alone.map (register_alone (around_recovered rl.engine paid key) h ?_) fun _ _ _ h => h
  intro s past paid' key' hp hk hs
  obtain rfl : paid' = paid := Option.some.inj (hp.symm.trans hpaid)
  obtain rfl : key' = key := Option.some.inj (hk.symm.trans hkey)
  exact gate_recovers hs

/-- In every run of register requests of the key that come one after the other, whatever
repository calls fail, as long as an admission fails only if the key is already admitted, no
invoice is paid when it is recorded and there is room for the credits: between requests, a
paid invoice means that the key is admitted, and the gate lets its next request pass. -/
theorem payment_recovered (rl : Relay) (paid : PaidNames) (hpaid : rl.authority.paid = some paid)
    (key : String) (clock : Nat) (xs : List Action)
    (hreqs : ∀ r, Act.spawn r ∈ xs → RegisterOf rl key r)
    (hxs : Machine.Along rl.system.step
      (fun c a => System.Sequential c a ∧ System.Allowed (Recoverable key) c a)
      (System.init (Shared.start clock)) xs)
    (hdone : ∀ t ∈ (rl.run clock xs).threads, t.code.next = none)
    (hash : String) (inv : Invoice)
    (hinv : (rl.run clock xs).shared.accounts.invoice? hash = some inv)
    (hkey : inv.pubkey = key) (hst : inv.status = .paid) :
    (rl.run clock xs).shared.accounts.Admitted key ∧
    ∀ (req : HttpRequest) (es : List Env), req.signer rl.authority = some key →
      (∀ e ∈ es, e.fails = false) → ∃ t, (rl.run clock (xs ++ .spawn (.register req) ::
          es.map (.run (rl.run clock xs).threads.length))).threads[
            (rl.run clock xs).threads.length]? = some t ∧
        refusedByGate t = false ∧ (12 ≤ es.length → t.code.next = none) := by
  have hrest : Recovered paid key (rl.run clock xs).shared.accounts :=
    System.at_rest (J := fun s => Recovered paid key s.accounts)
      (fun r s hr h => register_recovers hpaid hr h) (.init paid key clock) hreqs hxs hdone
  have hadm := hrest.admitted hash inv hinv hkey hst
  refine ⟨hadm, fun req es hreq hes => ?_⟩
  refine next_request_passes rl clock xs req key hreq (E := fun _ _ e => e.fails = false)
    (fun e he _ _ => hes e he) ?_
  intro s past paid' hp hs
  exact gate_admitted (fun _ _ _ he => he) hrest.covered hadm hs

/-! ## Samples -/

open NameAuthority.Arrival (runsWith)

/-- A repository call fails. -/
def failing (hash : String) : Env := { paidEnv hash with fails := true }

/-- Ada asks for a name and pays; her second request cannot record the payment, her third
one does. -/
def recordFails : List (Process.Act Arrival Env) :=
  .spawn .ada :: runsWith (paidEnv "inv-1") 0 11 ++
    .spawn .ada2 :: runsWith (paidEnv "inv-1") 1 9 ++ .run 1 (failing "inv-1") ::
    .spawn .ada3 :: runsWith (paidEnv "inv-1") 2 12

/-- Ada asks for a name and pays; her second request records the payment, but cannot admit
her. -/
def admissionFails : List (Process.Act Arrival Env) :=
  .spawn .ada :: runsWith (paidEnv "inv-1") 0 11 ++
    .spawn .ada2 :: runsWith (paidEnv "inv-1") 1 10 ++ [.run 1 (failing "inv-1")]

/-- Only Ada's first three requests arrive. -/
def adaOnly : Process.Act Arrival Env → Bool
  | .spawn x => x == .ada || x == .ada2 || x == .ada3
  | .run _ _ => true

theorem registerOf_ada {acts : List (Process.Act Arrival Env)} (h : ∀ a ∈ acts, adaOnly a = true)
    (r : Request) (hr : Act.spawn r ∈ acts.map (Process.Act.rename Arrival.request)) :
    RegisterOf (sampleRelay (some samplePaid)) Signed.registerAda.pubkey r := by
  have hsigner : ∀ x ∈ Signed.samples,
      (x.register "203.0.113.7").signer (sampleRelay (some samplePaid)).authority =
        some x.pubkey := fun x hx => Signed.signer_lib Signed.distinct_samples hx
  obtain ⟨a, ha, heq⟩ := List.mem_map.mp hr
  have honly := h a ha
  cases a with
  | run i e => cases heq
  | spawn x =>
    cases heq
    cases x with
    | ada => exact ⟨_, rfl, hsigner Signed.registerAda (by simp [Signed.samples])⟩
    | ada2 => exact ⟨_, rfl, hsigner Signed.registerAda2 (by simp [Signed.samples])⟩
    | ada3 => exact ⟨_, rfl, hsigner Signed.registerAda3 (by simp [Signed.samples])⟩
    | _ => cases honly

theorem payment_recovered_ada :
    ((sampleRelay (some samplePaid)).run (secs 1700000007)
      (recordFails.map (Process.Act.rename Arrival.request))).shared.accounts.Admitted
        Signed.registerAda.pubkey ∧
    ∀ (req : HttpRequest) (es : List Env),
      req.signer (sampleRelay (some samplePaid)).authority = some Signed.registerAda.pubkey →
      (∀ e ∈ es, e.fails = false) → ∃ t,
        ((sampleRelay (some samplePaid)).run (secs 1700000007)
          (recordFails.map (Process.Act.rename Arrival.request) ++ .spawn (.register req) ::
            es.map (.run ((sampleRelay (some samplePaid)).run (secs 1700000007)
              (recordFails.map (Process.Act.rename Arrival.request))).threads.length))).threads[
          ((sampleRelay (some samplePaid)).run (secs 1700000007)
            (recordFails.map (Process.Act.rename Arrival.request))).threads.length]? = some t ∧
        refusedByGate t = false ∧ (12 ≤ es.length → t.code.next = none) := by
  have hinv := invoice_of_sample (secs 1700000007) recordFails "inv-1" ⟨"inv-1",
    Signed.registerAda.pubkey, "https://pay.example/inv-1", 1000000000, .paid, "admission",
    1700000007⟩ (by decide +kernel)
  exact payment_recovered (sampleRelay (some samplePaid)) samplePaid rfl Signed.registerAda.pubkey
    (secs 1700000007) (recordFails.map (Process.Act.rename Arrival.request))
    (registerOf_ada (by decide)) (along_samples _ (by decide +kernel))
    (finished_of_sample (by decide +kernel)) "inv-1" _ hinv rfl rfl

theorem admission_lost :
    (∀ r, Act.spawn r ∈ admissionFails.map (Process.Act.rename Arrival.request) →
      RegisterOf (sampleRelay (some samplePaid)) Signed.registerAda.pubkey r) ∧
    Machine.Along (sampleRelay (some samplePaid)).system.step System.Sequential
      (System.init (Shared.start (secs 1700000007)))
      (admissionFails.map (Process.Act.rename Arrival.request)) ∧
    (∀ t ∈ ((sampleRelay (some samplePaid)).run (secs 1700000007)
      (admissionFails.map (Process.Act.rename Arrival.request))).threads, t.code.next = none) ∧
    (∃ inv, ((sampleRelay (some samplePaid)).run (secs 1700000007)
        (admissionFails.map (Process.Act.rename Arrival.request))).shared.accounts.invoice?
          "inv-1" = some inv ∧ inv.pubkey = Signed.registerAda.pubkey ∧ inv.status = .paid) ∧
    ¬((sampleRelay (some samplePaid)).run (secs 1700000007)
      (admissionFails.map (Process.Act.rename Arrival.request))).shared.accounts.Admitted
        Signed.registerAda.pubkey := by
  refine ⟨registerOf_ada (by decide), along_samples _ (by decide +kernel),
    finished_of_sample (by decide +kernel),
    ⟨_, invoice_of_sample (secs 1700000007) admissionFails "inv-1" ⟨"inv-1",
      Signed.registerAda.pubkey, "https://pay.example/inv-1", 1000000000, .paid, "admission",
      1700000007⟩ (by decide +kernel), rfl, rfl⟩, ?_⟩
  have h : ¬(sampleRun (some samplePaid) (secs 1700000007)
      admissionFails).shared.accounts.Admitted Signed.registerAda.pubkey := by decide +kernel
  rwa [shared_samples]

end Floonet.NameAuthority
