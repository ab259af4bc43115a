import Floonet.Payment.History
import Floonet.NameAuthority.Signed

/-!
# No admission without a confirmed payment

An account is admitted by the paid gate, by a `CheckAccount` message or by a webhook. Each
of them has asked the processor before, and the owner of the invoice it asked about is
the account it admits, so every admitted key has paid (`admitted_after_payment`).
-/

namespace Floonet.Payment

open NameAuthority Sqlite
open Process (System)

/-- The processor reported an invoice of the key as paid. -/
def Confirmed (trace : List Move) (l : Accounts) (key : String) : Prop :=
  ∃ m ∈ trace, ∃ hash, m.call = ⟨checkOp hash, some .paid⟩ ∧ InvoiceOf l hash key

/-- A call that lets a key through the gate: it was read as admitted, or admitted. -/
inductive Passes (key : String) : Call → Prop where
  | read (b : Nat) : Passes key ⟨balanceOp key, .ok (true, b)⟩
  | grant (cost : Nat) (r : (admitOp key cost).Res) : Passes key ⟨admitOp key cost, r⟩

/-- Whoever is admitted or let through has paid. -/
structure PaymentFirst (rl : Relay) (c : Configuration) : Prop where
  kept : Remembered rl c
  admitted : ∀ key, c.shared.accounts.Admitted key → Confirmed c.trace c.shared.accounts key
  passed : ∀ m ∈ c.trace, ∀ key, Passes key m.call → Confirmed c.trace c.shared.accounts key

section Invariant

variable {rl : Relay} {c : Configuration} {i : Nat} {e : Env} {r : Request} {past : List Call}
  {o : Op} {k : o.Res → Task Answer} {key : String}

theorem Confirmed.fire (h : Confirmed c.trace c.shared.accounts key) :
    Confirmed (rl.system.fire c i e r past o k).trace
      (rl.system.fire c i e r past o k).shared.accounts key := by
  obtain ⟨m, hm, hash, hcall, hrec⟩ := h
  exact ⟨m, List.mem_cons_of_mem _ hm, hash, hcall, hrec.exec o⟩

/-- The next step is an admission. -/
theorem PaymentFirst.of_grant (h : PaymentFirst rl c) (hc : rl.Sound c) {cost : Nat}
    {k : (admitOp key cost).Res → Task Answer}
    (hi : c.threads[i]? = some ⟨r, past, .call (admitOp key cost) k⟩) :
    Confirmed c.trace c.shared.accounts key := by
  obtain ⟨hash, hrec, hcheck, -⟩ := h.kept.confirmed hc hi
  obtain ⟨m, hm, -, -, hcall⟩ := hc.past hi _ hcheck
  exact ⟨m, hm, hash, hcall, hrec⟩

/-- What the balance says was so when it was read. -/
theorem admitted_of_balance {eng : Sql.Engine} {s : Shared} {b : Nat}
    (h : (Op.exec eng s e (balanceOp key)).2 = .ok (true, b)) : s.accounts.Admitted key := by
  obtain ⟨-, -, hfail⟩ | ⟨-, now, -, hok⟩ := Op.exec_repo_cases eng s e (.getAccountBalance key)
  · rw [hfail] at h
    cases h
  · obtain ⟨a, ha, hadm, -⟩ := Accounts.of_getAccountBalance (hok.symm.trans h)
    exact ⟨a, ha, hadm⟩

theorem paymentFirst_fire (h : PaymentFirst rl c) (hc : rl.Sound c)
    (hi : c.threads[i]? = some ⟨r, past, .call o k⟩) :
    PaymentFirst rl (rl.system.fire c i e r past o k) where
  kept := h.kept.fire hc hi
  admitted := by
    intro key hadm
    refine Confirmed.fire ?_
    obtain heq | ⟨op, rfl, -, hw⟩ := Op.writes_exec rl.engine c.shared e o
    · refine h.admitted key ?_
      rw [← heq]
      exact hadm
    · obtain hold | ⟨cost, rfl⟩ := hw.admitted_inv hadm
      · exact h.admitted key hold
      · exact h.of_grant hc hi
  passed := by
    intro m hm key hpass
    refine Confirmed.fire ?_
    rcases List.mem_cons.mp hm with rfl | hm
    · rcases hx : (⟨o, (rl.system.exec c.shared e o).2⟩ : Call) with ⟨op, ans⟩
      simp only [hx] at hpass
      rw [Process.Call.mk.injEq] at hx
      cases hpass with
      | read b =>
        obtain ⟨rfl, hans⟩ := hx
        exact h.admitted key (admitted_of_balance (eq_of_heq hans))
      | grant cost =>
        obtain ⟨rfl, -⟩ := hx
        exact h.of_grant hc hi
    · exact h.passed m hm key hpass

/-- A register request of a key that is answered with 201 comes after a payment. -/
theorem PaymentFirst.of_created (h : PaymentFirst rl c) (hc : rl.Sound c) {req : HttpRequest}
    {resp : Response} {paid : PaidNames} (hpaid : rl.authority.paid = some paid)
    (hi : c.threads[i]? = some ⟨.register req, past, .call o k⟩)
    (hkey : req.signer rl.authority = some key)
    (hreply : (k (rl.system.exec c.shared e o).2).result = some (.http resp))
    (h201 : resp.status = 201) : Confirmed c.trace c.shared.accounts key := by
  have hres : RegisterResult rl.authority req (⟨o, (rl.system.exec c.shared e o).2⟩ :: past) resp :=
    ((Process.obeys_call.mp (hc.obeys hi)).2 _).of_result hreply
  obtain ⟨name, pk, n, rest, hpast, hinsert⟩ := hres.of_status_201 h201
  rw [List.cons.injEq] at hpast
  obtain ⟨-, rfl⟩ := hpast
  obtain ⟨hsigner, -, hhex, -, hgate⟩ := hinsert.insert_inv
  obtain rfl : key = pk := Option.some.inj (hkey.symm.trans hsigner)
  rcases hgate with hfree | ⟨paid', key', -, hparse, hpass⟩
  · rw [hpaid] at hfree
    cases hfree
  · -- the key is written as it was parsed
    obtain rfl := rl.authority.keys.fromPkStr_hex hparse hhex
    rcases hpass with ⟨b, hb⟩ | hgrant
    · obtain ⟨m, hm, -, -, hcall⟩ := hc.past hi _ hb
      exact h.passed m hm _ (hcall ▸ .read b)
    · obtain ⟨m, hm, -, -, hcall⟩ := hc.past hi _ hgrant
      exact h.passed m hm _ (hcall ▸ .grant _ _)

end Invariant

/-- A register request of a key is answered with 201, in paid mode. -/
def Creates (rl : Relay) (m : Move) (key : String) : Prop :=
  (∃ paid, rl.authority.paid = some paid) ∧
    ∃ req resp, m.request = .register req ∧ req.signer rl.authority = some key ∧
      m.reply = some (.http resp) ∧ resp.status = 201

/-- In every run from empty tables, whatever arrives and whatever fails: an admitted
account owns an invoice that the processor has reported as paid, and in paid mode a name
is given to a key only after such a report. -/
theorem admitted_after_payment (rl : Relay) (clock : Nat) (acts : List Action) :
    (∀ key, (rl.run clock acts).shared.accounts.Admitted key →
      Confirmed (rl.run clock acts).trace (rl.run clock acts).shared.accounts key) ∧
    ∀ later m earlier, (rl.run clock acts).trace = later ++ m :: earlier →
      ∀ key, Creates rl m key → Confirmed earlier m.before.accounts key := by
  have hinv : PaymentFirst rl (rl.run clock acts) ∧
      ∀ later m earlier, (rl.run clock acts).trace = later ++ m :: earlier →
        ∀ key, Creates rl m key → Confirmed earlier m.before.accounts key := by
    refine (System.invariant (P := fun c => PaymentFirst rl c ∧
      ∀ later m earlier, c.trace = later ++ m :: earlier →
        ∀ key, Creates rl m key → Confirmed earlier m.before.accounts key)
      rl.obeys ⟨⟨.init clock, ?_, ?_⟩, ?_⟩ ?_ ?_ acts).2
    · rintro key ⟨a, ha, -⟩
      cases ha
    · intro m hm
      cases hm
    · intro later m earlier h
      simp [System.init] at h
    · exact fun c r hc hP => ⟨⟨hP.1.kept.spawn, hP.1.admitted, hP.1.passed⟩, hP.2⟩
    · intro c i e r past o k hc hP hi
      refine ⟨paymentFirst_fire hP.1 hc hi, Process.forall_split_cons ?_ hP.2⟩
      rintro key ⟨⟨paid, hpaid⟩, req, resp, rfl, hkey, hreply, h201⟩
      exact hP.1.of_created hc hpaid hi hkey hreply h201
  exact ⟨hinv.1.admitted, hinv.2⟩

/-! ## Samples -/

open NameAuthority.Arrival (runsWith)

/-- Ada asks for a name, pays the invoice she gets and asks again. -/
def payingAda : List (Process.Act Arrival Env) :=
  .spawn .ada :: runsWith (paidEnv "inv-1") 0 11 ++ .spawn .ada2 :: runsWith (paidEnv "inv-1") 1 12

/-- Who asked, and the status of the reply. -/
def replyOf (m : Process.Move Shared Arrival Op Op.Res Answer) : Arrival × Option Nat :=
  (m.request, m.reply.bind fun
    | .http resp => some resp.status
    | .finished => none)

theorem payingAda_reply :
    (sampleRun (some samplePaid) (secs 1700000007) payingAda).trace[0]?.map replyOf =
      some (.ada2, some 201) := by
  decide +kernel

theorem replyOf_created {m : Process.Move Shared Arrival Op Op.Res Answer}
    (h : replyOf m = (.ada2, some 201)) :
    Creates (sampleRelay (some samplePaid)) (m.rename Arrival.request)
      Signed.registerAda2.pubkey := by
  obtain ⟨hreq, hreply⟩ := Prod.mk.inj h
  obtain ⟨ans, hans, hstatus⟩ := Option.bind_eq_some_iff.mp hreply
  refine ⟨⟨samplePaid, rfl⟩, Signed.registerAda2.register "203.0.113.7", ?_⟩
  cases ans with
  | finished => cases hstatus
  | http resp =>
    refine ⟨resp, congrArg Arrival.request hreq, ?_, hans, Option.some.inj hstatus⟩
    exact Signed.signer_lib Signed.distinct_samples
      (by simp [Signed.samples] : Signed.registerAda2 ∈ Signed.samples)

theorem admitted_after_payment_ada : ∃ m earlier,
    Creates (sampleRelay (some samplePaid)) m Signed.registerAda2.pubkey ∧
      Confirmed earlier m.before.accounts Signed.registerAda2.pubkey := by
  obtain ⟨m, hm, hreply⟩ := Option.map_eq_some_iff.mp payingAda_reply
  have hcreates := replyOf_created hreply
  have hget := getElem?_samples hm
  rw [← List.head?_eq_getElem?, List.head?_eq_some_iff] at hget
  obtain ⟨earlier, htrace⟩ := hget
  exact ⟨_, earlier, hcreates, (admitted_after_payment (sampleRelay (some samplePaid))
    (secs 1700000007) _).2 [] _ earlier htrace _ hcreates⟩

end Floonet.Payment
