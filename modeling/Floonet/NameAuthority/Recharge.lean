import Floonet.NameAuthority.Funds

/-!
# A key that has paid

Once a key is admitted and its balance is covered, the first thing the gate reads lets
every later request of the key through (`never_charged_again`). Two requests that poll
the same invoice break this: the second one credits nothing and takes the price once
more, and a negative balance reads as an error, which the gate passes over
(`polled_twice`).
-/

namespace Floonet.NameAuthority

open Payment
open Sqlite (Accounts RepoOp)
open Process (System Obeys)

/-- All the task has seen of the gate is that its key is admitted. -/
def Clear (key : String) (t : Task.Thread) : Prop :=
  ∀ x ∈ t.past, Op.inGate x.op = true → ∃ b, x = ⟨balanceOp key, .ok (true, b)⟩

/-- The task ended in the gate, with the gate's answer. -/
def refusedByGate (t : Task.Thread) : Bool :=
  t.code.result.isSome && t.past.head?.any fun x => Op.inGate x.op

section Clear

variable {rl : Relay} {paid : PaidNames} {key key' : String} {base past : List Call} {o : Op}

/-- Nothing else of the gate follows the sight of an admitted account. -/
theorem GateCall.of_clear (h : GateCall paid key base past o)
    (hclear : ∀ x ∈ past, Op.inGate x.op = true → ∃ b, x = ⟨balanceOp key', .ok (true, b)⟩) :
    o = balanceOp key := by
  have hhead : ∀ {x rest}, past = x :: rest → Op.inGate x.op = true →
      ∃ b, x = ⟨balanceOp key', .ok (true, b)⟩ :=
    fun hpast hx => hclear _ (hpast ▸ List.mem_cons_self ..) hx
  cases h with
  | balance => rfl
  | unpaid _ hne =>
    obtain ⟨b, hb⟩ := hhead rfl rfl
    cases hb
    exact absurd rfl (hne b)
  | _ =>
    obtain ⟨b, hb⟩ := hhead rfl rfl
    cases hb

/-- A gate whose only answer was an admitted account does not refuse. -/
theorem GateResult.not_clear {resp : Response} (h : GateResult paid key base past (some resp))
    (hclear : ∀ x ∈ past, Op.inGate x.op = true → ∃ b, x = ⟨balanceOp key', .ok (true, b)⟩) :
    False := by
  have hhead : ∀ {x rest}, past = x :: rest → Op.inGate x.op = true →
      ∃ b, x = ⟨balanceOp key', .ok (true, b)⟩ :=
    fun hpast hx => hclear _ (hpast ▸ List.mem_cons_self ..) hx
  cases h with
  | _ =>
    obtain ⟨b, hb⟩ := hhead rfl rfl
    cases hb

/-- A task that ended in the gate got its answer from there. -/
theorem refusedByGate_inv {t : Task.Thread} {req : HttpRequest} (hreq : t.request = .register req)
    (hobeys : Obeys (rl.Calls t.request) (rl.Results t.request) t.past t.code)
    (h : refusedByGate t = true) :
    ∃ paid key base resp, rl.authority.paid = some paid ∧ req.signer rl.authority = some key ∧
      GateResult paid key base t.past (some resp) := by
  rw [refusedByGate, Bool.and_eq_true] at h
  obtain ⟨hdone, hlast⟩ := h
  obtain ⟨ans, hans⟩ := Option.isSome_iff_exists.mp hdone
  have hresult := hobeys.of_result hans
  rw [hreq] at hresult
  rcases hpast : t.past with _ | ⟨x, rest⟩
  · rw [hpast] at hlast
    cases hlast
  · rw [hpast] at hlast hresult
    cases ans with
    | finished => exact absurd hresult id
    | http resp =>
      obtain ⟨paid, key, base, hpaid, hkey, hg⟩ := RegisterResult.gate_inv hresult hlast
      exact ⟨paid, key, base, resp, hpaid, hkey, hg⟩

/-- A thread that only saw an admitted account is not refused. -/
theorem Clear.not_refused {t : Task.Thread} {req : HttpRequest} (h : Clear key t)
    (hreq : t.request = .register req)
    (hobeys : Obeys (rl.Calls t.request) (rl.Results t.request) t.past t.code) :
    refusedByGate t = false := by
  rw [← Bool.not_eq_true]
  intro hrefused
  obtain ⟨paid, key, base, resp, -, -, hg⟩ := refusedByGate_inv hreq hobeys hrefused
  exact hg.not_clear h

end Clear

/-! ## Runs

Once a request has been granted admission, its key stays admitted and, by the invariant of the
balances, its account can be read. So a later request sees an admitted account and nothing more of
the gate. -/

/-- No repository call fails. -/
def ErrorFree : Action → Prop
  | .spawn _ => True
  | .run _ e => e.fails = false

instance : (a : Action) → Decidable (ErrorFree a)
  | .spawn _ => isTrue trivial
  | .run _ e => inferInstanceAs (Decidable (e.fails = false))

section Runs

variable {rl : Relay} {paid : PaidNames} {key : String} {c : Configuration} {i n : Nat} {e : Env}
  {r : Request} {past : List Call} {o : Op} {k : o.Res → Task Answer} {req : HttpRequest}

/-- An admission that succeeds admits the account. -/
theorem admitted_of_grant (h : Remembered rl c) (hc : rl.Sound c) {cost : Nat}
    {k : (admitOp key cost).Res → Task Answer}
    (hi : c.threads[i]? = some ⟨r, past, .call (admitOp key cost) k⟩)
    (hok : (rl.system.exec c.shared e (admitOp key cost)).2 = .ok ()) :
    (rl.system.exec c.shared e (admitOp key cost)).1.accounts.Admitted key := by
  obtain ⟨hash, ⟨inv, hinv, hkey⟩, -⟩ := h.confirmed hc hi
  obtain ⟨a, ha, hak⟩ :=
    List.mem_map.mp (c.shared.accounts.invoice_fkey inv (Ledger.mem_of_invoice? hinv).1)
  have hacc := Ledger.account?_eq_some ha (hak.trans hkey)
  change (Op.exec rl.engine c.shared e (admitOp key cost)).2 = _ at hok
  change (Op.exec rl.engine c.shared e (admitOp key cost)).1.accounts.Admitted key
  obtain ⟨-, -, hans⟩ | ⟨-, now, htab, hans⟩ :=
    Op.exec_repo_cases rl.engine c.shared e (.admitAccount key cost)
  · rw [hans] at hok
    cases hok
  · rw [hans] at hok
    rw [htab]
    simp only [Accounts.exec, Accounts.admitAccount] at hok ⊢
    split_ifs at hok ⊢ with hfit
    refine ⟨_, Ledger.account?_adjust.trans (congrArg _ hacc), ?_⟩
    rw [Ledger.adjustRow, if_pos (Ledger.mem_of_account? hacc).2]
    exact Bool.or_true _

/-- A successful admission has admitted its key. -/
def Granted (c : Configuration) (key : String) : Prop :=
  ∀ m ∈ c.trace, ∀ cost, m.call = ⟨admitOp key cost, .ok ()⟩ → c.shared.accounts.Admitted key

theorem admitted_fire (o : Op) (h : c.shared.accounts.Admitted key) :
    (rl.system.exec c.shared e o).1.accounts.Admitted key := by
  obtain heq | ⟨op, rfl, -, hw⟩ := Op.writes_exec rl.engine c.shared e o
  · exact heq.symm ▸ h
  · exact hw.admitted h

theorem Granted.fire (h : Granted c key) (hkept : Remembered rl c) (hc : rl.Sound c)
    (hi : c.threads[i]? = some ⟨r, past, .call o k⟩) :
    Granted (rl.system.fire c i e r past o k) key := by
  intro m hm cost hcall
  rcases List.mem_cons.mp hm with rfl | hm
  · rw [Process.Call.mk.injEq] at hcall
    obtain ⟨rfl, hans⟩ := hcall
    exact admitted_of_grant hkept hc hi (eq_of_heq hans)
  · exact admitted_fire o (h m hm cost hcall)

/-- The request that came last has only seen that its key is admitted. -/
structure Cleared (rl : Relay) (paid : PaidNames) (key : String) (n : Nat) (req : HttpRequest)
    (c : Configuration) : Prop where
  funds : Funds rl paid key c
  admitted : c.shared.accounts.Admitted key
  clear : ∃ t, c.threads[n]? = some t ∧ t.request = .register req ∧ Clear key t

theorem Cleared.fire (h : Cleared rl paid key n req c) (hc : rl.Sound c)
    (hpaid : rl.authority.paid = some paid) (hkey : req.signer rl.authority = some key)
    (hfree : e.fails = false) (hC : Credited key c (.run i e))
    (hi : c.threads[i]? = some ⟨r, past, .call o k⟩) :
    Cleared rl paid key n req (rl.system.fire c i e r past o k) where
  funds := h.funds.fire hc hpaid hC hi
  admitted := admitted_fire o h.admitted
  clear := by
    obtain ⟨t, ht, hreq, hclear⟩ := h.clear
    by_cases hn : i = n
    · subst hn
      rw [hi] at ht
      cases ht
      refine ⟨_, List.getElem?_set_self (List.getElem?_eq_some_iff.mp hi).1, hreq, ?_⟩
      refine List.forall_mem_cons.mpr ⟨fun ho => ?_, hclear⟩
      have hcall := (Process.obeys_call.mp (hc.obeys hi)).1
      cases hreq
      obtain ⟨paid', key', base, -, hsigner, hg⟩ := RegisterCall.gate_inv hcall ho
      obtain rfl : key' = key := Option.some.inj (hsigner.symm.trans hkey)
      obtain rfl := hg.of_clear hclear
      -- the account is admitted, and its balance can be read
      obtain ⟨b, hb⟩ := h.funds.covered.read h.admitted
      refine ⟨b, ?_⟩
      have hexec : rl.system.exec c.shared e (balanceOp key') =
          ({ c.shared.tick e with accounts := c.shared.accounts },
            c.shared.accounts.getAccountBalance key') := Op.exec_repo hfree
      rw [hexec, hb]
    · exact ⟨t, (List.getElem?_set_ne hn).trans ht, hreq, hclear⟩

theorem Cleared.spawn (h : Cleared rl paid key n req c) (hr : asksForName r = true) :
    Cleared rl paid key n req (rl.system.step c (.spawn r)) where
  funds := h.funds.spawn hr
  admitted := h.admitted
  clear := by
    obtain ⟨t, ht, hclear⟩ := h.clear
    exact ⟨t, List.getElem?_append_left (List.getElem?_eq_some_iff.mp ht).1 ▸ ht, hclear⟩

end Runs

/-- The gate let the task through at its first look, or the task never reached it. -/
structure PassesGate (key : String) (t : Task.Thread) : Prop where
  reads : Clear key t
  passed : refusedByGate t = false

/-- In every run of requests to the name authority without repository errors in which each
payment of the key is recorded while its invoice is unpaid: after one request has admitted
the key, the gate lets every request of the key through that arrives later. -/
theorem never_charged_again (rl : Relay) (paid : PaidNames) (hpaid : rl.authority.paid = some paid)
    (key : String) (clock : Nat) (xs ys : List Action) (req : HttpRequest)
    (hkey : req.signer rl.authority = some key)
    (h : Machine.Along rl.system.step (fun c a => NameTraffic a ∧ ErrorFree a ∧ Credited key c a)
      (System.init (Shared.start clock)) (xs ++ .spawn (.register req) :: ys))
    (hpass : ∃ m ∈ (rl.run clock xs).trace, ∃ cost, m.call = ⟨admitOp key cost, .ok ()⟩) :
    ∃ t, (rl.run clock (xs ++ .spawn (.register req) :: ys)).threads[
        (rl.run clock xs).threads.length]? = some t ∧ PassesGate key t := by
  obtain ⟨hxs, -, hys⟩ := Machine.along_append.mp h
  -- until the request arrives
  obtain ⟨hc, hfunds, hgranted⟩ := System.invariant_along
    (P := fun c => Funds rl paid key c ∧ Granted c key) rl.obeys
    ⟨.init clock, fun m hm => (by cases hm)⟩
    (fun c r _ hC hP => ⟨hP.1.spawn hC.1, hP.2⟩)
    (fun c i e r past o k hc hC hP hi =>
      ⟨hP.1.fire hc hpaid hC.2.2 hi, hP.2.fire hP.1.kept hc hi⟩) hxs
  obtain ⟨m, hm, cost, hcall⟩ := hpass
  have hadm := hgranted m hm cost hcall
  -- and from then on
  have hstart : Cleared rl paid key (rl.run clock xs).threads.length req
      (rl.system.step (rl.run clock xs) (.spawn (.register req))) := by
    refine ⟨hfunds.spawn rfl, hadm, ⟨.register req, [], rl.program (.register req)⟩, ?_, rfl, ?_⟩
    · exact List.getElem?_concat_length
    · exact fun x hx => (by cases hx)
  obtain ⟨hc', hcleared⟩ := System.invariant_from
    (P := Cleared rl paid key (rl.run clock xs).threads.length req) rl.obeys
    (hc.spawn (rl.obeys (.register req))) hstart (fun c r _ hC hP => hP.spawn hC.1)
    (fun c i e r past o k hc hC hP hi => hP.fire hc hpaid hkey hC.2.1 hC.2.2 hi) hys
  have hrun : rl.run clock (xs ++ .spawn (.register req) :: ys) = Machine.run rl.system.step
      (rl.system.step (rl.run clock xs) (.spawn (.register req))) ys := Machine.run_append ..
  rw [hrun]
  obtain ⟨t, ht, hreq, hclear⟩ := hcleared.clear
  exact ⟨t, ht, hclear, hclear.not_refused hreq (hc'.obeys ht)⟩

/-! ## Samples -/

open NameAuthority.Arrival (runsWith)

/-- The key that a successful admission admits. -/
def grantedKey : Call → Option String
  | ⟨.repo (.admitAccount key _), .ok ()⟩ => some key
  | _ => none

theorem grantedKey_inv {x : Call} {key : String} (h : grantedKey x = some key) :
    ∃ cost, x = ⟨admitOp key cost, .ok ()⟩ := by
  rcases x with ⟨_ | _ | _ | o | _ | _ | _ | _, ans⟩
  case repo =>
    cases o with
    | admitAccount k cost =>
      cases ans with
      | error err => cases h
      | ok u =>
        obtain rfl : k = key := by simpa [grantedKey] using h
        exact ⟨cost, rfl⟩
    | _ => cases h
  all_goals cases h

/-- Ada asks for a name and pays the invoice, and her second request finds that out. -/
def paidOnce : List (Process.Act Arrival Env) :=
  .spawn .ada :: runsWith (paidEnv "inv-1") 0 11 ++ .spawn .ada2 :: runsWith (paidEnv "inv-1") 1 11

/-- A third request finds it out at the same time. -/
def paidTwice : List (Process.Act Arrival Env) :=
  .spawn .ada :: runsWith (paidEnv "inv-1") 0 11 ++
    .spawn .ada2 :: runsWith (paidEnv "inv-1") 1 9 ++
    .spawn .ada3 :: runsWith (paidEnv "inv-1") 2 9 ++
    runsWith (paidEnv "inv-1") 1 2 ++ runsWith (paidEnv "inv-1") 2 2

theorem granted_of_sample {acts : List (Process.Act Arrival Env)} {i : Nat}
    (h : ((sampleRun (some samplePaid) (secs 1700000007) acts).trace[i]?.bind
      fun m => grantedKey m.call) = some Signed.registerAda.pubkey) :
    ∃ m ∈ ((sampleRelay (some samplePaid)).run (secs 1700000007)
        (acts.map (Process.Act.rename Arrival.request))).trace,
      ∃ cost, m.call = ⟨admitOp Signed.registerAda.pubkey cost, .ok ()⟩ := by
  obtain ⟨m, hm, hkey⟩ := Option.bind_eq_some_iff.mp h
  exact ⟨_, List.mem_of_getElem? (getElem?_samples hm), grantedKey_inv hkey⟩

/-- The task of a request that comes after others. -/
theorem thread_of_sample {xs ys : List (Process.Act Arrival Env)} {x : Arrival} {n : Nat}
    (hlen : (sampleRun (some samplePaid) (secs 1700000007) xs).threads.length = n)
    {t : Task.Thread}
    (ht : ((sampleRelay (some samplePaid)).run (secs 1700000007)
      (xs.map (Process.Act.rename Arrival.request) ++ .spawn x.request ::
        ys.map (Process.Act.rename Arrival.request))).threads[((sampleRelay (some samplePaid)).run
          (secs 1700000007) (xs.map (Process.Act.rename Arrival.request))).threads.length]? = some t) :
    ∃ u, (sampleRun (some samplePaid) (secs 1700000007) (xs ++ .spawn x :: ys)).threads[n]? =
      some u ∧ t = u.rename Arrival.request := by
  have hacts : xs.map (Process.Act.rename Arrival.request) ++ .spawn x.request ::
      ys.map (Process.Act.rename Arrival.request) =
      (xs ++ .spawn x :: ys : List (Process.Act Arrival Env)).map
        (Process.Act.rename Arrival.request) := by
    rw [List.map_append, List.map_cons]
    rfl
  rw [hacts, run_samples, run_samples, Process.Config.rename, Process.Config.rename,
    List.length_map, hlen, List.getElem?_map] at ht
  obtain ⟨u, hu, rfl⟩ := Option.map_eq_some_iff.mp ht
  exact ⟨u, hu, rfl⟩

theorem never_charged_again_ada : ∃ t,
    ((sampleRelay (some samplePaid)).run (secs 1700000007)
      (paidOnce.map (Process.Act.rename Arrival.request) ++ .spawn Arrival.ada3.request ::
        (runsWith (paidEnv "inv-1") 2 8).map (Process.Act.rename Arrival.request))).threads[
          ((sampleRelay (some samplePaid)).run (secs 1700000007)
            (paidOnce.map (Process.Act.rename Arrival.request))).threads.length]? = some t ∧
    PassesGate Signed.registerAda.pubkey t := by
  refine never_charged_again (sampleRelay (some samplePaid)) samplePaid rfl
    Signed.registerAda.pubkey (secs 1700000007) _ _ (Signed.registerAda3.register "203.0.113.7")
    ?_ ?_ ?_
  · exact Signed.signer_lib Signed.distinct_samples
      (by simp [Signed.samples] : Signed.registerAda3 ∈ Signed.samples)
  · have h : Machine.Along (sampleRelay (some samplePaid)).system.step
        (fun c a => NameTraffic a ∧ ErrorFree a ∧ Credited Signed.registerAda.pubkey c a)
        (System.init (Shared.start (secs 1700000007)))
        ((paidOnce ++ .spawn .ada3 :: runsWith (paidEnv "inv-1") 2 8).map
          (Process.Act.rename Arrival.request)) := along_samples _ (by decide +kernel)
    rwa [List.map_append, List.map_cons] at h
  · exact granted_of_sample (i := 0) (by decide +kernel)

theorem paidTwice_refused :
    ((sampleRun (some samplePaid) (secs 1700000007)
      (paidTwice ++ .spawn .ada5 :: runsWith (paidEnv "inv-2") 3 11)).threads[3]?.map
        fun t => refusedByGate (t.rename Arrival.request)) = some true := by
  decide +kernel

theorem polled_twice :
    Machine.Along (sampleRelay (some samplePaid)).system.step
      (fun _ a => NameTraffic a ∧ ErrorFree a) (System.init (Shared.start (secs 1700000007)))
      (paidTwice.map (Process.Act.rename Arrival.request) ++ .spawn Arrival.ada5.request ::
        (runsWith (paidEnv "inv-2") 3 11).map (Process.Act.rename Arrival.request)) ∧
    (∃ m ∈ ((sampleRelay (some samplePaid)).run (secs 1700000007)
        (paidTwice.map (Process.Act.rename Arrival.request))).trace,
      ∃ cost, m.call = ⟨admitOp Signed.registerAda.pubkey cost, .ok ()⟩) ∧
    ¬∃ t, ((sampleRelay (some samplePaid)).run (secs 1700000007)
      (paidTwice.map (Process.Act.rename Arrival.request) ++ .spawn Arrival.ada5.request ::
        (runsWith (paidEnv "inv-2") 3 11).map (Process.Act.rename Arrival.request))).threads[
          ((sampleRelay (some samplePaid)).run (secs 1700000007)
            (paidTwice.map (Process.Act.rename Arrival.request))).threads.length]? = some t ∧
      PassesGate Signed.registerAda.pubkey t := by
  refine ⟨?_, granted_of_sample (i := 0) (by decide +kernel), ?_⟩
  · have h : Machine.Along (sampleRelay (some samplePaid)).system.step
        (fun _ a => NameTraffic a ∧ ErrorFree a) (System.init (Shared.start (secs 1700000007)))
        ((paidTwice ++ .spawn .ada5 :: runsWith (paidEnv "inv-2") 3 11).map
          (Process.Act.rename Arrival.request)) := along_samples _ (by decide +kernel)
    rwa [List.map_append, List.map_cons] at h
  · rintro ⟨t, ht, hpass⟩
    obtain ⟨u, hu, rfl⟩ := thread_of_sample (x := .ada5) (n := 3) (by decide +kernel) ht
    have hrefused := paidTwice_refused
    rw [hu, Option.map_some, hpass.passed] at hrefused
    cases hrefused

end Floonet.NameAuthority
