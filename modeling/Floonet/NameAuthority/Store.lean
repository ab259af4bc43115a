import Floonet.Relay

/-!
# The claims store under every interleaving

The checks of `register` before the insert are separate sections, so by the time it
inserts they may be out of date. What it relies on is the insert itself, with the two
constraints of the table: whatever the interleaving, a name has one owner and a key
one name, and a request that does not answer 201 has not written anything.
-/

namespace Floonet.NameAuthority

open Process (Obeys Proc System)

/-- The step answered a request with 201. -/
def Created (m : Move) : Prop := ∃ resp, m.reply = some (.http resp) ∧ resp.status = 201

variable {rl : Relay}

/-! ## One step of a register request

A register request changes the store by its insert only, and by the contract nothing of it comes
after the insert. So its answer and what it wrote agree. -/

section Step

variable {req : HttpRequest} {past : List Call} {s : Shared} {e : Env}

/-- The insert writes a row that was not active, or writes nothing. -/
theorem insert_step (eng : Sql.Engine) (s : Shared) (e : Env) (name pk : String) :
    (((insertOp name pk).exec eng s e).2 = .ok 1 ∧ ¬s.claims.Active name pk ∧
      ((insertOp name pk).exec eng s e).1.claims.Active name pk) ∨
    ((∀ n, ((insertOp name pk).exec eng s e).2 ≠ .ok (n + 1)) ∧
      ((insertOp name pk).exec eng s e).1.claims = s.claims) := by
  simp only [Op.exec, ClaimOp.exec]
  by_cases hf : e.fails = true
  · rw [if_pos hf]
    exact .inr ⟨fun n => by simp, rfl⟩
  · rw [if_neg hf]
    obtain ⟨hok, hfree, -, hact⟩ | hnot := s.claims.insert_cases name pk (s.tick e).unixTime
    · exact .inl ⟨hok, hfree pk, (hact name pk).mpr (.inr ⟨rfl, rfl⟩)⟩
    · exact .inr hnot

/-- A register request changes the store by its insert only. -/
theorem claims_of_register {eng : Sql.Engine} {o : Op} (h : RegisterCall rl.authority req past o)
    (ho : ∀ name pk, o ≠ insertOp name pk) : (o.exec eng s e).1.claims = s.claims := by
  cases o with
  | claims c =>
    cases c with
    | lookup name => rfl
    | nameOf pk => rfl
    | release name => exact absurd h RegisterCall.not_release
    | insert name pk => exact absurd rfl (ho name pk)
  | _ => exact Op.exec_claims fun c hc => by cases hc

/-- After its insert a register request is finished, with 201 exactly when a row was
written. -/
theorem created_iff_of_insert {name pk : String} {r : Except ClaimError Nat} {p : Task Answer}
    (h : Obeys (rl.Calls (.register req)) (rl.Results (.register req))
      (⟨insertOp name pk, r⟩ :: past) p) :
    (∃ resp, p.result = some (.http resp) ∧ resp.status = 201) ↔ ∃ n, r = .ok (n + 1) := by
  refine ⟨?_, ?_⟩
  · rintro ⟨resp, hresp, h201⟩
    obtain ⟨name', pk', n, rest, heq, -⟩ :=
      RegisterResult.of_status_201 (h.of_result hresp) h201
    simp only [List.cons.injEq, Process.Call.mk.injEq] at heq
    obtain ⟨⟨hop, hans⟩, -⟩ := heq
    cases hop
    exact ⟨n, eq_of_heq hans⟩
  · rintro ⟨n, rfl⟩
    rcases hr : p.result with _ | ans
    · obtain ⟨o, ho⟩ := h.of_running hr
      exact absurd ho RegisterCall.not_after_insert
    · cases ans with
      | http resp => exact ⟨resp, rfl, RegisterResult.status_of_insert (h.of_result hr)⟩
      | finished => exact absurd (h.of_result hr) id

/-- No other operation of it is answered with 201. -/
theorem not_created_of_ne {o : Op} {r : o.Res} {p : Task Answer} {resp : Response}
    (h : Obeys (rl.Calls (.register req)) (rl.Results (.register req)) (⟨o, r⟩ :: past) p)
    (ho : ∀ name pk, o ≠ insertOp name pk) (hresp : p.result = some (.http resp)) :
    resp.status ≠ 201 := by
  intro h201
  obtain ⟨name, pk, n, rest, heq, -⟩ := RegisterResult.of_status_201 (h.of_result hresp) h201
  exact ho name pk (congrArg Process.Call.op (List.cons.inj heq).1)

/-- A step of a register request answers 201 exactly when it makes its claim active, and
changes the store in no other case. -/
def RegisterStep (rl : Relay) (m : Move) : Prop :=
  ∀ req, m.request = .register req →
    (Created m ↔ ∃ name pk, req.claim rl.authority = some (name, pk) ∧
      ¬m.before.claims.Active name pk ∧ m.after.claims.Active name pk) ∧
    (¬Created m → m.after.claims = m.before.claims)

/-- A move of a program that keeps its contract. -/
theorem registerStep (i : Nat) (r : Request) (o : Op) (k : o.Res → Task Answer)
    (h : Obeys (rl.Calls r) (rl.Results r) past (.call o k)) :
    RegisterStep rl ⟨i, r, ⟨o, (rl.system.exec s e o).2⟩, s, (rl.system.exec s e o).1,
      (k (rl.system.exec s e o).2).result⟩ := by
  rintro req rfl
  obtain ⟨hcall, hnext⟩ := Process.obeys_call.mp h
  have hnext := hnext (rl.system.exec s e o).2
  by_cases ho : ∃ name pk, o = insertOp name pk
  · obtain ⟨name, pk, rfl⟩ := ho
    obtain ⟨-, hclaim, -⟩ := RegisterCall.insert_inv hcall
    have hiff := created_iff_of_insert hnext
    obtain ⟨hok, hnot, hact⟩ | ⟨hno, hsame⟩ := insert_step rl.engine s e name pk
    · have hcreated := hiff.mpr ⟨0, hok⟩
      exact ⟨⟨fun _ => ⟨name, pk, hclaim, hnot, hact⟩, fun _ => hcreated⟩,
        fun hn => absurd hcreated hn⟩
    · have hlost : ¬∃ n, (rl.system.exec s e (insertOp name pk)).2 = .ok (n + 1) := by
        rintro ⟨n, hn⟩
        exact hno n hn
      refine ⟨⟨fun hc => absurd (hiff.mp hc) hlost, ?_⟩, fun _ => hsame⟩
      rintro ⟨n, p, -, hn, ha⟩
      exact absurd (hsame ▸ ha) hn
  · have hne : ∀ name pk, o ≠ insertOp name pk := fun name pk hop => ho ⟨name, pk, hop⟩
    have hsame : (rl.system.exec s e o).1.claims = s.claims := claims_of_register hcall hne
    refine ⟨⟨?_, ?_⟩, fun _ => hsame⟩
    · rintro ⟨resp, hresp, h201⟩
      exact absurd h201 (not_created_of_ne hnext hne hresp)
    · rintro ⟨n, p, -, hn, ha⟩
      exact absurd (hsame ▸ ha) hn

end Step

/-! ## Whole runs

The uniqueness of names and keys is a field of the table; the rest follows from the steps, each of
which belongs to a program that keeps its contract. -/

theorem registerStep_of_mem {clock : Nat} {acts : List Action} :
    ∀ m ∈ (rl.run clock acts).trace, RegisterStep rl m :=
  System.forall_moves rl.obeys fun _ i _ r _ o k h => registerStep i r o k h

/-- A register request that is finished without a 201 has changed nothing. -/
theorem claims_of_refused {clock : Nat} {acts : List Action} {i : Nat} {req : HttpRequest}
    {past : List Call} {resp : Response}
    (hi : (rl.run clock acts).threads[i]? = some ⟨.register req, past, .ret (.http resp)⟩)
    (hresp : resp.status ≠ 201) (m : Move) (hm : m ∈ (rl.run clock acts).trace)
    (hthread : m.thread = i) : m.after.claims = m.before.claims := by
  obtain ⟨t, ht, hreq, hcode⟩ := (System.sound_run rl.obeys _ acts).moves m hm
  rw [hthread] at ht
  obtain rfl := Option.some.inj (hi.symm.trans ht)
  refine (registerStep_of_mem m hm req hreq.symm).2 ?_
  rintro ⟨resp', hreply, h201⟩
  -- the thread stopped with the answer of this step
  cases hcode _ hreply
  exact hresp h201

/-- The store under every interleaving of requests: one active row per name and per key,
`lookup` and `name_of` inverse to each other, 201 exactly for the step that made the
claim active, and no change by a register request that answers anything else. -/
theorem claims_store (rl : Relay) (clock : Nat) (acts : List Action) :
    let c := rl.run clock acts
    (∀ name, (c.shared.claims.rows.countP fun r => r.name == name && r.active) ≤ 1) ∧
    (∀ pk, (c.shared.claims.rows.countP fun r => r.pubkey == pk && r.active) ≤ 1) ∧
    (∀ name pk, c.shared.claims.lookup name = some pk ↔ c.shared.claims.nameOf pk = some name) ∧
    (∀ m ∈ c.trace, ∀ req, m.request = .register req →
      (Created m ↔ ∃ name pk, req.claim rl.authority = some (name, pk) ∧
        ¬m.before.claims.Active name pk ∧ m.after.claims.Active name pk)) ∧
    (∀ i req past resp, c.threads[i]? = some ⟨.register req, past, .ret (.http resp)⟩ →
      resp.status ≠ 201 → ∀ m ∈ c.trace, m.thread = i → m.after.claims = m.before.claims) := by
  intro c
  refine ⟨c.shared.claims.countP_name_le_one, c.shared.claims.countP_pubkey_le_one, ?_, ?_, ?_⟩
  · exact fun name pk => NameClaims.lookup_eq_some.trans NameClaims.nameOf_eq_some.symm
  · intro m hm req hreq
    exact (registerStep_of_mem m hm req hreq).1
  · exact fun i req past resp hi hresp => claims_of_refused hi hresp

end Floonet.NameAuthority
