import Floonet.NameAuthority.Store
import Floonet.NameAuthority.Signed

/-!
# Who ends a claim

`unregister` reads the owner of a name in one section and releases the name in another,
and the release names the name only. In between the name may have been released and
claimed again, and then the claim of somebody else is ended (`stale_release`). It takes
a claim that is made while a release of the same name is under way; in runs without one,
only the owner ends a claim (`released_by_owner`).
-/

namespace Floonet.NameAuthority

open Process (Obeys System)

/-! ## What a step does to the active rows -/

section Exec

variable {eng : Sql.Engine} {s : Shared} {e : Env} {o : Op} {n p : String}

/-- A claim appears by its own insert, on a free name and for a free key. -/
theorem active_exec (h : (o.exec eng s e).1.claims.Active n p) :
    s.claims.Active n p ∨ (o = insertOp n p ∧ e.fails = false ∧ s.claims.lookup n = none ∧
      s.claims.nameOf p = none) := by
  cases o with
  | claims c =>
    cases c with
    | lookup name => exact .inl h
    | nameOf pk => exact .inl h
    | release name =>
      simp only [Op.exec, ClaimOp.exec] at h
      split_ifs at h
      · exact .inl h
      · exact .inl (NameClaims.active_release.mp h).1
    | insert name pk =>
      simp only [Op.exec, ClaimOp.exec] at h
      split_ifs at h with hf
      · exact .inl h
      · obtain ⟨-, hname, hpk, hact⟩ | ⟨-, hsame⟩ :=
          s.claims.insert_cases name pk (s.tick e).unixTime
        · obtain h | ⟨rfl, rfl⟩ := (hact n p).mp h
          · exact .inl h
          · exact .inr ⟨rfl, by simpa using hf, NameClaims.lookup_eq_none hname,
              NameClaims.nameOf_eq_none hpk⟩
        · exact .inl (hsame ▸ h)
  | _ =>
    rw [Op.exec_claims (fun c hc => by cases hc)] at h
    exact .inl h

/-- A claim ends by a release of its name. -/
theorem release_of_ended (h : s.claims.Active n p) (hn : ¬(o.exec eng s e).1.claims.Active n p) :
    o = releaseOp n := by
  cases o with
  | claims c =>
    cases c with
    | lookup name => exact absurd h hn
    | nameOf pk => exact absurd h hn
    | release name =>
      simp only [Op.exec, ClaimOp.exec] at hn
      split_ifs at hn
      · exact absurd h hn
      · by_contra hne
        refine hn (NameClaims.active_release.mpr ⟨h, fun hname => hne ?_⟩)
        rw [hname]
    | insert name pk =>
      simp only [Op.exec, ClaimOp.exec] at hn
      split_ifs at hn
      · exact absurd h hn
      · obtain ⟨-, -, -, hact⟩ | ⟨-, hsame⟩ := s.claims.insert_cases name pk (s.tick e).unixTime
        · exact absurd ((hact n p).mpr (.inl h)) hn
        · rw [hsame] at hn
          exact absurd h hn
  | _ =>
    rw [Op.exec_claims (fun c hc => by cases hc)] at hn
    exact absurd h hn

end Exec

/-! ## Releases under way

A request about to release a name has read that its signer owns it. The invariant says that this
is still so; only an insert for another key could spoil it, which is what the condition excludes. -/

/-- The key that signed an unregister request. -/
def releaser (rl : Relay) : Request → Option String
  | .unregister _ req => req.signer rl.authority
  | _ => none

theorem releaser_eq_some {rl : Relay} {r : Request} {p : String} (h : releaser rl r = some p) :
    ∃ name req, r = .unregister name req ∧ req.signer rl.authority = some p := by
  cases r with
  | unregister name req => exact ⟨name, req, rfl, h⟩
  | register req => cases h
  | payment m => cases h
  | event pk => cases h

/-- The row an operation inserts. -/
def inserted : Op → Option (String × String)
  | .claims (.insert name pk) => some (name, pk)
  | _ => none

/-- A request that releases a name next has just read that its signer owns it. -/
theorem release_inv {rl : Relay} {r : Request} {past : List Call} {n : String}
    (h : rl.Calls r past (releaseOp n)) : ∃ pk rest, releaser rl r = some pk ∧
      past = ⟨lookupOp n, some pk⟩ :: rest := by
  cases r with
  | register req => exact absurd h RegisterCall.not_release
  | unregister name req =>
    cases h with
    | release _ hpk => exact ⟨_, _, hpk, rfl⟩
  | payment m => exact absurd h id
  | event pk => exact absurd h id

/-- The condition on a step: an insert that finds its name and its key free finds no
release of that name under way, except by that key. -/
def NoStaleRelease (rl : Relay) (c : Configuration) : Action → Prop
  | .spawn _ => True
  | .run i e => ∀ x ∈ (c.next i).bind inserted, e.fails = false →
      c.shared.claims.lookup x.1 = none → c.shared.claims.nameOf x.2 = none →
      ∀ t ∈ c.threads, t.code.next = some (releaseOp x.1) → releaser rl t.request = some x.2

instance (rl : Relay) (c : Configuration) : (a : Action) → Decidable (NoStaleRelease rl c a)
  | .spawn _ => isTrue trivial
  | .run i _ => inferInstanceAs (Decidable (∀ x ∈ (c.next i).bind inserted, _))

/-- Whoever is about to release a claim owns it. -/
def OwnersRelease (rl : Relay) (c : Configuration) : Prop :=
  ∀ t ∈ c.threads, ∀ n, t.code.next = some (releaseOp n) →
    ∀ p, c.shared.claims.Active n p → releaser rl t.request = some p

/-- A step ends only a claim of the key that signed. -/
def EndedByOwner (rl : Relay) (m : Move) : Prop :=
  ∀ n p, m.before.claims.Active n p → ¬m.after.claims.Active n p → releaser rl m.request = some p

section Invariant

variable {rl : Relay} {c : Configuration} {i : Nat} {e : Env} {r : Request} {past : List Call}
  {o : Op} {k : o.Res → Task Answer}

/-- A new request has not looked up a name yet. -/
theorem ownersRelease_spawn (h : OwnersRelease rl c) :
    OwnersRelease rl (rl.system.step c (.spawn r)) := by
  intro t ht n hn p hp
  obtain rfl | ht := System.mem_spawn ht
  · obtain ⟨pk, rest, -, hpast⟩ := release_inv ((rl.obeys r).of_next hn)
    cases hpast
  · exact h t ht n hn p hp

theorem ownersRelease_fire (hc : rl.Sound c) (hC : NoStaleRelease rl c (.run i e))
    (h : OwnersRelease rl c) (hi : c.threads[i]? = some ⟨r, past, .call o k⟩) :
    OwnersRelease rl (rl.system.fire c i e r past o k) := by
  intro t ht n hn p hp
  obtain rfl | hmem := System.mem_fire ht
  · -- it has just looked the owner up
    obtain ⟨pk, rest, hpk, hpast⟩ := release_inv (((hc.fire hi).of_mem ht).of_next hn)
    simp only [System.fired, List.cons.injEq, Process.Call.mk.injEq] at hpast
    obtain ⟨⟨rfl, hans⟩, -⟩ := hpast
    have hread : (if e.fails then none else c.shared.claims.lookup n) = some pk := eq_of_heq hans
    split_ifs at hread
    have hown : c.shared.claims.Active n pk := NameClaims.lookup_eq_some.mp hread
    rwa [hown.pubkey_unique hp] at hpk
  · obtain hact | ⟨rfl, hf, hname, hpk⟩ := active_exec hp
    · exact h t hmem n hn p hact
    · refine hC (n, p) ?_ hf hname hpk t hmem hn
      rw [Process.Config.next_of_getElem? hi]
      rfl

theorem endedByOwner_fire (h : OwnersRelease rl c)
    (hi : c.threads[i]? = some ⟨r, past, .call o k⟩) :
    EndedByOwner rl ⟨i, r, ⟨o, (rl.system.exec c.shared e o).2⟩, c.shared,
      (rl.system.exec c.shared e o).1, (k (rl.system.exec c.shared e o).2).result⟩ := by
  intro n p hp hnp
  obtain rfl := release_of_ended hp hnp
  exact h _ (List.mem_of_getElem? hi) n rfl p hp

end Invariant

/-- In every run whose steps meet the condition, a claim is ended only by an unregister
request that its owner signed. -/
theorem released_by_owner (rl : Relay) (clock : Nat) (acts : List Action)
    (h : Machine.Along rl.system.step (NoStaleRelease rl) (System.init (Shared.start clock)) acts) :
    ∀ m ∈ (rl.run clock acts).trace, ∀ n p, m.before.claims.Active n p →
      ¬m.after.claims.Active n p → ∃ name req, m.request = .unregister name req ∧
        req.signer rl.authority = some p := by
  have hinv := System.invariant_along (P := fun c => OwnersRelease rl c ∧
    ∀ m ∈ c.trace, EndedByOwner rl m) rl.obeys ⟨?_, ?_⟩ ?_ ?_ h
  · exact fun m hm n p hp hnp => releaser_eq_some (hinv.2.2 m hm n p hp hnp)
  · intro t ht
    cases ht
  · intro m hm
    cases hm
  · exact fun c r _ _ hP => ⟨ownersRelease_spawn hP.1, hP.2⟩
  · intro c i e r past o k hc hC hP hi
    refine ⟨ownersRelease_fire hc hC hP.1 hi, ?_⟩
    exact List.forall_mem_cons.mpr ⟨endedByOwner_fire hP.1 hi, hP.2⟩

open NameAuthority.Arrival (runs)

/-- Ada registers a name and releases it. -/
def ownRelease : List (Process.Act Arrival Env) :=
  .spawn .ada :: runs 0 7 ++ .spawn .release :: runs 1 5

theorem ownRelease_last :
    ((sampleRun none (secs 1700000007) ownRelease).trace.head?.map fun m =>
      (m.before.claims.lookup "ada", m.after.claims.lookup "ada")) =
      some (some Signed.registerAda.pubkey, none) := by
  decide +kernel

theorem released_by_ada :
    Machine.Along (sampleRelay none).system.step (NoStaleRelease (sampleRelay none))
      (System.init (Shared.start (secs 1700000007)))
      (ownRelease.map (Process.Act.rename Arrival.request)) ∧
    ∃ m ∈ ((sampleRelay none).run (secs 1700000007)
        (ownRelease.map (Process.Act.rename Arrival.request))).trace,
      m.before.claims.Active "ada" Signed.registerAda.pubkey ∧
      ¬m.after.claims.Active "ada" Signed.registerAda.pubkey ∧
      ∃ name req, m.request = .unregister name req ∧
        req.signer (sampleRelay none).authority = some Signed.registerAda.pubkey := by
  have halong : Machine.Along (sampleRelay none).system.step (NoStaleRelease (sampleRelay none))
      (System.init (Shared.start (secs 1700000007)))
      (ownRelease.map (Process.Act.rename Arrival.request)) :=
    along_samples none (by decide +kernel)
  obtain ⟨m, hm, hmove⟩ := Option.map_eq_some_iff.mp ownRelease_last
  obtain ⟨hbefore, hafter⟩ := Prod.mk.inj hmove
  have hact := NameClaims.lookup_eq_some.mp hbefore
  have hnot : ¬m.after.claims.Active "ada" Signed.registerAda.pubkey :=
    NameClaims.not_active_of_lookup hafter
  have hmem : m.rename Arrival.request ∈ ((sampleRelay none).run (secs 1700000007)
      (ownRelease.map (Process.Act.rename Arrival.request))).trace := by
    rw [run_samples]
    exact List.mem_map_of_mem (List.mem_of_head? hm)
  exact ⟨halong, _, hmem, hact, hnot, released_by_owner _ _ _ halong _ hmem _ _ hact hnot⟩

/-- Ada registers a name and sends two releases. Both find her the owner; after the first
one somebody else takes the name, and the second one ends that claim. -/
def staleRelease : List (Process.Act Arrival Env) :=
  .spawn .ada :: runs 0 7 ++ .spawn .release :: .spawn .release2 :: runs 1 4 ++ runs 2 4 ++
    runs 1 2 ++ .spawn .eve :: runs 3 7 ++ runs 2 1

theorem staleRelease_last :
    ((sampleRun none (secs 1700000007) staleRelease).trace.head?.map fun m =>
      (m.request, m.before.claims.lookup "ada", m.after.claims.lookup "ada")) =
      some (.release2, some Signed.takeAda.pubkey, none) := by
  decide +kernel

/-- The last step of this run ends a claim whose owner has not signed the request. -/
theorem stale_release :
    ¬∀ m ∈ ((sampleRelay none).run (secs 1700000007)
        (staleRelease.map (Process.Act.rename Arrival.request))).trace,
      ∀ n p, m.before.claims.Active n p → ¬m.after.claims.Active n p →
        ∃ name req, m.request = .unregister name req ∧
          req.signer (sampleRelay none).authority = some p := by
  intro h
  obtain ⟨m, hm, hmove⟩ := Option.map_eq_some_iff.mp staleRelease_last
  simp only [Prod.mk.injEq] at hmove
  obtain ⟨hreq, hbefore, hafter⟩ := hmove
  rw [run_samples] at h
  have hnot : ¬m.after.claims.Active "ada" Signed.takeAda.pubkey :=
    NameClaims.not_active_of_lookup hafter
  obtain ⟨name, req, hr, hsigner⟩ := h (m.rename Arrival.request)
    (List.mem_map_of_mem (List.mem_of_head? hm)) "ada" _ (NameClaims.lookup_eq_some.mp hbefore) hnot
  rw [Process.Move.rename, hreq, Arrival.request] at hr
  obtain ⟨-, rfl⟩ := Request.unregister.inj hr
  have hada : (Signed.releaseAda2.unregister "203.0.113.7").signer (sampleRelay none).authority =
      some Signed.releaseAda2.pubkey :=
    Signed.signer_lib Signed.distinct_samples (by simp [Signed.samples])
  rw [hada, Option.some.injEq] at hsigner
  exact absurd hsigner (by decide)

end Floonet.NameAuthority
