import Floonet.NameAuthority.Ownership

/-!
# The release cooldown

`unregister` arms the cooldown after its release, in the map it shares with the rate
limiter, and `register` looks at it long before its insert. Four things let a claim
through inside the cooldown: a release between the check of a request and its insert
(`early_check`), a check between the release and the arming, a map so large that the
limiter throws the hit away, and a check at the very end of the interval. In runs
without them a key claims nothing until the cooldown is over (`cooldown_kept`).
-/

namespace Floonet.NameAuthority

open Process (Obeys System)

/-- The call ended a claim: a release that wrote a row. -/
def freed : Call → Bool
  | ⟨.claims (.release _), .ok (_ + 1)⟩ => true
  | _ => false

/-- The call is a cooldown check of the key, and it passed. -/
def cleared (pk : String) : Call → Bool
  | ⟨.limits (.cooldownActive _ key _), false⟩ => key == pk
  | _ => false

/-- A task that has passed the check of the key and is not finished. -/
def mayClaim (pk : String) (t : Task.Thread) : Bool := t.code.next.isSome && t.past.any (cleared pk)

/-- A task that has ended a claim and has yet to arm the cooldown of the key. -/
def arming (pk : String) (t : Task.Thread) : Bool :=
  t.code.next == some (recordReleaseOp pk) && t.past.head?.any freed

/-- The owner a lookup has read. -/
def ownerRead : Call → Option String
  | ⟨.claims (.lookup _), owner⟩ => owner
  | _ => none

/-- The name that the call releases. -/
def released : Op → Option String
  | .claims (.release name) => some name
  | _ => none

/-- The key whose cooldown the call looks at. -/
def checked : Op → Option String
  | .limits (.cooldownActive _ key _) => some key
  | _ => none

/-- The window of the clean-up, if the call cleans the map. -/
def cleaning (l : Limits) (now : Nat) : Op → Option Nat
  | .limits (.allow bucket ip max window) =>
    if l.Cleans now bucket ip max window then some window else none
  | _ => none

/-- Nanoseconds of cooldown. -/
def cooldown (rl : Relay) : Nat := secs rl.authority.cfg.nameChangeCooldownSecs

/-! ## The condition

Three things can go wrong: a release between the check of a claim and its insert, a check while a
release is not noted down yet, and a clean-up of the map the cooldown shares with the limiter. Each
is a condition on the step that does the harm: the insert that goes through, the check that passes,
and the clean-up that drops a release which still counts. -/

/-- What has happened since the task passed its check of the key. -/
def sinceCheck (c : Configuration) (i : Nat) (p : String) : List Move :=
  c.trace.takeWhile fun m => !(m.thread == i && cleared p m.call)

/-- An insert that goes through: since the check of the key no release of its has ended a claim. -/
def CheckStands (rl : Relay) (c : Configuration) (i : Nat) (e : Env) : Prop :=
  ∀ x ∈ (c.next i).bind inserted, e.fails = false → c.shared.claims.lookup x.1 = none →
    c.shared.claims.nameOf x.2 = none → ∀ m ∈ sinceCheck c i x.2, freed m.call = true →
      releaser rl m.request ≠ some x.2

/-- A check that passes: no release of the key is waiting to be recorded, and none happened
exactly one cooldown ago. -/
def CheckOnTime (rl : Relay) (c : Configuration) (i : Nat) (e : Env) : Prop :=
  ∀ p ∈ (c.next i).bind checked,
    (∀ h ∈ c.shared.limits.hits (Limits.bucketKey NAMECHANGE p),
      cooldown rl ≤ c.shared.clock + e.elapsed - h) →
    (∀ t ∈ c.threads, arming p t = false) ∧
      ∀ m ∈ c.trace, freed m.call = true →
        m.after.clock + cooldown rl = c.shared.clock + e.elapsed → releaser rl m.request ≠ some p

/-- A clean-up of the map: the key of a recorded release that still counts has a hit in its
window. -/
def MapKept (rl : Relay) (c : Configuration) (i : Nat) (e : Env) : Prop :=
  ∀ w ∈ (c.next i).bind (cleaning c.shared.limits (c.shared.clock + e.elapsed)),
    ∀ m ∈ c.trace, freed m.call = true → ∀ p ∈ releaser rl m.request,
      c.shared.clock + e.elapsed < m.after.clock + cooldown rl →
      (∃ h ∈ c.shared.limits.hits (Limits.bucketKey NAMECHANGE p), m.after.clock ≤ h) →
      ∃ h ∈ c.shared.limits.hits (Limits.bucketKey NAMECHANGE p),
        c.shared.clock + e.elapsed - h < w

/-- The condition on a step. -/
def CooldownKept (rl : Relay) (c : Configuration) : Action → Prop
  | .spawn _ => True
  | .run i e => CheckStands rl c i e ∧ CheckOnTime rl c i e ∧ MapKept rl c i e

instance (rl : Relay) (c : Configuration) (i : Nat) (e : Env) : Decidable (CheckStands rl c i e) :=
  inferInstanceAs (Decidable (∀ x ∈ (c.next i).bind inserted, _))

instance (rl : Relay) (c : Configuration) (i : Nat) (e : Env) : Decidable (CheckOnTime rl c i e) :=
  inferInstanceAs (Decidable (∀ p ∈ (c.next i).bind checked, _))

instance (rl : Relay) (c : Configuration) (i : Nat) (e : Env) : Decidable (MapKept rl c i e) :=
  inferInstanceAs (Decidable (∀ w ∈ (c.next i).bind (cleaning _ _), _))

instance (rl : Relay) (c : Configuration) : (a : Action) → Decidable (CooldownKept rl c a)
  | .spawn _ => isTrue trivial
  | .run i e => inferInstanceAs (Decidable (CheckStands rl c i e ∧ _))

/-! ## Steps of the two maps and of the store

What one call does to the hits of a cooldown, to the clock and to the active rows. The invariant
below uses these and nothing else of the state. -/

section Step

variable {rl : Relay} {r : Request} {past : List Call} {s : Shared} {e : Env} {o : Op}
  {n p : String}

/-- The limiter and the cooldown use different keys. -/
theorem bucketKey_ne {bucket ip : String} (hb : bucket = "na-reg" ∨ bucket = "na-unreg") :
    Limits.bucketKey NAMECHANGE p ≠ Limits.bucketKey bucket ip := by
  intro h
  have h := congrArg (fun s => s.toList[3]?) h
  rcases hb with rfl | rfl <;> simp [Limits.bucketKey, NAMECHANGE] at h

/-- A hit of the cooldown stays in the map as long as it counts, if a clean-up keeps its key. -/
theorem hit_exec {h : Nat} (hcall : rl.Calls r past o)
    (hkept : ∀ w ∈ cleaning s.limits (s.clock + e.elapsed) o,
      ∃ h ∈ s.limits.hits (Limits.bucketKey NAMECHANGE p), s.clock + e.elapsed - h < w)
    (hh : h ∈ s.limits.hits (Limits.bucketKey NAMECHANGE p)) :
    h ∈ (o.exec rl.engine s e).1.limits.hits (Limits.bucketKey NAMECHANGE p) ∨
      cooldown rl ≤ s.clock + e.elapsed - h := by
  by_cases ho : ∃ lo, o = .limits lo
  · obtain ⟨bucket, ip, hb, rfl⟩ | ⟨id, rfl⟩ | ⟨pk, rfl⟩ | ⟨pk, rfl⟩ := rl.limits_inv hcall ho
    · obtain hh | ⟨hcleans, hover⟩ := Limits.mem_hits_allow hh (bucketKey_ne hb)
      · exact .inl hh
      · obtain ⟨h', hh', hlt⟩ := hkept _ (if_pos hcleans)
        exact absurd hlt (not_lt.mpr (hover h' hh'))
    · left
      simp only [Op.exec, LimitOp.exec, Limits.authEventFresh]
      split_ifs <;> exact hh
    · exact Limits.mem_hits_cooldownActive hh
    · exact .inl (Limits.mem_hits_recordOp hh)
  · left
    rw [Op.exec_limits fun lo hlo => ho ⟨lo, hlo⟩]
    exact hh

theorem freed_inv {x : Call} (h : freed x = true) : ∃ n k, x = ⟨releaseOp n, .ok (k + 1)⟩ := by
  rcases x with ⟨o, a⟩
  cases o with
  | claims c =>
    cases c with
    | release n =>
      rcases a with err | _ | k
      · cases h
      · cases h
      · exact ⟨n, k, rfl⟩
    | _ => cases h
  | _ => cases h

theorem cleared_inv {x : Call} (h : cleared p x = true) :
    ∃ bucket window, x = ⟨.limits (.cooldownActive bucket p window), false⟩ := by
  rcases x with ⟨o, a⟩
  cases o with
  | limits lo =>
    cases lo with
    | cooldownActive bucket key window =>
      cases a with
      | true => cases h
      | false =>
        obtain rfl : key = p := by simpa [cleared] using h
        exact ⟨bucket, window, rfl⟩
    | _ => cases h
  | _ => cases h

/-- A step that ends a claim is a release that wrote a row. -/
theorem freed_of_ended {q : String} (h : s.claims.Active n q)
    (hn : ¬(o.exec rl.engine s e).1.claims.Active n q) :
    freed ⟨o, (o.exec rl.engine s e).2⟩ = true := by
  obtain rfl := release_of_ended h hn
  simp only [Op.exec, ClaimOp.exec] at hn ⊢
  split_ifs at hn ⊢
  · exact absurd h hn
  · have hpos := NameClaims.countP_name_pos_iff.mpr ⟨q, h⟩
    obtain ⟨m, hm⟩ := Nat.exists_eq_succ_of_ne_zero hpos.ne'
    rw [NameClaims.release, hm]
    rfl

/-- After such a release the task arms the cooldown of its signer next. -/
theorem arming_of_freed {x : Call} {p : Task Answer} {pk : String}
    (h : Obeys (rl.Calls r) (rl.Results r) (x :: past) p) (hx : freed x = true)
    (hpk : releaser rl r = some pk) :
    arming pk ⟨r, x :: past, p⟩ = true := by
  obtain ⟨n, k, rfl⟩ := freed_inv hx
  obtain ⟨name, req, rfl, hsigner⟩ := releaser_eq_some hpk
  cases h with
  | @ret _ answer hres =>
    cases answer with
    | http resp => exact absurd rfl (hres.2 n (k + 1) past)
    | finished => exact absurd hres id
  | call hq hk =>
    cases hq with
    | record _ hpk' =>
      obtain rfl := Option.some.inj (hsigner.symm.trans hpk')
      simp [arming, freed, Process.Proc.next]

end Step

/-! ## The invariant

Each release that wrote a row is either noted down, about to be noted down by its own request, or
older than the cooldown; and a request past its check is a cooldown later than every release of its
key but those that came after the check. -/

/-- The step ended a claim, and the key signed for it. -/
def Frees (rl : Relay) (m : Move) (p : String) : Prop :=
  freed m.call = true ∧ releaser rl m.request = some p

/-- Every release has armed the cooldown, is about to, or is past; and a register request beyond
its check has left every release of its key behind that it does not follow. -/
structure CooldownInv (rl : Relay) (c : Configuration) : Prop where
  clock : ∀ m ∈ c.trace, m.after.clock ≤ c.shared.clock
  armed : ∀ m ∈ c.trace, ∀ p, Frees rl m p →
    (∃ t, c.threads[m.thread]? = some t ∧ arming p t = true) ∨
    (∃ h ∈ c.shared.limits.hits (Limits.bucketKey NAMECHANGE p), m.after.clock ≤ h) ∨
    m.after.clock + cooldown rl ≤ c.shared.clock
  waited : ∀ i t, c.threads[i]? = some t → ∀ p, mayClaim p t = true → ∀ m ∈ c.trace, Frees rl m p →
    m.after.clock + cooldown rl < c.shared.clock ∨ m ∈ sinceCheck c i p

section Invariant

variable {rl : Relay} {c : Configuration} {i : Nat} {e : Env} {r : Request} {past : List Call}
  {o : Op} {k : o.Res → Task Answer}

/-- A new request has not checked anything yet. -/
theorem cooldownInv_spawn (h : CooldownInv rl c) :
    CooldownInv rl (rl.system.step c (.spawn r)) where
  clock := h.clock
  armed := by
    intro m hm p hf
    obtain ⟨t, ht, hat⟩ | hrest := h.armed m hm p hf
    · exact .inl ⟨t, List.getElem?_append_left (List.getElem?_eq_some_iff.mp ht).1 ▸ ht, hat⟩
    · exact .inr hrest
  waited := by
    intro j t ht p hp m hm hf
    obtain ⟨-, rfl⟩ | ht := System.getElem?_spawn ht
    · -- it has done nothing yet
      simp [mayClaim] at hp
    · exact h.waited j t ht p hp m hm hf

theorem clock_fire : (rl.system.fire c i e r past o k).shared.clock = c.shared.clock + e.elapsed :=
  rl.clock_exec o

theorem clock_fire_inv (h : CooldownInv rl c) :
    ∀ m ∈ (rl.system.fire c i e r past o k).trace,
      m.after.clock ≤ (rl.system.fire c i e r past o k).shared.clock := by
  refine List.forall_mem_cons.mpr ⟨le_refl _, fun m hm => ?_⟩
  rw [clock_fire]
  exact (h.clock m hm).trans (Nat.le_add_right _ _)

/-- Old releases stay armed, pending or past. -/
theorem armed_fire (hc : rl.Sound c) (hC : MapKept rl c i e) (h : CooldownInv rl c)
    (hi : c.threads[i]? = some ⟨r, past, .call o k⟩) {m : Move} (hm : m ∈ c.trace) {p : String}
    (hf : Frees rl m p) :
    (∃ t, (rl.system.fire c i e r past o k).threads[m.thread]? = some t ∧ arming p t = true) ∨
    (∃ h ∈ (rl.system.fire c i e r past o k).shared.limits.hits (Limits.bucketKey NAMECHANGE p),
      m.after.clock ≤ h) ∨
    m.after.clock + cooldown rl ≤ (rl.system.fire c i e r past o k).shared.clock := by
  have hcall := (Process.obeys_call.mp (hc.obeys hi)).1
  have hclock := h.clock m hm
  rw [clock_fire]
  obtain ⟨t, ht, hat⟩ | ⟨hit, hhit, hle⟩ | hover := h.armed m hm p hf
  · by_cases hmi : m.thread = i
    · -- the task of the release: this step arms the cooldown
      rw [hmi, hi] at ht
      cases ht
      simp only [arming, Process.Proc.next, Bool.and_eq_true, beq_iff_eq, Option.some.injEq] at hat
      obtain ⟨rfl, -⟩ := hat
      exact .inr (.inl ⟨_, Limits.now_mem_hits_recordOp, hclock.trans (Nat.le_add_right _ _)⟩)
    · exact .inl ⟨t, (List.getElem?_set_ne fun h => hmi h.symm).trans ht, hat⟩
  · by_cases hlate : m.after.clock + cooldown rl ≤ c.shared.clock + e.elapsed
    · exact .inr (.inr hlate)
    · have hmap : ∀ w ∈ cleaning c.shared.limits (c.shared.clock + e.elapsed) o,
          ∃ h ∈ c.shared.limits.hits (Limits.bucketKey NAMECHANGE p),
            c.shared.clock + e.elapsed - h < w :=
        fun w hw => hC w (by rw [Process.Config.next_of_getElem? hi]; exact hw) m hm hf.1 p hf.2
          (not_le.mp hlate) ⟨hit, hhit, hle⟩
      obtain hkept | hover := hit_exec hcall hmap hhit
      · exact .inr (.inl ⟨hit, hkept, hle⟩)
      · exact .inr (.inr (by omega))
  · exact .inr (.inr (by omega))

/-- A check that passes leaves every release of the key behind. -/
theorem waited_of_check (h : CooldownInv rl c) {p : String} {bucket : String} {window : Nat}
    {k : (Op.limits (.cooldownActive bucket p window)).Res → Task Answer}
    (hC : CheckOnTime rl c i e) (hcall : rl.Calls r past (.limits (.cooldownActive bucket p window)))
    (hi : c.threads[i]? = some ⟨r, past, .call (.limits (.cooldownActive bucket p window)) k⟩)
    (hfalse : (rl.system.exec c.shared e (.limits (.cooldownActive bucket p window))).2 = false)
    {m : Move} (hm : m ∈ c.trace) (hf : Frees rl m p) :
    m.after.clock + cooldown rl < c.shared.clock + e.elapsed := by
  have hnext : p ∈ (c.next i).bind checked := by
    rw [Process.Config.next_of_getElem? hi]
    rfl
  have hover : ∀ hit ∈ c.shared.limits.hits (Limits.bucketKey NAMECHANGE p),
      cooldown rl ≤ c.shared.clock + e.elapsed - hit := by
    intro hit hhit
    obtain ⟨_, _, _, heq⟩ | ⟨_, heq⟩ | ⟨pk, heq⟩ | ⟨_, heq⟩ := rl.limits_inv hcall ⟨_, rfl⟩
    · cases heq
    · cases heq
    · cases heq
      exact Limits.window_le_of_not_cooldownActive hhit hfalse
    · cases heq
  obtain ⟨hpending, hexact⟩ := hC p hnext hover
  have hne : m.after.clock + cooldown rl ≠ c.shared.clock + e.elapsed :=
    fun heq => hexact m hm hf.1 heq hf.2
  have hclock := h.clock m hm
  obtain ⟨t, ht, hat⟩ | ⟨hit, hhit, hle⟩ | hpast := h.armed m hm p hf
  · rw [hpending t (List.mem_of_getElem? ht)] at hat
    cases hat
  · have hlate := hover hit hhit
    omega
  · omega

variable (r past k) in
/-- A step of another task, or one that is no check of the key, comes after the check. -/
theorem sinceCheck_fire {j : Nat} {p : String}
    (hstep : ¬(j = i ∧ cleared p ⟨o, (rl.system.exec c.shared e o).2⟩ = true)) :
    ∃ m : Move, m.call = ⟨o, (rl.system.exec c.shared e o).2⟩ ∧
      (rl.system.fire c i e r past o k).trace = m :: c.trace ∧
      sinceCheck (rl.system.fire c i e r past o k) j p = m :: sinceCheck c j p := by
  refine ⟨_, rfl, rfl, List.takeWhile_cons_of_pos ?_⟩
  rw [Bool.not_eq_true', Bool.and_eq_false_iff, beq_eq_false_iff_ne]
  by_cases hji : i = j
  · exact .inr (by simpa using fun h => hstep ⟨hji.symm, h⟩)
  · exact .inl hji

/-- A step of a request keeps the wait of every claim that can still be made. -/
theorem waited_fire (hc : rl.Sound c) (hC : CheckOnTime rl c i e) (h : CooldownInv rl c)
    (hi : c.threads[i]? = some ⟨r, past, .call o k⟩) :
    ∀ j t, (rl.system.fire c i e r past o k).threads[j]? = some t → ∀ p, mayClaim p t = true →
      ∀ m ∈ (rl.system.fire c i e r past o k).trace, Frees rl m p →
        m.after.clock + cooldown rl < (rl.system.fire c i e r past o k).shared.clock ∨
          m ∈ sinceCheck (rl.system.fire c i e r past o k) j p := by
  have hcall := (Process.obeys_call.mp (hc.obeys hi)).1
  intro j t ht p hp m hm hf
  by_cases hstep : j = i ∧ cleared p ⟨o, (rl.system.exec c.shared e o).2⟩ = true
  · -- this step is the check
    obtain ⟨bucket, window, hx⟩ := cleared_inv hstep.2
    rw [Process.Call.mk.injEq] at hx
    obtain ⟨rfl, hans⟩ := hx
    rcases List.mem_cons.mp hm with rfl | hm
    · cases hf.1
    · rw [clock_fire]
      exact .inl (waited_of_check h hC hcall hi (eq_of_heq hans) hm hf)
  · -- the task was past its check before this step
    have hbefore : ∃ u, c.threads[j]? = some u ∧ mayClaim p u = true := by
      obtain ⟨rfl, rfl⟩ | ⟨-, ht⟩ := System.getElem?_fire ht
      · simp only [mayClaim, System.fired, List.any_cons, Bool.and_eq_true, Bool.or_eq_true] at hp
        refine ⟨_, hi, ?_⟩
        simp [mayClaim, Process.Proc.next, hp.2.resolve_left fun h => hstep ⟨rfl, h⟩]
      · exact ⟨t, ht, hp⟩
    obtain ⟨u, hu, hmay⟩ := hbefore
    obtain ⟨m', -, htrace, hsince⟩ := sinceCheck_fire r past k hstep
    rw [clock_fire, hsince]
    rw [htrace] at hm
    rcases List.mem_cons.mp hm with rfl | hm
    · exact .inr List.mem_cons_self
    · obtain hlate | hmem := h.waited j u hu p hmay m hm hf
      · exact .inl (hlate.trans_le (Nat.le_add_right _ _))
      · exact .inr (List.mem_cons_of_mem _ hmem)

theorem cooldownInv_fire (hc : rl.Sound c) (hC : CooldownKept rl c (.run i e))
    (h : CooldownInv rl c) (hi : c.threads[i]? = some ⟨r, past, .call o k⟩) :
    CooldownInv rl (rl.system.fire c i e r past o k) where
  clock := clock_fire_inv h
  armed := by
    intro m hm p hf
    rcases List.mem_cons.mp hm with rfl | hm
    · -- the release itself: the cooldown is armed next
      have hself : (rl.system.fire c i e r past o k).threads[i]? =
          some (rl.system.fired c.shared e r past o k) :=
        List.getElem?_set_self (List.getElem?_eq_some_iff.mp hi).1
      exact .inl ⟨_, hself, arming_of_freed ((hc.fire hi).obeys hself) hf.1 hf.2⟩
    · exact armed_fire hc hC.2.2 h hi hm hf
  waited := waited_fire hc hC.2.1 h hi

end Invariant

/-! ## Whole runs

A claim comes from a request past its check, and the insert finds that the check stands. So by the
invariant it is a cooldown later than every release of its key. -/

/-- An unregister request of the key ended a claim in this step. -/
def Releases (rl : Relay) (m : Move) (p : String) : Prop :=
  (∃ name req, m.request = .unregister name req ∧ req.signer rl.authority = some p) ∧
    ∃ n q, m.before.claims.Active n q ∧ ¬m.after.claims.Active n q

/-- A claim of the key became active in this step. -/
def Claims (m : Move) (p : String) : Prop :=
  ∃ n, ¬m.before.claims.Active n p ∧ m.after.claims.Active n p

/-- The time between a release and a later claim of the same key. -/
def Apart (rl : Relay) (later earlier : Move) : Prop :=
  ∀ p, Releases rl earlier p → Claims later p →
    earlier.after.clock + secs rl.authority.cfg.nameChangeCooldownSecs < later.after.clock

/-- The claim of a step comes after the releases of its key. -/
theorem apart_fire {rl : Relay} {c : Configuration} {i : Nat} {e : Env} {r : Request}
    {past : List Call} {o : Op} {k : o.Res → Task Answer} (hc : rl.Sound c)
    (hC : CheckStands rl c i e) (h : CooldownInv rl c)
    (hfrees : ∀ m ∈ c.trace, ∀ p, Releases rl m p → Frees rl m p)
    (hi : c.threads[i]? = some ⟨r, past, .call o k⟩) :
    ∀ m ∈ c.trace, Apart rl ⟨i, r, ⟨o, (rl.system.exec c.shared e o).2⟩, c.shared,
      (rl.system.exec c.shared e o).1, (k (rl.system.exec c.shared e o).2).result⟩ m := by
  rintro m hm p hrel ⟨n, hnot, hact⟩
  obtain hact | ⟨rfl, hfails, hname, hkey⟩ := active_exec hact
  · exact absurd hact hnot
  · obtain ⟨req, rfl, hreg⟩ := rl.insert_inv (Process.obeys_call.mp (hc.obeys hi)).1
    obtain ⟨-, -, -, hcleared, -⟩ := hreg.insert_inv
    have hmay : mayClaim p ⟨.register req, past, .call (insertOp n p) k⟩ = true := by
      rw [mayClaim, Bool.and_eq_true]
      exact ⟨rfl, List.any_eq_true.mpr ⟨_, hcleared, by simp [cleared]⟩⟩
    have hf := hfrees m hm p hrel
    obtain hwait | hsince := h.waited i _ hi p hmay m hm hf
    · exact (hwait.trans_le (Nat.le_add_right _ _)).trans_eq (rl.clock_exec (insertOp n p)).symm
    · have hnext : (n, p) ∈ (c.next i).bind inserted := by
        rw [Process.Config.next_of_getElem? hi]
        rfl
      exact absurd hf.2 (hC _ hnext hfails hname hkey m hsince hf.1)

/-- In every run whose steps meet the condition, a key that released a name claims none
until the cooldown is over. -/
theorem cooldown_kept (rl : Relay) (clock : Nat) (acts : List Action)
    (h : Machine.Along rl.system.step (CooldownKept rl) (System.init (Shared.start clock)) acts) :
    (rl.run clock acts).trace.Pairwise fun later earlier => ∀ p, Releases rl earlier p →
      Claims later p →
      earlier.after.clock + secs rl.authority.cfg.nameChangeCooldownSecs < later.after.clock := by
  refine (System.invariant_along (P := fun c => CooldownInv rl c ∧
    (∀ m ∈ c.trace, ∀ p, Releases rl m p → Frees rl m p) ∧ c.trace.Pairwise (Apart rl))
    rl.obeys ⟨⟨?_, ?_, ?_⟩, ?_, List.Pairwise.nil⟩ ?_ ?_ h).2.2.2
  · intro m hm
    cases hm
  · intro m hm
    cases hm
  · intro j t ht
    cases ht
  · intro m hm
    cases hm
  · exact fun c r _ _ hP => ⟨cooldownInv_spawn hP.1, hP.2⟩
  · intro c i e r past o k hc hC hP hi
    refine ⟨cooldownInv_fire hc hC hP.1 hi, List.forall_mem_cons.mpr ⟨?_, hP.2.1⟩,
      List.pairwise_cons.mpr ⟨apart_fire hc hC.1 hP.1 hP.2.1 hi, hP.2.2⟩⟩
    rintro p ⟨⟨name, req, rfl, hsigner⟩, n, q, hact, hnot⟩
    exact ⟨freed_of_ended hact hnot, hsigner⟩

/-! ## Samples -/

open NameAuthority.Arrival (runs)

/-- Where Ada's name stands around a step, and when. -/
def aroundAda (m : Process.Move Shared Arrival Op Op.Res Answer) :
    Arrival × Option String × Option String × Nat :=
  (m.request, m.before.claims.lookup "ada", m.after.claims.lookup "ada", m.after.clock)

section Around

variable {m : Process.Move Shared Arrival Op Op.Res Answer} {clock : Nat}

/-- The name is there after the step and was not before. -/
theorem claims_of_around {x : Arrival} {p : String} (h : aroundAda m = (x, none, some p, clock)) :
    Claims (m.rename Arrival.request) p ∧ m.after.clock = clock := by
  simp only [aroundAda, Prod.mk.injEq] at h
  exact ⟨⟨"ada", NameClaims.not_active_of_lookup h.2.1, NameClaims.lookup_eq_some.mp h.2.2.1⟩,
    h.2.2.2⟩

/-- The name was there before the step and is not after it. -/
theorem releases_of_around
    (h : aroundAda m = (.release, some Signed.registerAda.pubkey, none, clock)) :
    Releases (sampleRelay none) (m.rename Arrival.request) Signed.registerAda.pubkey ∧
      m.after.clock = clock := by
  simp only [aroundAda, Prod.mk.injEq] at h
  obtain ⟨hreq, hbefore, hafter, hclock⟩ := h
  refine ⟨⟨⟨_, _, congrArg Arrival.request hreq, ?_⟩, "ada", _,
    NameClaims.lookup_eq_some.mp hbefore, NameClaims.not_active_of_lookup hafter⟩, hclock⟩
  exact Signed.signer_lib Signed.distinct_samples
    (by simp [Signed.samples] : Signed.releaseAda ∈ Signed.samples)

end Around

/-- Ada registers a name, releases it, and registers it again after the cooldown. -/
def patientAda : List (Process.Act Arrival Env) :=
  .spawn .ada :: runs 0 7 ++ .spawn .release :: runs 1 6 ++
    .spawn .ada4 :: .run 2 { elapsed := secs 693 } :: runs 2 6

theorem patientAda_trace :
    (sampleRun none (secs 1700000007) patientAda).trace[0]?.map aroundAda =
      some (.ada4, none, some Signed.registerAda.pubkey, secs 1700000700) ∧
    (sampleRun none (secs 1700000007) patientAda).trace[8]?.map aroundAda =
      some (.release, some Signed.registerAda.pubkey, none, secs 1700000007) := by
  decide +kernel

theorem cooldown_kept_ada :
    Machine.Along (sampleRelay none).system.step (CooldownKept (sampleRelay none))
      (System.init (Shared.start (secs 1700000007)))
      (patientAda.map (Process.Act.rename Arrival.request)) ∧
    ∃ later earlier, Releases (sampleRelay none) earlier Signed.registerAda.pubkey ∧
      Claims later Signed.registerAda.pubkey ∧
      earlier.after.clock + secs (sampleRelay none).authority.cfg.nameChangeCooldownSecs <
        later.after.clock := by
  have halong : Machine.Along (sampleRelay none).system.step (CooldownKept (sampleRelay none))
      (System.init (Shared.start (secs 1700000007)))
      (patientAda.map (Process.Act.rename Arrival.request)) :=
    along_samples none (by decide +kernel)
  have h := cooldown_kept (sampleRelay none) (secs 1700000007) _ halong
  obtain ⟨h₀, h₈⟩ := patientAda_trace
  obtain ⟨later, hlater, haround⟩ := Option.map_eq_some_iff.mp h₀
  obtain ⟨earlier, hearlier, haround'⟩ := Option.map_eq_some_iff.mp h₈
  have hclaims := (claims_of_around haround).1
  have hreleases := (releases_of_around haround').1
  exact ⟨halong, _, _, hreleases, hclaims,
    pairwise_samples h (by decide : 0 < 8) hlater hearlier _ hreleases hclaims⟩

/-- Ada's first request is past its check when she registers her name with a second one
and releases it; then the first one claims the name again. -/
def earlyCheck : List (Process.Act Arrival Env) :=
  .spawn .ada :: runs 0 6 ++ .spawn .ada2 :: runs 1 7 ++ .spawn .release :: runs 2 6 ++ runs 0 1

theorem earlyCheck_trace :
    (sampleRun none (secs 1700000007) earlyCheck).trace[0]?.map aroundAda =
      some (.ada, none, some Signed.registerAda.pubkey, secs 1700000007) ∧
    (sampleRun none (secs 1700000007) earlyCheck).trace[2]?.map aroundAda =
      some (.release, some Signed.registerAda.pubkey, none, secs 1700000007) := by
  decide +kernel

theorem early_check :
    ¬((sampleRelay none).run (secs 1700000007)
        (earlyCheck.map (Process.Act.rename Arrival.request))).trace.Pairwise fun later earlier =>
      ∀ p, Releases (sampleRelay none) earlier p → Claims later p →
        earlier.after.clock + secs (sampleRelay none).authority.cfg.nameChangeCooldownSecs <
          later.after.clock := by
  intro h
  obtain ⟨h₀, h₂⟩ := earlyCheck_trace
  obtain ⟨later, hlater, haround⟩ := Option.map_eq_some_iff.mp h₀
  obtain ⟨earlier, hearlier, haround'⟩ := Option.map_eq_some_iff.mp h₂
  obtain ⟨hclaims, hclock⟩ := claims_of_around haround
  obtain ⟨hreleases, hclock'⟩ := releases_of_around haround'
  have hapart := pairwise_samples h (by decide : 0 < 2) hlater hearlier _ hreleases hclaims
  simp only [Process.Move.rename, hclock, hclock'] at hapart
  exact absurd hapart (by simp)

end Floonet.NameAuthority
