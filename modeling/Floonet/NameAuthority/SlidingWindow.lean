import Floonet.Lib.Separated
import Floonet.Lib.SlidingWindow
import Floonet.NameAuthority.Cleanup

/-!
# The limiter is a sliding window

The calls on the rate map with a window and a maximum for each bucket. As long as the
map is small enough not to be cleaned, the calls of each pair of bucket and key are
answered as by a sliding window of their own (`pairLog_trace`): the hits of the pair
that count are the calls it was allowed that count, and the key text of one pair is
that of no other.
-/

namespace Floonet.NameAuthority

/-- The maximum and the window, in nanoseconds, of each bucket. -/
structure RateSettings where
  max : String → Nat
  window : String → Nat

/-- A call on the rate map. -/
inductive LimitCall where
  | allow (bucket ip : String)
  | recordOp (bucket key : String)
  | cooldownActive (bucket key : String)
  deriving DecidableEq

/-- A call, and the time read for it. -/
structure TimedCall where
  time : Nat
  call : LimitCall
  deriving DecidableEq

/-- A call with its result; `record_op` has none. -/
structure Answered where
  time : Nat
  call : LimitCall
  result : Option Bool
  deriving DecidableEq

namespace LimitCall

/-- The bucket that the call counts in. -/
def bucket : LimitCall → String
  | .allow b _ => b
  | .recordOp b _ => b
  | .cooldownActive b _ => b

/-- The call asks to be let through. -/
def isAllow : LimitCall → Bool
  | .allow _ _ => true
  | _ => false

/-- The call on the map. -/
def exec (s : RateSettings) (l : Limits) (now : Nat) : LimitCall → Limits × Option Bool
  | .allow b ip => ((l.allow now b ip (s.max b) (s.window b)).1,
      some (l.allow now b ip (s.max b) (s.window b)).2)
  | .recordOp b key => (l.recordOp now b key, none)
  | .cooldownActive b key => ((l.cooldownActive now b key (s.window b)).1,
      some (l.cooldownActive now b key (s.window b)).2)

/-- With the key of the call the map is not too large. -/
def Fits (l : Limits) : LimitCall → Prop
  | .allow b ip => (l.rate.insert (Limits.bucketKey b ip) []).keys.length ≤ Limits.maxKeys
  | _ => True

instance (l : Limits) : (c : LimitCall) → Decidable (c.Fits l)
  | .allow _ _ => inferInstanceAs (Decidable (_ ≤ _))
  | .recordOp _ _ => isTrue trivial
  | .cooldownActive _ _ => isTrue trivial

end LimitCall

variable (s : RateSettings)

/-- One call of a run. -/
def answer (l : Limits) (i : TimedCall) : Limits × Answered :=
  ((i.call.exec s l i.time).1, ⟨i.time, i.call, (i.call.exec s l i.time).2⟩)

/-- The map after a run. -/
def afterCalls (is : List TimedCall) : Limits :=
  Machine.run (fun l i => (answer s l i).1) Limits.empty is

/-- The calls of a run with their results. -/
def trace (is : List TimedCall) : List Answered := Machine.outputs (answer s) Limits.empty is

/-- Times do not decrease, bucket names hold no colon, no bucket is limited and also
used for cooldowns, and the map is never too large. -/
structure Admissible (is : List TimedCall) : Prop where
  sorted : is.Pairwise fun i j => i.time ≤ j.time
  colonFree : ∀ i ∈ is, ':' ∉ i.call.bucket.toList
  apart : ∀ i ∈ is, ∀ j ∈ is, i.call.isAllow = true → j.call.isAllow = false →
    i.call.bucket ≠ j.call.bucket
  fits : Machine.Along (fun l i => (answer s l i).1) (fun l i => i.call.Fits l) Limits.empty is

/-- The times at which a pair called. -/
def pairTimes (b ip : String) (is : List TimedCall) : List Nat :=
  (is.filter fun i => i.call = .allow b ip).map (·.time)

/-- The log of a pair. -/
def pairLog (b ip : String) (es : List Answered) : List (Nat × Bool) :=
  (es.filter fun e => e.call = .allow b ip).map fun e => (e.time, e.result == some true)

variable {s}

theorem trace_concat (is : List TimedCall) (i : TimedCall) :
    trace s (is ++ [i]) = trace s is ++ [(answer s (afterCalls s is) i).2] :=
  Machine.outputs_concat _ _ _ _

theorem afterCalls_concat (is : List TimedCall) (i : TimedCall) :
    afterCalls s (is ++ [i]) = (answer s (afterCalls s is) i).1 := Machine.run_concat _ _ _ _

/-- Two pairs with one key text are one pair. -/
theorem bucketKey_inj {b c x y : String} (hb : ':' ∉ b.toList) (hc : ':' ∉ c.toList)
    (h : Limits.bucketKey b x = Limits.bucketKey c y) : b = c ∧ x = y := by
  have h := congrArg String.toList h
  simp only [Limits.bucketKey, String.toList_append, List.append_assoc] at h
  obtain ⟨hbc, hxy⟩ := Separated.append_cons_inj hb hc h
  exact ⟨String.toList_inj.mp hbc, String.toList_inj.mp hxy⟩

namespace Admissible

variable {is : List TimedCall} {i : TimedCall}

theorem init (h : Admissible s (is ++ [i])) : Admissible s is where
  sorted := (List.pairwise_append.mp h.sorted).1
  colonFree j hj := h.colonFree j (List.mem_append_left _ hj)
  apart j hj k hk := h.apart j (List.mem_append_left _ hj) k (List.mem_append_left _ hk)
  fits := (Machine.along_append.mp h.fits).1

theorem fits_last (h : Admissible s (is ++ [i])) : i.call.Fits (afterCalls s is) :=
  (Machine.along_append.mp h.fits).2.1

theorem le_last (h : Admissible s (is ++ [i])) {j : TimedCall} (hj : j ∈ is) : j.time ≤ i.time :=
  (List.pairwise_append.mp h.sorted).2.2 j hj i (List.mem_singleton_self i)

end Admissible

/-! ## One call -/

section Step

variable {l : Limits} {b ip : String} {i : TimedCall}

/-- An allowed call of a pair, on a map that is not too large. -/
theorem exec_allow {now : Nat} (hfits : (LimitCall.allow b ip).Fits l) :
    (LimitCall.allow b ip).exec s l now =
      ((l.allowUncleaned now b ip (s.max b) (s.window b)).1,
        some (l.allowUncleaned now b ip (s.max b) (s.window b)).2) := by
  rw [LimitCall.exec, Limits.allow_of_not_cleans]
  exact fun h => absurd h.2 (not_lt.mpr hfits)

/-- Other calls leave the hits of a pair alone. -/
theorem hits_of_ne (hfits : i.call.Fits l) (hb : ':' ∉ b.toList)
    (hi : ':' ∉ i.call.bucket.toList) (hne : i.call ≠ .allow b ip)
    (hops : i.call.isAllow = false → i.call.bucket ≠ b) :
    (answer s l i).1.hits (Limits.bucketKey b ip) = l.hits (Limits.bucketKey b ip) := by
  obtain ⟨now, call⟩ := i
  rw [answer]
  cases call with
  | allow c key =>
    have hk : Limits.bucketKey b ip ≠ Limits.bucketKey c key := by
      intro h
      obtain ⟨rfl, rfl⟩ := bucketKey_inj hb hi h
      exact hne rfl
    rw [exec_allow hfits, Limits.hits_allowUncleaned, if_neg hk]
  | recordOp c key =>
    have hk : Limits.bucketKey b ip ≠ Limits.bucketKey c key :=
      fun h => hops rfl (bucketKey_inj hb hi h).1.symm
    rw [LimitCall.exec, Limits.hits_insert (l := l.recordOp now c key) rfl, if_neg hk]
    rfl
  | cooldownActive c key =>
    have hk : Limits.bucketKey b ip ≠ Limits.bucketKey c key :=
      fun h => hops rfl (bucketKey_inj hb hi h).1.symm
    rw [LimitCall.exec, Limits.hits_cooldownActive, if_neg hk]

end Step

/-! ## One pair in a run

By induction on the run, from its end: the hits of a pair that count are the allowed calls of its
log that count, and calls of other pairs and of cooldowns leave both alone. -/

/-- The log of a pair after one more call. -/
theorem pairLog_concat (b ip : String) (es : List Answered) (e : Answered) :
    pairLog b ip (es ++ [e]) =
      pairLog b ip es ++ if e.call = .allow b ip then [(e.time, e.result == some true)] else [] := by
  rw [pairLog, List.filter_append, List.map_append]
  by_cases he : e.call = .allow b ip <;> simp [pairLog, he]

theorem pairTimes_concat (b ip : String) (is : List TimedCall) (i : TimedCall) :
    pairTimes b ip (is ++ [i]) =
      pairTimes b ip is ++ if i.call = .allow b ip then [i.time] else [] := by
  rw [pairTimes, List.filter_append, List.map_append]
  by_cases hi : i.call = .allow b ip <;> simp [pairTimes, hi]

/-- The pair is answered by its own sliding window, and the hits of it that count at
any later time are the calls it was allowed that count then. -/
theorem pairLog_and_hits {is : List TimedCall} (h : Admissible s is) {b ip : String}
    (hb : ':' ∉ b.toList) (hops : ∀ i ∈ is, i.call.isAllow = false → i.call.bucket ≠ b) :
    pairLog b ip (trace s is) =
        SlidingWindow.log (s.max b) (s.window b) (pairTimes b ip is) ∧
      ∀ later, (∀ i ∈ is, i.time ≤ later) →
        Limits.recent later (s.window b) ((afterCalls s is).hits (Limits.bucketKey b ip)) =
          Limits.recent later (s.window b) (SlidingWindow.allowed (pairLog b ip (trace s is))) := by
  induction is using List.reverseRecOn with
  | nil => exact ⟨rfl, fun _ _ => rfl⟩
  | append_singleton is i ih =>
    obtain ⟨hlog, hhits⟩ := ih h.init fun j hj => hops j (List.mem_append_left _ hj)
    have hfits := h.fits_last
    have hlast := hhits i.time fun j hj => h.le_last hj
    rw [trace_concat, afterCalls_concat, pairLog_concat, pairTimes_concat]
    by_cases hi : i.call = .allow b ip
    · -- a call of the pair
      have hresult : (answer s (afterCalls s is) i).2 = ⟨i.time, .allow b ip,
          some (decide (SlidingWindow.counting (s.window b) i.time
            (pairLog b ip (trace s is)) < s.max b))⟩ := by
        rw [hi] at hfits
        rw [answer, hi, exec_allow hfits, Limits.allowUncleaned_snd, hlast,
          SlidingWindow.counting_eq]
        rfl
      have hnext : (answer s (afterCalls s is) i).1.hits (Limits.bucketKey b ip) =
          Limits.recent i.time (s.window b)
              ((afterCalls s is).hits (Limits.bucketKey b ip)) ++
            if SlidingWindow.counting (s.window b) i.time
              (pairLog b ip (trace s is)) < s.max b then [i.time] else [] := by
        rw [hi] at hfits
        rw [answer, hi, exec_allow hfits, Limits.hits_allowUncleaned, if_pos rfl, hlast,
          SlidingWindow.counting_eq]
        simp only [← not_lt, ite_not]
        rfl
      rw [hresult, if_pos rfl, if_pos hi]
      refine ⟨?_, ?_⟩
      · rw [SlidingWindow.log_concat, SlidingWindow.call, ← hlog]
        simp
      · intro later hlater
        have hle := hlater i (List.mem_append_right _ (List.mem_singleton_self i))
        rw [hnext, SlidingWindow.allowed_concat, Limits.recent_append, Limits.recent_append,
          Limits.recent_recent hle, hhits later fun j hj => hlater j (List.mem_append_left _ hj)]
        simp
    · have hcall : (answer s (afterCalls s is) i).2.call = i.call := rfl
      rw [hcall, if_neg hi, if_neg hi, List.append_nil, List.append_nil]
      refine ⟨hlog, ?_⟩
      intro later hlater
      rw [hits_of_ne hfits hb
        (h.colonFree i (List.mem_append_right _ (List.mem_singleton_self i))) hi
        (hops i (List.mem_append_right _ (List.mem_singleton_self i)))]
      exact hhits later fun j hj => hlater j (List.mem_append_left _ hj)

/-! ## The whole run -/

/-- The call was an allowed one of the pair. -/
def AllowedTo (b ip : String) (e : Answered) : Prop :=
  e.call = .allow b ip ∧ e.result = some true

instance (b ip : String) (e : Answered) : Decidable (AllowedTo b ip e) :=
  inferInstanceAs (Decidable (_ ∧ _))

/-- How many calls of a pair were allowed at times of a set. -/
def allowedIn (b ip : String) (p : Nat → Bool) (es : List Answered) : Nat :=
  es.countP fun e => AllowedTo b ip e && p e.time

/-- The calls of the log that were allowed are those of the trace. -/
theorem countP_pairLog (b ip : String) (es : List Answered) (p : Nat → Bool) :
    ((pairLog b ip es).countP fun e => e.2 && p e.1) = allowedIn b ip p es := by
  rw [allowedIn, pairLog, List.countP_map, List.countP_filter]
  refine List.countP_congr fun e _ => ?_
  simp only [Function.comp_apply, Bool.and_eq_true, beq_iff_eq, decide_eq_true_iff]
  rw [AllowedTo]
  tauto

/-- The trace has the calls of the run. -/
theorem trace_calls (is : List TimedCall) :
    (trace s is).map (fun e => (⟨e.time, e.call⟩ : TimedCall)) = is := by
  induction is using List.reverseRecOn with
  | nil => rfl
  | append_singleton is i ih =>
    rw [trace_concat, List.map_append, ih]
    rfl

/-- The bucket of a limited call is not used for cooldowns. -/
theorem Admissible.ops_ne {is : List TimedCall} (h : Admissible s is) {b ip : String}
    {time : Nat} (hmem : ⟨time, .allow b ip⟩ ∈ is) :
    ':' ∉ b.toList ∧ ∀ i ∈ is, i.call.isAllow = false → i.call.bucket ≠ b := by
  refine ⟨h.colonFree _ hmem, ?_⟩
  intro i hi hop hb
  exact h.apart _ hmem i hi rfl hop hb.symm

/-- Every pair is answered by a sliding window of its own. -/
theorem pairLog_trace {is : List TimedCall} (h : Admissible s is) (b ip : String) :
    pairLog b ip (trace s is) = SlidingWindow.log (s.max b) (s.window b) (pairTimes b ip is) := by
  by_cases hcalled : ∃ i ∈ is, i.call = .allow b ip
  · obtain ⟨⟨time, call⟩, hi, rfl⟩ := hcalled
    obtain ⟨hb, hops⟩ := h.ops_ne hi
    exact (pairLog_and_hits h hb hops).1
  · -- a pair that never calls has an empty log
    have hnone : ∀ i ∈ is, ¬ i.call = .allow b ip := by simpa using hcalled
    have htimes : pairTimes b ip is = [] := by
      rw [pairTimes, List.filter_eq_nil_iff.mpr (by simpa using hnone)]
      rfl
    have hlog : pairLog b ip (trace s is) = [] := by
      rw [pairLog, List.filter_eq_nil_iff.mpr, List.map_nil]
      intro e he hcall
      have hmem := List.mem_map_of_mem (f := fun e : Answered => (⟨e.time, e.call⟩ : TimedCall)) he
      rw [trace_calls] at hmem
      exact hnone _ hmem (by simpa using hcall)
    rw [hlog, htimes]
    rfl

/-- The answer to one call of a run. -/
theorem result_iff {is : List TimedCall} (h : Admissible s is) {earlier later : List Answered}
    {e : Answered} {b ip : String} (htrace : trace s is = earlier ++ e :: later)
    (hcall : e.call = .allow b ip) : e.result = some true ↔
      allowedIn b ip (fun t => decide (e.time - t < s.window b)) earlier < s.max b := by
  have hlog := pairLog_trace h b ip
  have hcut : pairLog b ip (trace s is) =
      pairLog b ip earlier ++ (e.time, e.result == some true) :: pairLog b ip later := by
    rw [htrace, ← List.singleton_append, ← List.append_assoc, pairLog, List.filter_append,
      List.map_append, ← pairLog, ← pairLog, pairLog_concat, if_pos hcall, List.append_assoc]
    rfl
  have hanswer := SlidingWindow.answer_of_log (hlog.symm.trans hcut)
  rw [← beq_iff_eq, ← countP_pairLog, ← decide_eq_true_iff (p := _ < s.max b)]
  exact Bool.eq_iff_iff.mp hanswer

/-- Times that lie less than a window apart hold at most the maximum. -/
theorem allowedIn_le {is : List TimedCall} (h : Admissible s is) (b ip : String) {p : Nat → Bool}
    (hp : ∀ t u, p t = true → p u = true → u - t < s.window b) :
    allowedIn b ip p (trace s is) ≤ s.max b := by
  rw [← countP_pairLog, pairLog_trace h]
  exact SlidingWindow.countP_log_le hp _

/-- The calls of the pair in a run. -/
def callsOf (b ip : String) (is : List TimedCall) : List TimedCall :=
  is.filter fun i => i.call = .allow b ip

/-- The results of the calls of the pair. -/
def answersTo (b ip : String) (es : List Answered) : List (Option Bool) :=
  (es.filter fun e => e.call = .allow b ip).map (·.result)

/-- Every call of the limiter has a result. -/
theorem answersTo_eq (is : List TimedCall) (b ip : String) :
    answersTo b ip (trace s is) = (pairLog b ip (trace s is)).map fun e => some e.2 := by
  have hsome : ∀ e ∈ trace s is, e.call = .allow b ip → e.result = some (e.result == some true) := by
    induction is using List.reverseRecOn with
    | nil => exact fun e he => absurd he List.not_mem_nil
    | append_singleton is i ih =>
      intro e he hcall
      rw [trace_concat] at he
      rcases List.mem_append.mp he with he | he
      · exact ih e he hcall
      · obtain rfl := List.mem_singleton.mp he
        have hi : i.call = .allow b ip := hcall
        rw [answer, hi, LimitCall.exec]
        cases ((afterCalls s is).allow i.time b ip (s.max b) (s.window b)).2 <;> rfl
  rw [answersTo, pairLog, List.map_map]
  refine List.map_congr_left fun e he => ?_
  rw [List.mem_filter, decide_eq_true_iff] at he
  exact hsome e he.1 he.2

/-- The limiter is exact. A call is allowed when fewer than the maximum of the earlier
calls of its pair that were allowed still count; so no half-open interval of the length of
the window holds more allowed calls than that; and what else is called makes no
difference. -/
theorem limiter_exact (s : RateSettings) (is : List TimedCall) (h : Admissible s is) :
    (∀ earlier e later b ip, trace s is = earlier ++ e :: later → e.call = .allow b ip →
      (e.result = some true ↔
        allowedIn b ip (fun t => decide (e.time - t < s.window b)) earlier < s.max b)) ∧
    (∀ b ip start,
      allowedIn b ip (fun t => start ≤ t && t < start + s.window b) (trace s is) ≤ s.max b ∧
      allowedIn b ip (fun t => start < t && t ≤ start + s.window b) (trace s is) ≤ s.max b) ∧
    ∀ is', Admissible s is' → ∀ b ip, callsOf b ip is' = callsOf b ip is →
      answersTo b ip (trace s is') = answersTo b ip (trace s is) := by
  refine ⟨fun earlier e later b ip htrace hcall => result_iff h htrace hcall, ?_, ?_⟩
  · intro b ip start
    refine ⟨allowedIn_le h b ip ?_, allowedIn_le h b ip ?_⟩
    · intro t u ht hu
      simp only [Bool.and_eq_true, decide_eq_true_iff] at ht hu
      omega
    · intro t u ht hu
      simp only [Bool.and_eq_true, decide_eq_true_iff] at ht hu
      omega
  · intro is' h' b ip hcalls
    rw [answersTo_eq, answersTo_eq, pairLog_trace h', pairLog_trace h, pairTimes, pairTimes,
      ← callsOf, ← callsOf, hcalls]

/-! ## The calls that the endpoints make

The endpoints name their buckets and windows in the configuration. Their runs are runs of the
calls above, with the absolute times at which they are made. -/

/-- The maxima and windows of the configuration. -/
def RateConfig.settings (cfg : RateConfig) : RateSettings where
  max b := if b = Bucket.read.name then cfg.readRateMax else cfg.writeRateMax
  window b :=
    if b = Bucket.read.name then cfg.window .read
    else if b = Bucket.namechange.name then cfg.window .namechange
    else cfg.window .reg

/-- The call as one with a bucket name. -/
def RateCall.limitCall : RateCall → LimitCall
  | .allowRead ip => .allow Bucket.read.name ip
  | .allowWrite b ip => .allow b.bucket.name ip
  | .recordOp pubkey => .recordOp Bucket.namechange.name pubkey
  | .cooldownActive pubkey => .cooldownActive Bucket.namechange.name pubkey

/-- An endpoint's call is the call on its bucket. -/
theorem RateCall.exec_eq (cfg : RateConfig) (l : Limits) (now : Nat) (c : RateCall) :
    c.exec cfg l now = c.limitCall.exec cfg.settings l now := by
  cases c with
  | allowRead ip => rfl
  | allowWrite b ip => cases b <;> rfl
  | recordOp pubkey => rfl
  | cooldownActive pubkey => rfl

/-- The calls of a run with the times at which they are made. -/
def timedCalls (clock : Nat) : List RateInput → List TimedCall
  | [] => []
  | i :: is => ⟨clock + i.elapsed, i.call.limitCall⟩ :: timedCalls (clock + i.elapsed) is

theorem outputs_eq_timedCalls (cfg : RateConfig) (st : RateState) (is : List RateInput) :
    Machine.outputs (RateState.step cfg) st is =
      (Machine.outputs (answer cfg.settings) st.limits (timedCalls st.clock is)).map
        (·.result) := by
  induction is generalizing st with
  | nil => rfl
  | cons i is ih =>
    simp only [Machine.outputs, timedCalls, List.map_cons, RateState.step, answer,
      RateCall.exec_eq, ih]

/-- The results of the endpoints' calls are those of the calls with a bucket name. -/
theorem results_eq_trace (cfg : RateConfig) (is : List RateInput) :
    RateState.results cfg is = (trace cfg.settings (timedCalls 0 is)).map (·.result) :=
  outputs_eq_timedCalls cfg RateState.start is

/-- The buckets have no colon in their names. -/
theorem Bucket.colonFree (b : Bucket) : ':' ∉ b.name.toList := by
  cases b <;> decide

theorem WriteBucket.name_ne (b : WriteBucket) : b.bucket.name ≠ Bucket.namechange.name := by
  cases b <;> decide

theorem RateCall.colonFree (c : RateCall) : ':' ∉ c.limitCall.bucket.toList := by
  cases c with
  | allowRead ip => exact Bucket.colonFree .read
  | allowWrite b ip => exact Bucket.colonFree b.bucket
  | recordOp pubkey => exact Bucket.colonFree .namechange
  | cooldownActive pubkey => exact Bucket.colonFree .namechange

theorem RateCall.bucket_ne (c d : RateCall) (hc : c.limitCall.isAllow = true)
    (hd : d.limitCall.isAllow = false) : c.limitCall.bucket ≠ d.limitCall.bucket := by
  have hname : d.limitCall.bucket = Bucket.namechange.name := by
    cases d with
    | allowRead ip => cases hd
    | allowWrite b ip => cases hd
    | recordOp pubkey => rfl
    | cooldownActive pubkey => rfl
  rw [hname]
  cases c with
  | allowRead ip => exact (by decide : Bucket.read.name ≠ Bucket.namechange.name)
  | allowWrite b ip => exact b.name_ne
  | recordOp pubkey => cases hc
  | cooldownActive pubkey => cases hc

/-- The names of a run of the endpoints' calls are in order. -/
theorem admissible_of_rateCalls {cs : List (Nat × RateCall)} (hs : cs.Pairwise fun c d => c.1 ≤ d.1)
    (hfits : Machine.Along (fun l i => (answer s l i).1) (fun l i => i.call.Fits l) Limits.empty
      (cs.map fun c => ⟨c.1, c.2.limitCall⟩)) :
    Admissible s (cs.map fun c => ⟨c.1, c.2.limitCall⟩) where
  sorted := List.pairwise_map.mpr hs
  colonFree i hi := by
    obtain ⟨c, -, rfl⟩ := List.mem_map.mp hi
    exact c.2.colonFree
  apart i hi j hj hc hd := by
    obtain ⟨c, -, rfl⟩ := List.mem_map.mp hi
    obtain ⟨d, -, rfl⟩ := List.mem_map.mp hj
    exact c.2.bucket_ne d.2 hc hd
  fits := hfits

/-- Two claims and a release from one address and one claim from another, where one
claim in an hour is allowed. -/
def sampleWrites : List (Nat × RateCall) :=
  [(0, .allowWrite .reg "2001:db8::1"), (secs 5, .recordOp RateState.sampleReleaser),
    (secs 9, .allowWrite .reg "2001:db8::1"), (secs 9, .allowWrite .unreg "2001:db8::1"),
    (secs 9, .allowWrite .reg "2001:db8::2"), (secs 3600, .allowWrite .reg "2001:db8::1")]

/-- One write an hour. -/
def sampleStrict : RateConfig := ⟨120, 60, 1, 3600, 600⟩

theorem sampleWrites_exact :
    allowedIn "na-reg" "2001:db8::1" (fun t => 0 ≤ t && t < 0 + secs 3600)
      (trace sampleStrict.settings (sampleWrites.map fun c => ⟨c.1, c.2.limitCall⟩)) ≤ 1 := by
  have hadm : Admissible sampleStrict.settings
      (sampleWrites.map fun c => ⟨c.1, c.2.limitCall⟩) :=
    admissible_of_rateCalls (by decide) (by decide +kernel)
  exact ((limiter_exact _ _ hadm).2.1 "na-reg" "2001:db8::1" 0).1

/-- The second claim comes too early, the last one does not. -/
example : (trace sampleStrict.settings (sampleWrites.map fun c => ⟨c.1, c.2.limitCall⟩)).map
    (·.result) = [some true, none, some false, some true, some true, some true] := by
  decide +kernel

end Floonet.NameAuthority
