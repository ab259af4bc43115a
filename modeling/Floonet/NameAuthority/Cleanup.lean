import Floonet.NameAuthority.Limits
import Floonet.Lib.Machine
import Floonet.Lib.Hex

/-!
# The clean-up of the rate map

One map holds the hits of the read limit, of the two write limits and of the release cooldown,
each with a window of its own. When it has grown too large, the limiter drops the keys without a
hit in the window of the call at hand, whatever their own windows are. Compared with a limiter
that never cleans, it answers alike in every run where no clean-up drops a hit that still counts.
-/

namespace Floonet.NameAuthority

/-- The limits and windows of the configuration. -/
structure RateConfig where
  readRateMax : Nat
  readRateWindowSecs : Nat
  writeRateMax : Nat
  writeRateWindowSecs : Nat
  nameChangeCooldownSecs : Nat

/-- What the map is used for. -/
inductive Bucket where
  | read
  | reg
  | unreg
  | namechange

/-- The buckets as the code names them. -/
def Bucket.name : Bucket → String
  | .read => "na-read"
  | .reg => "na-reg"
  | .unreg => "na-unreg"
  | .namechange => "na-namechange"

/-- The window in which the hits of a bucket count. -/
def RateConfig.window (cfg : RateConfig) : Bucket → Nat
  | .read => secs cfg.readRateWindowSecs
  | .reg | .unreg => secs cfg.writeRateWindowSecs
  | .namechange => secs cfg.nameChangeCooldownSecs

/-- The endpoints with a write limit. -/
inductive WriteBucket where
  | reg
  | unreg

/-- The buckets of the two kinds of writes. -/
def WriteBucket.bucket : WriteBucket → Bucket
  | .reg => .reg
  | .unreg => .unreg

namespace Limits

variable (cfg : RateConfig) (l : Limits) (now : Nat)

/-- A read of an address. -/
def allowRead (ip : String) : Limits × Bool :=
  l.allow now Bucket.read.name ip cfg.readRateMax (cfg.window .read)

/-- A write of an address. -/
def allowWrite (b : WriteBucket) (ip : String) : Limits × Bool :=
  l.allow now b.bucket.name ip cfg.writeRateMax (cfg.window b.bucket)

/-- The limiter without its clean-up. -/
def allowUncleaned (bucket ip : String) (max window : Nat) : Limits × Bool :=
  let k := bucketKey bucket ip
  let kept := recent now window (l.hits k)
  if max ≤ kept.length then ({ l with rate := l.rate.insert k kept }, false)
  else ({ l with rate := l.rate.insert k (kept ++ [now]) }, true)

end Limits

/-! ## The calls

A run of calls carries the time that passes before each. It is made twice, with the clean-up and
without it, and the results are compared. -/

/-- A call on the limiter. -/
inductive RateCall where
  | allowRead (ip : String)
  | allowWrite (b : WriteBucket) (ip : String)
  | recordOp (pubkey : String)
  | cooldownActive (pubkey : String)

/-- A call, and the time since the one before. -/
structure RateInput where
  elapsed : Nat
  call : RateCall

/-- The limiter and the time. -/
structure RateState where
  clock : Nat
  limits : Limits

namespace RateCall

/-- The limiter a call goes to, if any: its bucket, its key and its maximum. -/
def limited (cfg : RateConfig) : RateCall → Option (Bucket × String × Nat)
  | .allowRead ip => some (.read, ip, cfg.readRateMax)
  | .allowWrite b ip => some (b.bucket, ip, cfg.writeRateMax)
  | .recordOp _ | .cooldownActive _ => none

/-- A call on the map; `record_op` has no result. -/
def exec (cfg : RateConfig) (l : Limits) (now : Nat) : RateCall → Limits × Option Bool
  | .allowRead ip => ((l.allowRead cfg now ip).1, some (l.allowRead cfg now ip).2)
  | .allowWrite b ip => ((l.allowWrite cfg now b ip).1, some (l.allowWrite cfg now b ip).2)
  | .recordOp pubkey => (l.recordOp now Bucket.namechange.name pubkey, none)
  | .cooldownActive pubkey =>
    ((l.cooldownActive now Bucket.namechange.name pubkey (cfg.window .namechange)).1,
      some (l.cooldownActive now Bucket.namechange.name pubkey (cfg.window .namechange)).2)

/-- The same call when the limiter never cleans. -/
def execUncleaned (cfg : RateConfig) (l : Limits) (now : Nat) (call : RateCall) :
    Limits × Option Bool :=
  match call.limited cfg with
  | some (b, ip, max) =>
    ((l.allowUncleaned now b.name ip max (cfg.window b)).1,
      some (l.allowUncleaned now b.name ip max (cfg.window b)).2)
  | none => call.exec cfg l now

end RateCall

namespace RateState

variable (cfg : RateConfig)

/-- No call so far. -/
def start : RateState := ⟨0, Limits.empty⟩

/-- One call, after some time. -/
def step (st : RateState) (i : RateInput) : RateState × Option Bool :=
  let now := st.clock + i.elapsed
  (⟨now, (i.call.exec cfg st.limits now).1⟩, (i.call.exec cfg st.limits now).2)

/-- The same call on a limiter that is never cleaned up. -/
def stepUncleaned (st : RateState) (i : RateInput) : RateState × Option Bool :=
  let now := st.clock + i.elapsed
  (⟨now, (i.call.execUncleaned cfg st.limits now).1⟩, (i.call.execUncleaned cfg st.limits now).2)

/-- The results of the calls of a run. -/
def results (is : List RateInput) : List (Option Bool) := Machine.outputs (step cfg) start is

/-- What they would be if the clean-up were never executed. -/
def resultsUncleaned (is : List RateInput) : List (Option Bool) :=
  Machine.outputs (stepUncleaned cfg) start is

/-- The run of the map. -/
def next (st : RateState) (i : RateInput) : RateState := (step cfg st i).1

/-! ## The condition

A clean-up measures every key with the window of the call that triggers it. It is harmless when no
key loses a hit that its own window still counts. -/

/-- This call passes its limit and finds the map too large. -/
def Cleans (l : Limits) (now : Nat) (b : Bucket) (ip : String) (max : Nat) : Prop :=
  l.Cleans now b.name ip max (cfg.window b)

/-- A clean-up with the window of `b` leaves the hits that count in their own windows: where a
key has such a hit it has one in the window of `b` as well. -/
def Spares (l : Limits) (now : Nat) (b : Bucket) : Prop :=
  ∀ (c : Bucket) (key : String), ∀ t ∈ l.hits (Limits.bucketKey c.name key),
    now - t < cfg.window c → ∃ u ∈ l.hits (Limits.bucketKey c.name key), now - u < cfg.window b

/-- The condition on a call: if it cleans the map, it spares what still counts. -/
def Harmless (st : RateState) (i : RateInput) : Prop :=
  ∀ b ip max, i.call.limited cfg = some (b, ip, max) →
    Cleans cfg st.limits (st.clock + i.elapsed) b ip max →
      Spares cfg st.limits (st.clock + i.elapsed) b

end RateState

/-! ## What still counts

The two runs agree when, for every bucket and key, the hits inside its window are the same. Each
call keeps this, with the condition in the one case where the map is cleaned. -/

namespace Limits

section Recent

variable {l u : Limits} {now later window window' : Nat} {ts : List Nat} {k bucket ip : String}
  {max : Nat}

/-- What counts is counted hit by hit. -/
theorem recent_append (us : List Nat) :
    recent now window (ts ++ us) = recent now window ts ++ recent now window us :=
  List.filter_append ..

/-- What does not count now does not count later. -/
theorem recent_recent (h : now ≤ later) :
    recent later window (recent now window ts) = recent later window ts := by
  rw [recent, recent, List.filter_filter]
  refine List.filter_congr fun t _ => ?_
  rw [Bool.and_eq_left_iff_imp, decide_eq_true_iff, decide_eq_true_iff]
  omega

/-- What a call leaves of each key. -/
theorem hits_allowUncleaned : (l.allowUncleaned now bucket ip max window).1.hits k =
    if k = bucketKey bucket ip then
      recent now window (l.hits (bucketKey bucket ip)) ++
        if max ≤ (recent now window (l.hits (bucketKey bucket ip))).length then [] else [now]
    else l.hits k := by
  rw [allowUncleaned]
  by_cases hmax : max ≤ (recent now window (l.hits (bucketKey bucket ip))).length
  · simp only [if_pos hmax, List.append_nil]
    exact hits_insert rfl
  · simp only [if_neg hmax]
    exact hits_insert rfl

theorem allowUncleaned_snd : (l.allowUncleaned now bucket ip max window).2 =
    decide ((recent now window (l.hits (bucketKey bucket ip))).length < max) := by
  rw [allowUncleaned]
  by_cases hmax : max ≤ (recent now window (l.hits (bucketKey bucket ip))).length
  · simp only [if_pos hmax, not_lt.mpr hmax, decide_false]
  · simp only [if_neg hmax, not_le.mp hmax, decide_true]

/-- A look at the cooldown forgets what no longer counts. -/
theorem hits_cooldownActive : (l.cooldownActive now bucket ip window).1.hits k =
    if k = bucketKey bucket ip then recent now window (l.hits (bucketKey bucket ip))
    else l.hits k := by
  rw [cooldownActive]
  rcases hl : l.rate.lookup (bucketKey bucket ip) with _ | ts
  · split_ifs with hk
    · rw [hk, hits, hl]
      rfl
    · rfl
  · have hts : l.hits (bucketKey bucket ip) = ts := by rw [hits, hl, Option.getD_some]
    rw [hts]
    exact hits_insert rfl

/-- The cooldown is active while a release counts. -/
theorem cooldownActive_snd : (l.cooldownActive now bucket ip window).2 =
    !(recent now window (l.hits (bucketKey bucket ip))).isEmpty := by
  rw [cooldownActive, hits]
  rcases l.rate.lookup (bucketKey bucket ip) with _ | ts <;> rfl

/-- The clean-up keeps the keys with a hit in the window, and drops the others. -/
theorem hits_retain : ({ l with
      rate := retain (fun _ ts => ts.any fun t => now - t < window) l.rate } : Limits).hits k =
    if ∃ t ∈ l.hits k, now - t < window then l.hits k else [] := by
  rw [hits, lookup_retain, hits]
  rcases l.rate.lookup k with _ | ts
  · simp
  · rw [Option.getD_some, Option.filter_some]
    split_ifs with hany hex hex
    · rfl
    · obtain ⟨t, ht, hlt⟩ := List.any_eq_true.mp hany
      exact absurd ⟨t, ht, of_decide_eq_true hlt⟩ hex
    · obtain ⟨t, ht, hlt⟩ := hex
      exact absurd (List.any_eq_true.mpr ⟨t, ht, decide_eq_true hlt⟩) hany
    · rfl

/-- A map that is not too large is not cleaned. -/
theorem allow_of_not_cleans (h : ¬((recent now window (l.hits (bucketKey bucket ip))).length < max ∧
      maxKeys < (l.rate.insert (bucketKey bucket ip) []).keys.length)) :
    l.allow now bucket ip max window = l.allowUncleaned now bucket ip max window := by
  simp only [allow, allowUncleaned]
  by_cases hmax : max ≤ (recent now window (l.hits (bucketKey bucket ip))).length
  · simp only [if_pos hmax]
  · have hkeys := fun hlt => h ⟨not_le.mp hmax, hlt⟩
    rw [AList.keys_insert] at hkeys
    simp only [if_neg hmax, AList.keys_insert, if_neg hkeys]

/-- A map that is too large is cleaned after the call. -/
theorem allow_of_cleans (hmax : (recent now window (l.hits (bucketKey bucket ip))).length < max)
    (hkeys : maxKeys < (l.rate.insert (bucketKey bucket ip) []).keys.length) :
    l.allow now bucket ip max window =
      ({ (l.allowUncleaned now bucket ip max window).1 with
          rate := retain (fun _ ts => ts.any fun t => now - t < window)
            (l.allowUncleaned now bucket ip max window).1.rate },
        (l.allowUncleaned now bucket ip max window).2) := by
  rw [AList.keys_insert] at hkeys
  simp only [allow, allowUncleaned, if_neg (not_le.mpr hmax), AList.keys_insert, if_pos hkeys]

end Recent

end Limits

/-- Keys of different buckets are different. -/
theorem Bucket.eq_of_bucketKey_eq {b c : Bucket} {x y : String}
    (h : Limits.bucketKey b.name x = Limits.bucketKey c.name y) : b = c := by
  have htake := congrArg (fun s => s.toList.take 6) h
  cases b <;> cases c <;> first
    | rfl
    | simp [Limits.bucketKey, Bucket.name] at htake

namespace RateState

variable {cfg : RateConfig} {l u v : Limits} {now later : Nat}

/-- Of every key the same hits count, now and later. -/
def Agree (cfg : RateConfig) (now : Nat) (l u : Limits) : Prop :=
  ∀ (b : Bucket) (key : String),
    Limits.recent now (cfg.window b) (l.hits (Limits.bucketKey b.name key)) =
      Limits.recent now (cfg.window b) (u.hits (Limits.bucketKey b.name key))

theorem Agree.mono (h : Agree cfg now l u) (hle : now ≤ later) : Agree cfg later l u := by
  intro b key
  rw [← Limits.recent_recent hle, h b key, Limits.recent_recent hle]

theorem Agree.trans (h : Agree cfg now l u) (h' : Agree cfg now u v) : Agree cfg now l v :=
  fun b key => (h b key).trans (h' b key)

/-- The limiters that never clean keep agreement. -/
theorem agree_allowUncleaned (h : Agree cfg now l u) (b : Bucket) (ip : String) (max : Nat) :
    (l.allowUncleaned now b.name ip max (cfg.window b)).2 =
        (u.allowUncleaned now b.name ip max (cfg.window b)).2 ∧
      Agree cfg now (l.allowUncleaned now b.name ip max (cfg.window b)).1
        (u.allowUncleaned now b.name ip max (cfg.window b)).1 := by
  refine ⟨?_, fun c key => ?_⟩
  · rw [Limits.allowUncleaned_snd, Limits.allowUncleaned_snd, h b ip]
  · rw [Limits.hits_allowUncleaned, Limits.hits_allowUncleaned, h b ip]
    split_ifs
    · rfl
    · rfl
    · exact h c key

/-- A clean-up that spares what counts keeps agreement. -/
theorem agree_allow {b : Bucket} {ip : String} {max : Nat}
    (hspares : Cleans cfg l now b ip max → Spares cfg l now b) :
    (l.allow now b.name ip max (cfg.window b)).2 =
        (l.allowUncleaned now b.name ip max (cfg.window b)).2 ∧
      Agree cfg now (l.allow now b.name ip max (cfg.window b)).1
        (l.allowUncleaned now b.name ip max (cfg.window b)).1 := by
  by_cases hcleans : Cleans cfg l now b ip max
  · rw [Limits.allow_of_cleans hcleans.1 hcleans.2]
    refine ⟨rfl, fun c key => ?_⟩
    rw [Limits.hits_retain]
    split_ifs with hex
    · rfl
    · -- nothing of this key is in the window of `b`, so nothing of it counts
      symm
      change List.filter _ _ = []
      rw [List.filter_eq_nil_iff]
      intro t ht hlive
      replace hlive : now - t < cfg.window c := of_decide_eq_true hlive
      by_cases hk : Limits.bucketKey c.name key = Limits.bucketKey b.name ip
      · obtain rfl := Bucket.eq_of_bucketKey_eq hk
        exact hex ⟨t, ht, hlive⟩
      · rw [Limits.hits_allowUncleaned, if_neg hk] at ht hex
        exact hex (hspares hcleans c key t ht hlive)
  · rw [Limits.allow_of_not_cleans hcleans]
    exact ⟨rfl, fun _ _ => rfl⟩

/-- A release noted down on both sides. -/
theorem agree_recordOp (h : Agree cfg now l u) (bucket pubkey : String) :
    Agree cfg now (l.recordOp now bucket pubkey) (u.recordOp now bucket pubkey) := by
  intro c key
  rw [Limits.hits_insert (l := l.recordOp now bucket pubkey) rfl,
    Limits.hits_insert (l := u.recordOp now bucket pubkey) rfl]
  split_ifs with hk
  · rw [Limits.recent_append, Limits.recent_append, ← hk, h c key]
  · exact h c key

/-- A cooldown looked at on both sides. -/
theorem agree_cooldownActive (h : Agree cfg now l u) (b : Bucket) (pubkey : String) :
    (l.cooldownActive now b.name pubkey (cfg.window b)).2 =
        (u.cooldownActive now b.name pubkey (cfg.window b)).2 ∧
      Agree cfg now (l.cooldownActive now b.name pubkey (cfg.window b)).1
        (u.cooldownActive now b.name pubkey (cfg.window b)).1 := by
  refine ⟨?_, fun c key => ?_⟩
  · rw [Limits.cooldownActive_snd, Limits.cooldownActive_snd, h b pubkey]
  · rw [Limits.hits_cooldownActive, Limits.hits_cooldownActive, h b pubkey]
    split_ifs
    · rfl
    · exact h c key

/-- A limiter call under the condition, with the one that never cleans on the other side. -/
theorem agree_limited (h : Agree cfg now l u) {b : Bucket} {ip : String} {max : Nat}
    (hspares : Cleans cfg l now b ip max → Spares cfg l now b) :
    (l.allow now b.name ip max (cfg.window b)).2 =
        (u.allowUncleaned now b.name ip max (cfg.window b)).2 ∧
      Agree cfg now (l.allow now b.name ip max (cfg.window b)).1
        (u.allowUncleaned now b.name ip max (cfg.window b)).1 := by
  obtain ⟨hresult, hagree⟩ := agree_allow hspares
  obtain ⟨hresult', hagree'⟩ := agree_allowUncleaned h b ip max
  exact ⟨hresult.trans hresult', hagree.trans hagree'⟩

/-- One call under the condition. -/
theorem agree_step {st ust : RateState} (hclock : st.clock = ust.clock)
    (h : Agree cfg st.clock st.limits ust.limits) {i : RateInput} (hi : Harmless cfg st i) :
    (step cfg st i).2 = (stepUncleaned cfg ust i).2 ∧
      (step cfg st i).1.clock = (stepUncleaned cfg ust i).1.clock ∧
      Agree cfg (step cfg st i).1.clock (step cfg st i).1.limits
        (stepUncleaned cfg ust i).1.limits := by
  have hnow := h.mono (Nat.le_add_right st.clock i.elapsed)
  rw [step, stepUncleaned, ← hclock]
  cases hcall : i.call with
  | allowRead ip =>
    obtain ⟨hresult, hagree⟩ := agree_limited hnow (hi .read ip _ (by rw [hcall]; rfl))
    exact ⟨congrArg some hresult, rfl, hagree⟩
  | allowWrite b ip =>
    obtain ⟨hresult, hagree⟩ := agree_limited hnow (hi b.bucket ip _ (by rw [hcall]; rfl))
    exact ⟨congrArg some hresult, rfl, hagree⟩
  | recordOp pubkey => exact ⟨rfl, rfl, agree_recordOp hnow _ pubkey⟩
  | cooldownActive pubkey =>
    obtain ⟨hresult, hagree⟩ := agree_cooldownActive hnow .namechange pubkey
    exact ⟨congrArg some hresult, rfl, hagree⟩

/-- **The clean-up is invisible** in every run in which no clean-up drops a hit that still
counts: each call returns what it would return without any clean-up. -/
theorem cleanup_invisible (cfg : RateConfig) (is : List RateInput)
    (h : Machine.Along (next cfg) (Harmless cfg) start is) :
    results cfg is = resultsUncleaned cfg is := by
  refine Machine.outputs_eq_of_simulation
    (R := fun st ust => st.clock = ust.clock ∧ Agree cfg st.clock st.limits ust.limits)
    (fun st ust i hi hR => agree_step hR.1 hR.2 hi) ⟨rfl, fun _ _ => rfl⟩ h

/-! ## A released name and fifty thousand readers

The limit is on the number of keys, so a run that reaches it is too long to be evaluated. The map
after `n` readers is described by induction instead, and only the last calls are computed. -/

/-- The default limits and windows. -/
def sampleRates : RateConfig := ⟨120, 60, 10, 3600, 600⟩

/-- The key that releases its name. -/
def sampleReleaser : String := "5cbdf0646e5db4eaa398f365f2ea7a0e3d419b7e0330e39ce92bddedcac4f9bc"

/-- A release, a look-up of somebody and the next claim of the key. -/
def sampleQuiet : List RateInput :=
  [⟨0, .recordOp sampleReleaser⟩, ⟨secs 61, .allowRead "2001:db8::1"⟩,
    ⟨0, .cooldownActive sampleReleaser⟩]

theorem sampleQuiet_results :
    results sampleRates sampleQuiet = [none, some true, some true] ∧
      results sampleRates sampleQuiet = resultsUncleaned sampleRates sampleQuiet := by
  refine ⟨by decide, cleanup_invisible sampleRates sampleQuiet ⟨?_, ?_, ?_, trivial⟩⟩
  · intro b ip max h
    cases h
  · intro b ip max h hcleans
    cases h
    exact absurd hcleans.2 (by decide)
  · intro b ip max h
    cases h

/-- An address for every number of 16 bits. -/
def sampleIp (n : Nat) : String := "2001:db8::" ++ Hex.encode [UInt8.ofNat (n / 256), UInt8.ofNat n]

theorem sampleIp_injective {m n : Nat} (hm : m < 65536) (hn : n < 65536)
    (h : sampleIp m = sampleIp n) : m = n := by
  have henc := congrArg Hex.decode ((String.append_right_inj _).mp h)
  rw [Hex.decode_encode, Hex.decode_encode, Option.some.injEq, List.cons.injEq,
    List.cons.injEq] at henc
  have hhigh := congrArg UInt8.toNat henc.1
  have hlow := congrArg UInt8.toNat henc.2.1
  rw [UInt8.toNat_ofNat', UInt8.toNat_ofNat'] at hhigh hlow
  omega

/-- A reader comes every two milliseconds. -/
def sampleRead (n : Nat) : RateInput := ⟨2000000, .allowRead (sampleIp n)⟩

/-- A release and `n` readers. -/
def sampleReaders (n : Nat) : List RateInput :=
  ⟨0, .recordOp sampleReleaser⟩ :: (List.range n).map sampleRead

/-- A release, fifty thousand readers within 100 seconds, and the next claim of the key. -/
def sampleCrowd : List RateInput := sampleReaders 50000 ++ [⟨0, .cooldownActive sampleReleaser⟩]

theorem sampleReaders_succ (n : Nat) : sampleReaders (n + 1) = sampleReaders n ++ [sampleRead n] := by
  rw [sampleReaders, List.range_succ, List.map_append]
  rfl

/-- The map after the release and `n` readers, when it is never cleaned. -/
def crowd (n : Nat) : RateState :=
  Machine.run (fun st i => (stepUncleaned sampleRates st i).1) start (sampleReaders n)

theorem crowd_succ (n : Nat) :
    crowd (n + 1) = (stepUncleaned sampleRates (crowd n) (sampleRead n)).1 := by
  rw [crowd, sampleReaders_succ, Machine.run_concat]
  rfl

/-- The release is there, and one key for each reader. -/
structure Crowded (n : Nat) (st : RateState) : Prop where
  clock : st.clock = n * 2000000
  released : st.limits.hits (Limits.bucketKey Bucket.namechange.name sampleReleaser) = [0]
  keys : ∀ k ∈ st.limits.rate, k = Limits.bucketKey Bucket.namechange.name sampleReleaser ∨
    ∃ i < n, k = Limits.bucketKey Bucket.read.name (sampleIp i)
  count : st.limits.rate.keys.length = n + 1

theorem bucketKey_read_ne (ip : String) :
    Limits.bucketKey Bucket.namechange.name sampleReleaser ≠
      Limits.bucketKey Bucket.read.name ip := by
  intro h
  cases Bucket.eq_of_bucketKey_eq h

section Crowded

variable {n : Nat} {st : RateState}

/-- The next reader is a new key. -/
theorem Crowded.not_mem (h : Crowded n st) (hn : n < 65536) :
    Limits.bucketKey Bucket.read.name (sampleIp n) ∉ st.limits.rate := by
  intro hmem
  obtain hk | ⟨i, hi, hk⟩ := h.keys _ hmem
  · exact bucketKey_read_ne _ hk.symm
  · have hip : sampleIp n = sampleIp i := (String.append_right_inj _).mp hk
    exact absurd (sampleIp_injective hn (hi.trans hn) hip) hi.ne'

/-- The next reader has not called yet. -/
theorem Crowded.hits_nil (h : Crowded n st) (hn : n < 65536) :
    st.limits.hits (Limits.bucketKey Bucket.read.name (sampleIp n)) = [] := by
  rw [Limits.hits, AList.lookup_eq_none.mpr (h.not_mem hn)]
  rfl

theorem Crowded.length_insert (h : Crowded n st) (hn : n < 65536) (ts : List Nat) :
    (st.limits.rate.insert (Limits.bucketKey Bucket.read.name (sampleIp n)) ts).keys.length =
      n + 2 := by
  have hnot : Limits.bucketKey Bucket.read.name (sampleIp n) ∉ st.limits.rate.keys := h.not_mem hn
  rw [AList.keys_insert, List.length_cons, List.erase_of_not_mem hnot, h.count]

/-- The next reader is one more key. -/
theorem Crowded.rate_next (h : Crowded n st) (hn : n < 65536) :
    (stepUncleaned sampleRates st (sampleRead n)).1.limits.rate =
      st.limits.rate.insert (Limits.bucketKey Bucket.read.name (sampleIp n))
        [st.clock + 2000000] := by
  change (Limits.allowUncleaned _ _ _ _ _ _).1.rate = _
  rw [Limits.allowUncleaned, h.hits_nil hn]
  rfl

/-- One more reader. -/
theorem Crowded.next (h : Crowded n st) (hn : n < 65536) :
    Crowded (n + 1) (stepUncleaned sampleRates st (sampleRead n)).1 where
  clock := by
    change st.clock + 2000000 = _
    rw [h.clock]
    omega
  released := by
    rw [Limits.hits_insert (h.rate_next hn), if_neg (bucketKey_read_ne _)]
    exact h.released
  keys := by
    intro k hk
    rw [h.rate_next hn, AList.mem_insert] at hk
    obtain rfl | hk := hk
    · exact .inr ⟨n, Nat.lt_succ_self n, rfl⟩
    · exact (h.keys k hk).imp_right fun ⟨i, hi, hki⟩ => ⟨i, hi.trans (Nat.lt_succ_self n), hki⟩
  count := by rw [h.rate_next hn, h.length_insert hn]

theorem crowded_crowd {n : Nat} (hn : n ≤ 65536) : Crowded n (crowd n) := by
  induction n with
  | zero =>
    refine ⟨rfl, by decide, ?_, by decide⟩
    intro k hk
    exact .inl (List.mem_singleton.mp hk)
  | succ n ih =>
    rw [crowd_succ]
    exact (ih (by omega)).next (by omega)

/-- Up to fifty thousand keys nothing is cleaned. -/
theorem run_sampleReaders {n : Nat} (hn : n < Limits.maxKeys) :
    Machine.run (RateState.next sampleRates) start (sampleReaders n) = crowd n := by
  induction n with
  | zero => rfl
  | succ n ih =>
    have hcrowded := crowded_crowd (n := n) (by rw [Limits.maxKeys] at hn; omega)
    rw [sampleReaders_succ, Machine.run_concat, ih (by omega), crowd_succ]
    have hallow : (crowd n).limits.allow ((crowd n).clock + 2000000) Bucket.read.name (sampleIp n)
        120 (sampleRates.window .read) = (crowd n).limits.allowUncleaned
          ((crowd n).clock + 2000000) Bucket.read.name (sampleIp n) 120
          (sampleRates.window .read) := by
      refine Limits.allow_of_not_cleans fun h => ?_
      rw [hcrowded.length_insert (by rw [Limits.maxKeys] at hn; omega)] at h
      exact absurd h.2 (by omega)
    exact congrArg (fun r => (⟨(crowd n).clock + 2000000, r.1⟩ : RateState)) hallow

end Crowded

/-- The reader who makes it one key more makes the limiter drop the release. -/
theorem released_of_cleaned {n : Nat} (hn : n + 1 = Limits.maxKeys) :
    (Machine.run (RateState.next sampleRates) start (sampleReaders (n + 1))).limits.hits
      (Limits.bucketKey Bucket.namechange.name sampleReleaser) = [] := by
  have hmax : n = 49999 := Nat.succ.inj hn
  have hcrowded : Crowded n (crowd n) := crowded_crowd (by omega)
  have hnext := hcrowded.next (by omega)
  have hclean : (crowd n).limits.allow ((crowd n).clock + 2000000) Bucket.read.name (sampleIp n)
      120 (sampleRates.window .read) = _ := Limits.allow_of_cleans
    (by rw [hcrowded.hits_nil (by omega)]; exact Nat.zero_lt_succ _)
    (by rw [hcrowded.length_insert (by omega), ← hn]; omega)
  rw [sampleReaders_succ, Machine.run_concat, run_sampleReaders (by omega)]
  change ((crowd n).limits.allow ((crowd n).clock + 2000000) Bucket.read.name
    (sampleIp n) 120 (sampleRates.window .read)).1.hits _ = _
  rw [hclean, Limits.hits_retain]
  refine if_neg ?_
  rintro ⟨t, ht, hlt⟩
  obtain rfl : t = 0 := List.mem_singleton.mp (hnext.released ▸ ht)
  rw [hcrowded.clock, hmax] at hlt
  exact absurd hlt (by decide)

theorem results_concat (is : List RateInput) :
    (results sampleRates (is ++ [⟨0, .cooldownActive sampleReleaser⟩])).getLast? =
      some (some (Limits.cooldownActive (Machine.run (RateState.next sampleRates) start is).limits
        (Machine.run (RateState.next sampleRates) start is).clock Bucket.namechange.name
        sampleReleaser (secs 600)).2) := by
  rw [results, Machine.outputs_concat, List.getLast?_concat]
  rfl

theorem resultsUncleaned_concat (n : Nat) :
    (resultsUncleaned sampleRates
        (sampleReaders n ++ [⟨0, .cooldownActive sampleReleaser⟩])).getLast? =
      some (some (Limits.cooldownActive (crowd n).limits (crowd n).clock Bucket.namechange.name
        sampleReleaser (secs 600)).2) := by
  rw [resultsUncleaned, Machine.outputs_concat, List.getLast?_concat]
  rfl

/-- The key that released its name has no cooldown left after 100 of 600 seconds; without the
clean-up it has. -/
theorem sampleCrowd_differs :
    (results sampleRates sampleCrowd).getLast? = some (some false) ∧
      (resultsUncleaned sampleRates sampleCrowd).getLast? = some (some true) ∧
      results sampleRates sampleCrowd ≠ resultsUncleaned sampleRates sampleCrowd := by
  have hcleaned : (results sampleRates sampleCrowd).getLast? = some (some false) := by
    have hreleased := released_of_cleaned (n := 49999) rfl
    rw [sampleCrowd, results_concat, Limits.cooldownActive_snd, hreleased]
    rfl
  have huncleaned : (resultsUncleaned sampleRates sampleCrowd).getLast? = some (some true) := by
    have hcrowded : Crowded 50000 (crowd 50000) := crowded_crowd (by omega)
    rw [sampleCrowd, resultsUncleaned_concat, Limits.cooldownActive_snd, hcrowded.released,
      hcrowded.clock]
    decide
  refine ⟨hcleaned, huncleaned, fun h => ?_⟩
  rw [h, huncleaned] at hcleaned
  cases hcleaned

end RateState

end Floonet.NameAuthority
