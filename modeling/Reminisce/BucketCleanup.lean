import Reminisce.LoginRate

namespace Reminisce

open LimiterState

/-- `RateLimitMiddleware::call` without the removal of any bucket. -/
def RateLimiter.callKeeping (limiter : RateLimiter) (req : ServiceRequest) (now : Time) :
    RateLimiter × LimitVerdict :=
  if isExempt req.path then (limiter, .forwarded)
  else
    let ip := parseClientIp req limiter.trustedProxies
    let (maxTokens, refillRate) := limits req.path
    let (state, allowed) := (limiter.shards (shardIndex ip)).consumeOne ip maxTokens refillRate now
    ({ limiter with shards := Function.update limiter.shards (shardIndex ip) state },
      if allowed then .forwarded
      else .tooManyRequests "Too many requests. Please try again later.")

/-- The middleware over time with all it decided, the last decision first. -/
structure Decisions where
  now : Time
  limiter : RateLimiter
  verdicts : List LimitVerdict

def Decisions.init (trustedProxies : List IpAddr) (now : Time) : Decisions :=
  { now, limiter := RateLimiter.new trustedProxies now, verdicts := [] }

def decideStep (call : RateLimiter → ServiceRequest → Time → RateLimiter × LimitVerdict)
    (s : Decisions) : TrafficEvent → Option Decisions
  | .request req =>
    let (limiter, verdict) := call s.limiter req s.now
    some { s with limiter, verdicts := verdict :: s.verdicts }
  | .tick nanos => some { s with now := s.now + nanos }

/-- Every shard is below the capacity that triggers an early cleanup or an eviction. -/
def HasRoom (s : Decisions) (_ : TrafficEvent) : Prop :=
  ∀ i, (s.limiter.shards i).buckets.length < maxBuckets

instance (s : Decisions) (e : TrafficEvent) : Decidable (HasRoom s e) :=
  inferInstanceAs (Decidable (∀ i, (s.limiter.shards i).buckets.length < maxBuckets))

/-- Not used for ten minutes. -/
def TokenBucket.Idle (bucket : TokenBucket) (now : Time) : Prop :=
  600 ≤ (now - bucket.lastUpdate) / nanosPerSec

/-- Two shards hold the same buckets, but for idle ones that only the second still has. -/
def ForgetsIdle (now : Time) (state full : LimiterState) : Prop :=
  ∀ ip, (∀ b ∈ full.get ip, 0 ≤ b.tokens) ∧
    (state.get ip = full.get ip ∨ (state.get ip = none ∧ ∃ b ∈ full.get ip, b.Idle now))

/-- Two middlewares that decided alike, the second of which has forgotten nothing. -/
structure Remembers (s t : Decisions) : Prop where
  now : t.now = s.now
  proxies : t.limiter.trustedProxies = s.limiter.trustedProxies
  verdicts : t.verdicts = s.verdicts
  shards : ∀ i, ForgetsIdle s.now (s.limiter.shards i) (t.limiter.shards i)

variable {state full : LimiterState} {bucket : TokenBucket} {ip : IpAddr} {now next : Time}
  {req : ServiceRequest} {s t : Decisions}

theorem TokenBucket.Idle.later (h : bucket.Idle now) (hlater : now ≤ next) : bucket.Idle next :=
  h.trans (Nat.div_le_div_right (Nat.sub_le_sub_right hlater _))

theorem TokenBucket.Idle.elapsed (h : bucket.Idle now) :
    600 ≤ elapsedSecs bucket.lastUpdate now := by
  have hnanos : 600 * nanosPerSec ≤ now - bucket.lastUpdate :=
    (Nat.le_div_iff_mul_le (by decide)).mp h
  have hpos : (0 : ℚ) < (nanosPerSec : Nat) := by decide
  unfold elapsedSecs
  rw [le_div_iff₀ hpos]
  exact_mod_cast hnanos

/-- Under both policies ten minutes refill an empty bucket. -/
theorem limits_refill (path : List Char) :
    0 ≤ (limits path).1 ∧ 0 ≤ (limits path).2 ∧ (limits path).1 ≤ 600 * (limits path).2 := by
  unfold limits
  split <;> norm_num

/-- A bucket that is idle serves a request as a new one does. -/
theorem consume_idle (htokens : 0 ≤ bucket.tokens) (h : bucket.Idle now) (path : List Char) :
    bucket.consume (limits path).1 (limits path).2 1 now =
      TokenBucket.consume ⟨(limits path).1, now⟩ (limits path).1 (limits path).2 1 now := by
  obtain ⟨_, hrate, hrefill⟩ := limits_refill path
  have hgain : 600 * (limits path).2 ≤ elapsedSecs bucket.lastUpdate now * (limits path).2 :=
    mul_le_mul_of_nonneg_right h.elapsed hrate
  have hfull : min (bucket.tokens + elapsedSecs bucket.lastUpdate now * (limits path).2)
      (limits path).1 = (limits path).1 := min_eq_right (by linarith)
  have hnew : min ((limits path).1 + elapsedSecs now now * (limits path).2) (limits path).1 =
      (limits path).1 := by
    rw [elapsedSecs_self, zero_mul, add_zero, min_self]
  unfold TokenBucket.consume
  simp only [hfull, hnew]

theorem LimiterState.get_put_ne {other : IpAddr} (state : LimiterState) (bucket : TokenBucket)
    (h : other ≠ ip) : (state.put ip bucket).get other = state.get other := by
  unfold LimiterState.get LimiterState.put
  rw [Keyed.find_put_ne (ip, bucket) h]

theorem ForgetsIdle.later (h : ForgetsIdle now state full) (hlater : now ≤ next) :
    ForgetsIdle next state full := by
  intro ip
  obtain ⟨htokens, hsame⟩ := h ip
  refine ⟨htokens, hsame.imp_right ?_⟩
  rintro ⟨hnone, b, hb, hidle⟩
  exact ⟨hnone, b, hb, hidle.later hlater⟩

/-- A cleanup forgets idle buckets only. -/
theorem ForgetsIdle.cleanup (h : ForgetsIdle now state full) :
    ForgetsIdle now (state.cleanup now) full := by
  intro ip
  obtain ⟨htokens, hsame⟩ := h ip
  refine ⟨htokens, ?_⟩
  rcases get_cleanup state ip now with heq | ⟨hnone, b, hb, hidle⟩
  · rw [heq]
    exact hsame
  · rcases hsame with hsame | ⟨hgone, _⟩
    · exact Or.inr ⟨hnone, b, hsame ▸ hb, hidle⟩
    · rw [hgone] at hb
      simp at hb

/-- Both shards serve a request alike and agree on its bucket from then on. -/
theorem ForgetsIdle.consumeOne (h : ForgetsIdle now state full) (ip : IpAddr) (path : List Char) :
    (full.consumeOne ip (limits path).1 (limits path).2 now).2 =
        (state.consumeOne ip (limits path).1 (limits path).2 now).2 ∧
      ForgetsIdle now (state.consumeOne ip (limits path).1 (limits path).2 now).1
        (full.consumeOne ip (limits path).1 (limits path).2 now).1 := by
  obtain ⟨htokens, hsame⟩ := h ip
  obtain ⟨hmax, hrate, _⟩ := limits_refill path
  have hconsume : ((full.get ip).getD ⟨(limits path).1, now⟩).consume (limits path).1
        (limits path).2 1 now =
      ((state.get ip).getD ⟨(limits path).1, now⟩).consume (limits path).1 (limits path).2 1 now := by
    rcases hsame with hsame | ⟨hnone, b, hb, hidle⟩
    · rw [hsame]
    · rw [hnone, hb]
      exact consume_idle (htokens b hb) hidle path
  have hstart : 0 ≤ ((full.get ip).getD ⟨(limits path).1, now⟩).tokens := by
    cases hget : full.get ip with
    | none => exact hmax
    | some b => exact htokens b hget
  have hkept := consume_kept hmax hrate hstart now
  unfold LimiterState.consumeOne
  simp only
  rw [← hconsume]
  refine ⟨rfl, fun other => ?_⟩
  by_cases hip : other = ip
  · subst hip
    rw [get_put_self, get_put_self]
    refine ⟨fun b hb => ?_, Or.inl rfl⟩
    cases Option.some.inj hb
    exact hkept.1
  · rw [get_put_ne _ _ hip, get_put_ne _ _ hip]
    exact h other

/-- A request is decided alike, whatever was forgotten before it. -/
theorem Remembers.request (h : Remembers s t)
    (hroom : ∀ i, (s.limiter.shards i).buckets.length < maxBuckets) (req : ServiceRequest) :
    (t.limiter.callKeeping req t.now).2 = (s.limiter.call req s.now).2 ∧
      (t.limiter.callKeeping req t.now).1.trustedProxies =
        (s.limiter.call req s.now).1.trustedProxies ∧
      ∀ i, ForgetsIdle s.now ((s.limiter.call req s.now).1.shards i)
        ((t.limiter.callKeeping req t.now).1.shards i) := by
  unfold RateLimiter.call RateLimiter.callKeeping
  split
  next => exact ⟨rfl, h.proxies, h.shards⟩
  next =>
    rw [h.now, h.proxies]
    generalize parseClientIp req s.limiter.trustedProxies = ip
    have hfits : ((s.limiter.shards (shardIndex ip)).cleanup s.now).buckets.length < maxBuckets := by
      refine lt_of_le_of_lt ?_ (hroom (shardIndex ip))
      unfold LimiterState.cleanup
      split
      next => exact List.length_filter_le _ _
      next => exact le_rfl
    obtain ⟨hverdict, hshard⟩ := (h.shards (shardIndex ip)).cleanup.consumeOne ip req.path
    simp only [makeRoom_of_lt hfits]
    refine ⟨by rw [hverdict], trivial, fun i => ?_⟩
    by_cases hi : i = shardIndex ip
    · subst hi
      simpa only [Function.update_self] using hshard
    · simpa only [Function.update_of_ne hi] using h.shards i

theorem remembers_step {e : TrafficEvent} {s' : Decisions} (h : Remembers s t) (hroom : HasRoom s e)
    (hstep : decideStep RateLimiter.call s e = some s') :
    ∃ t', decideStep RateLimiter.callKeeping t e = some t' ∧ Remembers s' t' := by
  cases e with
  | request req =>
    obtain ⟨hverdict, hproxies, hshards⟩ := h.request hroom req
    have hs' : s' = { s with
        limiter := (s.limiter.call req s.now).1
        verdicts := (s.limiter.call req s.now).2 :: s.verdicts } := (Option.some.inj hstep).symm
    subst hs'
    refine ⟨{ t with
      limiter := (t.limiter.callKeeping req t.now).1
      verdicts := (t.limiter.callKeeping req t.now).2 :: t.verdicts }, rfl, h.now, hproxies, ?_,
      hshards⟩
    rw [hverdict, h.verdicts]
  | tick nanos =>
    cases Option.some.inj hstep
    refine ⟨_, rfl, ?_, h.proxies, h.verdicts, fun i => (h.shards i).later (Nat.le_add_right _ _)⟩
    simp only [h.now]

theorem remembers_init (trustedProxies : List IpAddr) (now : Time) :
    Remembers (Decisions.init trustedProxies now) (Decisions.init trustedProxies now) where
  now := rfl
  proxies := rfl
  verdicts := rfl
  shards := fun _ _ => ⟨by simp [Decisions.init, RateLimiter.new, LimiterState.new,
    LimiterState.get], Or.inl rfl⟩

/-- For any requests of any clients, the middleware decides as it would if it kept every bucket, as
long as its shards have room. -/
theorem cleanup_unobservable (trustedProxies : List IpAddr) (now : Time)
    (events : List TrafficEvent)
    (hroom : Runs.Meets (decideStep RateLimiter.call) HasRoom (Decisions.init trustedProxies now)
      events) :
    (Runs.exec (decideStep RateLimiter.call) (Decisions.init trustedProxies now) events).map
        (·.verdicts) =
      (Runs.exec (decideStep RateLimiter.callKeeping) (Decisions.init trustedProxies now)
        events).map (·.verdicts) := by
  have htotal : ∀ s e, ∃ s', decideStep RateLimiter.call s e = some s' := by
    intro s e
    cases e <;> exact ⟨_, rfl⟩
  obtain ⟨s, hs⟩ := Runs.exec_total htotal (Decisions.init trustedProxies now) events
  obtain ⟨t, ht, hrel⟩ := Runs.exec_simulates (fun s t e s' => remembers_step)
    (remembers_init trustedProxies now) hroom hs
  rw [hs, ht, Option.map_some, Option.map_some, hrel.verdicts]

/-- Logins and general requests of two clients around a pause in which their buckets are removed. -/
theorem cleanup_unobservable_pause :
    (Runs.exec (decideStep RateLimiter.call) (Decisions.init [] 0)
        (List.replicate 11 (.request loginRequest) ++ [.request galleryRequest,
          .request { loginRequest with peer := some (.v4 203 0 113 8) },
          .tick 600000000000, .request { galleryRequest with peer := some (.v4 203 0 113 8) }] ++
            List.replicate 11 (.request loginRequest))).map (·.verdicts) =
      (Runs.exec (decideStep RateLimiter.callKeeping) (Decisions.init [] 0)
        (List.replicate 11 (.request loginRequest) ++ [.request galleryRequest,
          .request { loginRequest with peer := some (.v4 203 0 113 8) },
          .tick 600000000000, .request { galleryRequest with peer := some (.v4 203 0 113 8) }] ++
            List.replicate 11 (.request loginRequest))).map (·.verdicts) :=
  cleanup_unobservable [] 0 _ (by decide +kernel)

end Reminisce
