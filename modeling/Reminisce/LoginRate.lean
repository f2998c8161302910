import Reminisce.Library.RateBound
import Reminisce.Library.Runs
import Reminisce.RateLimit

namespace Reminisce

def seconds (t : Time) : ℚ := (t : ℚ) / (nanosPerSec : Nat)

/-- The middleware over time. `admitted` records when login requests went through, newest first,
and is read by no code. -/
structure LoginTraffic where
  now : Time
  limiter : RateLimiter
  admitted : List ℚ

inductive TrafficEvent
  | request (req : ServiceRequest)
  | tick (nanos : Nat)

def isLoginRequest (req : ServiceRequest) : Bool := !isExempt req.path && isLogin req.path

namespace LoginTraffic

def init (trustedProxies : List IpAddr) (now : Time) : LoginTraffic :=
  { now, limiter := RateLimiter.new trustedProxies now, admitted := [] }

/-- The bucket of an address in its shard. -/
def bucket (s : LoginTraffic) (ip : IpAddr) : Option TokenBucket :=
  (s.limiter.shards (shardIndex ip)).get ip

def handle (s : LoginTraffic) (req : ServiceRequest) : LoginTraffic :=
  let (limiter, verdict) := s.limiter.call req s.now
  { s with
    limiter := limiter
    admitted := if isLoginRequest req ∧ verdict = .forwarded then seconds s.now :: s.admitted
      else s.admitted }

end LoginTraffic

def trafficStep (s : LoginTraffic) : TrafficEvent → Option LoginTraffic
  | .request req => some (s.handle req)
  | .tick nanos => some { s with now := s.now + nanos }

/-- Every request comes from this client. -/
def TrafficEvent.IsFrom (trustedProxies : List IpAddr) (ip : IpAddr) : TrafficEvent → Prop
  | .request req => parseClientIp req trustedProxies = ip
  | .tick _ => True

/-- In any interval of `length` seconds at most `10 + length / 2` logins were admitted. -/
def LoginsBounded (s : LoginTraffic) : Prop :=
  ∀ start length : ℚ, 0 ≤ length →
    (RateBound.countIn start (start + length) s.admitted : ℚ) ≤ 10 + length / 2

/-- A general request at this moment leaves the bucket no more than the login rate gives it: a
full login bucket is there already, or no time passed, or the token it takes makes up for what
it refills. -/
def TokenBucket.PacedAsLogin (bucket : TokenBucket) (now : Time) : Prop :=
  let waited := elapsedSecs bucket.lastUpdate now
  10 ≤ bucket.tokens + waited / 2 ∨ waited = 0 ∨
    (1 ≤ bucket.tokens + 100 * waited ∧ 199 * waited ≤ 2)

/-- The general requests that are counted refill their bucket no faster than logins do. -/
def GeneralPaced (s : LoginTraffic) : TrafficEvent → Prop
  | .request req => isExempt req.path = false → isLogin req.path = false →
    ∀ bucket ∈ s.bucket (parseClientIp req s.limiter.trustedProxies), bucket.PacedAsLogin s.now
  | .tick _ => True

instance (bucket : TokenBucket) (now : Time) : Decidable (bucket.PacedAsLogin now) :=
  inferInstanceAs (Decidable (_ ∨ _ ∨ _))

instance (trustedProxies : List IpAddr) (ip : IpAddr) (e : TrafficEvent) :
    Decidable (e.IsFrom trustedProxies ip) :=
  match e with
  | .request _ => inferInstanceAs (Decidable (_ = _))
  | .tick _ => isTrue trivial

instance (s : LoginTraffic) (e : TrafficEvent) : Decidable (GeneralPaced s e) :=
  match e with
  | .request _ => inferInstanceAs (Decidable (_ → _ → ∀ bucket ∈ s.bucket _, _))
  | .tick _ => isTrue trivial

/-- What a bucket is worth to logins at this moment. -/
def loginLevel (bucket : Option TokenBucket) (now : Time) : ℚ :=
  match bucket with
  | some bucket => min (bucket.tokens + elapsedSecs bucket.lastUpdate now / 2) 10
  | none => 10

variable {bucket : TokenBucket} {now later : Time} {ip : IpAddr} {req : ServiceRequest}
  {s : LoginTraffic}

theorem elapsedSecs_nonneg (earlier later : Time) : 0 ≤ elapsedSecs earlier later := by
  unfold elapsedSecs
  positivity

@[simp] theorem elapsedSecs_self (now : Time) : elapsedSecs now now = 0 := by
  simp [elapsedSecs]

theorem elapsedSecs_eq (h : now ≤ later) : elapsedSecs now later = seconds later - seconds now := by
  unfold elapsedSecs seconds
  rw [Nat.cast_sub h, sub_div]

theorem seconds_le (h : now ≤ later) : seconds now ≤ seconds later := by
  unfold seconds
  gcongr

theorem loginLevel_le (bucket : Option TokenBucket) (now : Time) : loginLevel bucket now ≤ 10 := by
  cases bucket with
  | none => exact le_rfl
  | some bucket => exact min_le_right _ _

theorem loginLevel_nonneg {bucket : Option TokenBucket} (h : ∀ b ∈ bucket, 0 ≤ b.tokens)
    (now : Time) : 0 ≤ loginLevel bucket now := by
  cases bucket with
  | none => exact (by decide : (0 : ℚ) ≤ 10)
  | some bucket =>
    have := elapsedSecs_nonneg bucket.lastUpdate now
    have := h bucket rfl
    exact le_min (by linarith) (by decide)

/-- The level grows at the login rate at most. -/
theorem loginLevel_later {bucket : Option TokenBucket} (h : ∀ b ∈ bucket, b.lastUpdate ≤ now)
    (hlater : now ≤ later) :
    loginLevel bucket later ≤ loginLevel bucket now + 1 / 2 * (seconds later - seconds now) := by
  have hwait := seconds_le hlater
  cases bucket with
  | none =>
    simp only [loginLevel]
    linarith
  | some bucket =>
    have hlast := h bucket rfl
    simp only [loginLevel]
    rw [elapsedSecs_eq hlast, elapsedSecs_eq (hlast.trans hlater)]
    rcases min_choice (bucket.tokens + (seconds now - seconds bucket.lastUpdate) / 2) 10 with hm | hm
    · rw [hm]
      exact (min_le_left _ _).trans (by linarith)
    · rw [hm]
      exact (min_le_right _ _).trans (by linarith)

/-- A bucket that was not used for ten minutes is worth a new one. -/
theorem loginLevel_stale (h : 0 ≤ bucket.tokens)
    (hstale : 600 ≤ (now - bucket.lastUpdate) / nanosPerSec) :
    loginLevel (some bucket) now = 10 := by
  have hnanos : 600 * nanosPerSec ≤ now - bucket.lastUpdate :=
    (Nat.le_div_iff_mul_le (by decide)).mp hstale
  have hpos : (0 : ℚ) < (nanosPerSec : Nat) := by decide
  have hwaited : 600 ≤ elapsedSecs bucket.lastUpdate now := by
    unfold elapsedSecs
    rw [le_div_iff₀ hpos]
    exact_mod_cast hnanos
  exact min_eq_right (by linarith)

theorem loginLevel_getD {maxTokens : ℚ} (h : 10 ≤ maxTokens) (bucket : Option TokenBucket)
    (now : Time) :
    loginLevel (some (bucket.getD ⟨maxTokens, now⟩)) now = loginLevel bucket now := by
  cases bucket with
  | none => simp [loginLevel, h]
  | some bucket => rfl

/-- A login request takes a whole token of the level, if there is one. -/
theorem consume_login (bucket : TokenBucket) (now : Time) :
    ((bucket.consume 10 (1 / 2) 1 now).2 = true ∧ 1 ≤ loginLevel (some bucket) now ∧
        loginLevel (some (bucket.consume 10 (1 / 2) 1 now).1) now =
          loginLevel (some bucket) now - 1) ∨
      ((bucket.consume 10 (1 / 2) 1 now).2 = false ∧
        loginLevel (some (bucket.consume 10 (1 / 2) 1 now).1) now =
          loginLevel (some bucket) now) := by
  have hlevel : min (bucket.tokens + elapsedSecs bucket.lastUpdate now * (1 / 2)) 10 =
      loginLevel (some bucket) now := by
    simp only [loginLevel, mul_one_div]
  have hle := loginLevel_le (some bucket) now
  unfold TokenBucket.consume
  simp only [hlevel]
  split
  next hone =>
    refine Or.inl ⟨rfl, hone, ?_⟩
    simp only [loginLevel, elapsedSecs_self, zero_div, add_zero]
    exact min_eq_left (by simp only [loginLevel] at hle; linarith)
  next =>
    refine Or.inr ⟨rfl, ?_⟩
    simp only [loginLevel, elapsedSecs_self, zero_div, add_zero]
    exact min_eq_left (by simpa only [loginLevel] using hle)

/-- When the rest of a general refill is no more than a login refill. -/
theorem rest_le_iff {tokens waited : ℚ} (hwaited : 0 ≤ waited) :
    min (if 1 ≤ min (tokens + waited * 100) 2000 then min (tokens + waited * 100) 2000 - 1
        else min (tokens + waited * 100) 2000) 10 ≤ min (tokens + waited / 2) 10 ↔
      10 ≤ tokens + waited / 2 ∨ waited = 0 ∨ (1 ≤ tokens + 100 * waited ∧ 199 * waited ≤ 2) := by
  have hle := min_le_left (tokens + waited * 100) 2000
  constructor
  · intro h
    by_contra hnot
    simp only [not_or, not_le, not_and] at hnot
    obtain ⟨hlow, hne, hrefill⟩ := hnot
    have hpos : 0 < waited := lt_of_le_of_ne hwaited (Ne.symm hne)
    have hrest := h.trans (min_le_left _ _)
    have hcase : min (tokens + waited * 100) 2000 = tokens + waited * 100 ∨
        min (tokens + waited * 100) 2000 = 2000 := min_choice _ _
    split at hrest
    next hone =>
      have hwhole := hrefill (by linarith)
      rcases min_le_iff.mp hrest with hrest | hrest
      · rcases hcase with hcase | hcase <;> rw [hcase] at hrest <;> linarith
      · linarith
    next hfew =>
      rcases min_le_iff.mp hrest with hrest | hrest
      · rcases hcase with hcase | hcase <;> rw [hcase] at hrest hfew <;> linarith
      · linarith
  · intro h
    refine le_min ?_ (min_le_right _ _)
    rcases h with hfull | rfl | ⟨hone, hshort⟩
    · exact (min_le_right _ _).trans hfull
    · refine (min_le_left _ _).trans ?_
      simp only [zero_mul, add_zero, zero_div] at hle ⊢
      split <;> linarith
    · refine (min_le_left _ _).trans ?_
      split
      next => linarith
      next hfew =>
        have hcapped : min (tokens + waited * 100) 2000 = 2000 :=
          (min_choice _ _).resolve_left fun heq => hfew (by rw [heq]; linarith)
        rw [hcapped] at hfew
        linarith

/-- A general request leaves the level no higher exactly if it is paced. -/
theorem consume_general_iff (bucket : TokenBucket) (now : Time) :
    loginLevel (some (bucket.consume 2000 100 1 now).1) now ≤ loginLevel (some bucket) now ↔
      bucket.PacedAsLogin now := by
  have hwaited := elapsedSecs_nonneg bucket.lastUpdate now
  unfold TokenBucket.PacedAsLogin
  simp only
  generalize hw : elapsedSecs bucket.lastUpdate now = waited at hwaited ⊢
  have hlevel : loginLevel (some bucket) now = min (bucket.tokens + waited / 2) 10 := by
    simp only [loginLevel, hw]
  have hleft : loginLevel (some (bucket.consume 2000 100 1 now).1) now =
      min (if 1 ≤ min (bucket.tokens + waited * 100) 2000 then
        min (bucket.tokens + waited * 100) 2000 - 1
        else min (bucket.tokens + waited * 100) 2000) 10 := by
    unfold TokenBucket.consume
    simp only [hw]
    split <;> simp [loginLevel]
  rw [hlevel, hleft]
  exact rest_le_iff hwaited

theorem halfRate_nonneg : (0 : ℚ) ≤ 1 / 2 := one_half_pos.le

theorem consume_kept {maxTokens refillRate : ℚ} (hmax : 0 ≤ maxTokens) (hrate : 0 ≤ refillRate)
    (h : 0 ≤ bucket.tokens) (now : Time) :
    0 ≤ (bucket.consume maxTokens refillRate 1 now).1.tokens ∧
      (bucket.consume maxTokens refillRate 1 now).1.lastUpdate = now := by
  have hrefill := mul_nonneg (elapsedSecs_nonneg bucket.lastUpdate now) hrate
  have htokens : 0 ≤ min (bucket.tokens + elapsedSecs bucket.lastUpdate now * refillRate) maxTokens :=
    le_min (by linarith) hmax
  unfold TokenBucket.consume
  simp only
  split
  next hone => exact ⟨by simpa using hone, rfl⟩
  next => exact ⟨htokens, rfl⟩

/-- The bookkeeping for the only client: its bucket has the credit that the logins left. -/
structure ClientBooked (ip : IpAddr) (s : LoginTraffic) : Prop where
  single : ∀ e ∈ (s.limiter.shards (shardIndex ip)).buckets, e.1 = ip
  kept : ∀ b ∈ s.bucket ip, 0 ≤ b.tokens ∧ b.lastUpdate ≤ s.now
  credit : RateBound.Credit 10 (1 / 2) s.admitted (seconds s.now) (loginLevel (s.bucket ip) s.now)

/-- The bucket that a counted request of the only client finds. -/
theorem ClientBooked.found (h : ClientBooked ip s) :
    ∃ state : LimiterState,
      ((s.limiter.shards (shardIndex ip)).cleanup s.now).makeRoom ip s.now = state ∧
      (∀ e ∈ state.buckets, e.1 = ip) ∧
      (∀ b ∈ state.get ip, b ∈ s.bucket ip) ∧
      loginLevel (state.get ip) s.now = loginLevel (s.bucket ip) s.now := by
  have hsingle : ∀ e ∈ ((s.limiter.shards (shardIndex ip)).cleanup s.now).buckets, e.1 = ip := by
    intro e he
    unfold LimiterState.cleanup at he
    split at he
    next => exact h.single e (List.mem_filter.mp he).1
    next => exact h.single e he
  have hroom : ((s.limiter.shards (shardIndex ip)).cleanup s.now).buckets.length <
      LimiterState.maxBuckets :=
    (Keyed.length_le_one (LimiterState.nodup _) hsingle).trans_lt (by decide)
  refine ⟨_, LimiterState.makeRoom_of_lt hroom, hsingle, ?_⟩
  rcases LimiterState.get_cleanup (s.limiter.shards (shardIndex ip)) ip s.now with
    heq | ⟨hnone, bucket, hbucket, hstale⟩
  · rw [heq]
    exact ⟨fun b hb => hb, rfl⟩
  · rw [hnone]
    refine ⟨by simp, ?_⟩
    have hold : s.bucket ip = some bucket := hbucket
    rw [hold, loginLevel_stale (h.kept bucket hold).1 hstale]
    rfl

theorem handle_exempt (h : isExempt req.path = true) : s.handle req = s := by
  simp [LoginTraffic.handle, RateLimiter.call, isLoginRequest, h]

/-- What a counted request writes. -/
theorem handle_counted {state : LimiterState} {bucket : TokenBucket} {allowed : Bool}
    (hexempt : isExempt req.path = false)
    (hclient : parseClientIp req s.limiter.trustedProxies = ip)
    (hstate : ((s.limiter.shards (shardIndex ip)).cleanup s.now).makeRoom ip s.now = state)
    (hconsume : ((state.get ip).getD ⟨(limits req.path).1, s.now⟩).consume (limits req.path).1
      (limits req.path).2 1 s.now = (bucket, allowed)) :
    s.handle req =
      { now := s.now
        limiter := { s.limiter with
          shards := Function.update s.limiter.shards (shardIndex ip) (state.put ip bucket) }
        admitted := if isLogin req.path = true ∧ allowed = true then seconds s.now :: s.admitted
          else s.admitted } := by
  unfold LoginTraffic.handle RateLimiter.call isLoginRequest
  simp only [hexempt, Bool.false_eq_true, if_false, hclient, hstate, LimiterState.consumeOne,
    hconsume]
  cases allowed <;> simp

/-- The bookkeeping after a write of the client's bucket. -/
theorem clientBooked_write {state : LimiterState} {admitted : List ℚ}
    (hsingle : ∀ e ∈ state.buckets, e.1 = ip) (hkept : 0 ≤ bucket.tokens ∧ bucket.lastUpdate = s.now)
    (hcredit : RateBound.Credit 10 (1 / 2) admitted (seconds s.now)
      (loginLevel (some bucket) s.now)) :
    ClientBooked ip
      { now := s.now
        limiter := { s.limiter with
          shards := Function.update s.limiter.shards (shardIndex ip) (state.put ip bucket) }
        admitted := admitted } where
  single e he := by
    simp only [Function.update_self] at he
    rcases Keyed.mem_put.mp he with rfl | ⟨he, _⟩
    · rfl
    · exact hsingle e he
  kept b hb := by
    simp only [LoginTraffic.bucket, Function.update_self, LimiterState.get_put_self] at hb
    cases Option.some.inj hb
    exact ⟨hkept.1, hkept.2.le⟩
  credit := by
    simp only [LoginTraffic.bucket, Function.update_self, LimiterState.get_put_self]
    exact hcredit

theorem clientBooked_handle (h : ClientBooked ip s)
    (hclient : parseClientIp req s.limiter.trustedProxies = ip)
    (hpaced : GeneralPaced s (.request req)) : ClientBooked ip (s.handle req) := by
  cases hexempt : isExempt req.path with
  | true =>
    rw [handle_exempt hexempt]
    exact h
  | false =>
    obtain ⟨state, hstate, hsingle, hfound, hlevel⟩ := h.found
    have htokens : ∀ max : ℚ, 0 ≤ max → 0 ≤ ((state.get ip).getD ⟨max, s.now⟩).tokens := by
      intro max hmax
      cases hget : state.get ip with
      | none => exact hmax
      | some b => exact (h.kept b (hfound b hget)).1
    cases hlogin : isLogin req.path with
    | true =>
      have hlimits : limits req.path = (10, 1 / 2) := by simp [limits, hlogin]
      generalize hb : (state.get ip).getD ⟨10, s.now⟩ = b
      have hstart : loginLevel (some b) s.now = loginLevel (s.bucket ip) s.now := by
        rw [← hb, loginLevel_getD le_rfl, hlevel]
      have hkept := consume_kept (by decide : (0 : ℚ) ≤ 10) halfRate_nonneg
        (hb ▸ htokens 10 (by decide)) s.now
      rw [handle_counted hexempt hclient hstate (by rw [hlimits, hb])]
      rcases consume_login b s.now with ⟨hallowed, hone, htaken⟩ | ⟨hrefused, hsame⟩
      · rw [hallowed, if_pos ⟨hlogin, rfl⟩]
        refine clientBooked_write hsingle hkept ?_
        rw [htaken, hstart]
        exact h.credit.take halfRate_nonneg (hstart ▸ hone)
      · rw [hrefused, if_neg (by simp)]
        refine clientBooked_write hsingle hkept ?_
        rw [hsame, hstart]
        exact h.credit
    | false =>
      have hlimits : limits req.path = (2000, 100) := by simp [limits, hlogin]
      generalize hb : (state.get ip).getD ⟨2000, s.now⟩ = b
      have hstart : loginLevel (some b) s.now = loginLevel (s.bucket ip) s.now := by
        rw [← hb, loginLevel_getD (by decide), hlevel]
      have hkept := consume_kept (by decide : (0 : ℚ) ≤ 2000) (by decide : (0 : ℚ) ≤ 100)
        (hb ▸ htokens 2000 (by decide)) s.now
      have hrest : b.PacedAsLogin s.now := by
        cases hget : state.get ip with
        | none =>
          rw [hget] at hb
          cases hb
          exact Or.inl ((by decide : (10 : ℚ) ≤ 2000).trans (by simp))
        | some found =>
          rw [hget] at hb
          cases hb
          refine hpaced hexempt hlogin found ?_
          rw [hclient]
          exact hfound found hget
      have hnonneg : 0 ≤ loginLevel (some (b.consume 2000 100 1 s.now).1) s.now :=
        loginLevel_nonneg (by simpa using hkept.1) s.now
      rw [handle_counted hexempt hclient hstate (by rw [hlimits, hb]), if_neg (by simp [hlogin])]
      refine clientBooked_write hsingle hkept ?_
      refine h.credit.wait halfRate_nonneg le_rfl hnonneg (loginLevel_le _ _) ?_
      rw [sub_self, mul_zero, add_zero, ← hstart]
      exact (consume_general_iff b s.now).mpr hrest

/-- The bookkeeping is kept by every step in which the client is the only one. -/
theorem clientBooked_step {e : TrafficEvent} {t : LoginTraffic} (h : ClientBooked ip s)
    (hclient : e.IsFrom s.limiter.trustedProxies ip)
    (hpaced : GeneralPaced s e) (hstep : trafficStep s e = some t) : ClientBooked ip t := by
  cases e with
  | request req =>
    cases Option.some.inj hstep
    exact clientBooked_handle h hclient hpaced
  | tick nanos =>
    cases Option.some.inj hstep
    have hlater : s.now ≤ s.now + nanos := Nat.le_add_right _ _
    refine ⟨h.single, fun b hb => ⟨(h.kept b hb).1, (h.kept b hb).2.trans hlater⟩, ?_⟩
    refine h.credit.wait halfRate_nonneg (seconds_le hlater) ?_ (loginLevel_le _ _) ?_
    · exact loginLevel_nonneg (fun b hb => (h.kept b hb).1) _
    · exact loginLevel_later (fun b hb => (h.kept b hb).2) hlater

theorem clientBooked_init (trustedProxies : List IpAddr) (now : Time) (ip : IpAddr) :
    ClientBooked ip (LoginTraffic.init trustedProxies now) where
  single e he := by simp [LoginTraffic.init, RateLimiter.new, LimiterState.new] at he
  kept b hb := by
    simp [LoginTraffic.bucket, LoginTraffic.init, RateLimiter.new, LimiterState.new,
      LimiterState.get] at hb
  credit := RateBound.Credit.full (by decide) halfRate_nonneg _

theorem trafficStep_proxies {e : TrafficEvent} {t : LoginTraffic} (h : trafficStep s e = some t) :
    t.limiter.trustedProxies = s.limiter.trustedProxies := by
  cases e with
  | request req =>
    cases Option.some.inj h
    unfold LoginTraffic.handle RateLimiter.call
    simp only
    split <;> rfl
  | tick nanos =>
    cases Option.some.inj h
    rfl

/-- For any mix of requests of one client the login bound holds as long as the general ones
among them are paced. -/
theorem logins_bounded_of_paced (trustedProxies : List IpAddr) (now : Time) (ip : IpAddr)
    (events : List TrafficEvent)
    (hclient : ∀ e ∈ events, e.IsFrom trustedProxies ip)
    (hpaced : Runs.Meets trafficStep GeneralPaced (LoginTraffic.init trustedProxies now) events) :
    Runs.Throughout trafficStep LoginsBounded (LoginTraffic.init trustedProxies now) events := by
  have hone : Runs.Meets trafficStep (fun _ e => e.IsFrom trustedProxies ip)
      (LoginTraffic.init trustedProxies now) events :=
    Runs.meets_of_mem (fun e he _ => hclient e he) _
  have hbooked : Runs.Throughout trafficStep
      (fun s => ClientBooked ip s ∧ s.limiter.trustedProxies = trustedProxies)
      (LoginTraffic.init trustedProxies now) events := by
    refine Runs.throughout_of_meets ?_ ⟨clientBooked_init trustedProxies now ip, rfl⟩
      (Runs.meets_and hone hpaced)
    intro s e t hs hcond hstep
    obtain ⟨hs, hproxies⟩ := hs
    refine ⟨clientBooked_step hs ?_ hcond.2 hstep, (trafficStep_proxies hstep).trans hproxies⟩
    rw [hproxies]
    exact hcond.1
  refine Runs.throughout_mono (fun s hs start length hlength => ?_) hbooked
  have := hs.1.credit.bounded start (start + length) (by linarith)
  linarith

def loginRequest : ServiceRequest :=
  { peer := some (.v4 203 0 113 7), xRealIp := none, xForwardedFor := none
    path := "/api/auth/user-login".toList }

def galleryRequest : ServiceRequest := { loginRequest with path := "/api/media".toList }

/-- General requests before, between and after the logins. -/
theorem logins_bounded_mixed :
    Runs.Throughout trafficStep LoginsBounded (LoginTraffic.init [] 0)
      (.request galleryRequest :: List.replicate 9 (.request loginRequest) ++
        [.tick 5000000, .request galleryRequest, .request loginRequest, .tick 2000000000,
          .request loginRequest]) :=
  logins_bounded_of_paced [] 0 (.v4 203 0 113 7) _ (by decide +kernel) (by decide +kernel)

/-- One general request a ninth of a second later fills the login bucket again. -/
theorem general_request_refills :
    ¬ ∀ (trustedProxies : List IpAddr) (now : Time) (ip : IpAddr) (events : List TrafficEvent),
      (∀ e ∈ events, e.IsFrom trustedProxies ip) →
      Runs.Throughout trafficStep LoginsBounded (LoginTraffic.init trustedProxies now) events := by
  intro h
  let events : List TrafficEvent := List.replicate 10 (.request loginRequest) ++
    .tick 110000000 :: .request galleryRequest :: List.replicate 10 (.request loginRequest)
  have hadmitted : (Runs.exec trafficStep (LoginTraffic.init [] 0) events).map (·.admitted) =
      some (List.replicate 10 (11 / 100) ++ List.replicate 10 0) := by decide +kernel
  obtain ⟨t, ht, hlist⟩ := Option.map_eq_some_iff.mp hadmitted
  have hbound := Runs.throughout_last (h [] 0 (.v4 203 0 113 7) events (by decide +kernel)) ht 0
    (11 / 100) (by decide +kernel)
  rw [hlist] at hbound
  revert hbound
  decide +kernel

end Reminisce
