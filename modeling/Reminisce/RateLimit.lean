import Mathlib.Algebra.Order.Ring.Rat
import Mathlib.Data.List.Infix
import Mathlib.Data.List.MinMax
import Mathlib.Logic.Function.Basic
import Reminisce.Library.Keyed
import Reminisce.PeerRegistry

namespace Reminisce

/-- `IpAddr::to_canonical`: a version 6 address that maps a version 4 one becomes that. -/
def IpAddr.toCanonical : IpAddr → IpAddr
  | .v4 a b c d => .v4 a b c d
  | .v6 segments =>
    match segments with
    | [0, 0, 0, 0, 0, 0xffff, high, low] =>
      .v4 (high >>> 8).toUInt8 high.toUInt8 (low >>> 8).toUInt8 low.toUInt8
    | _ => .v6 segments

def IpAddr.isLoopback : IpAddr → Bool
  | .v4 a _ _ _ => a = 127
  | .v6 segments => segments = [0, 0, 0, 0, 0, 0, 0, 1]

/-- What the middleware reads of a request. The headers are given by the address that their text
spells, for `X-Forwarded-For` the text after its last comma. -/
structure ServiceRequest where
  peer : Option IpAddr
  xRealIp : Option IpAddr
  xForwardedFor : Option IpAddr
  path : List Char
  deriving DecidableEq

def parseClientIp (req : ServiceRequest) (trustedProxies : List IpAddr) : IpAddr :=
  let peer := (req.peer.map IpAddr.toCanonical).getD (.v4 127 0 0 1)
  if peer.isLoopback ∨ trustedProxies.any (·.toCanonical = peer) then
    match req.xRealIp with
    | some ip => ip
    | none => req.xForwardedFor.getD peer
  else peer

structure TokenBucket where
  tokens : ℚ
  lastUpdate : Time
  deriving DecidableEq

/-- `duration_since(..).as_secs_f64()`, as an exact number. -/
def elapsedSecs (earlier later : Time) : ℚ := ((later - earlier : Nat) : ℚ) / (nanosPerSec : Nat)

def TokenBucket.consume (bucket : TokenBucket) (maxTokens refillRate amount : ℚ) (now : Time) :
    TokenBucket × Bool :=
  let tokens := min (bucket.tokens + elapsedSecs bucket.lastUpdate now * refillRate) maxTokens
  if amount ≤ tokens then (⟨tokens - amount, now⟩, true) else (⟨tokens, now⟩, false)

/-- The buckets of one shard, one for each address, in an order of the map's iteration. -/
structure LimiterState where
  buckets : List (IpAddr × TokenBucket)
  lastCleanup : Time
  nodup : (buckets.map Prod.fst).Nodup

namespace LimiterState

def new (now : Time) : LimiterState := ⟨[], now, List.nodup_nil⟩

def get (state : LimiterState) (ip : IpAddr) : Option TokenBucket :=
  (state.buckets.find? (·.1 = ip)).map Prod.snd

def put (state : LimiterState) (ip : IpAddr) (bucket : TokenBucket) : LimiterState where
  buckets := Keyed.put Prod.fst state.buckets (ip, bucket)
  lastCleanup := state.lastCleanup
  nodup := Keyed.nodup_put state.nodup (ip, bucket)

def retain (state : LimiterState) (keep : IpAddr × TokenBucket → Bool) : LimiterState where
  buckets := state.buckets.filter keep
  lastCleanup := state.lastCleanup
  nodup := state.nodup.sublist (List.filter_sublist.map _)

def maxBuckets : Nat := 10000

def retainFresh (state : LimiterState) (now : Time) : LimiterState :=
  state.retain fun e => (now - e.2.lastUpdate) / nanosPerSec < 600

/-- The cleanup once a minute, or at once when the map is full. -/
def cleanup (state : LimiterState) (now : Time) : LimiterState :=
  if 60 < (now - state.lastCleanup) / nanosPerSec ∨ maxBuckets ≤ state.buckets.length then
    { state.retainFresh now with lastCleanup := now }
  else state

/-- The eviction for a new address while the map is full. -/
def makeRoom (state : LimiterState) (ip : IpAddr) (now : Time) : LimiterState :=
  if maxBuckets ≤ state.buckets.length ∧ state.get ip = none then
    let state := state.retainFresh now
    if maxBuckets ≤ state.buckets.length then
      match state.buckets.argmin (·.2.lastUpdate) with
      | some (oldest, _) => state.retain fun e => e.1 ≠ oldest
      | none => state
    else state
  else state

/-- One token from the bucket of an address, which is created full. -/
def consumeOne (state : LimiterState) (ip : IpAddr) (maxTokens refillRate : ℚ) (now : Time) :
    LimiterState × Bool :=
  let bucket := (state.get ip).getD ⟨maxTokens, now⟩
  let (bucket, allowed) := bucket.consume maxTokens refillRate 1 now
  (state.put ip bucket, allowed)

end LimiterState

structure RateLimiter where
  shards : Fin 16 → LimiterState
  trustedProxies : List IpAddr

def RateLimiter.new (trustedProxies : List IpAddr) (now : Time) : RateLimiter :=
  ⟨fun _ => LimiterState.new now, trustedProxies⟩

def IpAddr.octets : IpAddr → Bytes
  | .v4 a b c d => List.replicate 12 0 ++ [a, b, c, d]
  | .v6 segments => segments.flatMap fun (s : UInt16) => [(s >>> 8).toUInt8, s.toUInt8]

/-- FNV-1a over the octets, folded into the shards. -/
def shardIndex (ip : IpAddr) : Fin 16 :=
  Fin.ofNat 16 (ip.octets.foldl (fun hash b => (hash ^^^ b.toUInt64) * 0x100000001b3)
    (0xcbf29ce484222325 : UInt64)).toNat

def exemptPaths : List (List Char) :=
  ["/ping".toList, "/health".toList, "/metrics".toList, "/api-doc/openapi.json".toList,
    "/swagger-ui".toList, "/api/auth/setup-status".toList]

def exemptPrefixes : List (List Char) :=
  ["/swagger-ui/".toList, "/api/thumbnail/".toList, "/api/face/".toList, "/api/image/".toList,
    "/api/images/".toList, "/api/video/".toList, "/api/videos/".toList]

def isExempt (path : List Char) : Bool :=
  exemptPaths.any (· = path) || exemptPrefixes.any (·.isPrefixOf path)

def isLogin (path : List Char) : Bool :=
  decide ("/user-login".toList <:+: path) || decide ("/login".toList <:+: path) ||
    decide ("/register".toList <:+: path)

/-- Capacity and refill in tokens a second. -/
def limits (path : List Char) : ℚ × ℚ := if isLogin path then (10, 1 / 2) else (2000, 100)

/-- A request goes on to the service, or is answered with status 429. -/
inductive LimitVerdict
  | forwarded
  | tooManyRequests (message : String)
  deriving DecidableEq, Repr

/-- `RateLimitMiddleware::call`. -/
def RateLimiter.call (limiter : RateLimiter) (req : ServiceRequest) (now : Time) :
    RateLimiter × LimitVerdict :=
  if isExempt req.path then (limiter, .forwarded)
  else
    let ip := parseClientIp req limiter.trustedProxies
    let (maxTokens, refillRate) := limits req.path
    let state := ((limiter.shards (shardIndex ip)).cleanup now).makeRoom ip now
    let (state, allowed) := state.consumeOne ip maxTokens refillRate now
    ({ limiter with shards := Function.update limiter.shards (shardIndex ip) state },
      if allowed then .forwarded
      else .tooManyRequests "Too many requests. Please try again later.")

namespace LimiterState

variable {state : LimiterState} {ip other : IpAddr} {bucket : TokenBucket} {now : Time}

theorem mem_of_get (h : state.get ip = some bucket) : (ip, bucket) ∈ state.buckets :=
  Keyed.mem_of_lookup h

theorem get_of_mem (h : (ip, bucket) ∈ state.buckets) : state.get ip = some bucket :=
  Keyed.lookup_of_mem state.nodup h

theorem get_put_self (state : LimiterState) (ip : IpAddr) (bucket : TokenBucket) :
    (state.put ip bucket).get ip = some bucket := by
  unfold get put
  rw [Keyed.find_put_self Prod.fst state.buckets (ip, bucket)]
  rfl

/-- The cleanup removes an address only if its bucket was not used for ten minutes. -/
theorem get_cleanup (state : LimiterState) (ip : IpAddr) (now : Time) :
    (state.cleanup now).get ip = state.get ip ∨
      ((state.cleanup now).get ip = none ∧ ∃ bucket, state.get ip = some bucket ∧
        600 ≤ (now - bucket.lastUpdate) / nanosPerSec) := by
  have hsame : ∀ s : LimiterState, s.buckets = (state.retainFresh now).buckets →
      s.get ip = state.get ip ∨ (s.get ip = none ∧ ∃ bucket, state.get ip = some bucket ∧
        600 ≤ (now - bucket.lastUpdate) / nanosPerSec) := by
    intro s hs
    cases hget : s.get ip with
    | some bucket =>
      have hmem := mem_of_get hget
      rw [hs] at hmem
      exact Or.inl (get_of_mem (List.mem_filter.mp hmem).1).symm
    | none =>
      cases hold : state.get ip with
      | none => exact Or.inl rfl
      | some bucket =>
        refine Or.inr ⟨rfl, bucket, rfl, ?_⟩
        by_contra hfresh
        have hmem : (ip, bucket) ∈ s.buckets := by
          rw [hs]
          exact List.mem_filter.mpr ⟨mem_of_get hold, by simpa using hfresh⟩
        rw [get_of_mem hmem] at hget
        simp at hget
  unfold cleanup
  split
  next => exact hsame _ rfl
  next => exact Or.inl rfl

/-- Nothing is evicted while the map has room. -/
theorem makeRoom_of_lt (h : state.buckets.length < maxBuckets) :
    state.makeRoom ip now = state := by
  unfold makeRoom
  rw [if_neg (by omega)]

end LimiterState

end Reminisce
