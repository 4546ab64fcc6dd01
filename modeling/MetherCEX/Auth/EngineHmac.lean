import Mathlib.Data.List.Nodup
import Mathlib.Tactic
import MetherCEX.Lib.ExpiringStore
import MetherCEX.Lib.Run

/-!
# The signed request gate of the engine

Every request to `/engine/*` goes through `engine_hmac_middleware`: address and rate checks, the
headers, the freshness of the nonce, the signature, and last a Redis `SET NX EX` of the nonce.
-/

namespace MetherCEX

open Run

inductive IpAddr
  | v4 (addr : BitVec 32)
  | v6 (addr : BitVec 128)
  deriving DecidableEq

structure IpNet where
  addr : IpAddr
  prefixLen : ℕ
  deriving DecidableEq

def IpNet.contains (n : IpNet) (ip : IpAddr) : Bool :=
  match n.addr, ip with
  | .v4 a, .v4 b => a >>> (32 - n.prefixLen) == b >>> (32 - n.prefixLen)
  | .v6 a, .v6 b => a >>> (128 - n.prefixLen) == b >>> (128 - n.prefixLen)
  | _, _ => false

def ipAllowed (ip : IpAddr) (nets : Option (List IpNet)) : Bool :=
  match nets with
  | none => true
  | some list => list.isEmpty || list.any (·.contains ip)

structure HmacConfig where
  engineAllowNets : Option (List IpNet)
  engineHmacActive : List UInt8
  engineHmacOld : List UInt8
  instanceId : String
  engineRedis : Bool

structure HmacCrypto where
  hmacSha256 : List UInt8 → String → List UInt8
  sha256Hex : String → String

structure EngineRequest where
  clientIp : IpAddr
  method : String
  pathQ : String
  xSignature : Option String
  xNonce : Option String
  xUserId : Option String
  xEngineId : Option String
  body : Option String
  deriving DecidableEq

inductive HmacReject
  | ipNotAllowed
  | rateLimited
  | noActiveSecret
  | missingHeaders
  | engineIdMismatch
  | staleNonce
  | bodyRead
  | badSignature
  | noRedis
  | redisError
  | replay
  deriving DecidableEq

namespace HmacReject

def status : HmacReject → ℕ
  | ipNotAllowed | engineIdMismatch => 403
  | rateLimited => 429
  | noActiveSecret | noRedis | redisError => 503
  | missingHeaders | staleNonce | badSignature | replay => 401
  | bodyRead => 400

def message : HmacReject → String
  | ipNotAllowed => "client ip not allowed"
  | rateLimited => "rate limit exceeded"
  | noActiveSecret => "ENGINE_HMAC_SECRET_ACTIVE (or ENGINE_HMAC_SECRET) not configured"
  | missingHeaders => "missing x-signature, x-nonce, x-user-id, or x-engine-id"
  | engineIdMismatch => "x-engine-id mismatch"
  | staleNonce => "stale or invalid x-nonce"
  | bodyRead => "invalid body"
  | badSignature => "invalid x-signature"
  | noRedis | redisError => "nonce store unavailable"
  | replay => "nonce replay"

end HmacReject

def nonceMaxSkewMs : ℕ := 60000
def nonceMaxLen : ℕ := 128

/-- The time to live of a nonce key, in milliseconds (`EX 60`). -/
def nonceTtlMs : ℕ := 60 * 1000

def parseU128 (chars : List Char) : Option ℕ :=
  let digits := match chars with
    | '+' :: rest => rest
    | rest => rest
  if digits.isEmpty then none
  else do
    let n ← digits.foldlM (fun n c => if c.isDigit then some (10 * n + (c.toNat - 48)) else none) 0
    if n < 2 ^ 128 then some n else none

def nonceTimeMs (nonce : String) : Option ℕ :=
  parseU128 (nonce.toList.takeWhile (· ≠ '-'))

def nonceFresh (nonce : String) (now : ℕ) : Bool :=
  if nonce.isEmpty || nonceMaxLen < nonce.utf8ByteSize then false
  else
    match nonceTimeMs nonce with
    | none => false
    | some nonceMs =>
      decide ((if now > nonceMs then now - nonceMs else nonceMs - now) ≤ nonceMaxSkewMs)

def hexDigit (c : Char) : Option ℕ :=
  if c.isDigit then some (c.toNat - 48)
  else if 'a' ≤ c ∧ c ≤ 'f' then some (c.toNat - 87)
  else if 'A' ≤ c ∧ c ≤ 'F' then some (c.toNat - 55)
  else none

def hexDecode : List Char → Option (List UInt8)
  | [] => some []
  | [_] => none
  | hi :: lo :: rest => do
      let h ← hexDigit hi
      let l ← hexDigit lo
      let bytes ← hexDecode rest
      some (UInt8.ofNat (16 * h + l) :: bytes)

variable (crypto : HmacCrypto)

def verifyHmacHex (secret : List UInt8) (message sigHex : String) : Bool :=
  if secret.isEmpty then false
  else hexDecode sigHex.toList == some (crypto.hmacSha256 secret message)

def buildMessage (userId engineId method pathQ body nonce : String) : String :=
  "v2\n" ++ userId ++ "\n" ++ engineId ++ "\n" ++ method ++ "\n" ++ pathQ ++ "\n" ++
    body ++ "\n" ++ nonce ++ "\n"

def verifyAnyHmac (active old : List UInt8) (message sigHex : String) : Bool :=
  verifyHmacHex crypto active message sigHex ||
    (!old.isEmpty && verifyHmacHex crypto old message sigHex)

def redisNonceKey (nonce : String) : String :=
  "engine:hmac:nonce:" ++ crypto.sha256Hex ("engine:hmac:nonce:" ++ nonce)

/-- A request on its way through the gate: when its nonce is stored, `sinceCheck`
milliseconds have passed since the freshness check; the rate limiter and Redis
answer as given. -/
structure Arrival where
  req : EngineRequest
  limited : Bool
  sinceCheck : ℕ
  redisAnswers : Bool
  deriving DecidableEq

/-- The gate up to the nonce store: the nonce of a request that is well signed. -/
def checkRequest (cfg : HmacConfig) (a : Arrival) (now : ℕ) : Except HmacReject String :=
  if !ipAllowed a.req.clientIp cfg.engineAllowNets then .error .ipNotAllowed
  else if a.limited then .error .rateLimited
  else if cfg.engineHmacActive.isEmpty then .error .noActiveSecret
  else
    match a.req.xSignature, a.req.xNonce, a.req.xUserId, a.req.xEngineId with
    | some sig, some nonce, some userId, some engineId =>
      if userId.isEmpty || engineId.isEmpty then .error .missingHeaders
      else if engineId ≠ cfg.instanceId then .error .engineIdMismatch
      else if !nonceFresh nonce now then .error .staleNonce
      else
        match a.req.body with
        | none => .error .bodyRead
        | some body =>
          if verifyAnyHmac crypto cfg.engineHmacActive cfg.engineHmacOld
              (buildMessage userId engineId a.req.method a.req.pathQ body nonce) sig then
            .ok nonce
          else .error .badSignature
    | _, _, _, _ => .error .missingHeaders

/-- The answer of the gate at time `now`, and the nonce store after it. -/
def engineHmacMiddleware (cfg : HmacConfig) (redis : ExpiringStore String String) (now : ℕ)
    (a : Arrival) : Except HmacReject String × ExpiringStore String String :=
  match checkRequest crypto cfg a (now - a.sinceCheck) with
  | .error e => (.error e, redis)
  | .ok nonce =>
    if !cfg.engineRedis then (.error .noRedis, redis)
    else if !a.redisAnswers then (.error .redisError, redis)
    else
      match redis.setNx now nonceTtlMs (redisNonceKey crypto nonce) "1" with
      | (redis', true) => (.ok nonce, redis')
      | (redis', false) => (.error .replay, redis')

/-- The clock, the nonce store, and the nonces accepted so far with the time at
which each was stored, the last one first. -/
structure GateState where
  clock : ℕ
  redis : ExpiringStore String String
  accepted : List (String × ℕ)

inductive GateAction
  | wait (ms : ℕ)
  | vanish (key : String)
  | request (a : Arrival)

namespace GateState

def init : GateState := ⟨0, .empty, []⟩

/-- Time passes, a due key vanishes, or a request comes to the nonce store. -/
def step (cfg : HmacConfig) (s : GateState) : GateAction → GateState
  | .wait ms => { s with clock := s.clock + ms }
  | .vanish key => { s with redis := s.redis.vanish s.clock key }
  | .request a =>
    match engineHmacMiddleware crypto cfg s.redis s.clock a with
    | (.ok nonce, redis) =>
      { s with redis := redis, accepted := (nonce, s.clock) :: s.accepted }
    | (.error _, redis) => { s with redis := redis }

def run (cfg : HmacConfig) (acts : List GateAction) : GateState :=
  acts.foldl (step crypto cfg) init

end GateState

/-- A request whose nonce is fresh when it is checked has, when the nonce is
stored, a timestamp that is not ahead of the clock and less than a minute old. -/
def NonceCurrent (s : GateState) : GateAction → Prop
  | .request a =>
    ∀ nonce ∈ a.req.xNonce, nonceFresh nonce (s.clock - a.sinceCheck) = true →
      ∀ t ∈ nonceTimeMs nonce, t ≤ s.clock ∧ s.clock < t + nonceMaxSkewMs
  | _ => True

instance (s : GateState) (act) : Decidable (NonceCurrent s act) := by
  cases act <;> dsimp only [NonceCurrent] <;> infer_instance

section Middleware

variable {crypto} {cfg : HmacConfig} {redis : ExpiringStore String String} {now : ℕ} {a : Arrival}
  {nonce : String}

theorem checkRequest_eq_ok (h : checkRequest crypto cfg a now = .ok nonce) :
    a.req.xNonce = some nonce ∧ nonceFresh nonce now = true := by
  unfold checkRequest at h
  split at h
  · cases h
  split at h
  · cases h
  split at h
  · cases h
  split at h
  case h_2 => cases h
  case h_1 sig nonce' userId engineId hsig hnonce huser hengine =>
    split at h
    · cases h
    split at h
    · cases h
    split at h
    · cases h
    case isFalse hfresh =>
      split at h
      · cases h
      split at h
      · cases h
        exact ⟨hnonce, by simpa using hfresh⟩
      · cases h

/-- What an answer of the gate means: an accepted nonce was absent from the
store and is in it now; a refusal leaves the store as it was. -/
theorem engineHmacMiddleware_cases (crypto : HmacCrypto) (cfg : HmacConfig)
    (redis : ExpiringStore String String) (now : ℕ) (a : Arrival) :
    (∃ nonce, checkRequest crypto cfg a (now - a.sinceCheck) = .ok nonce ∧
        redis.find? (redisNonceKey crypto nonce) = none ∧
        engineHmacMiddleware crypto cfg redis now a =
          (.ok nonce, (redis.setNx now nonceTtlMs (redisNonceKey crypto nonce) "1").1)) ∨
      ∃ e, engineHmacMiddleware crypto cfg redis now a = (.error e, redis) := by
  unfold engineHmacMiddleware
  cases hcheck : checkRequest crypto cfg a (now - a.sinceCheck) with
  | error e => exact .inr ⟨e, rfl⟩
  | ok nonce =>
    by_cases hredis : cfg.engineRedis = true
    · by_cases hans : a.redisAnswers = true
      · cases habs : redis.find? (redisNonceKey crypto nonce) with
        | none =>
          refine .inl ⟨nonce, rfl, habs, ?_⟩
          simp [hredis, hans, ExpiringStore.setNx, habs]
        | some e =>
          refine .inr ⟨.replay, ?_⟩
          simp [hredis, hans, ExpiringStore.setNx, habs]
      · exact .inr ⟨.redisError, by simp [hredis, hans]⟩
    · exact .inr ⟨.noRedis, by simp [hredis]⟩

theorem nonceTimeMs_isSome_of_fresh (h : nonceFresh nonce now = true) :
    ∃ t, nonceTimeMs nonce = some t := by
  unfold nonceFresh at h
  split at h
  · cases h
  split at h
  · cases h
  case h_2 t ht => exact ⟨t, ht⟩

end Middleware

/-- The keys of the accepted nonces, with the time at which each was stored. -/
def GateState.grants (s : GateState) : List (String × ℕ) :=
  s.accepted.map fun g => (redisNonceKey crypto g.1, g.2)

/-- Every accepted nonce is remembered for its time to live, was stored not
before its timestamp, and was accepted once. -/
structure NonceInvariant (s : GateState) : Prop where
  held : s.redis.Held s.clock nonceTtlMs (s.grants crypto)
  stamped : ∀ g ∈ s.accepted, ∀ t ∈ nonceTimeMs g.1, t ≤ g.2
  nodup : (s.accepted.map Prod.fst).Nodup

namespace NonceInvariant

variable {crypto} {s : GateState} {cfg : HmacConfig}

theorem init : NonceInvariant crypto GateState.init :=
  ⟨ExpiringStore.held_nil, by simp [GateState.init], by simp [GateState.init]⟩

theorem not_mem_accepted (h : NonceInvariant crypto s) {nonce : String}
    {t : ℕ} (ht : nonceTimeMs nonce = some t) (hlt : s.clock < t + nonceMaxSkewMs) (habs :
    s.redis.find? (redisNonceKey crypto nonce) = none) : nonce ∉ s.accepted.map Prod.fst := by
  intro hmem
  obtain ⟨g, hg, rfl⟩ := List.mem_map.mp hmem
  have hstamp : t ≤ g.2 := h.stamped g hg t ht
  have hexp : g.2 + nonceTtlMs ≤ s.clock := by
    apply h.held.expired_of_absent habs
    exact List.mem_map.mpr ⟨g, hg, rfl⟩
  simp only [nonceMaxSkewMs, nonceTtlMs] at hlt hexp
  omega

theorem request (h : NonceInvariant crypto s) {a : Arrival} (hcur : NonceCurrent s (.request a)) :
    NonceInvariant crypto (s.step crypto cfg (.request a)) := by
  rcases engineHmacMiddleware_cases crypto cfg s.redis s.clock a with
    ⟨nonce, hcheck, habs, heq⟩ | ⟨e, heq⟩
  · obtain ⟨hnonce, hfresh⟩ := checkRequest_eq_ok hcheck
    obtain ⟨t, ht⟩ := nonceTimeMs_isSome_of_fresh hfresh
    obtain ⟨hle, hlt⟩ := hcur nonce hnonce hfresh t ht
    simp only [GateState.step, heq]
    refine ⟨h.held.grant habs, ?_, ?_⟩
    · intro g hg t' ht'
      rcases List.mem_cons.mp hg with rfl | hg
      · rw [ht] at ht'
        cases ht'
        exact hle
      · exact h.stamped g hg t' ht'
    · exact List.nodup_cons.mpr ⟨h.not_mem_accepted ht hlt habs, h.nodup⟩
  · simp only [GateState.step, heq]
    exact h

theorem step (h : NonceInvariant crypto s) (act : GateAction) (hcur : NonceCurrent s act) :
    NonceInvariant crypto (s.step crypto cfg act) := by
  cases act with
  | wait ms => exact ⟨h.held.wait ms, h.stamped, h.nodup⟩
  | vanish key => exact ⟨h.held.vanish key, h.stamped, h.nodup⟩
  | request a => exact h.request hcur

end NonceInvariant

/-- No nonce is accepted twice in a run in which every nonce is current when it
is stored. -/
theorem accepted_nonces_nodup (cfg : HmacConfig) (acts : List GateAction)
    (h : Along (GateState.step crypto cfg) NonceCurrent GateState.init acts) :
    ((GateState.run crypto cfg acts).accepted.map Prod.fst).Nodup := by
  have hinv : NonceInvariant crypto (GateState.run crypto cfg acts) :=
    h.invariant NonceInvariant.init (fun _ act hinv hcur => hinv.step act hcur)
  exact hinv.nodup

def sampleCrypto : HmacCrypto := ⟨fun secret _ => secret, id⟩

def sampleHmacConfig : HmacConfig := ⟨none, [1], [], "engine-1", true⟩

/-- A well signed placement with the given nonce; its nonce is stored
`sinceCheck` milliseconds after its freshness check. -/
def signedArrival (nonce : String) (sinceCheck : ℕ) : Arrival where
  req :=
    { clientIp := .v4 0
      method := "POST"
      pathQ := "/place"
      xSignature := some "01"
      xNonce := some nonce
      xUserId := some "user-1"
      xEngineId := some "engine-1"
      body := some "order" }
  limited := false
  sinceCheck := sinceCheck
  redisAnswers := true

def currentNoncesRun : List GateAction :=
  [.wait 60000, .request (signedArrival "60000-a" 0), .wait 1,
    .request (signedArrival "60001-b" 1), .request (signedArrival "60000-a" 0)]

theorem currentNoncesRun_nodup :
    (GateState.run sampleCrypto sampleHmacConfig currentNoncesRun).accepted.map Prod.fst =
        ["60001-b", "60000-a"] ∧
      ((GateState.run sampleCrypto sampleHmacConfig currentNoncesRun).accepted.map
        Prod.fst).Nodup :=
  ⟨by decide +kernel,
    accepted_nonces_nodup sampleCrypto sampleHmacConfig currentNoncesRun (by decide +kernel)⟩

/-- A nonce one minute ahead of the clock is accepted now and, when its key is
gone, once more; so is one whose second request takes a millisecond from the
freshness check to the nonce store. -/
theorem nonce_accepted_twice :
    (GateState.run sampleCrypto sampleHmacConfig
        [.request (signedArrival "60000-a" 0), .wait 60000,
          .vanish (redisNonceKey sampleCrypto "60000-a"),
          .request (signedArrival "60000-a" 0)]).accepted.map Prod.fst =
        ["60000-a", "60000-a"] ∧
      (GateState.run sampleCrypto sampleHmacConfig
        [.wait 60000, .request (signedArrival "60000-a" 0), .wait 60001,
          .vanish (redisNonceKey sampleCrypto "60000-a"),
          .request (signedArrival "60000-a" 1)]).accepted.map Prod.fst =
        ["60000-a", "60000-a"] := by
  decide +kernel

end MetherCEX
