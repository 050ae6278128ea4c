import Foxclaw.Lib.Text
import Mathlib.Algebra.Order.Field.Rat

/-!
# The auth rate limiter of the gateway

This module models `gateway/auth-rate-limit.ts`: the failed attempts of a key (a scope and a
client address) are counted over a sliding window, and a key with too many of them is locked out
for a while.

## The model

Numbers of the configuration and times are rationals; the doubles of the code agree with them where
times, `windowMs` and `lockoutMs` are whole milliseconds. The map of entries is a function of the
key; `prune` treats each entry by itself. Every operation is given the time that it reads from the
clock. The parsing of addresses is a parameter. Beside the entries stands what happened for which
key (`log`); operations on exempt addresses leave no trace.
-/

namespace Foxclaw.Gateway.AuthRateLimit

open Foxclaw.Text (trimString)

/-- What the limiter uses for addresses. -/
structure AddressEnv where
  normalizeIpAddress : Option String → Option String
  isLoopbackAddress : String → Bool

def AUTH_RATE_LIMIT_SCOPE_DEFAULT : String := "default"

def DEFAULT_MAX_ATTEMPTS : ℚ := 10

def DEFAULT_WINDOW_MS : ℚ := 60000

def DEFAULT_LOCKOUT_MS : ℚ := 300000

/-- `RateLimitConfig`, with what is left out filled in. -/
structure RateLimitConfig where
  maxAttempts : ℚ := DEFAULT_MAX_ATTEMPTS
  windowMs : ℚ := DEFAULT_WINDOW_MS
  lockoutMs : ℚ := DEFAULT_LOCKOUT_MS
  exemptLoopback : Bool := true

structure RateLimitEntry where
  attempts : List ℚ
  lockedUntil : Option ℚ
  deriving DecidableEq

structure RateLimitCheckResult where
  allowed : Bool
  remaining : ℚ
  retryAfterMs : ℚ
  deriving DecidableEq

/-! ### Keys -/

section Keys

variable (env : AddressEnv) (config : RateLimitConfig)

def normalizeRateLimitClientIp (ip : Option String) : String :=
  ((env.normalizeIpAddress ip).filter (· ≠ "")).getD "unknown"

def normalizeScope (scope : Option String) : String :=
  let trimmed := trimString (scope.getD AUTH_RATE_LIMIT_SCOPE_DEFAULT)
  if trimmed = "" then AUTH_RATE_LIMIT_SCOPE_DEFAULT else trimmed

/-- `resolveKey`: the key and the address. -/
def resolveKey (rawIp rawScope : Option String) : String × String :=
  let ip := normalizeRateLimitClientIp env rawIp
  (normalizeScope rawScope ++ ":" ++ ip, ip)

def isExempt (ip : String) : Bool := config.exemptLoopback && env.isLoopbackAddress ip

end Keys

/-! ### Entries -/

section Entries

variable (config : RateLimitConfig)

variable (entry : RateLimitEntry)

def slideWindow (now : ℚ) : RateLimitEntry :=
  let cutoff := now - config.windowMs
  { entry with attempts := entry.attempts.filter fun ts => cutoff < ts }

/-- `entry.lockedUntil && now < entry.lockedUntil`: until when the entry is locked. -/
def lockOf (now : ℚ) : Option ℚ :=
  entry.lockedUntil.filter fun lockedUntil => lockedUntil ≠ 0 && now < lockedUntil

/-- `entry.lockedUntil && now >= entry.lockedUntil`. -/
def lockExpired (now : ℚ) : Bool :=
  (entry.lockedUntil.filter fun lockedUntil => lockedUntil ≠ 0 && lockedUntil ≤ now).isSome

/-- What `check` does with an entry. -/
def checkEntry (now : ℚ) : RateLimitEntry × RateLimitCheckResult :=
  match lockOf entry now with
  | some lockedUntil => (entry, ⟨false, 0, lockedUntil - now⟩)
  | none =>
    let entry := if lockExpired entry now then ⟨[], none⟩ else entry
    let entry := slideWindow config entry now
    let remaining := max 0 (config.maxAttempts - entry.attempts.length)
    (entry, ⟨0 < remaining, remaining, 0⟩)

/-- What `recordFailure` does with an entry. -/
def failEntry (now : ℚ) : RateLimitEntry :=
  match lockOf entry now with
  | some _ => entry
  | none =>
    let slid := slideWindow config entry now
    let entry : RateLimitEntry := { slid with attempts := slid.attempts ++ [now] }
    if config.maxAttempts ≤ entry.attempts.length then
      { entry with lockedUntil := some (now + config.lockoutMs) }
    else entry

/-- What `prune` does with an entry. -/
def pruneEntry (now : ℚ) : Option RateLimitEntry :=
  match lockOf entry now with
  | some _ => some entry
  | none =>
    let slid := slideWindow config entry now
    if slid.attempts.length = 0 then none else some slid

end Entries

/-! ### The limiter -/

/-- What happened for a key. -/
inductive KeyEvent where
  | checked (now : ℚ) (result : RateLimitCheckResult)
  | failed (now : ℚ)
  deriving DecidableEq

/-- The limiter, and what happened. -/
structure State where
  entries : String → Option RateLimitEntry
  /-- The latest time that was read from the clock. -/
  now : ℚ
  log : List (String × KeyEvent)

def State.init : State := ⟨fun _ => none, 0, []⟩

section Limiter

variable (env : AddressEnv) (config : RateLimitConfig)

def check (s : State) (now : ℚ) (rawIp rawScope : Option String) : State × RateLimitCheckResult :=
  let (key, ip) := resolveKey env rawIp rawScope
  if isExempt env config ip then (s, ⟨true, config.maxAttempts, 0⟩)
  else match s.entries key with
    | none =>
      let result : RateLimitCheckResult := ⟨true, config.maxAttempts, 0⟩
      ({ s with log := s.log ++ [(key, .checked now result)] }, result)
    | some entry =>
      let (entry, result) := checkEntry config entry now
      ({ s with
        entries := Function.update s.entries key (some entry)
        log := s.log ++ [(key, .checked now result)] }, result)

def recordFailure (s : State) (now : ℚ) (rawIp rawScope : Option String) : State :=
  let (key, ip) := resolveKey env rawIp rawScope
  if isExempt env config ip then s
  else
    let entry := (s.entries key).getD ⟨[], none⟩
    { s with
      entries := Function.update s.entries key (some (failEntry config entry now))
      log := s.log ++ [(key, .failed now)] }

def reset (s : State) (rawIp rawScope : Option String) : State :=
  { s with entries := Function.update s.entries (resolveKey env rawIp rawScope).1 none }

def prune (s : State) (now : ℚ) : State :=
  { s with entries := fun key => (s.entries key).bind fun entry => pruneEntry config entry now }

/-- What can happen, and when. -/
inductive Action where
  | check (now : ℚ) (rawIp rawScope : Option String)
  | recordFailure (now : ℚ) (rawIp rawScope : Option String)
  | reset (now : ℚ) (rawIp rawScope : Option String)
  | prune (now : ℚ)

/-- The time of an action. -/
def Action.now : Action → ℚ
  | .check now .. => now
  | .recordFailure now .. => now
  | .reset now .. => now
  | .prune now => now

/-- One step; the clock does not go back. -/
def next (s : State) (a : Action) : Option State :=
  if s.now ≤ a.now then
    let s := { s with now := a.now }
    some <| match a with
      | .check now rawIp rawScope => (check env config s now rawIp rawScope).1
      | .recordFailure now rawIp rawScope => recordFailure env config s now rawIp rawScope
      | .reset _ rawIp rawScope => reset env s rawIp rawScope
      | .prune now => prune config s now
  else none

end Limiter

end Foxclaw.Gateway.AuthRateLimit
