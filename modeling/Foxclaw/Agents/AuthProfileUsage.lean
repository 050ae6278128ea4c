import Foxclaw.Lib.JsNumber
import Foxclaw.Lib.Text

/-!
# Cooldowns of auth profiles

This module models `agents/auth-profiles/usage.ts`: how long a profile is not to be used after a
failure, and how the records of expired windows are cleared.

## The model

The records of a store are a function of the profile id, as every operation goes profile by profile. A
number in a record is finite, a count is a natural number, and a reason that has no count counts zero.
The clock shows whole milliseconds. There are two copies of the records, on disk and in memory
(`Copies`): with the lock a failure is computed from the disk and copied to memory, without it the
other way round; `clearExpiredCooldowns` only touches memory. `toLowerCase` is left open.
-/

namespace Foxclaw.Agents.AuthProfiles

inductive AuthProfileFailureReason where
  | auth
  | authPermanent
  | format
  | overloaded
  | rateLimit
  | billing
  | timeout
  | modelNotFound
  | sessionExpired
  | unknown
  deriving DecidableEq

structure ProfileUsageStats where
  lastUsed : Option ℚ
  cooldownUntil : Option ℚ
  disabledUntil : Option ℚ
  disabledReason : Option AuthProfileFailureReason
  errorCount : Option ℕ
  failureCounts : AuthProfileFailureReason → ℕ
  lastFailureAt : Option ℚ

/-- `{}`. -/
def ProfileUsageStats.empty : ProfileUsageStats := ⟨none, none, none, none, none, fun _ => 0, none⟩

/-! ### Providers and configuration -/

section Config

variable (toLowerCase : String → String)

def normalizeProviderId (provider : String) : String :=
  let normalized := toLowerCase (Text.trimString provider)
  if normalized = "z.ai" ∨ normalized = "z-ai" then "zai"
  else if normalized = "opencode-zen" then "opencode"
  else if normalized = "opencode-go-auth" then "opencode-go"
  else if normalized = "qwen" then "qwen-portal"
  else if normalized = "kimi-code" then "kimi-coding"
  else if normalized = "bedrock" ∨ normalized = "aws-bedrock" then "amazon-bedrock"
  else if normalized = "bytedance" ∨ normalized = "doubao" then "volcengine"
  else normalized

def isAuthCooldownBypassedForProvider (provider : Option String) : Bool :=
  let normalized := normalizeProviderId toLowerCase (provider.getD "")
  normalized = "openrouter" || normalized = "kilocode"

/-- `auth.cooldowns` of the configuration. -/
structure CooldownsConfig where
  billingBackoffHours : Option JsNumber
  /-- `billingBackoffHoursByProvider`, in the order of its keys. -/
  billingBackoffHoursByProvider : List (String × JsNumber)
  billingMaxHours : Option JsNumber
  failureWindowHours : Option JsNumber

structure ResolvedAuthCooldownConfig where
  billingBackoffMs : ℚ
  billingMaxMs : ℚ
  failureWindowMs : ℚ

def resolveHours (value : Option JsNumber) (fallback : ℚ) : ℚ :=
  match value with
  | some (.fin q) => if 0 < q then q else fallback
  | _ => fallback

def resolveAuthCooldownConfig (cooldowns : Option CooldownsConfig) (providerId : String) :
    ResolvedAuthCooldownConfig :=
  let billingOverride := cooldowns.bind fun c =>
    (c.billingBackoffHoursByProvider.find? fun entry =>
      normalizeProviderId toLowerCase entry.1 = providerId).map (·.2)
  let billingBackoffHours :=
    resolveHours (billingOverride.or (cooldowns.bind (·.billingBackoffHours))) 5
  let billingMaxHours := resolveHours (cooldowns.bind (·.billingMaxHours)) 24
  let failureWindowHours := resolveHours (cooldowns.bind (·.failureWindowHours)) 24
  { billingBackoffMs := billingBackoffHours * 60 * 60 * 1000
    billingMaxMs := billingMaxHours * 60 * 60 * 1000
    failureWindowMs := failureWindowHours * 60 * 60 * 1000 }

end Config

/-! ### Windows -/

variable (stats : ProfileUsageStats)

def resolveProfileUnusableUntil : Option ℚ :=
  ([stats.cooldownUntil, stats.disabledUntil].reduceOption.filter (0 < ·)).max?

/-- The last lines of `isProfileInCooldown`. -/
def inCooldown (now : ℚ) : Bool :=
  match resolveProfileUnusableUntil stats with
  | some unusableUntil => now < unusableUntil
  | none => false

def calculateAuthProfileCooldownMs (errorCount : ℕ) : ℚ :=
  let normalized := max 1 errorCount
  min (60 * 60 * 1000) (60 * 1000 * 5 ^ min (normalized - 1) 3)

def calculateAuthProfileBillingDisableMsWithConfig (errorCount : ℕ) (baseMs maxMs : ℚ) : ℚ :=
  let normalized := max 1 errorCount
  let baseMs := max 60000 baseMs
  let maxMs := max baseMs maxMs
  let exponent := min (normalized - 1) 10
  min maxMs (baseMs * 2 ^ exponent)

def keepActiveWindowOrRecompute (existingUntil : Option ℚ) (now recomputedUntil : ℚ) : ℚ :=
  match existingUntil with
  | some u => if now < u then u else recomputedUntil
  | none => recomputedUntil

variable (existing : ProfileUsageStats)

/-- `windowExpired` of `computeNextProfileUsageStats`. -/
def failureWindowExpired (now windowMs : ℚ) : Bool :=
  match existing.lastFailureAt with
  | some t => 0 < t && windowMs < now - t
  | none => false

def previousCooldownExpired (now : ℚ) : Bool :=
  match resolveProfileUnusableUntil existing with
  | some unusableUntil => unusableUntil ≤ now
  | none => false

def shouldResetCounters (now : ℚ) (cfgResolved : ResolvedAuthCooldownConfig) : Bool :=
  failureWindowExpired existing now cfgResolved.failureWindowMs || previousCooldownExpired existing now

def nextErrorCount (reset : Bool) : ℕ :=
  (if reset then 0 else existing.errorCount.getD 0) + 1

/-- `failureCounts` after the failure. -/
def nextFailureCounts (reset : Bool) (reason : AuthProfileFailureReason) : AuthProfileFailureReason → ℕ :=
  let failureCounts := if reset then fun _ => 0 else existing.failureCounts
  Function.update failureCounts reason (failureCounts reason + 1)

/-- The reason disables the profile. -/
def disables (reason : AuthProfileFailureReason) : Bool := reason = .billing || reason = .authPermanent

def computeNextProfileUsageStats (now : ℚ)
    (reason : AuthProfileFailureReason) (cfgResolved : ResolvedAuthCooldownConfig) : ProfileUsageStats :=
  let reset := shouldResetCounters existing now cfgResolved
  let updatedStats :=
    { existing with
      errorCount := some (nextErrorCount existing reset)
      failureCounts := nextFailureCounts existing reset reason
      lastFailureAt := some now }
  if disables reason then
    let backoffMs := calculateAuthProfileBillingDisableMsWithConfig
      (nextFailureCounts existing reset reason reason) cfgResolved.billingBackoffMs cfgResolved.billingMaxMs
    { updatedStats with
      disabledUntil := some (keepActiveWindowOrRecompute existing.disabledUntil now (now + backoffMs))
      disabledReason := some reason }
  else
    let backoffMs := calculateAuthProfileCooldownMs (nextErrorCount existing reset)
    { updatedStats with
      cooldownUntil := some (keepActiveWindowOrRecompute existing.cooldownUntil now (now + backoffMs)) }

/-- `resetUsageStats` with `lastUsed`. -/
def resetUsageStats (lastUsed : ℚ) : ProfileUsageStats :=
  { existing with
    errorCount := some 0
    cooldownUntil := none
    disabledUntil := none
    disabledReason := none
    failureCounts := fun _ => 0
    lastUsed := some lastUsed }

/-- A window that has passed: `cooldownExpired` and `disabledExpired`. -/
def windowExpired (until? : Option ℚ) (now : ℚ) : Bool :=
  match until? with
  | some u => 0 < u && u ≤ now
  | none => false

/-- The body of the loop of `clearExpiredCooldowns`. -/
def clearExpired (now : ℚ) : ProfileUsageStats :=
  let cooldownExpired := windowExpired stats.cooldownUntil now
  let disabledExpired := windowExpired stats.disabledUntil now
  let cleared :=
    { stats with
      cooldownUntil := if cooldownExpired then none else stats.cooldownUntil
      disabledUntil := if disabledExpired then none else stats.disabledUntil
      disabledReason := if disabledExpired then none else stats.disabledReason }
  -- The counters go when no window is left; `lastFailureAt` stays.
  if (cooldownExpired || disabledExpired) && (resolveProfileUnusableUntil cleared).isNone then
    { cleared with errorCount := some 0, failureCounts := fun _ => 0 }
  else cleared

/-! ### Stores -/

/-- `usageStats`. -/
abbrev Usage := String → Option ProfileUsageStats

/-- The records on disk and in memory. -/
structure Copies where
  /-- On disk. -/
  disk : Usage
  /-- In memory. -/
  memory : Usage

/-- What does not change: the providers of the profiles and the configuration. -/
structure ProfileEnv where
  toLowerCase : String → String
  /-- `profiles`: the provider of each. -/
  profiles : String → Option String
  /-- `auth.cooldowns`. -/
  cooldowns : Option CooldownsConfig

variable (env : ProfileEnv)

/-- The configuration for the provider of a profile. -/
def ProfileEnv.configFor (profileId : String) : ResolvedAuthCooldownConfig :=
  resolveAuthCooldownConfig env.toLowerCase env.cooldowns
    (normalizeProviderId env.toLowerCase ((env.profiles profileId).getD ""))

def isProfileInCooldown (usage : Usage) (profileId : String) (now : ℚ) : Bool :=
  if isAuthCooldownBypassedForProvider env.toLowerCase (env.profiles profileId) then false
  else
    match usage profileId with
    | some stats => inCooldown stats now
    | none => false

def updateUsageStatsEntry (usage : Usage) (profileId : String)
    (updater : ProfileUsageStats → ProfileUsageStats) : Usage :=
  Function.update usage profileId (some (updater ((usage profileId).getD .empty)))

def clearExpiredCooldowns (usage : Usage) (now : ℚ) : Usage :=
  fun profileId => (usage profileId).map (clearExpired · now)

/-- The copy an update starts from: the disk with the lock, memory without. -/
def Copies.fresh (copies : Copies) (locked : Bool) : Usage := if locked then copies.disk else copies.memory

def markAuthProfileFailure (copies : Copies) (profileId : String) (reason : AuthProfileFailureReason)
    (now : ℚ) (locked : Bool) : Copies :=
  if (env.profiles profileId).isNone ||
      isAuthCooldownBypassedForProvider env.toLowerCase (env.profiles profileId) then copies
  else
    let usage := updateUsageStatsEntry (copies.fresh locked) profileId fun existing =>
      computeNextProfileUsageStats existing now reason (env.configFor profileId)
    ⟨usage, usage⟩

def markAuthProfileUsed (copies : Copies) (profileId : String) (now : ℚ) (locked : Bool) : Copies :=
  if (env.profiles profileId).isNone then if locked then ⟨copies.disk, copies.disk⟩ else copies
  else
    let usage := updateUsageStatsEntry (copies.fresh locked) profileId (resetUsageStats · now)
    ⟨usage, usage⟩

/-- What happens to the records of a store. -/
inductive Event where
  /-- `markAuthProfileFailure`. -/
  | failure (now : ℕ) (profileId : String) (reason : AuthProfileFailureReason) (locked : Bool)
  /-- `markAuthProfileUsed`. -/
  | success (now : ℕ) (profileId : String) (locked : Bool)
  /-- `clearExpiredCooldowns` of the store in memory. -/
  | clear (now : ℕ)

/-- When it happens. -/
def Event.time : Event → ℕ
  | failure now _ _ _ => now
  | success now _ _ => now
  | clear now => now

/-- It is `clearExpiredCooldowns`. -/
def Event.isClear : Event → Bool
  | clear _ => true
  | _ => false

/-- One event. -/
def step (copies : Copies) : Event → Copies
  | .failure now profileId reason locked => markAuthProfileFailure env copies profileId reason now locked
  | .success now profileId locked => markAuthProfileUsed env copies profileId now locked
  | .clear now => { copies with memory := clearExpiredCooldowns copies.memory now }

/-- A run that starts from records that were just read from disk. -/
def run (initial : Usage) (events : List Event) : Copies := events.foldl (step env) ⟨initial, initial⟩

end Foxclaw.Agents.AuthProfiles
