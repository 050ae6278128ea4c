import Foxclaw.Lib.Text

/-!
# The address of a client

This module models `resolveClientIp` of `gateway/net.ts`: behind a trusted proxy, the client's address is the
rightmost one of `X-Forwarded-For` that is not a trusted proxy's. What an address is, its canonical form and
the ranges are parameters.

## What is proved

* `resolveClientIp_unforged` — two requests have one result if their lists agree from the rightmost address
  on that is not a trusted proxy's; without a trusted proxy no header matters.
* `malformed_passed_over` — an entry that is no address is passed over, and what stands left of it counts.
-/

namespace Foxclaw.Gateway.ClientIp

open List
open Text (trim)

structure Addresses where
  /-- `net.isIP`: 4 or 6, and 0 for what is no address. -/
  isIP : List Char → ℕ
  normalizeIp : List Char → Option (List Char)
  isIpInCidr : List Char → List Char → Bool

/-- A request, as far as it is read. -/
structure Request where
  remoteAddr : Option (List Char)
  forwardedFor : Option (List Char)
  realIp : Option (List Char)

section

variable (env : Addresses)

def stripOptionalPort (ip : List Char) : List Char :=
  if ip.head? = some '[' ∧ ']' ∈ ip then (ip.takeWhile (· ≠ ']')).drop 1
  else if env.isIP ip ≠ 0 then ip
  else
    let candidate := ip.takeWhile (· ≠ ':')
    if ip.count ':' = 1 ∧ '.' ∈ ip ∧ env.isIP candidate = 4 then candidate else ip

def parseIpLiteral (raw : List Char) : Option (List Char) :=
  if trim raw = [] then none
  else (env.normalizeIp (stripOptionalPort env (trim raw))).filter fun ip => ip ≠ [] ∧ env.isIP ip ≠ 0

def isTrustedProxyAddress (ip : List Char) (trustedProxies : List (List Char)) : Bool :=
  match env.normalizeIp ip with
  | none | some [] => false
  | some normalized =>
    trustedProxies.any fun proxy => trim proxy ≠ [] && env.isIpInCidr normalized (trim proxy)

/-- The entries of the header. -/
def entriesOf (forwardedFor : Option (List Char)) : List (List Char) :=
  (forwardedFor.map (List.splitOn ',')).getD []

def resolveForwardedClientIp (forwardedFor : Option (List Char)) (trustedProxies : List (List Char)) :
    Option (List Char) :=
  if trustedProxies = [] then none
  else ((entriesOf forwardedFor).filterMap (parseIpLiteral env)).reverse.find? fun hop =>
    !isTrustedProxyAddress env hop trustedProxies

def resolveClientIp (trustedProxies : List (List Char)) (allowRealIpFallback : Bool) (request : Request) :
    Option (List Char) :=
  match request.remoteAddr.bind env.normalizeIp with
  | none | some [] => none
  | some remote =>
    if isTrustedProxyAddress env remote trustedProxies then
      (resolveForwardedClientIp env request.forwardedFor trustedProxies).or
        (if allowRealIpFallback then request.realIp.bind (parseIpLiteral env) else none)
    else some remote

/-! ### What is asked -/

/-- The lists agree from their rightmost entry of a kind on, or have none. -/
def AgreeFrom (kind : List Char → Prop) (xs ys : List (List Char)) : Prop :=
  (∃ front front' entry rest, xs = front ++ entry :: rest ∧ ys = front' ++ entry :: rest ∧ kind entry ∧
    ∀ e ∈ rest, ¬ kind e) ∨ (∀ e ∈ xs, ¬ kind e) ∧ ∀ e ∈ ys, ¬ kind e

/-- The entry is an address, and not a trusted proxy's. -/
def IsClient (trustedProxies : List (List Char)) (entry : List Char) : Prop :=
  ∃ ip, parseIpLiteral env entry = some ip ∧ isTrustedProxyAddress env ip trustedProxies = false

/-- The entry is not a trusted proxy's address: it is another one, or none. -/
def IsUntrusted (trustedProxies : List (List Char)) (entry : List Char) : Prop :=
  ∀ ip, parseIpLiteral env entry = some ip → isTrustedProxyAddress env ip trustedProxies = false

/-- The remote address is a trusted proxy's. -/
def FromProxy (trustedProxies : List (List Char)) (request : Request) : Prop :=
  ∃ remote, request.remoteAddr.bind env.normalizeIp = some remote ∧
    isTrustedProxyAddress env remote trustedProxies = true

/-- No client can choose the result: requests whose lists agree from the rightmost entry of the kind on have
one, and so have requests that come from no proxy. -/
def Unforged (kind : List (List Char) → List Char → Prop) : Prop :=
  ∀ trustedProxies allowRealIpFallback (request other : Request), request.remoteAddr = other.remoteAddr →
    (request.realIp = other.realIp ∧
        AgreeFrom (kind trustedProxies) (entriesOf request.forwardedFor) (entriesOf other.forwardedFor) ∨
      ¬ FromProxy env trustedProxies request) →
    resolveClientIp env trustedProxies allowRealIpFallback request =
      resolveClientIp env trustedProxies allowRealIpFallback other

end

/-! ### The walk from the right -/

variable {env : Addresses} {trustedProxies : List (List Char)}

/-- Among entries none of which is a client's, no hop is found. -/
theorem find?_eq_none {entries : List (List Char)} (h : ∀ e ∈ entries, ¬ IsClient env trustedProxies e) :
    ((entries.filterMap (parseIpLiteral env)).reverse.find? fun hop =>
      !isTrustedProxyAddress env hop trustedProxies) = none := by
  rw [List.find?_eq_none]
  intro hop hhop huntrusted
  obtain ⟨entry, hentry, hparse⟩ := mem_filterMap.mp (mem_reverse.mp hhop)
  exact h entry hentry ⟨hop, hparse, (Bool.not_eq_true' _).mp huntrusted⟩

/-- The hop that is found is the rightmost client, whatever stands left of it. -/
theorem find?_eq_some {entry ip : List Char} (front : List (List Char)) {rest : List (List Char)}
    (hparse : parseIpLiteral env entry = some ip) (hip : isTrustedProxyAddress env ip trustedProxies = false)
    (hrest : ∀ e ∈ rest, ¬ IsClient env trustedProxies e) :
    (((front ++ entry :: rest).filterMap (parseIpLiteral env)).reverse.find? fun hop =>
      !isTrustedProxyAddress env hop trustedProxies) = some ip := by
  rw [filterMap_append, filterMap_cons_some hparse, reverse_append, reverse_cons,
    append_assoc, find?_append, find?_eq_none hrest, Option.none_or, singleton_append]
  exact find?_cons_of_pos (by rw [hip]; rfl)

theorem resolveForwardedClientIp_agree {forwardedFor forwardedFor' : Option (List Char)}
    (h : AgreeFrom (IsClient env trustedProxies) (entriesOf forwardedFor) (entriesOf forwardedFor')) :
    resolveForwardedClientIp env forwardedFor trustedProxies =
      resolveForwardedClientIp env forwardedFor' trustedProxies := by
  unfold resolveForwardedClientIp
  rcases h with ⟨front, front', entry, rest, hxs, hys, ⟨ip, hparse, hip⟩, hrest⟩ | ⟨hxs, hys⟩
  · rw [hxs, hys, find?_eq_some front hparse hip hrest, find?_eq_some front' hparse hip hrest]
  · rw [find?_eq_none hxs, find?_eq_none hys]

/-- **No client can choose the result**: an entry that is no address is passed over, and beyond the
rightmost address that is not a trusted proxy's the list does not matter. -/
theorem resolveClientIp_unforged (env : Addresses) : Unforged env (IsClient env) := by
  intro trustedProxies allowRealIpFallback request other hremote h
  unfold resolveClientIp
  rw [← hremote]
  split
  · rfl
  · rfl
  · rename_i remote _ hr
    split
    · rename_i htrusted
      rcases h with ⟨hreal, hagree⟩ | hproxy
      · rw [resolveForwardedClientIp_agree hagree, hreal]
      · exact absurd ⟨remote, hr, htrusted⟩ hproxy
    · rfl

/-- Three addresses. -/
def sampleAddresses : Addresses where
  isIP ip := if ip ∈ ["10.0.0.1".toList, "6.6.6.6".toList, "7.7.7.7".toList] then 4 else 0
  normalizeIp ip := if ip ∈ ["10.0.0.1".toList, "6.6.6.6".toList, "7.7.7.7".toList] then some ip else none
  isIpInCidr ip cidr := ip = cidr

def sampleRequest (forwardedFor : String) : Request where
  remoteAddr := some "10.0.0.1".toList
  forwardedFor := some forwardedFor.toList
  realIp := none

/-- An entry that is no address does not stop the walk: the address left of it, which the client may have
written, is the result. -/
theorem malformed_passed_over : ¬ Unforged sampleAddresses (IsUntrusted sampleAddresses) := by
  intro h
  have heq := h ["10.0.0.1".toList] false (sampleRequest "6.6.6.6,x") (sampleRequest "7.7.7.7,x") rfl
    (.inl ⟨rfl, .inl ⟨["6.6.6.6".toList], ["7.7.7.7".toList], ['x'], [], by decide +kernel, by decide +kernel,
      fun ip hip => ?_, fun e he => absurd he not_mem_nil⟩⟩)
  · exact absurd heq (by decide +kernel)
  · have hnone : parseIpLiteral sampleAddresses ['x'] = none := by decide +kernel
    rw [hnone] at hip
    cases hip

end Foxclaw.Gateway.ClientIp
