import Foxclaw.Lib.CodeUnits
import Foxclaw.Lib.JsMap
import Foxclaw.Routing.SessionKey

/-!
# Resolving the route of a message

This module models `routing/resolve-route.ts`, with `config/bindings.ts` and `resolveDefaultAgentId` of
`agents/agent-scope.ts`. A message of a channel is routed to an agent by the bindings of the config.

The config stays as it is, so what the module keeps for a config object in its weak maps is one value
(`Caches`): the agents by their ids, the evaluated bindings with the lists and indexes made for a channel
and an account, and the routes that were resolved. A function that uses them returns what it leaves of
them. Each query says whether verbose logging is on; what is logged is left out.

Of a binding and of a config, what routing reads is there. A binding is an object, as the schema of the
config has it.
-/

namespace Foxclaw.Routing

open Foxclaw.Text (trimString)

/-! ### The config -/

/-- `match.peer` of a binding. -/
structure BindingPeer where
  kind : Option String
  id : Option String
  deriving DecidableEq

structure AgentBindingMatch where
  channel : Option String
  accountId : Option String := none
  peer : Option BindingPeer := none
  guildId : Option String := none
  teamId : Option String := none
  roles : Option (List String) := none
  deriving DecidableEq

structure AgentBinding where
  /-- Is its `type` `acp`? -/
  acp : Bool := false
  agentId : String
  «match» : AgentBindingMatch
  deriving DecidableEq

/-- An entry of `agents.list`. -/
structure AgentEntry where
  id : String
  default : Bool := false

structure FoxClawConfig where
  bindings : List AgentBinding := []
  /-- `agents.list`. -/
  agents : List AgentEntry := []
  /-- `session.dmScope`. -/
  dmScope : Option DmScope := none
  /-- `session.identityLinks`, in the order of `Object.entries`. -/
  identityLinks : Option (List (String × List String)) := none

/-- `listBindings`: those for routes. -/
def listBindings (cfg : FoxClawConfig) : List AgentBinding := cfg.bindings.filter fun b => !b.acp

variable (cases : CaseMap)

variable (cfg : FoxClawConfig)

def resolveDefaultAgentId : String :=
  match ((cfg.agents.filter (·.default)).head?).or cfg.agents.head? with
  | none => DEFAULT_AGENT_ID
  | some chosen => normalizeAgentId cases (orElse (trimString chosen.id) DEFAULT_AGENT_ID)

/-! ### Queries and routes -/

structure RoutePeer where
  kind : ChatType
  id : String
  deriving DecidableEq

/-- `ResolveAgentRouteInput`, but for the config. -/
structure ResolveAgentRouteInput where
  channel : String
  accountId : Option String := none
  peer : Option RoutePeer := none
  parentPeer : Option RoutePeer := none
  guildId : Option String := none
  teamId : Option String := none
  memberRoleIds : List String := []
  deriving DecidableEq

/-- What `resolveAgentRoute` makes of its input first. -/
structure RouteScope where
  channel : String
  accountId : String
  peer : Option RoutePeer
  parentPeer : Option RoutePeer
  guildId : String
  teamId : String
  memberRoleIds : List String
  deriving DecidableEq

def normalizeId (value : Option String) : String := trimString (value.getD "")

/-- A peer with its id trimmed; its kind is normalized already. -/
def normalizePeer (peer : RoutePeer) : RoutePeer := ⟨peer.kind, normalizeId (some peer.id)⟩

/-- The input, normalized. -/
def normalizeInput (input : ResolveAgentRouteInput) : RouteScope where
  channel := normalizeToken cases (some input.channel)
  accountId := normalizeAccountId cases input.accountId
  peer := input.peer.map normalizePeer
  parentPeer := input.parentPeer.map normalizePeer
  guildId := normalizeId input.guildId
  teamId := normalizeId input.teamId
  memberRoleIds := input.memberRoleIds

inductive MatchedBy where
  /-- `binding.peer`. -/
  | peer
  /-- `binding.peer.parent`. -/
  | peerParent
  /-- `binding.guild+roles`. -/
  | guildRoles
  /-- `binding.guild`. -/
  | guild
  /-- `binding.team`. -/
  | team
  /-- `binding.account`. -/
  | account
  /-- `binding.channel`. -/
  | channel
  | default
  deriving DecidableEq

inductive LastRoutePolicy where
  | main
  | session
  deriving DecidableEq

structure ResolvedAgentRoute where
  agentId : String
  channel : String
  accountId : String
  sessionKey : String
  mainSessionKey : String
  lastRoutePolicy : LastRoutePolicy
  matchedBy : MatchedBy
  deriving DecidableEq

def deriveLastRoutePolicy (sessionKey mainSessionKey : String) : LastRoutePolicy :=
  if sessionKey = mainSessionKey then .main else .session

def buildAgentSessionKey (agentId channel accountId : String) (peer : Option RoutePeer) (dmScope : DmScope)
    (identityLinks : Option (List (String × List String))) : String :=
  buildAgentPeerSessionKey cases agentId DEFAULT_MAIN_KEY
    (orElse (normalizeToken cases (some channel)) "unknown") accountId
    ((peer.map RoutePeer.kind).getD .direct)
    (peer.map fun p => orElse (normalizeId (some p.id)) "unknown") identityLinks dmScope

/-! ### Agents -/

structure AgentLookupCache where
  byNormalizedId : JsMap String String
  fallbackDefaultAgentId : String

/-- What `resolveAgentLookupCache` makes of the config. -/
def buildAgentLookup : AgentLookupCache where
  byNormalizedId := cfg.agents.foldl (fun byNormalizedId agent =>
    let rawId := trimString agent.id
    if rawId = "" then byNormalizedId
    else byNormalizedId.set (normalizeAgentId cases rawId) (normalizeAgentId cases rawId)) .empty
  fallbackDefaultAgentId := normalizeAgentId cases (resolveDefaultAgentId cases cfg)

/-- `pickFirstExistingAgentId`, with the lookup. -/
def pickFirstExistingAgentId (lookup : AgentLookupCache) (agentId : String) : String :=
  let trimmed := trimString agentId
  if trimmed = "" then lookup.fallbackDefaultAgentId
  else
    let normalized := normalizeAgentId cases trimmed
    if lookup.byNormalizedId.size = 0 then normalizeAgentId cases trimmed
    else match lookup.byNormalizedId.get? normalized with
      | some resolved => orElse resolved lookup.fallbackDefaultAgentId
      | none => lookup.fallbackDefaultAgentId

/-! ### Evaluated bindings -/

inductive NormalizedPeerConstraint where
  | none
  | invalid
  | valid (kind : ChatType) (id : String)
  deriving DecidableEq

structure NormalizedBindingMatch where
  accountPattern : String
  peer : NormalizedPeerConstraint
  guildId : Option String
  teamId : Option String
  roles : Option (List String)
  deriving DecidableEq

structure EvaluatedBinding where
  binding : AgentBinding
  «match» : NormalizedBindingMatch
  order : ℕ
  deriving DecidableEq

def normalizePeerConstraint : Option BindingPeer → NormalizedPeerConstraint
  | none => .none
  | some peer =>
    let id := normalizeId peer.id
    match normalizeChatType cases peer.kind with
    | none => .invalid
    | some kind => if id = "" then .invalid else .valid kind id

/-- An id, if it is not empty: `|| null`. -/
def nonEmptyId (value : Option String) : Option String :=
  if normalizeId value = "" then none else some (normalizeId value)

def normalizeBindingMatch (m : AgentBindingMatch) : NormalizedBindingMatch where
  accountPattern := trimString (m.accountId.getD "")
  peer := normalizePeerConstraint cases m.peer
  guildId := nonEmptyId m.guildId
  teamId := nonEmptyId m.teamId
  roles := m.roles.filter (· ≠ [])

def resolveAccountPatternKey (accountPattern : String) : String :=
  if trimString accountPattern = "" then DEFAULT_ACCOUNT_ID else normalizeAccountId cases (some accountPattern)

structure EvaluatedBindingsByChannel where
  byAccount : JsMap String (List EvaluatedBinding) := .empty
  byAnyAccount : List EvaluatedBinding := []

/-- A binding is pushed to the list of its key. -/
def pushTo (map : JsMap String (List EvaluatedBinding)) (key : String) (binding : EvaluatedBinding) :
    JsMap String (List EvaluatedBinding) :=
  map.set key ((map.get? key).getD [] ++ [binding])

/-- The loop of `buildEvaluatedBindingsByChannel`: the next order, and the buckets. -/
def evaluateBinding (acc : ℕ × JsMap String EvaluatedBindingsByChannel) (binding : AgentBinding) :
    ℕ × JsMap String EvaluatedBindingsByChannel :=
  let (order, byChannel) := acc
  let channel := normalizeToken cases binding.match.channel
  if channel = "" then acc
  else
    let m := normalizeBindingMatch cases binding.match
    let evaluated : EvaluatedBinding := ⟨binding, m, order⟩
    let bucket := (byChannel.get? channel).getD {}
    let bucket := if m.accountPattern = "*" then
        { bucket with byAnyAccount := bucket.byAnyAccount ++ [evaluated] }
      else
        { bucket with
          byAccount := pushTo bucket.byAccount (resolveAccountPatternKey cases m.accountPattern) evaluated }
    (order + 1, byChannel.set channel bucket)

def buildEvaluatedBindingsByChannel : JsMap String EvaluatedBindingsByChannel :=
  ((listBindings cfg).foldl (evaluateBinding cases) (0, .empty)).2

def mergeEvaluatedBindingsInSourceOrder (accountScoped anyAccount : List EvaluatedBinding) :
    List EvaluatedBinding :=
  if accountScoped = [] then anyAccount
  else if anyAccount = [] then accountScoped
  else List.merge accountScoped anyAccount fun a b => a.order ≤ b.order

/-! ### The index -/

structure EvaluatedBindingsIndex where
  byPeer : JsMap String (List EvaluatedBinding) := .empty
  byGuildWithRoles : JsMap String (List EvaluatedBinding) := .empty
  byGuild : JsMap String (List EvaluatedBinding) := .empty
  byTeam : JsMap String (List EvaluatedBinding) := .empty
  byAccount : List EvaluatedBinding := []
  byChannel : List EvaluatedBinding := []

def pushToIndexMap (map : JsMap String (List EvaluatedBinding)) (key : String)
    (binding : EvaluatedBinding) : JsMap String (List EvaluatedBinding) :=
  if key = "" then map else pushTo map key binding

/-- The key of a peer. -/
def peerKey (kind : ChatType) (id : String) : String := kind.text ++ ":" ++ id

def peerLookupKeys (kind : ChatType) (id : String) : List String :=
  match kind with
  | .group => [peerKey .group id, peerKey .channel id]
  | .channel => [peerKey .channel id, peerKey .group id]
  | .direct => [peerKey .direct id]

variable (index : EvaluatedBindingsIndex)

/-- `collectPeerIndexedBindings`. Two bindings of the index differ in their order at least, so a set of
them is one of objects. -/
def collectPeerIndexedBindings : Option RoutePeer → List EvaluatedBinding
  | none => []
  | some peer => (peerLookupKeys peer.kind peer.id).foldl (fun out key =>
      ((index.byPeer.get? key).getD []).foldl (fun out m => if m ∈ out then out else out ++ [m]) out) []

/-- The loop of `buildEvaluatedBindingsIndex`. -/
def indexBinding (binding : EvaluatedBinding) : EvaluatedBindingsIndex :=
  match binding.match.peer, binding.match.guildId, binding.match.roles, binding.match.teamId with
  | .valid kind id, _, _, _ =>
    { index with
      byPeer := (peerLookupKeys kind id).foldl (fun map key => pushToIndexMap map key binding) index.byPeer }
  | _, some guildId, some _, _ =>
    { index with byGuildWithRoles := pushToIndexMap index.byGuildWithRoles guildId binding }
  | _, some guildId, none, _ => { index with byGuild := pushToIndexMap index.byGuild guildId binding }
  | _, none, _, some teamId => { index with byTeam := pushToIndexMap index.byTeam teamId binding }
  | _, none, _, none =>
    if binding.match.accountPattern ≠ "*" then { index with byAccount := index.byAccount ++ [binding] }
    else { index with byChannel := index.byChannel ++ [binding] }

def buildEvaluatedBindingsIndex (bindings : List EvaluatedBinding) : EvaluatedBindingsIndex :=
  bindings.foldl indexBinding {}

/-! ### Matching -/

def peerKindMatches (bindingKind scopeKind : ChatType) : Bool :=
  bindingKind = scopeKind ||
    ((bindingKind = .group || scopeKind = .group) && (bindingKind = .channel || scopeKind = .channel))

variable (m : NormalizedBindingMatch)

variable (peer : Option RoutePeer)

/-- The peer part of `matchesBindingScope`. -/
def matchesPeer : Bool :=
  match m.peer with
  | .invalid => false
  | .none => true
  | .valid kind id => peer.any fun p => peerKindMatches kind p.kind && p.id = id

variable (scope : RouteScope)

/-- `matchesBindingScope`; the peer of the scope is that of the tier. -/
def matchesBindingScope : Bool :=
  if !matchesPeer m peer then false
  else if m.guildId.any (· ≠ scope.guildId) then false
  else if m.teamId.any (· ≠ scope.teamId) then false
  else match m.roles with
    | some roles => roles.any (scope.memberRoleIds.contains ·)
    | none => true

/-- An entry of `tiers`. -/
structure Tier where
  matchedBy : MatchedBy
  enabled : Bool
  scopePeer : Option RoutePeer
  candidates : List EvaluatedBinding
  predicate : NormalizedBindingMatch → Bool

/-- The constraint of a peer. -/
def hasPeerConstraint : Bool :=
  match m.peer with
  | .valid _ _ => true
  | _ => false

def tiers : List Tier :=
  let parentPeer := scope.parentPeer.filter (·.id ≠ "")
  [{ matchedBy := .peer
     enabled := scope.peer.isSome
     scopePeer := scope.peer
     candidates := collectPeerIndexedBindings index scope.peer
     predicate := hasPeerConstraint },
   { matchedBy := .peerParent
     enabled := parentPeer.isSome
     scopePeer := parentPeer
     candidates := collectPeerIndexedBindings index scope.parentPeer
     predicate := hasPeerConstraint },
   { matchedBy := .guildRoles
     enabled := scope.guildId ≠ "" && !scope.memberRoleIds.isEmpty
     scopePeer := scope.peer
     candidates := if scope.guildId = "" then [] else (index.byGuildWithRoles.get? scope.guildId).getD []
     predicate := fun m => m.guildId.isSome && m.roles.isSome },
   { matchedBy := .guild
     enabled := scope.guildId ≠ ""
     scopePeer := scope.peer
     candidates := if scope.guildId = "" then [] else (index.byGuild.get? scope.guildId).getD []
     predicate := fun m => m.guildId.isSome && !m.roles.isSome },
   { matchedBy := .team
     enabled := scope.teamId ≠ ""
     scopePeer := scope.peer
     candidates := if scope.teamId = "" then [] else (index.byTeam.get? scope.teamId).getD []
     predicate := fun m => m.teamId.isSome },
   { matchedBy := .account
     enabled := true
     scopePeer := scope.peer
     candidates := index.byAccount
     predicate := fun m => m.accountPattern ≠ "*" },
   { matchedBy := .channel
     enabled := true
     scopePeer := scope.peer
     candidates := index.byChannel
     predicate := fun m => m.accountPattern = "*" }]

/-- What a tier finds. -/
def Tier.find (scope : RouteScope) (tier : Tier) : Option (EvaluatedBinding × MatchedBy) :=
  if tier.enabled then
    (tier.candidates.find? fun candidate =>
      tier.predicate candidate.match && matchesBindingScope candidate.match tier.scopePeer scope).map
        fun matched => (matched, tier.matchedBy)
  else none

/-- The route of an agent: `choose`, but for the cache. -/
def chooseRoute (lookup : AgentLookupCache) (scope : RouteScope) (agentId : String)
    (matchedBy : MatchedBy) : ResolvedAgentRoute :=
  let resolvedAgentId := pickFirstExistingAgentId cases lookup agentId
  let sessionKey := cases.toLowerCase (buildAgentSessionKey cases resolvedAgentId scope.channel
    scope.accountId scope.peer (cfg.dmScope.getD .main) cfg.identityLinks)
  let mainSessionKey := cases.toLowerCase (buildAgentMainSessionKey cases resolvedAgentId DEFAULT_MAIN_KEY)
  { agentId := resolvedAgentId
    channel := scope.channel
    accountId := scope.accountId
    sessionKey
    mainSessionKey
    lastRoutePolicy := deriveLastRoutePolicy sessionKey mainSessionKey
    matchedBy }

/-! ### The caches -/

structure EvaluatedBindingsCache where
  byChannel : JsMap String EvaluatedBindingsByChannel
  byChannelAccount : JsMap String (List EvaluatedBinding) := .empty
  byChannelAccountIndex : JsMap String EvaluatedBindingsIndex := .empty

/-- What the module keeps for a config. -/
structure Caches where
  /-- `agentLookupCacheByCfg`. -/
  agents : Option AgentLookupCache := none
  /-- `evaluatedBindingsCacheByCfg`. -/
  bindings : Option EvaluatedBindingsCache := none
  /-- `byKey` of `resolvedRouteCacheByCfg`. -/
  routes : Option (JsMap String ResolvedAgentRoute) := none

def MAX_EVALUATED_BINDINGS_CACHE_KEYS : ℕ := 2000

def MAX_RESOLVED_ROUTE_CACHE_KEYS : ℕ := 4000

def resolveAgentLookupCache (caches : Caches) : AgentLookupCache × Caches :=
  match caches.agents with
  | some existing => (existing, caches)
  | none =>
    let lookup := buildAgentLookup cases cfg
    (lookup, { caches with agents := some lookup })

variable (channel accountId : String)

/-- The key of a channel and an account. -/
def channelAccountKey : String := channel ++ "\t" ++ accountId

def getEvaluatedBindingsForChannelAccount (caches : Caches) : List EvaluatedBinding × Caches :=
  let cache := caches.bindings.getD { byChannel := buildEvaluatedBindingsByChannel cases cfg }
  let cacheKey := channelAccountKey channel accountId
  match cache.byChannelAccount.get? cacheKey with
  | some hit => (hit, { caches with bindings := some cache })
  | none =>
    let channelBindings := cache.byChannel.get? channel
    let accountScoped := (channelBindings.bind fun b => b.byAccount.get? accountId).getD []
    let anyAccount := (channelBindings.map (·.byAnyAccount)).getD []
    let evaluated := mergeEvaluatedBindingsInSourceOrder accountScoped anyAccount
    let byChannelAccount := cache.byChannelAccount.set cacheKey evaluated
    let cache := if MAX_EVALUATED_BINDINGS_CACHE_KEYS < byChannelAccount.size then
        { cache with
          byChannelAccount := JsMap.empty.set cacheKey evaluated
          byChannelAccountIndex := JsMap.empty.set cacheKey (buildEvaluatedBindingsIndex evaluated) }
      else
        { cache with
          byChannelAccount
          byChannelAccountIndex :=
            cache.byChannelAccountIndex.set cacheKey (buildEvaluatedBindingsIndex evaluated) }
    (evaluated, { caches with bindings := some cache })

def getEvaluatedBindingIndexForChannelAccount (caches : Caches) : EvaluatedBindingsIndex × Caches :=
  let (bindings, caches) := getEvaluatedBindingsForChannelAccount cases cfg channel accountId caches
  let cacheKey := channelAccountKey channel accountId
  match caches.bindings.bind fun existing => existing.byChannelAccountIndex.get? cacheKey with
  | some indexed => (indexed, caches)
  | none =>
    let built := buildEvaluatedBindingsIndex bindings
    (built, { caches with
      bindings := caches.bindings.map fun existing =>
        { existing with byChannelAccountIndex := existing.byChannelAccountIndex.set cacheKey built } })

def formatRouteCachePeer : Option RoutePeer → String
  | none => "-"
  | some peer => if peer.id = "" then "-" else peerKey peer.kind peer.id

/-- `<=` of strings: by their code units. -/
def stringLe (a b : String) : Bool := CodeUnits.ofString a ≤ CodeUnits.ofString b

def formatRoleIdsCacheKey : List String → String
  | [] => "-"
  | [first] => first
  | [first, second] => if stringLe first second then first ++ "," ++ second else second ++ "," ++ first
  | roleIds => String.intercalate "," (roleIds.mergeSort stringLe)

def buildResolvedRouteCacheKey (dmScope : DmScope) : String :=
  scope.channel ++ "\t" ++ scope.accountId ++ "\t" ++ formatRouteCachePeer scope.peer ++ "\t" ++
    formatRouteCachePeer scope.parentPeer ++ "\t" ++ orElse scope.guildId "-" ++ "\t" ++
    orElse scope.teamId "-" ++ "\t" ++ formatRoleIdsCacheKey scope.memberRoleIds ++ "\t" ++ dmScope.text

/-- A route that was resolved is kept. -/
def keepRoute (routeCache : JsMap String ResolvedAgentRoute) (key : String) (route : ResolvedAgentRoute) :
    JsMap String ResolvedAgentRoute :=
  let routeCache := routeCache.set key route
  if MAX_RESOLVED_ROUTE_CACHE_KEYS < routeCache.size then JsMap.empty.set key route else routeCache

/-- What `resolveAgentRoute` resolves when there is no cached route. -/
def resolveRoute (caches : Caches) : ResolvedAgentRoute × Caches :=
  let (_, caches) := getEvaluatedBindingsForChannelAccount cases cfg scope.channel scope.accountId caches
  let (index, caches) :=
    getEvaluatedBindingIndexForChannelAccount cases cfg scope.channel scope.accountId caches
  let (lookup, caches) := resolveAgentLookupCache cases cfg caches
  match (tiers index scope).findSome? (Tier.find scope) with
  | some (matched, matchedBy) =>
    (chooseRoute cases cfg lookup scope matched.binding.agentId matchedBy, caches)
  | none => (chooseRoute cases cfg lookup scope (resolveDefaultAgentId cases cfg) .default, caches)

def resolveAgentRoute (verbose : Bool) (input : ResolveAgentRouteInput)
    (caches : Caches) : ResolvedAgentRoute × Caches :=
  let scope := normalizeInput cases input
  if verbose || cfg.identityLinks.isSome then resolveRoute cases cfg scope caches
  else
    let routeCache := caches.routes.getD .empty
    let routeCacheKey := buildResolvedRouteCacheKey scope (cfg.dmScope.getD .main)
    match routeCache.get? routeCacheKey with
    | some cachedRoute => (cachedRoute, { caches with routes := some routeCache })
    | none =>
      let (route, caches) := resolveRoute cases cfg scope caches
      (route, { caches with routes := some (keepRoute routeCache routeCacheKey route) })

/-- A query, and whether verbose logging is on. -/
structure Query where
  /-- Is verbose logging on? -/
  verbose : Bool := false
  input : ResolveAgentRouteInput
  deriving DecidableEq

/-- The answers to a sequence of queries. -/
def answers (cfg : FoxClawConfig) : List Query → Caches → List ResolvedAgentRoute
  | [], _ => []
  | q :: qs, caches =>
    let (route, caches) := resolveAgentRoute cases cfg q.verbose q.input caches
    route :: answers cfg qs caches

end Foxclaw.Routing
