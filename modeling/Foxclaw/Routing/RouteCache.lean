import Foxclaw.Routing.PlainRoute

/-!
# The caches of routing

What the caches hold is what would be computed: the bindings of a channel and an account are kept under a
key that tells them apart, as an account id has no tab. The key of a route tells queries apart whose ids are
ordinary; two queries with one key get the answer of the first.

## What is proved

* `Caches.Ok.resolveAgentRoute` — the answer to a query, if no other query has its key.
* `answers_eq_plainRoute` — the answers to a sequence of queries are those of the plain rule, if no two
  queries share a key.
* `answers_of_key` — in general, those to queries with the same keys.
* `answer_of_empty_peer` — two queries that share a key.
-/

namespace Foxclaw.Routing

open JsMap List Option

variable (cases : CaseMap) (cfg : FoxClawConfig)

/-! ### What the caches hold -/

/-- The evaluated bindings that are kept are those of the config. -/
structure EvaluatedBindingsCache.Ok (cache : EvaluatedBindingsCache) : Prop where
  byChannel : cache.byChannel = buildEvaluatedBindingsByChannel cases cfg
  /-- The list of a channel and an account. -/
  list : ∀ channel accountId es, '\t' ∉ accountId.toList →
    cache.byChannelAccount.get? (channelAccountKey channel accountId) = some es →
      es = scopedBindings cases cfg channel accountId
  index : ∀ channel accountId index, '\t' ∉ accountId.toList →
    cache.byChannelAccountIndex.get? (channelAccountKey channel accountId) = some index →
      index = buildEvaluatedBindingsIndex (scopedBindings cases cfg channel accountId)

/-- The key of a query. -/
def cacheKey (scope : RouteScope) : String := buildResolvedRouteCacheKey scope (cfg.dmScope.getD .main)

/-- What the caches hold, when these queries were answered with the route cache. -/
structure Caches.Ok (served : List RouteScope) (caches : Caches) : Prop where
  agents : ∀ lookup ∈ caches.agents, lookup = buildAgentLookup cases cfg
  bindings : ∀ cache ∈ caches.bindings, cache.Ok cases cfg
  routes : ∀ routes ∈ caches.routes, ∀ key route, routes.get? key = some route →
    ∃ scope ∈ served, cacheKey cfg scope = key ∧ route = plainRoute cases cfg scope

variable {cases cfg} {served : List RouteScope} {caches : Caches}

theorem Caches.Ok.empty : Caches.Ok cases cfg [] {} := ⟨by simp, by simp, by simp⟩

/-! ### Lookups -/

/-- The key of a channel and an account tells them apart. -/
theorem channelAccountKey_inj {channel channel' accountId accountId' : String} (h : '\t' ∉ accountId.toList)
    (h' : '\t' ∉ accountId'.toList)
    (heq : channelAccountKey channel accountId = channelAccountKey channel' accountId') :
    channel = channel' ∧ accountId = accountId' := by
  have hlists : accountId.toList.reverse ++ '\t' :: channel.toList.reverse =
      accountId'.toList.reverse ++ '\t' :: channel'.toList.reverse := by
    simpa [channelAccountKey] using congrArg (fun s => s.toList.reverse) heq
  obtain ⟨haccount, hchannel⟩ := Text.append_cons_inj (by simpa using h) (by simpa using h') hlists
  exact ⟨String.toList_inj.mp (reverse_injective hchannel), String.toList_inj.mp (reverse_injective haccount)⟩

theorem EvaluatedBindingsCache.Ok.fresh {byChannel : JsMap String EvaluatedBindingsByChannel}
    (h : byChannel = buildEvaluatedBindingsByChannel cases cfg) :
    EvaluatedBindingsCache.Ok cases cfg { byChannel } :=
  ⟨h, by simp, by simp⟩

/-- A list and its index are kept. -/
theorem EvaluatedBindingsCache.Ok.set {cache : EvaluatedBindingsCache} (h : cache.Ok cases cfg)
    {channel accountId : String} (htab : '\t' ∉ accountId.toList) :
    EvaluatedBindingsCache.Ok cases cfg { cache with
      byChannelAccount := cache.byChannelAccount.set (channelAccountKey channel accountId)
        (scopedBindings cases cfg channel accountId)
      byChannelAccountIndex := cache.byChannelAccountIndex.set (channelAccountKey channel accountId)
        (buildEvaluatedBindingsIndex (scopedBindings cases cfg channel accountId)) } := by
  refine ⟨h.byChannel, fun channel' accountId' es htab' hes => ?_, fun channel' accountId' index htab' hi => ?_⟩
  · rw [get?_set] at hes
    split at hes
    · rename_i hkey
      obtain ⟨rfl, rfl⟩ := channelAccountKey_inj htab htab' hkey
      exact (some.inj hes).symm
    · exact h.list channel' accountId' es htab' hes
  · rw [get?_set] at hi
    split at hi
    · rename_i hkey
      obtain ⟨rfl, rfl⟩ := channelAccountKey_inj htab htab' hkey
      exact (some.inj hi).symm
    · exact h.index channel' accountId' index htab' hi

theorem Caches.Ok.getEvaluatedBindings (h : caches.Ok cases cfg served) {channel accountId : String}
    (htab : '\t' ∉ accountId.toList) :
    (getEvaluatedBindingsForChannelAccount cases cfg channel accountId caches).1 =
        scopedBindings cases cfg channel accountId ∧
      (getEvaluatedBindingsForChannelAccount cases cfg channel accountId caches).2.Ok cases cfg served := by
  have hcache : (caches.bindings.getD { byChannel := buildEvaluatedBindingsByChannel cases cfg }).Ok
      cases cfg := by
    cases hb : caches.bindings with
    | none => exact .fresh rfl
    | some cache => exact h.bindings cache hb
  unfold getEvaluatedBindingsForChannelAccount
  dsimp only
  split
  · rename_i es hhit
    exact ⟨hcache.list channel accountId es htab hhit, h.agents, fun c hc => some.inj hc ▸ hcache, h.routes⟩
  · have hmerge : mergeEvaluatedBindingsInSourceOrder
        ((((caches.bindings.getD { byChannel := buildEvaluatedBindingsByChannel cases cfg }).byChannel.get?
          channel).bind fun b => b.byAccount.get? accountId).getD [])
        ((((caches.bindings.getD { byChannel := buildEvaluatedBindingsByChannel cases cfg }).byChannel.get?
          channel).map (·.byAnyAccount)).getD []) = scopedBindings cases cfg channel accountId := by
      rw [hcache.byChannel]
      exact merge_build cases cfg channel accountId
    rw [hmerge]
    refine ⟨rfl, h.agents, fun c hc => ?_, h.routes⟩
    obtain rfl := some.inj hc
    split
    · exact EvaluatedBindingsCache.Ok.set (.fresh hcache.byChannel) htab
    · exact hcache.set htab

theorem Caches.Ok.getEvaluatedBindingIndex (h : caches.Ok cases cfg served) {channel accountId : String}
    (htab : '\t' ∉ accountId.toList) :
    (getEvaluatedBindingIndexForChannelAccount cases cfg channel accountId caches).1 =
        buildEvaluatedBindingsIndex (scopedBindings cases cfg channel accountId) ∧
      (getEvaluatedBindingIndexForChannelAccount cases cfg channel accountId caches).2.Ok cases cfg
        served := by
  obtain ⟨hlist, hok⟩ := @Caches.Ok.getEvaluatedBindings cases cfg served caches h channel accountId htab
  unfold getEvaluatedBindingIndexForChannelAccount
  dsimp only
  split
  · rename_i index hhit
    obtain ⟨cache, hcache, hindex⟩ := bind_eq_some_iff.mp hhit
    exact ⟨(hok.bindings cache hcache).index channel accountId index htab hindex, hok⟩
  · rw [hlist]
    refine ⟨rfl, hok.agents, fun c hc => ?_, hok.routes⟩
    obtain ⟨cache, hcache, rfl⟩ := map_eq_some_iff.mp hc
    have hold := hok.bindings cache hcache
    refine ⟨hold.byChannel, hold.list, fun channel' accountId' index htab' hi => ?_⟩
    rw [get?_set] at hi
    split at hi
    · rename_i hkey
      obtain ⟨rfl, rfl⟩ := channelAccountKey_inj htab htab' hkey
      exact (some.inj hi).symm
    · exact hold.index channel' accountId' index htab' hi

theorem Caches.Ok.resolveAgentLookupCache (h : caches.Ok cases cfg served) :
    (resolveAgentLookupCache cases cfg caches).1 = buildAgentLookup cases cfg ∧
      (resolveAgentLookupCache cases cfg caches).2.Ok cases cfg served := by
  unfold Routing.resolveAgentLookupCache
  split
  · rename_i lookup hlookup
    exact ⟨h.agents lookup hlookup, h⟩
  · exact ⟨rfl, fun lookup hl => (some.inj hl).symm, h.bindings, h.routes⟩

/-- What is resolved without a cached route is what the plain rule says. -/
theorem Caches.Ok.resolveRoute (h : caches.Ok cases cfg served) {scope : RouteScope}
    (htab : '\t' ∉ scope.accountId.toList) :
    (resolveRoute cases cfg scope caches).1 = plainRoute cases cfg scope ∧
      (resolveRoute cases cfg scope caches).2.Ok cases cfg served := by
  obtain ⟨-, hlist⟩ := @Caches.Ok.getEvaluatedBindings cases cfg served caches h scope.channel _ htab
  obtain ⟨hindex, hok⟩ := @Caches.Ok.getEvaluatedBindingIndex cases cfg served _ hlist scope.channel _ htab
  obtain ⟨hlookup, hok'⟩ := hok.resolveAgentLookupCache
  have hmatch := plainMatch_eq cases cfg scope
  unfold Routing.resolveRoute plainRoute
  dsimp only
  rw [hindex, hlookup, ← hmatch]
  split
  · rename_i matched matchedBy hfound
    rw [hfound]
    exact ⟨rfl, hok'⟩
  · rename_i hnone
    rw [hnone]
    exact ⟨rfl, hok'⟩

/-! ### Queries with one key -/

/-- The same query, but for the order of the roles. -/
structure SameScope (scope scope' : RouteScope) : Prop where
  channel : scope.channel = scope'.channel
  accountId : scope.accountId = scope'.accountId
  peer : scope.peer = scope'.peer
  parentPeer : scope.parentPeer = scope'.parentPeer
  guildId : scope.guildId = scope'.guildId
  teamId : scope.teamId = scope'.teamId
  roles : scope.memberRoleIds ⊆ scope'.memberRoleIds ∧ scope'.memberRoleIds ⊆ scope.memberRoleIds

instance (scope scope' : RouteScope) : Decidable (SameScope scope scope') :=
  decidable_of_iff (scope.channel = scope'.channel ∧ scope.accountId = scope'.accountId ∧
      scope.peer = scope'.peer ∧ scope.parentPeer = scope'.parentPeer ∧ scope.guildId = scope'.guildId ∧
      scope.teamId = scope'.teamId ∧ scope.memberRoleIds ⊆ scope'.memberRoleIds ∧
      scope'.memberRoleIds ⊆ scope.memberRoleIds)
    ⟨fun ⟨channel, accountId, peer, parentPeer, guildId, teamId, roles⟩ =>
        ⟨channel, accountId, peer, parentPeer, guildId, teamId, roles⟩,
      fun h => ⟨h.channel, h.accountId, h.peer, h.parentPeer, h.guildId, h.teamId, h.roles⟩⟩

theorem ConstraintsHold.congr {m : NormalizedBindingMatch} {peer : Option RoutePeer} {scope scope' : RouteScope}
    (hguild : scope.guildId = scope'.guildId) (hteam : scope.teamId = scope'.teamId)
    (hroles : scope.memberRoleIds ⊆ scope'.memberRoleIds) (h : ConstraintsHold m peer scope) :
    ConstraintsHold m peer scope' := by
  refine ⟨h.valid, h.peer, hguild ▸ h.guild, hteam ▸ h.team, fun roles hr => ?_⟩
  obtain ⟨role, hmem, hrole⟩ := h.roles roles hr
  exact ⟨role, hmem, hroles hrole⟩

theorem SameScope.canTake_iff {scope scope' : RouteScope} (h : SameScope scope scope') (tier : MatchedBy)
    (m : NormalizedBindingMatch) : CanTake scope tier m ↔ CanTake scope' tier m := by
  have hpeer : tier.peerOf scope = tier.peerOf scope' := by
    unfold MatchedBy.peerOf
    split
    · exact h.parentPeer
    · exact h.peer
  unfold CanTake
  rw [hpeer]
  exact and_congr_right fun _ => ⟨fun hold => hold.congr h.guildId h.teamId h.roles.1,
    fun hold => hold.congr h.guildId.symm h.teamId.symm h.roles.2⟩

theorem SameScope.isFor_iff {scope scope' : RouteScope} (h : SameScope scope scope') (b : AgentBinding) :
    IsFor cases scope b ↔ IsFor cases scope' b :=
  ⟨fun ⟨named, channel, account⟩ => ⟨named, h.channel ▸ channel, h.accountId ▸ account⟩,
    fun ⟨named, channel, account⟩ => ⟨named, h.channel ▸ channel, h.accountId ▸ account⟩⟩

/-- The plain rule does not look at the order of the roles. -/
theorem plainRoute_congr {scope scope' : RouteScope} (h : SameScope scope scope') :
    plainRoute cases cfg scope = plainRoute cases cfg scope' := by
  have hmatch : plainMatch cases cfg scope = plainMatch cases cfg scope' := by
    unfold plainMatch
    simp only [h.canTake_iff, h.isFor_iff]
  have hchoose (agentId : String) (matchedBy : MatchedBy) :
      chooseRoute cases cfg (buildAgentLookup cases cfg) scope agentId matchedBy =
        chooseRoute cases cfg (buildAgentLookup cases cfg) scope' agentId matchedBy := by
    unfold chooseRoute
    rw [h.channel, h.accountId, h.peer]
  unfold plainRoute
  rw [hmatch]
  simp only [hchoose]

/-- A route that is kept was there, or is the one that was resolved. -/
theorem get?_keepRoute {routes : JsMap String ResolvedAgentRoute} {key k : String}
    {route r : ResolvedAgentRoute} (h : (keepRoute routes key route).get? k = some r) :
    (key = k ∧ route = r) ∨ routes.get? k = some r := by
  unfold keepRoute at h
  dsimp only at h
  split at h
  · rw [get?_set] at h
    split at h
    · rename_i hk
      exact .inl ⟨hk, some.inj h⟩
    · cases h
  · rw [get?_set] at h
    split at h
    · rename_i hk
      exact .inl ⟨hk, some.inj h⟩
    · exact .inr h

variable (cases cfg)

/-- Is the query answered with the route cache? -/
def usesCache (q : Query) : Bool := !q.verbose && cfg.identityLinks.isNone

/-- What a query asks. -/
def Query.scope (q : Query) : RouteScope := normalizeInput cases q.input

variable {cases cfg}

/-- The answer to a query is that of the plain rule to one that has its key. -/
theorem Caches.Ok.answer (h : caches.Ok cases cfg served) (q : Query) :
    (∃ scope, (scope = q.scope cases ∨ usesCache cfg q = true ∧ scope ∈ served) ∧
      cacheKey cfg scope = cacheKey cfg (q.scope cases) ∧
      (resolveAgentRoute cases cfg q.verbose q.input caches).1 = plainRoute cases cfg scope) ∧
    (resolveAgentRoute cases cfg q.verbose q.input caches).2.Ok cases cfg
      (if usesCache cfg q then q.scope cases :: served else served) := by
  have htab : '\t' ∉ (q.scope cases).accountId.toList := tab_notMem_normalizeAccountId cases _
  obtain ⟨hroute, hok⟩ := h.resolveRoute htab
  unfold Routing.resolveAgentRoute
  dsimp only
  cases hcache : usesCache cfg q with
  | false =>
    have hplain : (q.verbose || cfg.identityLinks.isSome) = true := by
      cases hv : q.verbose <;> simp_all [usesCache]
    rw [if_pos hplain]
    exact ⟨⟨_, .inl rfl, rfl, hroute⟩, hok⟩
  | true =>
    have hplain : ¬ (q.verbose || cfg.identityLinks.isSome) = true := by
      simp_all [usesCache]
    have hroutes : ∀ key route, (caches.routes.getD .empty).get? key = some route →
        ∃ scope ∈ served, cacheKey cfg scope = key ∧ route = plainRoute cases cfg scope := by
      cases hr : caches.routes with
      | none => simp
      | some routes => exact h.routes routes hr
    have hlater {key : String} {route : ResolvedAgentRoute}
        (hold : ∃ scope ∈ served, cacheKey cfg scope = key ∧ route = plainRoute cases cfg scope) :
        ∃ scope ∈ q.scope cases :: served, cacheKey cfg scope = key ∧
          route = plainRoute cases cfg scope := by
      obtain ⟨scope, hmem, hscope⟩ := hold
      exact ⟨scope, mem_cons_of_mem _ hmem, hscope⟩
    rw [if_neg hplain, if_pos rfl]
    split
    · rename_i route hhit
      obtain ⟨scope, hmem, hscope⟩ := hroutes _ _ hhit
      refine ⟨⟨scope, .inr ⟨rfl, hmem⟩, hscope⟩, h.agents, h.bindings, fun routes hr key r hget => ?_⟩
      obtain rfl := some.inj hr
      exact hlater (hroutes key r hget)
    · refine ⟨⟨_, .inl rfl, rfl, hroute⟩, hok.agents, hok.bindings, fun routes hr key r hget => ?_⟩
      obtain rfl := some.inj hr
      rcases get?_keepRoute hget with ⟨rfl, rfl⟩ | hold
      · exact ⟨q.scope cases, mem_cons_self, rfl, hroute⟩
      · exact hlater (hroutes key r hold)

/-- The answer to a query, if no query with its key asks something else. -/
theorem Caches.Ok.resolveAgentRoute (h : caches.Ok cases cfg served) (q : Query)
    (hkey : usesCache cfg q = true → ∀ scope ∈ served,
      cacheKey cfg scope = cacheKey cfg (q.scope cases) → SameScope scope (q.scope cases)) :
    (resolveAgentRoute cases cfg q.verbose q.input caches).1 = plainRoute cases cfg (q.scope cases) ∧
      (resolveAgentRoute cases cfg q.verbose q.input caches).2.Ok cases cfg
        (if usesCache cfg q then q.scope cases :: served else served) := by
  obtain ⟨⟨scope, hscope, hsame, hroute⟩, hok⟩ := h.answer q
  refine ⟨hroute.trans ?_, hok⟩
  rcases hscope with rfl | ⟨huses, hmem⟩
  · rfl
  · exact plainRoute_congr (hkey huses scope hmem hsame)

variable (cases cfg)

/-- No two queries that are answered with the route cache share a key, unless they ask the same. -/
def KeysApart (qs : List Query) : Prop :=
  (qs.filter (usesCache cfg)).Pairwise fun q q' =>
    cacheKey cfg (q.scope cases) = cacheKey cfg (q'.scope cases) → SameScope (q.scope cases) (q'.scope cases)

instance (qs : List Query) : Decidable (KeysApart cases cfg qs) := by
  unfold KeysApart
  infer_instance

variable {cases cfg}

/-- The answers of caches that hold what earlier queries left. -/
theorem Caches.Ok.answers (h : caches.Ok cases cfg served) {qs : List Query} (hapart : KeysApart cases cfg qs)
    (hserved : ∀ scope ∈ served, ∀ q ∈ qs, usesCache cfg q = true →
      cacheKey cfg scope = cacheKey cfg (q.scope cases) → SameScope scope (q.scope cases)) :
    answers cases cfg qs caches = qs.map fun q => plainRoute cases cfg (q.scope cases) := by
  induction qs generalizing served caches with
  | nil => rfl
  | cons q qs ih =>
    obtain ⟨hroute, hok⟩ := h.resolveAgentRoute q fun huses scope hmem =>
      hserved scope hmem q mem_cons_self huses
    rw [Routing.answers, map_cons]
    dsimp only
    rw [hroute]
    congr 1
    have hrest : ∀ scope ∈ served, ∀ q' ∈ qs, usesCache cfg q' = true →
        cacheKey cfg scope = cacheKey cfg (q'.scope cases) → SameScope scope (q'.scope cases) :=
      fun scope hmem q' hq' => hserved scope hmem q' (mem_cons_of_mem _ hq')
    unfold KeysApart at hapart
    cases huses : usesCache cfg q with
    | false =>
      rw [filter_cons_of_neg (by simp [huses])] at hapart
      rw [huses] at hok
      exact ih hok hapart hrest
    | true =>
      rw [filter_cons_of_pos huses] at hapart
      obtain ⟨hfirst, hapart'⟩ := pairwise_cons.mp hapart
      rw [huses] at hok
      refine ih hok hapart' fun scope hmem q' hq' huses' => ?_
      rcases mem_cons.mp hmem with rfl | hmem
      · exact hfirst q' (mem_filter.mpr ⟨hq', huses'⟩)
      · exact hrest scope hmem q' hq' huses'

/-- The answers to a sequence of queries are those of the plain rule, if no two queries that the route
cache answers share a key without asking the same. -/
theorem answers_eq_plainRoute (cases : CaseMap) (cfg : FoxClawConfig) (qs : List Query)
    (hapart : KeysApart cases cfg qs) :
    answers cases cfg qs {} = qs.map fun q => plainRoute cases cfg (q.scope cases) :=
  Caches.Ok.empty.answers hapart (by simp)

/-- A config with a binding for a role of a guild, and one for the channel. -/
def rolesConfig : FoxClawConfig where
  bindings := [
    { agentId := "ops"
      «match» := { channel := "discord", accountId := "*", guildId := "7", roles := some ["admin"] } },
    { agentId := "all", «match» := { channel := "discord", accountId := "*" } }]

/-- A message of a member of the guild. -/
def rolesQuery (roles : List String) : Query :=
  { input := { channel := "discord", guildId := "7", memberRoleIds := roles } }

/-- The order of the roles does not matter. -/
theorem answers_eq_plainRoute_roles :
    answers .asciiOnly rolesConfig [rolesQuery ["admin", "dev"], rolesQuery ["dev", "admin"]] {} =
      [rolesQuery ["admin", "dev"], rolesQuery ["dev", "admin"]].map fun q =>
        plainRoute .asciiOnly rolesConfig (q.scope .asciiOnly) :=
  answers_eq_plainRoute _ _ _ (by decide +kernel)

/-! ### Two queries with one key -/

/-- A message of a group whose id is empty. -/
def emptyPeerQuery : Query := { input := { channel := "telegram", peer := some ⟨.group, ""⟩ } }

/-- A message without a peer. -/
def noPeerQuery : Query := { input := { channel := "telegram" } }

/-- A message without a peer is answered with the session of the group, if that was asked before. -/
theorem answer_of_empty_peer :
    (answers .asciiOnly {} [emptyPeerQuery, noPeerQuery] {}).map ResolvedAgentRoute.sessionKey =
        ["agent:main:telegram:group:unknown", "agent:main:telegram:group:unknown"] ∧
      (plainRoute .asciiOnly {} (noPeerQuery.scope .asciiOnly)).sessionKey = "agent:main:main" := by
  decide +kernel

theorem Caches.Ok.answers_get? (h : caches.Ok cases cfg served) {qs : List Query} {i : ℕ} {q : Query}
    (hq : qs[i]? = some q) : ∃ scope ∈ served ++ (qs.take (i + 1)).map (·.scope cases),
      cacheKey cfg scope = cacheKey cfg (q.scope cases) ∧
      (Routing.answers cases cfg qs caches)[i]? = some (plainRoute cases cfg scope) := by
  induction qs generalizing served caches i with
  | nil => cases hq
  | cons q' qs ih =>
    obtain ⟨⟨scope, hscope, hkey, hroute⟩, hok⟩ := h.answer q'
    cases i with
    | zero =>
      cases hq
      exact ⟨scope, by rcases hscope with rfl | ⟨-, hmem⟩ <;> simp [*], hkey, congrArg some hroute⟩
    | succ i =>
      obtain ⟨scope, hmem, hscope⟩ := ih hok hq
      exact ⟨scope, by split at hmem <;> grind, hscope⟩

/-- Each answer is that of the plain rule to the query, or to an earlier one with its key. -/
theorem answers_of_key (cases : CaseMap) (cfg : FoxClawConfig) (qs : List Query) (i : Fin qs.length) :
    ∃ q ∈ qs.take (i + 1), cacheKey cfg (q.scope cases) = cacheKey cfg (qs[i].scope cases) ∧
      (answers cases cfg qs {})[i]? = some (plainRoute cases cfg (q.scope cases)) := by
  obtain ⟨scope, hmem, hscope⟩ := Caches.Ok.empty.answers_get? (getElem?_eq_getElem i.isLt)
  obtain ⟨q, hq, rfl⟩ := mem_map.mp hmem
  exact ⟨q, hq, hscope⟩

end Foxclaw.Routing
