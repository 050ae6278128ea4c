import Foxclaw.Routing.RouteIndex

/-!
# The plain rule of routing

The tiers are taken in their order; in the first tier with a binding whose constraints all hold, the first
such binding in source order is taken, and the default agent if there is no such tier. The lists and indexes
of the bindings find the same: a binding that the index of a tier leaves out would have been taken in a tier
before.

## What is proved

* `matchesBindingScope_iff` — what the code tests is that all constraints hold.
* `findSome_tiers` — the tiers find over the index what they find over all bindings of the channel and the
  account.
* `plainMatch_eq` — that is what the plain rule takes.
-/

namespace Foxclaw.Routing

open List Option
open Foxclaw.Text (trimString)

/-! ### The rule -/

/-- The kinds of a binding's peer and of a message's peer go together: group and channel do. -/
def SameKind (kind kind' : ChatType) : Prop := kind = kind' ∨ (kind ≠ .direct ∧ kind' ≠ .direct)

instance (kind kind' : ChatType) : Decidable (SameKind kind kind') := by
  unfold SameKind
  infer_instance

/-- All constraints of a binding hold, of a message with this peer. -/
structure ConstraintsHold (m : NormalizedBindingMatch) (peer : Option RoutePeer) (scope : RouteScope) :
    Prop where
  valid : m.peer ≠ .invalid
  /-- The peer is the one that the binding names. -/
  peer : ∀ kind id, m.peer = .valid kind id → ∃ p ∈ peer, SameKind kind p.kind ∧ p.id = id
  guild : ∀ guildId ∈ m.guildId, scope.guildId = guildId
  team : ∀ teamId ∈ m.teamId, scope.teamId = teamId
  /-- The member has one of the roles. -/
  roles : ∀ roles ∈ m.roles, ∃ role ∈ roles, role ∈ scope.memberRoleIds

/-- What the bindings of a tier are constrained by. -/
def MatchedBy.Takes (m : NormalizedBindingMatch) : MatchedBy → Prop
  | .peer | .peerParent => hasPeerConstraint m = true
  | .guildRoles => m.guildId.isSome = true ∧ m.roles.isSome = true
  | .guild => m.guildId.isSome = true ∧ m.roles = none
  | .team => m.teamId.isSome = true
  | .account => m.accountPattern ≠ "*"
  | .channel => m.accountPattern = "*"
  | .default => False

instance (m : NormalizedBindingMatch) (tier : MatchedBy) : Decidable (tier.Takes m) := by
  unfold MatchedBy.Takes
  split <;> infer_instance

/-- The peer that a tier compares with the one of a binding. -/
def MatchedBy.peerOf (scope : RouteScope) : MatchedBy → Option RoutePeer
  | .peerParent => scope.parentPeer
  | _ => scope.peer

/-- The tiers, in their order. -/
def plainTiers : List MatchedBy := [.peer, .peerParent, .guildRoles, .guild, .team, .account, .channel]

/-! ### Matching -/

theorem peerKindMatches_iff {kind kind' : ChatType} : peerKindMatches kind kind' = true ↔ SameKind kind kind' := by
  cases kind <;> cases kind' <;> decide

variable {m : NormalizedBindingMatch}

theorem matchesPeer_iff {peer : Option RoutePeer} :
    matchesPeer m peer = true ↔
    m.peer ≠ .invalid ∧ ∀ kind id, m.peer = .valid kind id → ∃ p ∈ peer, SameKind kind p.kind ∧ p.id = id := by
  unfold matchesPeer
  split
  · rename_i hpeer
    simp [hpeer]
  · rename_i hpeer
    simp [hpeer]
  · rename_i kind id hpeer
    rw [hpeer]
    cases peer with
    | none => simp
    | some p => simp [peerKindMatches_iff]

theorem any_ne_iff {value : Option String} {id : String} :
    value.any (· ≠ id) = true ↔ ¬ ∀ v ∈ value, id = v := by
  cases value with
  | none => simp
  | some v => simp [eq_comm (a := id)]

/-- What the code tests is that all constraints hold. -/
theorem matchesBindingScope_iff {peer : Option RoutePeer} {scope : RouteScope} :
    matchesBindingScope m peer scope = true ↔ ConstraintsHold m peer scope := by
  unfold matchesBindingScope
  by_cases hpeer : matchesPeer m peer = true
  · obtain ⟨hvalid, hp⟩ := matchesPeer_iff.mp hpeer
    rw [if_neg (by simp [hpeer])]
    by_cases hguild : ∀ g ∈ m.guildId, scope.guildId = g
    · rw [if_neg (mt any_ne_iff.mp (not_not.mpr hguild))]
      by_cases hteam : ∀ t ∈ m.teamId, scope.teamId = t
      · rw [if_neg (mt any_ne_iff.mp (not_not.mpr hteam))]
        have hall : (∀ roles ∈ m.roles, ∃ role ∈ roles, role ∈ scope.memberRoleIds) ↔
            ConstraintsHold m peer scope :=
          ⟨fun hroles => ⟨hvalid, hp, hguild, hteam, hroles⟩, fun h => h.roles⟩
        refine Iff.trans ?_ hall
        cases m.roles <;> simp
      · rw [if_pos (any_ne_iff.mpr hteam)]
        exact ⟨fun h => absurd h Bool.false_ne_true, fun h => absurd h.team hteam⟩
    · rw [if_pos (any_ne_iff.mpr hguild)]
      exact ⟨fun h => absurd h Bool.false_ne_true, fun h => absurd h.guild hguild⟩
  · rw [if_pos (by simpa using hpeer)]
    exact ⟨fun h => absurd h Bool.false_ne_true, fun h => absurd (matchesPeer_iff.mpr ⟨h.valid, h.peer⟩) hpeer⟩

instance (m : NormalizedBindingMatch) (peer : Option RoutePeer) (scope : RouteScope) :
    Decidable (ConstraintsHold m peer scope) :=
  decidable_of_iff _ matchesBindingScope_iff

/-! ### The tiers over a list of bindings -/

/-- A binding that a tier can take. -/
def CanTake (scope : RouteScope) (tier : MatchedBy) (m : NormalizedBindingMatch) : Prop :=
  tier.Takes m ∧ ConstraintsHold m (tier.peerOf scope) scope

instance (scope : RouteScope) (tier : MatchedBy) (m : NormalizedBindingMatch) :
    Decidable (CanTake scope tier m) := by
  unfold CanTake
  infer_instance

/-- The first binding of a list that a tier can take. -/
def findIn (es : List EvaluatedBinding) (scope : RouteScope) (tier : MatchedBy) : Option EvaluatedBinding :=
  es.find? fun e => CanTake scope tier e.match

variable {e : EvaluatedBinding} {tier : MatchedBy}

theorem not_canTake {es : List EvaluatedBinding} {scope : RouteScope}
    (h : findIn es scope tier = none) (he : e ∈ es) : ¬ CanTake scope tier e.match := by
  simpa using List.find?_eq_none.mp h e he

/-- The ids of a constraint are not empty. -/
structure NormalizedBindingMatch.IsNormal (m : NormalizedBindingMatch) : Prop where
  /-- That of the peer. -/
  peer : ∀ kind id, m.peer = .valid kind id → id ≠ ""
  /-- That of the guild. -/
  guild : m.guildId ≠ some ""
  /-- That of the team. -/
  team : m.teamId ≠ some ""

theorem nonEmptyId_ne (value : Option String) : nonEmptyId value ≠ some "" := by
  unfold nonEmptyId
  split
  · simp
  · rename_i h
    simpa using h

theorem isNormal_normalizeBindingMatch (cases : CaseMap) (m : AgentBindingMatch) :
    (normalizeBindingMatch cases m).IsNormal := by
  refine ⟨fun kind id hpeer => ?_, nonEmptyId_ne _, nonEmptyId_ne _⟩
  dsimp only [normalizeBindingMatch] at hpeer
  unfold normalizePeerConstraint at hpeer
  split at hpeer
  · cases hpeer
  · dsimp only at hpeer
    split at hpeer
    · cases hpeer
    · split at hpeer
      · cases hpeer
      · rename_i hid
        obtain ⟨rfl, rfl⟩ := NormalizedPeerConstraint.valid.inj hpeer
        exact hid

/-! ### The tiers over the index -/

/-- A binding that a search leaves out is none that it looks for. -/
theorem find?_filter_of_imp {α : Type} {es : List α} {p q : α → Bool}
    (h : ∀ e ∈ es, q e = true → p e = true) : (es.filter p).find? q = es.find? q := by
  rw [find?_filter]
  induction es with
  | nil => rfl
  | cons e es ih =>
    have hrest := ih fun e' he' => h e' (mem_cons_of_mem _ he')
    cases hq : q e with
    | true =>
      have hp : p e = true := h e mem_cons_self hq
      simp [hp, hq]
    | false => simpa [hq] using hrest

/-- A set of the bindings met before does not change what is found first. -/
theorem find?_foldl_append (q : EvaluatedBinding → Bool) (out es : List EvaluatedBinding) :
    (es.foldl (fun out m => if m ∈ out then out else out ++ [m]) out).find? q =
      (out.find? q).or (es.find? q) := by
  induction es generalizing out with
  | nil => simp
  | cons e es ih =>
    rw [foldl_cons, ih]
    by_cases hmem : e ∈ out
    · rw [if_pos hmem]
      cases hq : q e with
      | true =>
        obtain ⟨a, ha⟩ := isSome_iff_exists.mp (find?_isSome.mpr ⟨e, hmem, hq⟩)
        simp [ha]
      | false => simp [hq]
    · rw [if_neg hmem, find?_append, Option.or_assoc]
      cases hq : q e <;> simp [hq]

theorem mem_peerLookupKeys {kind kind' : ChatType} {id key : String} (hkind : SameKind kind kind')
    (hkey : key ∈ peerLookupKeys kind' id) : key ∈ peerLookupKeys kind id := by
  rcases hkind with rfl | ⟨hne, hne'⟩
  · exact hkey
  · cases kind <;> cases kind' <;> simp_all [peerLookupKeys, or_comm]

theorem find?_collect (q : EvaluatedBinding → Bool) {es : List EvaluatedBinding} {kind : ChatType}
    {id : String} (h : ∀ e ∈ es, q e = true → ∃ kind', e.match.peer = .valid kind' id ∧ SameKind kind' kind) :
    (collectPeerIndexedBindings (buildEvaluatedBindingsIndex es) (some ⟨kind, id⟩)).find? q = es.find? q := by
  have hkeys (kind' : ChatType) (hmem : peerKey kind' id ∈ peerLookupKeys kind id) :
      (((buildEvaluatedBindingsIndex es).byPeer.get? (peerKey kind' id)).getD []).find? q = es.find? q := by
    rw [byPeer_build es (peerKey_ne_empty kind' id)]
    refine find?_filter_of_imp fun e he hq => ?_
    obtain ⟨kind, hpeer, hkind⟩ := h e he hq
    simpa [hasPeerKey, hpeer] using mem_peerLookupKeys hkind hmem
  unfold collectPeerIndexedBindings
  cases kind with
  | direct =>
    have hdirect := hkeys .direct (by simp [peerLookupKeys])
    simp [peerLookupKeys, find?_foldl_append, hdirect]
  | group =>
    have hgroup := hkeys .group (by simp [peerLookupKeys])
    have hchannel := hkeys .channel (by simp [peerLookupKeys])
    simp [peerLookupKeys, find?_foldl_append, hgroup, hchannel]
  | channel =>
    have hgroup := hkeys .group (by simp [peerLookupKeys])
    have hchannel := hkeys .channel (by simp [peerLookupKeys])
    simp [peerLookupKeys, find?_foldl_append, hgroup, hchannel]

/-- What a tier finds, if it looks where the bindings are that it can take. -/
theorem Tier.find_eq {es : List EvaluatedBinding} {scope : RouteScope} {tier : Tier}
    (hpredicate : ∀ m, tier.predicate m = true ↔ tier.matchedBy.Takes m)
    (hdisabled : tier.enabled = false → findIn es scope tier.matchedBy = none)
    (henabled : tier.enabled = true → tier.scopePeer = tier.matchedBy.peerOf scope ∧
      tier.candidates.find? (fun e => CanTake scope tier.matchedBy e.match) =
        findIn es scope tier.matchedBy) :
    tier.find scope = (findIn es scope tier.matchedBy).map fun e => (e, tier.matchedBy) := by
  unfold Tier.find
  split
  · rename_i hon
    obtain ⟨hpeer, hfind⟩ := henabled hon
    have htest : (fun candidate : EvaluatedBinding => tier.predicate candidate.match &&
        matchesBindingScope candidate.match tier.scopePeer scope) =
          fun e => decide (CanTake scope tier.matchedBy e.match) := by
      funext e
      rw [Bool.eq_iff_iff, Bool.and_eq_true, decide_eq_true_eq, hpredicate, matchesBindingScope_iff, hpeer]
      rfl
    rw [htest, hfind]
  · rename_i hoff
    rw [hdisabled (by simpa using hoff)]
    rfl

/-- Two searches that find the same first, and the same then if there is nothing. -/
theorem findSome?_cons_congr {α β γ : Type} {f : α → Option γ} {g : β → Option γ} {a : α} {b : β}
    {as : List α} {bs : List β} (h : f a = g b) (hrest : g b = none → as.findSome? f = bs.findSome? g) :
    (a :: as).findSome? f = (b :: bs).findSome? g := by
  rw [findSome?_cons, findSome?_cons, h]
  cases hg : g b with
  | none => exact hrest hg
  | some c => rfl

variable {es : List EvaluatedBinding} {scope : RouteScope}

theorem findIn_eq_none (h : ∀ e ∈ es, ¬ CanTake scope tier e.match) : findIn es scope tier = none := by
  simpa [findIn] using h

theorem exists_valid_of_hasPeerConstraint (h : hasPeerConstraint m = true) :
    ∃ kind id, m.peer = .valid kind id := by
  unfold hasPeerConstraint at h
  split at h
  · rename_i kind id hpeer
    exact ⟨kind, id, hpeer⟩
  · cases h

theorem CanTake.peer (h : CanTake scope tier m) (hpeer : hasPeerConstraint m = true) :
    ∃ kind id, m.peer = .valid kind id ∧ ∃ p ∈ tier.peerOf scope, SameKind kind p.kind ∧ p.id = id := by
  obtain ⟨kind, id, hvalid⟩ := exists_valid_of_hasPeerConstraint hpeer
  exact ⟨kind, id, hvalid, h.2.peer kind id hvalid⟩

/-- The candidates of a peer are those that name it. -/
theorem find?_collect_canTake (htier : ∀ m, tier.Takes m → hasPeerConstraint m = true)
    {p : RoutePeer} (hp : tier.peerOf scope = some p) :
    (collectPeerIndexedBindings (buildEvaluatedBindingsIndex es) (some p)).find?
      (fun e => CanTake scope tier e.match) = findIn es scope tier := by
  refine find?_collect _ fun e _ he => ?_
  have htake : CanTake scope tier e.match := by simpa using he
  obtain ⟨kind, id, hvalid, p', hp', hkind, rfl⟩ := htake.peer (htier _ htake.1)
  obtain rfl := some.inj (hp.symm.trans hp')
  exact ⟨kind, hvalid, hkind⟩

theorem hasPeerConstraint_of_canTake (hpeer : findIn es scope .peer = none)
    (he : e ∈ es) (htier : tier.peerOf scope = scope.peer)
    (htake : CanTake scope tier e.match) : hasPeerConstraint e.match = false := by
  by_contra h
  have hhold : ConstraintsHold e.match scope.peer scope := htier ▸ htake.2
  exact not_canTake hpeer he ⟨by simpa [MatchedBy.Takes] using h, hhold⟩

/-- It names no guild, when the tiers of guilds found nothing. -/
theorem guildId_of_canTake (hroles : findIn es scope .guildRoles = none)
    (hguild : findIn es scope .guild = none) (he : e ∈ es) (htier : tier.peerOf scope = scope.peer)
    (htake : CanTake scope tier e.match) : e.match.guildId = none := by
  by_contra h
  have hsome : e.match.guildId.isSome = true := isSome_iff_ne_none.mpr h
  have hhold : ConstraintsHold e.match scope.peer scope := htier ▸ htake.2
  cases hr : e.match.roles with
  | none => exact not_canTake hguild he ⟨⟨hsome, hr⟩, hhold⟩
  | some roles => exact not_canTake hroles he ⟨⟨hsome, by simp [hr]⟩, hhold⟩

theorem teamId_of_canTake (hteam : findIn es scope .team = none) (he : e ∈ es)
    (htier : tier.peerOf scope = scope.peer) (htake : CanTake scope tier e.match) :
    e.match.teamId = none := by
  by_contra h
  have hhold : ConstraintsHold e.match scope.peer scope := htier ▸ htake.2
  exact not_canTake hteam he ⟨isSome_iff_ne_none.mpr h, hhold⟩

/-- A guild that is not named is no constraint that holds. -/
theorem not_canTake_of_guildId (hes : ∀ e ∈ es, e.match.IsNormal) (hguild : scope.guildId = "")
    (he : e ∈ es) (hsome : e.match.guildId.isSome = true) :
    ¬ CanTake scope tier e.match := by
  rintro ⟨-, hhold⟩
  obtain ⟨g, hg⟩ := isSome_iff_exists.mp hsome
  have := hhold.guild g hg
  exact (hes e he).guild (by rw [hg, ← this, hguild])

theorem not_canTake_of_teamId (hes : ∀ e ∈ es, e.match.IsNormal) (hteam : scope.teamId = "")
    (he : e ∈ es) (hsome : e.match.teamId.isSome = true) :
    ¬ CanTake scope tier e.match := by
  rintro ⟨-, hhold⟩
  obtain ⟨t, ht⟩ := isSome_iff_exists.mp hsome
  have := hhold.team t ht
  exact (hes e he).team (by rw [ht, ← this, hteam])

/-- The tiers find over the index what they find over all bindings of the channel and the account. -/
theorem findSome_tiers (hes : ∀ e ∈ es, e.match.IsNormal) :
    (tiers (buildEvaluatedBindingsIndex es) scope).findSome? (Tier.find scope) =
      plainTiers.findSome? fun tier => (findIn es scope tier).map fun e => (e, tier) := by
  have hpeerTakes : ∀ m, MatchedBy.Takes m .peer → hasPeerConstraint m = true := fun _ h => h
  have hparentTakes : ∀ m, MatchedBy.Takes m .peerParent → hasPeerConstraint m = true := fun _ h => h
  -- The peer.
  refine findSome?_cons_congr (Tier.find_eq (fun _ => Iff.rfl) (fun hoff => ?_) fun hon => ⟨rfl, ?_⟩)
    fun hnone => ?_
  · refine findIn_eq_none fun e _ htake => ?_
    obtain ⟨-, -, -, p, hp, -⟩ := htake.peer (hpeerTakes _ htake.1)
    have hp' : scope.peer = some p := hp
    simp [hp'] at hoff
  · obtain ⟨p, hp⟩ := isSome_iff_exists.mp hon
    dsimp only
    rw [hp]
    exact find?_collect_canTake hpeerTakes hp
  have hpeer : findIn es scope .peer = none := map_eq_none_iff.mp hnone
  -- The parent peer; an empty id is no peer, and no binding has one.
  refine findSome?_cons_congr (Tier.find_eq (fun _ => Iff.rfl) (fun hoff => ?_) fun hon => ?_) fun hnone => ?_
  · refine findIn_eq_none fun e he htake => ?_
    obtain ⟨kind, -, hvalid, p, hp, -, rfl⟩ := htake.peer (hparentTakes _ htake.1)
    have hp' : scope.parentPeer = some p := hp
    have hid : p.id ≠ "" := (hes e he).peer kind p.id hvalid
    simp [hp', hid] at hoff
  · obtain ⟨p, hp⟩ := isSome_iff_exists.mp hon
    obtain ⟨hp', hid⟩ := filter_eq_some_iff.mp hp
    refine ⟨by rw [hp]; exact hp'.symm, ?_⟩
    dsimp only
    rw [hp']
    exact find?_collect_canTake hparentTakes hp'
  -- The guild, with roles.
  refine findSome?_cons_congr (Tier.find_eq (fun m => ?_) (fun hoff => ?_) fun hon => ⟨rfl, ?_⟩)
    fun hnone => ?_
  · simp [MatchedBy.Takes]
  · refine findIn_eq_none fun e he htake => ?_
    obtain ⟨hsome, hroles⟩ : e.match.guildId.isSome = true ∧ e.match.roles.isSome = true := htake.1
    obtain ⟨roles, hr⟩ := isSome_iff_exists.mp hroles
    obtain ⟨role, -, hrole⟩ := htake.2.roles roles hr
    have hmembers : scope.memberRoleIds ≠ [] := ne_nil_of_mem hrole
    have hguild : scope.guildId = "" := by simpa [hmembers] using hoff
    exact not_canTake_of_guildId hes hguild he hsome htake
  · obtain ⟨hguild, -⟩ : scope.guildId ≠ "" ∧ _ := by simpa using hon
    dsimp only
    rw [if_neg hguild, byGuildWithRoles_build es hguild]
    refine find?_filter_of_imp fun e he hq => ?_
    have htake : CanTake scope .guildRoles e.match := by simpa using hq
    obtain ⟨hsome, hroles⟩ : e.match.guildId.isSome = true ∧ e.match.roles.isSome = true := htake.1
    obtain ⟨g, hg⟩ := isSome_iff_exists.mp hsome
    simp [isGuildWithRoles, hasPeerConstraint_of_canTake hpeer he rfl htake, hg, hroles, htake.2.guild g hg]
  have hroles : findIn es scope .guildRoles = none := map_eq_none_iff.mp hnone
  -- The guild.
  refine findSome?_cons_congr (Tier.find_eq (fun m => ?_) (fun hoff => ?_) fun hon => ⟨rfl, ?_⟩)
    fun hnone => ?_
  · simp [MatchedBy.Takes]
  · refine findIn_eq_none fun e he htake => ?_
    exact not_canTake_of_guildId hes (by simpa using hoff) he htake.1.1 htake
  · have hguild : scope.guildId ≠ "" := by simpa using hon
    dsimp only
    rw [if_neg hguild, byGuild_build es hguild]
    refine find?_filter_of_imp fun e he hq => ?_
    have htake : CanTake scope .guild e.match := by simpa using hq
    obtain ⟨hsome, hr⟩ : e.match.guildId.isSome = true ∧ e.match.roles = none := htake.1
    obtain ⟨g, hg⟩ := isSome_iff_exists.mp hsome
    simp [isGuild, hasPeerConstraint_of_canTake hpeer he rfl htake, hg, hr, htake.2.guild g hg]
  have hguilds : findIn es scope .guild = none := map_eq_none_iff.mp hnone
  -- The team.
  refine findSome?_cons_congr (Tier.find_eq (fun _ => Iff.rfl) (fun hoff => ?_) fun hon => ⟨rfl, ?_⟩)
    fun hnone => ?_
  · refine findIn_eq_none fun e he htake => ?_
    exact not_canTake_of_teamId hes (by simpa using hoff) he htake.1 htake
  · have hteam : scope.teamId ≠ "" := by simpa using hon
    dsimp only
    rw [if_neg hteam, byTeam_build es hteam]
    refine find?_filter_of_imp fun e he hq => ?_
    have htake : CanTake scope .team e.match := by simpa using hq
    obtain ⟨t, ht⟩ := isSome_iff_exists.mp htake.1
    simp [isTeam, hasPeerConstraint_of_canTake hpeer he rfl htake,
      guildId_of_canTake hroles hguilds he rfl htake, ht, htake.2.team t ht]
  have hteams : findIn es scope .team = none := map_eq_none_iff.mp hnone
  -- A binding that is left names no peer, guild and team.
  have hplain {tier : MatchedBy} (htier : tier.peerOf scope = scope.peer) {e : EvaluatedBinding} (he : e ∈ es)
      (htake : CanTake scope tier e.match) : isPlain e = true :=
    isPlain_iff.mpr ⟨hasPeerConstraint_of_canTake hpeer he htier htake,
      guildId_of_canTake hroles hguilds he htier htake, teamId_of_canTake hteams he htier htake⟩
  -- The account.
  refine findSome?_cons_congr (Tier.find_eq (fun m => ?_) (fun hoff => by cases hoff) fun _ => ⟨rfl, ?_⟩)
    fun hnone => ?_
  · simp [MatchedBy.Takes]
  · dsimp only
    rw [byAccount_build]
    refine find?_filter_of_imp fun e he hq => ?_
    have htake : CanTake scope .account e.match := by simpa using hq
    have hpattern : e.match.accountPattern ≠ "*" := htake.1
    simp [hplain rfl he htake, hpattern]
  -- The channel.
  refine findSome?_cons_congr (Tier.find_eq (fun m => ?_) (fun hoff => by cases hoff) fun _ => ⟨rfl, ?_⟩)
    fun _ => rfl
  · simp [MatchedBy.Takes]
  · dsimp only
    rw [byChannel_build]
    refine find?_filter_of_imp fun e he hq => ?_
    have htake : CanTake scope .channel e.match := by simpa using hq
    have hpattern : e.match.accountPattern = "*" := htake.1
    simp [hplain rfl he htake, hpattern]

/-! ### The plain rule -/

variable (cases : CaseMap)

/-- A binding of the channel and the account. -/
structure IsFor (scope : RouteScope) (b : AgentBinding) : Prop where
  named : normalizeToken cases b.match.channel ≠ ""
  /-- That is the channel. -/
  channel : normalizeToken cases b.match.channel = scope.channel
  /-- It is for all accounts, or for this one. -/
  account : (normalizeBindingMatch cases b.match).accountPattern = "*" ∨
    resolveAccountPatternKey cases (normalizeBindingMatch cases b.match).accountPattern = scope.accountId

instance (scope : RouteScope) (b : AgentBinding) : Decidable (IsFor cases scope b) :=
  decidable_of_iff (normalizeToken cases b.match.channel ≠ "" ∧
      normalizeToken cases b.match.channel = scope.channel ∧
      ((normalizeBindingMatch cases b.match).accountPattern = "*" ∨
        resolveAccountPatternKey cases (normalizeBindingMatch cases b.match).accountPattern = scope.accountId))
    ⟨fun ⟨named, channel, account⟩ => ⟨named, channel, account⟩, fun h => ⟨h.named, h.channel, h.account⟩⟩

variable (cfg : FoxClawConfig)

/-- What the plain rule takes: in the first tier that can take one, the first binding in source order. -/
def plainMatch (scope : RouteScope) : Option (AgentBinding × MatchedBy) :=
  plainTiers.findSome? fun tier =>
    ((listBindings cfg).find? fun b =>
      IsFor cases scope b ∧ CanTake scope tier (normalizeBindingMatch cases b.match)).map fun b => (b, tier)

/-- The route of the plain rule. -/
def plainRoute (scope : RouteScope) : ResolvedAgentRoute :=
  match plainMatch cases cfg scope with
  | some (b, tier) => chooseRoute cases cfg (buildAgentLookup cases cfg) scope b.agentId tier
  | none =>
    chooseRoute cases cfg (buildAgentLookup cases cfg) scope (resolveDefaultAgentId cases cfg) .default

/-- A search over the evaluated bindings is one over the bindings. -/
theorem find?_evaluateFrom (n : ℕ) (bs : List AgentBinding) {q : AgentBinding → Bool}
    (hq : ∀ b, q b = true → normalizeToken cases b.match.channel ≠ "") :
    ((evaluateFrom cases n bs).find? fun e => q e.binding).map EvaluatedBinding.binding = bs.find? q := by
  have hmap : ((evaluateFrom cases n bs).map EvaluatedBinding.binding).find? q =
      ((evaluateFrom cases n bs).find? fun e => q e.binding).map EvaluatedBinding.binding := find?_map
  rw [← hmap, map_binding_evaluateFrom]
  exact find?_filter_of_imp fun b _ hb => by simpa using hq b hb

theorem find?_congr {α : Type} {l : List α} {p q : α → Bool} (h : ∀ a ∈ l, p a = q a) :
    l.find? p = l.find? q := by
  induction l with
  | nil => rfl
  | cons a l ih =>
    rw [find?_cons, find?_cons, h a mem_cons_self, ih fun b hb => h b (mem_cons_of_mem _ hb)]

theorem isNormal_of_mem_scopedBindings (channel accountId : String)
    (he : e ∈ scopedBindings cases cfg channel accountId) : e.match.IsNormal := by
  rw [evaluateFrom_match cases (mem_of_mem_filter he)]
  exact isNormal_normalizeBindingMatch cases _

/-- A binding of the lists of the channel and the account is one for the message. -/
theorem isScoped_iff {cfg : FoxClawConfig} {scope : RouteScope} (he : e ∈ evaluatedBindings cases cfg) :
    isScoped cases scope.channel scope.accountId e = true ↔ IsFor cases scope e.binding := by
  have hmem : e.binding ∈ (listBindings cfg).filter fun b => normalizeToken cases b.match.channel ≠ "" := by
    rw [← map_binding_evaluateFrom cases 0]
    exact List.mem_map_of_mem he
  have hnamed : normalizeToken cases e.binding.match.channel ≠ "" := by
    simpa using (mem_filter.mp hmem).2
  have hmatch := evaluateFrom_match cases he
  rw [isScoped, isAccountScoped, isAnyAccount, EvaluatedBinding.channel, hmatch]
  simp only [Bool.or_eq_true, Bool.and_eq_true, decide_eq_true_eq]
  constructor
  · rintro (⟨⟨hchannel, -⟩, haccount⟩ | ⟨hchannel, hany⟩)
    · exact ⟨hnamed, hchannel, .inr haccount⟩
    · exact ⟨hnamed, hchannel, .inl hany⟩
  · intro h
    by_cases hany : (normalizeBindingMatch cases e.binding.match).accountPattern = "*"
    · exact .inr ⟨h.channel, hany⟩
    · exact .inl ⟨⟨h.channel, hany⟩, h.account.resolve_left hany⟩

/-- What a tier finds in the lists is what it finds in the config. -/
theorem findIn_scopedBindings (scope : RouteScope) (tier : MatchedBy) :
    (findIn (scopedBindings cases cfg scope.channel scope.accountId) scope tier).map
        EvaluatedBinding.binding =
      (listBindings cfg).find? fun b =>
        IsFor cases scope b ∧ CanTake scope tier (normalizeBindingMatch cases b.match) := by
  rw [← find?_evaluateFrom cases 0]
  · unfold findIn scopedBindings evaluatedBindings
    rw [find?_filter]
    congr 1
    refine find?_congr fun e he => ?_
    rw [Bool.eq_iff_iff, decide_eq_true_eq, decide_eq_true_eq, decide_eq_true_eq, isScoped_iff cases he,
      evaluateFrom_match cases he]
  · intro b hb
    exact (of_decide_eq_true hb).1.named

/-- What the tiers find is what the plain rule takes. -/
theorem plainMatch_eq (scope : RouteScope) :
    ((tiers (buildEvaluatedBindingsIndex (scopedBindings cases cfg scope.channel scope.accountId))
        scope).findSome? (Tier.find scope)).map (fun found => (found.1.binding, found.2)) =
      plainMatch cases cfg scope := by
  rw [findSome_tiers fun e he => isNormal_of_mem_scopedBindings cases cfg _ _ he, map_findSome?]
  unfold plainMatch
  congr 1
  funext tier
  rw [← findIn_scopedBindings, Function.comp_apply, Option.map_map, Option.map_map]
  rfl

end Foxclaw.Routing
