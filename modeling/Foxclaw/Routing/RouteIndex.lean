import Foxclaw.Routing.ResolveRoute
import Mathlib.Data.List.Sort

/-!
# The lists and indexes of the bindings

The bindings of a channel are kept by their accounts, merged into source order, and indexed by what they
are constrained by. Each list that is kept is the list of the bindings in source order, without those that
do not belong there.

## What is proved

* `accountScoped_build`, `anyAccount_build` — the buckets of a channel.
* `mergeEvaluatedBindingsInSourceOrder_filter` — merging two parts of a list in source order.
* `byPeer_build`, `byGuildWithRoles_build`, `byGuild_build`, `byTeam_build`, `byAccount_build`,
  `byChannel_build` — the index.
-/

namespace Foxclaw.Routing

open List

variable (cases : CaseMap)

/-! ### Source order -/

/-- The bindings that have a channel, evaluated, with their orders from `order` on. -/
def evaluateFrom (order : ℕ) : List AgentBinding → List EvaluatedBinding
  | [] => []
  | b :: bs =>
    if normalizeToken cases b.match.channel = "" then evaluateFrom order bs
    else ⟨b, normalizeBindingMatch cases b.match, order⟩ :: evaluateFrom (order + 1) bs

variable {e : EvaluatedBinding}

variable {bs : List AgentBinding}

theorem le_order_of_mem_evaluateFrom {n : ℕ} (h : e ∈ evaluateFrom cases n bs) : n ≤ e.order := by
  induction bs generalizing n with
  | nil => cases h
  | cons b bs ih =>
    rw [evaluateFrom] at h
    split at h
    · exact ih h
    · rcases mem_cons.mp h with rfl | h
      · exact le_rfl
      · exact (Nat.le_succ n).trans (ih h)

/-- The orders increase. -/
theorem pairwise_evaluateFrom (n : ℕ) (bs : List AgentBinding) :
    (evaluateFrom cases n bs).Pairwise fun a b => a.order < b.order := by
  induction bs generalizing n with
  | nil => exact .nil
  | cons b bs ih =>
    rw [evaluateFrom]
    split
    · exact ih n
    · exact .cons (fun e he => le_order_of_mem_evaluateFrom cases he) (ih (n + 1))

/-- The channel of a binding. -/
def EvaluatedBinding.channel (e : EvaluatedBinding) : String := normalizeToken cases e.binding.match.channel

theorem evaluateFrom_match {n : ℕ}
    (h : e ∈ evaluateFrom cases n bs) : e.match = normalizeBindingMatch cases e.binding.match := by
  induction bs generalizing n with
  | nil => cases h
  | cons b bs ih =>
    rw [evaluateFrom] at h
    split at h
    · exact ih h
    · rcases mem_cons.mp h with rfl | h
      · rfl
      · exact ih h

/-- What is evaluated are the bindings that have a channel. -/
theorem map_binding_evaluateFrom (n : ℕ) (bs : List AgentBinding) :
    (evaluateFrom cases n bs).map EvaluatedBinding.binding =
      bs.filter fun b => normalizeToken cases b.match.channel ≠ "" := by
  induction bs generalizing n with
  | nil => rfl
  | cons b bs ih =>
    rw [evaluateFrom]
    split
    · rename_i hblank
      rw [ih, filter_cons_of_neg (by simp [hblank])]
    · rename_i hchannel
      rw [map_cons, ih, filter_cons_of_pos (by simp [hchannel])]

/-! ### The buckets of a channel -/

variable (byChannel : JsMap String EvaluatedBindingsByChannel)

/-- The bindings of an account. -/
def accountScoped (channel accountId : String) : List EvaluatedBinding :=
  ((byChannel.get? channel).bind fun b => b.byAccount.get? accountId).getD []

/-- The bindings of all accounts. -/
def anyAccount (channel : String) : List EvaluatedBinding :=
  ((byChannel.get? channel).map (·.byAnyAccount)).getD []

/-- Is it a binding of the account? -/
def isAccountScoped (channel accountId : String) (e : EvaluatedBinding) : Bool :=
  e.channel cases = channel && e.match.accountPattern ≠ "*" &&
    resolveAccountPatternKey cases e.match.accountPattern = accountId

/-- Is it a binding of all accounts? -/
def isAnyAccount (channel : String) (e : EvaluatedBinding) : Bool :=
  e.channel cases = channel && e.match.accountPattern = "*"

theorem get?_pushTo (map : JsMap String (List EvaluatedBinding)) (key : String) (e : EvaluatedBinding)
    (k : String) : ((pushTo map key e).get? k).getD [] =
      (map.get? k).getD [] ++ if key = k then [e] else [] := by
  rw [pushTo, JsMap.get?_set]
  by_cases h : key = k
  · subst h
    simp
  · simp [h]

/-- The bucket of a channel. -/
def bucketOf (channel : String) : EvaluatedBindingsByChannel :=
  (byChannel.get? channel).getD {}

theorem accountScoped_eq (channel accountId : String) :
    accountScoped byChannel channel accountId =
      ((bucketOf byChannel channel).byAccount.get? accountId).getD [] := by
  unfold accountScoped bucketOf
  cases byChannel.get? channel <;> rfl

theorem anyAccount_eq (channel : String) :
    anyAccount byChannel channel = (bucketOf byChannel channel).byAnyAccount := by
  unfold anyAccount bucketOf
  cases byChannel.get? channel <;> rfl

variable (acc : ℕ × JsMap String EvaluatedBindingsByChannel)

variable (b : AgentBinding)

theorem bucketOf_evaluateBinding
    (channel : String) (hb : normalizeToken cases b.match.channel ≠ "") :
    bucketOf (evaluateBinding cases acc b).2 channel =
      if normalizeToken cases b.match.channel = channel then
        if (normalizeBindingMatch cases b.match).accountPattern = "*" then
          { bucketOf acc.2 channel with
            byAnyAccount := (bucketOf acc.2 channel).byAnyAccount ++
              [⟨b, normalizeBindingMatch cases b.match, acc.1⟩] }
        else
          { bucketOf acc.2 channel with
            byAccount := pushTo (bucketOf acc.2 channel).byAccount
              (resolveAccountPatternKey cases (normalizeBindingMatch cases b.match).accountPattern)
              ⟨b, normalizeBindingMatch cases b.match, acc.1⟩ }
      else bucketOf acc.2 channel := by
  unfold bucketOf evaluateBinding
  dsimp only
  rw [if_neg hb, JsMap.get?_set]
  by_cases hchannel : normalizeToken cases b.match.channel = channel
  · subst hchannel
    rw [if_pos rfl, if_pos rfl, Option.getD_some]
  · rw [if_neg hchannel, if_neg hchannel]

/-- What the loop adds to the bindings of an account. -/
theorem accountScoped_evaluateBinding
    (channel accountId : String) (hb : normalizeToken cases b.match.channel ≠ "") :
    accountScoped (evaluateBinding cases acc b).2 channel accountId =
      accountScoped acc.2 channel accountId ++
        [⟨b, normalizeBindingMatch cases b.match, acc.1⟩].filter (isAccountScoped cases channel accountId) := by
  rw [accountScoped_eq, accountScoped_eq, bucketOf_evaluateBinding cases acc b channel hb]
  by_cases hchannel : normalizeToken cases b.match.channel = channel
  · rw [if_pos hchannel]
    by_cases hany : (normalizeBindingMatch cases b.match).accountPattern = "*"
    · rw [if_pos hany, filter_cons_of_neg (by simp [isAccountScoped, hany]), filter_nil,
        append_nil]
    · rw [if_neg hany]
      dsimp only
      rw [get?_pushTo]
      by_cases hkey : resolveAccountPatternKey cases (normalizeBindingMatch cases b.match).accountPattern =
          accountId
      · simp [isAccountScoped, EvaluatedBinding.channel, hchannel, hany, hkey]
      · simp [isAccountScoped, hkey]
  · simp [isAccountScoped, EvaluatedBinding.channel, hchannel]

/-- What the loop adds to the bindings of all accounts. -/
theorem anyAccount_evaluateBinding
    (channel : String) (hb : normalizeToken cases b.match.channel ≠ "") :
    anyAccount (evaluateBinding cases acc b).2 channel =
      anyAccount acc.2 channel ++
        [⟨b, normalizeBindingMatch cases b.match, acc.1⟩].filter (isAnyAccount cases channel) := by
  rw [anyAccount_eq, anyAccount_eq, bucketOf_evaluateBinding cases acc b channel hb]
  by_cases hchannel : normalizeToken cases b.match.channel = channel
  · rw [if_pos hchannel]
    by_cases hany : (normalizeBindingMatch cases b.match).accountPattern = "*"
    · rw [if_pos hany]
      simp [isAnyAccount, EvaluatedBinding.channel, hchannel, hany]
    · rw [if_neg hany]
      simp [isAnyAccount, hany]
  · simp [isAnyAccount, EvaluatedBinding.channel, hchannel]

theorem foldl_evaluateBinding (bs : List AgentBinding) (acc : ℕ × JsMap String EvaluatedBindingsByChannel)
    (channel accountId : String) :
    accountScoped (bs.foldl (evaluateBinding cases) acc).2 channel accountId =
        accountScoped acc.2 channel accountId ++
          (evaluateFrom cases acc.1 bs).filter (isAccountScoped cases channel accountId) ∧
      anyAccount (bs.foldl (evaluateBinding cases) acc).2 channel =
        anyAccount acc.2 channel ++ (evaluateFrom cases acc.1 bs).filter (isAnyAccount cases channel) := by
  induction bs generalizing acc with
  | nil => simp [evaluateFrom]
  | cons b bs ih =>
    rw [foldl_cons, evaluateFrom]
    by_cases hb : normalizeToken cases b.match.channel = ""
    · have hsame : evaluateBinding cases acc b = acc := by
        unfold evaluateBinding
        dsimp only
        rw [if_pos hb]
      rw [if_pos hb, hsame]
      exact ih acc
    · have horder : (evaluateBinding cases acc b).1 = acc.1 + 1 := by
        unfold evaluateBinding
        dsimp only
        rw [if_neg hb]
      obtain ⟨haccount, hany⟩ := ih (evaluateBinding cases acc b)
      rw [if_neg hb, haccount, hany, horder, accountScoped_evaluateBinding cases acc b channel accountId hb,
        anyAccount_evaluateBinding cases acc b channel hb, append_assoc, append_assoc,
        ← filter_append, ← filter_append]
      exact ⟨rfl, rfl⟩

variable (cfg : FoxClawConfig)

/-- The bindings of the config, evaluated. -/
def evaluatedBindings : List EvaluatedBinding := evaluateFrom cases 0 (listBindings cfg)

theorem accountScoped_build (channel accountId : String) :
    accountScoped (buildEvaluatedBindingsByChannel cases cfg) channel accountId =
      (evaluatedBindings cases cfg).filter (isAccountScoped cases channel accountId) := by
  rw [buildEvaluatedBindingsByChannel, (foldl_evaluateBinding cases _ _ channel accountId).1]
  rfl

theorem anyAccount_build (channel : String) :
    anyAccount (buildEvaluatedBindingsByChannel cases cfg) channel =
      (evaluatedBindings cases cfg).filter (isAnyAccount cases channel) := by
  rw [buildEvaluatedBindingsByChannel, (foldl_evaluateBinding cases _ _ channel "").2]
  rfl

/-! ### Merging -/

variable {p q : EvaluatedBinding → Bool}

theorem merge_filter {es : List EvaluatedBinding} (horder : es.Pairwise fun a b => a.order < b.order)
    (hdisjoint : ∀ e, p e = true → q e = false) :
    List.merge (es.filter p) (es.filter q) (fun a b => a.order ≤ b.order) = es.filter fun e => p e || q e := by
  induction es with
  | nil => simp
  | cons e es ih =>
    obtain ⟨hfirst, hrest⟩ := pairwise_cons.mp horder
    by_cases hp : p e = true
    · have hq : q e = false := hdisjoint e hp
      rw [filter_cons_of_pos hp, filter_cons_of_neg (by simp [hq]),
        filter_cons_of_pos (by simp [hp]), ← ih hrest]
      cases hfq : es.filter q with
      | nil => simp
      | cons b bs =>
        have hb : b ∈ es := mem_of_mem_filter (hfq ▸ mem_cons_self)
        exact cons_merge_cons_pos _ _ _ (by simpa using (hfirst b hb).le)
    · by_cases hq : q e = true
      · rw [filter_cons_of_neg hp, filter_cons_of_pos hq, filter_cons_of_pos (by simp [hq]), ← ih hrest]
        cases hfp : es.filter p with
        | nil => simp
        | cons a as =>
          have ha : a ∈ es := mem_of_mem_filter (hfp ▸ mem_cons_self)
          exact cons_merge_cons_neg _ _ _ (by simpa using hfirst a ha)
      · rw [filter_cons_of_neg hp, filter_cons_of_neg hq, filter_cons_of_neg (by simp [hp, hq]), ih hrest]

/-- Two parts of a list, merged, are the list without the rest. -/
theorem mergeEvaluatedBindingsInSourceOrder_filter {es : List EvaluatedBinding}
    (horder : es.Pairwise fun a b => a.order < b.order) (hdisjoint : ∀ e, p e = true → q e = false) :
    mergeEvaluatedBindingsInSourceOrder (es.filter p) (es.filter q) = es.filter fun e => p e || q e := by
  rw [← merge_filter horder hdisjoint]
  unfold mergeEvaluatedBindingsInSourceOrder
  split
  · rename_i hnil
    simp [hnil]
  · split
    · rename_i hnil
      simp [hnil]
    · rfl

/-- Is it a binding of the channel and the account? -/
def isScoped (channel accountId : String) (e : EvaluatedBinding) : Bool :=
  isAccountScoped cases channel accountId e || isAnyAccount cases channel e

/-- The bindings of a channel and an account, in source order. -/
def scopedBindings (cfg : FoxClawConfig) (channel accountId : String) : List EvaluatedBinding :=
  (evaluatedBindings cases cfg).filter (isScoped cases channel accountId)

/-- The merged list has the bindings of the channel and the account. -/
theorem merge_build (cfg : FoxClawConfig) (channel accountId : String) :
    mergeEvaluatedBindingsInSourceOrder
        (accountScoped (buildEvaluatedBindingsByChannel cases cfg) channel accountId)
        (anyAccount (buildEvaluatedBindingsByChannel cases cfg) channel) =
      scopedBindings cases cfg channel accountId := by
  rw [accountScoped_build, anyAccount_build]
  refine mergeEvaluatedBindingsInSourceOrder_filter (pairwise_evaluateFrom cases 0 _) fun e he => ?_
  simp only [isAccountScoped, Bool.and_eq_true, decide_eq_true_eq] at he
  simp [isAnyAccount, he.1.2]

/-! ### The index -/

theorem foldl_collects {σ : Type} {step : σ → EvaluatedBinding → σ} {F : σ → List EvaluatedBinding}
    {p : EvaluatedBinding → Bool} (h : ∀ s e, F (step s e) = F s ++ [e].filter p) (s : σ)
    (es : List EvaluatedBinding) : F (es.foldl step s) = F s ++ es.filter p := by
  induction es generalizing s with
  | nil => simp
  | cons e es ih => rw [foldl_cons, ih, h, append_assoc, ← filter_append, singleton_append]

variable {k : String}

theorem get?_pushToIndexMap (map : JsMap String (List EvaluatedBinding)) (key : String)
    (e : EvaluatedBinding) (hk : k ≠ "") :
    ((pushToIndexMap map key e).get? k).getD [] = (map.get? k).getD [] ++ if key = k then [e] else [] := by
  unfold pushToIndexMap
  split
  · rename_i hempty
    rw [if_neg (by simpa [hempty] using hk.symm), append_nil]
  · exact get?_pushTo map key e k

theorem peerKey_ne_empty (kind : ChatType) (id : String) : peerKey kind id ≠ "" := by
  intro h
  have := congrArg String.toList h
  cases kind <;> simp [peerKey, ChatType.text] at this

theorem peerKey_inj {kind kind' : ChatType} {id id' : String} (h : peerKey kind id = peerKey kind' id') :
    kind = kind' ∧ id = id' := by
  have := congrArg String.toList h
  cases kind <;> cases kind' <;> simp [peerKey, ChatType.text] at this ⊢ <;> exact String.toList_inj.mp this

/-- Is it a binding of a peer under this key? -/
def hasPeerKey (key : String) (e : EvaluatedBinding) : Bool :=
  match e.match.peer with
  | .valid kind id => (peerLookupKeys kind id).contains key
  | _ => false

/-- Is it a binding of the guild with roles? -/
def isGuildWithRoles (guildId : String) (e : EvaluatedBinding) : Bool :=
  !hasPeerConstraint e.match && e.match.guildId = some guildId && e.match.roles.isSome

/-- Is it a binding of the guild without roles? -/
def isGuild (guildId : String) (e : EvaluatedBinding) : Bool :=
  !hasPeerConstraint e.match && e.match.guildId = some guildId && e.match.roles.isNone

/-- Is it a binding of the team without a guild? -/
def isTeam (teamId : String) (e : EvaluatedBinding) : Bool :=
  !hasPeerConstraint e.match && e.match.guildId.isNone && e.match.teamId = some teamId

/-- Is it a binding without peer, guild and team? -/
def isPlain (e : EvaluatedBinding) : Bool :=
  !hasPeerConstraint e.match && e.match.guildId.isNone && e.match.teamId.isNone

/-- A binding that is pushed under some keys is found under each. -/
theorem get?_foldl_pushToIndexMap (keys : List String) (hkeys : keys.Nodup)
    (map : JsMap String (List EvaluatedBinding)) (e : EvaluatedBinding) (hk : k ≠ "") :
    ((keys.foldl (fun map key => pushToIndexMap map key e) map).get? k).getD [] =
      (map.get? k).getD [] ++ if k ∈ keys then [e] else [] := by
  induction keys generalizing map with
  | nil => simp
  | cons key keys ih =>
    obtain ⟨hnot, hkeys'⟩ := nodup_cons.mp hkeys
    rw [foldl_cons, ih hkeys', get?_pushToIndexMap map key e hk]
    by_cases heq : key = k
    · subst heq
      simp [hnot]
    · simp [heq, Ne.symm heq]

theorem nodup_peerLookupKeys (kind : ChatType) (id : String) : (peerLookupKeys kind id).Nodup := by
  have hne : peerKey .group id ≠ peerKey .channel id := fun h => by cases (peerKey_inj h).1
  cases kind <;> simp [peerLookupKeys, hne, hne.symm]

/-- Where a binding is put: to its peer, its guild, its team, its account or its channel. -/
theorem indexBinding_cases (index : EvaluatedBindingsIndex) (e : EvaluatedBinding) :
    (∃ kind id, e.match.peer = .valid kind id ∧ indexBinding index e = { index with
      byPeer := (peerLookupKeys kind id).foldl (fun map key => pushToIndexMap map key e) index.byPeer }) ∨
    (hasPeerConstraint e.match = false ∧ e.match.roles.isSome = true ∧ ∃ g, e.match.guildId = some g ∧
      indexBinding index e =
        { index with byGuildWithRoles := pushToIndexMap index.byGuildWithRoles g e }) ∨
    (hasPeerConstraint e.match = false ∧ e.match.roles = none ∧ ∃ g, e.match.guildId = some g ∧
      indexBinding index e = { index with byGuild := pushToIndexMap index.byGuild g e }) ∨
    (hasPeerConstraint e.match = false ∧ e.match.guildId = none ∧ ∃ t, e.match.teamId = some t ∧
      indexBinding index e = { index with byTeam := pushToIndexMap index.byTeam t e }) ∨
    (isPlain e = true ∧ e.match.accountPattern ≠ "*" ∧
      indexBinding index e = { index with byAccount := index.byAccount ++ [e] }) ∨
    (isPlain e = true ∧ e.match.accountPattern = "*" ∧
      indexBinding index e = { index with byChannel := index.byChannel ++ [e] }) := by
  have hnone (h : ∀ kind id, e.match.peer = .valid kind id → False) : hasPeerConstraint e.match = false := by
    unfold hasPeerConstraint
    split
    · rename_i kind id hpeer
      exact (h kind id hpeer).elim
    · rfl
  unfold indexBinding
  split
  · rename_i kind id hpeer
    exact .inl ⟨kind, id, hpeer, rfl⟩
  · rename_i hguild hroles hpeer
    exact .inr (.inl ⟨hnone hpeer, by simp [hroles], _, hguild, rfl⟩)
  · rename_i g hguild hroles hpeer
    exact .inr (.inr (.inl ⟨hnone hpeer, hroles, g, hguild, rfl⟩))
  · rename_i t hguild hteam hpeer
    exact .inr (.inr (.inr (.inl ⟨hnone hpeer, hguild, t, hteam, rfl⟩)))
  · rename_i hguild hteam hpeer
    have hplain : isPlain e = true := by simp [isPlain, hnone hpeer, hguild, hteam]
    split
    · rename_i hpattern
      exact .inr (.inr (.inr (.inr (.inl ⟨hplain, hpattern, rfl⟩))))
    · rename_i hpattern
      exact .inr (.inr (.inr (.inr (.inr ⟨hplain, not_not.mp hpattern, rfl⟩))))

theorem hasPeerConstraint_of_valid {m : NormalizedBindingMatch} {kind : ChatType} {id : String}
    (h : m.peer = .valid kind id) : hasPeerConstraint m = true := by
  rw [hasPeerConstraint, h]

theorem hasPeerKey_of_none (h : hasPeerConstraint e.match = false) (key : String) :
    hasPeerKey key e = false := by
  unfold hasPeerKey
  split
  · rename_i kind id hpeer
    rw [hasPeerConstraint_of_valid hpeer] at h
    cases h
  · rfl

theorem isPlain_iff : isPlain e = true ↔
    hasPeerConstraint e.match = false ∧ e.match.guildId = none ∧ e.match.teamId = none := by
  simp [isPlain, and_assoc]

/-- What a binding adds to each list. -/
theorem indexBinding_adds (index : EvaluatedBindingsIndex) (e : EvaluatedBinding) {key : String} (hkey : key ≠ "") :
    (((indexBinding index e).byPeer.get? key).getD [] =
        (index.byPeer.get? key).getD [] ++ [e].filter (hasPeerKey key) ∧
      ((indexBinding index e).byGuildWithRoles.get? key).getD [] =
        (index.byGuildWithRoles.get? key).getD [] ++ [e].filter (isGuildWithRoles key) ∧
      ((indexBinding index e).byGuild.get? key).getD [] =
        (index.byGuild.get? key).getD [] ++ [e].filter (isGuild key)) ∧
    ((indexBinding index e).byTeam.get? key).getD [] =
        (index.byTeam.get? key).getD [] ++ [e].filter (isTeam key) ∧
      (indexBinding index e).byAccount =
        index.byAccount ++ [e].filter (fun e => isPlain e && e.match.accountPattern ≠ "*") ∧
      (indexBinding index e).byChannel =
        index.byChannel ++ [e].filter (fun e => isPlain e && e.match.accountPattern = "*") := by
  rcases indexBinding_cases index e with ⟨kind, id, hpeer, heq⟩ | ⟨hnone, hroles, g, hg, heq⟩ |
    ⟨hnone, hroles, g, hg, heq⟩ | ⟨hnone, hg, t, ht, heq⟩ | ⟨hplain, hpattern, heq⟩ | ⟨hplain, hpattern, heq⟩
  · rw [heq, get?_foldl_pushToIndexMap _ (nodup_peerLookupKeys kind id) _ _ hkey]
    by_cases hmem : key ∈ peerLookupKeys kind id <;>
      simp [hasPeerKey, isGuildWithRoles, isGuild, isTeam, isPlain, hasPeerConstraint_of_valid hpeer, hpeer, hmem]
  · rw [heq, get?_pushToIndexMap _ _ _ hkey]
    by_cases h : g = key <;> simp [hasPeerKey_of_none hnone, isGuildWithRoles, isGuild, isTeam, isPlain, hnone, hg, h,
      Option.isSome_iff_ne_none.mp hroles, hroles]
  · rw [heq, get?_pushToIndexMap _ _ _ hkey]
    by_cases h : g = key <;>
      simp [hasPeerKey_of_none hnone, isGuildWithRoles, isGuild, isTeam, isPlain, hnone, hg, h, hroles]
  · rw [heq, get?_pushToIndexMap _ _ _ hkey]
    by_cases h : t = key <;>
      simp [hasPeerKey_of_none hnone, isGuildWithRoles, isGuild, isTeam, isPlain, hnone, hg, ht, h]
  all_goals
    obtain ⟨hnone, hguild, hteam⟩ := isPlain_iff.mp hplain
    simp [heq, hasPeerKey_of_none hnone, isGuildWithRoles, isGuild, isTeam, hplain, hguild, hteam, hpattern]

variable {guildId : String}

variable (es : List EvaluatedBinding)

theorem byPeer_build {key : String} (hkey : key ≠ "") :
    ((buildEvaluatedBindingsIndex es).byPeer.get? key).getD [] = es.filter (hasPeerKey key) :=
  foldl_collects (F := fun index : EvaluatedBindingsIndex => (index.byPeer.get? key).getD [])
    (fun index e => (indexBinding_adds index e hkey).1.1) {} es

theorem byGuildWithRoles_build (hguild : guildId ≠ "") :
    ((buildEvaluatedBindingsIndex es).byGuildWithRoles.get? guildId).getD [] =
      es.filter (isGuildWithRoles guildId) :=
  foldl_collects (F := fun index : EvaluatedBindingsIndex => (index.byGuildWithRoles.get? guildId).getD [])
    (fun index e => (indexBinding_adds index e hguild).1.2.1) {} es

theorem byGuild_build (hguild : guildId ≠ "") :
    ((buildEvaluatedBindingsIndex es).byGuild.get? guildId).getD [] = es.filter (isGuild guildId) :=
  foldl_collects (F := fun index : EvaluatedBindingsIndex => (index.byGuild.get? guildId).getD [])
    (fun index e => (indexBinding_adds index e hguild).1.2.2) {} es

theorem byTeam_build {teamId : String} (hteam : teamId ≠ "") :
    ((buildEvaluatedBindingsIndex es).byTeam.get? teamId).getD [] = es.filter (isTeam teamId) :=
  foldl_collects (F := fun index : EvaluatedBindingsIndex => (index.byTeam.get? teamId).getD [])
    (fun index e => (indexBinding_adds index e hteam).2.1) {} es

theorem byAccount_build : (buildEvaluatedBindingsIndex es).byAccount =
    es.filter fun e => isPlain e && e.match.accountPattern ≠ "*" :=
  foldl_collects (fun index e => (indexBinding_adds index e (show "x" ≠ "" by decide)).2.2.1) {} es

theorem byChannel_build : (buildEvaluatedBindingsIndex es).byChannel =
    es.filter fun e => isPlain e && e.match.accountPattern = "*" :=
  foldl_collects (fun index e => (indexBinding_adds index e (show "x" ≠ "" by decide)).2.2.2) {} es

end Foxclaw.Routing
