import Foxclaw.Infra.ExecApprovals

/-!
# What the exec approvals file keeps

A flow writes the whole file it loaded before it waited. What the file says stays what the edits and the
grants add up to as long as each write is made with a file that is still current: nobody has changed the
settings or the patterns since the flow loaded it, but for the pattern that is granted.

## What is proved

* `policyOf_normalizeExecApprovals` — normalizing again changes neither settings nor patterns.
* `policyOf_addAllowlistEntry`, `policyOf_recordAllowlistUse` — what the writes do to a flow's own file.
* `kept_add_iff`, `kept_use_iff` — a write keeps the file right exactly when the flow's file is current.
* `kept_of_current` — the file is right all along a run whose writes are made with current files.
* `edit_reverted` — a tightened policy is undone.
-/

namespace Foxclaw.Infra.ExecApprovals

open JsMap Function Text List Option
open Routing (CaseMap DEFAULT_AGENT_ID)

variable {cases : CaseMap} {socketPath : String} {ids : String → ℕ → String}

/-! ### Normalization -/

/-- The patterns of an agent. -/
def ExecApprovalsAgent.patterns (agent : ExecApprovalsAgent) : List String :=
  (agent.allowlist.getD []).map (·.pattern)

variable (file : ExecApprovalsFile) (agent : String)

theorem patternsOf_eq :
    file.patternsOf agent = ((file.agentMap.get? agent).getD {}).patterns := rfl

/-- A file that normalization leaves as it is, but for ids. -/
structure Normal (file : ExecApprovalsFile) : Prop where
  noDefault : file.agentMap.get? "default" = none
  /-- No pattern is blank. -/
  given : ∀ agent, ∀ pattern ∈ file.patternsOf agent, isGiven pattern = true

@[simp] theorem ensureId_pattern (id : String) (entry : ExecAllowlistEntry) :
    (ensureId id entry).pattern = entry.pattern := by
  unfold ensureId
  split <;> rfl

theorem patterns_mapIdx (allowlist : List ExecAllowlistEntry) (f : ℕ → ExecAllowlistEntry → ExecAllowlistEntry)
    (hf : ∀ i entry, (f i entry).pattern = entry.pattern) :
    (allowlist.mapIdx f).map (·.pattern) = allowlist.map (·.pattern) := by
  refine ext_getElem (by simp) fun i hi hi' => ?_
  simp [hf]

theorem patterns_ensureAllowlistIds (key : String) (allowlist : Option (List ExecAllowlistEntry)) :
    ((ensureAllowlistIds ids key allowlist).getD []).map (·.pattern) =
      (allowlist.getD []).map (·.pattern) := by
  cases allowlist with
  | none => rfl
  | some allowlist => exact patterns_mapIdx allowlist _ fun i entry => ensureId_pattern _ entry

theorem patterns_coerceAllowlistEntries (allowlist : Option (List ExecAllowlistEntry)) :
    ((coerceAllowlistEntries allowlist).getD []).map (·.pattern) =
      ((allowlist.getD []).map (·.pattern)).filter isGiven := by
  cases allowlist with
  | none => rfl
  | some allowlist =>
    have hmap : (allowlist.map (·.pattern)).filter isGiven =
        (allowlist.filter fun entry => isGiven entry.pattern).map (·.pattern) := List.filter_map
    rw [coerceAllowlistEntries, getD_some, hmap]
    split
    · rename_i h
      rw [h, getD_some]
    · split
      · rename_i h
        rw [h]
        rfl
      · rfl

theorem get?_normalizeExecApprovals :
    (normalizeExecApprovals cases ids file).agentMap.get? agent =
      ((mergeDefaultAgent cases file.agentMap).get? agent).map fun a =>
        { a with allowlist := ensureAllowlistIds ids agent (coerceAllowlistEntries a.allowlist) } := by
  rw [normalizeExecApprovals, ExecApprovalsFile.agentMap, getD_some, get?_mapEntries]

theorem patternsOf_normalizeExecApprovals :
    (normalizeExecApprovals cases ids file).patternsOf agent =
      ((((mergeDefaultAgent cases file.agentMap).get? agent).getD {}).patterns).filter isGiven := by
  rw [patternsOf_eq, get?_normalizeExecApprovals]
  cases (mergeDefaultAgent cases file.agentMap).get? agent with
  | none => rfl
  | some a =>
    rw [map_some, getD_some, ExecApprovalsAgent.patterns, patterns_ensureAllowlistIds,
      patterns_coerceAllowlistEntries]
    rfl

theorem settings_normalizeExecApprovals :
    (((normalizeExecApprovals cases ids file).agentMap.get? agent).getD {}).toExecApprovalsDefaults =
      (((mergeDefaultAgent cases file.agentMap).get? agent).getD {}).toExecApprovalsDefaults := by
  rw [get?_normalizeExecApprovals]
  cases (mergeDefaultAgent cases file.agentMap).get? agent <;> rfl

theorem normal_normalizeExecApprovals : Normal (normalizeExecApprovals cases ids file) where
  noDefault := by
    rw [get?_normalizeExecApprovals, map_eq_none_iff, mergeDefaultAgent]
    split
    · assumption
    · exact get?_delete_self _ _
  given agent pattern hmem := by
    rw [patternsOf_normalizeExecApprovals] at hmem
    exact (mem_filter.mp hmem).2

theorem policyOf_normalizeExecApprovals_ids (ids' : String → ℕ → String) (file : ExecApprovalsFile) :
    policyOf (normalizeExecApprovals cases ids file) = policyOf (normalizeExecApprovals cases ids' file) := by
  simp only [policyOf, settings_normalizeExecApprovals, patternsOf_normalizeExecApprovals]
  rfl

/-- Normalizing a normal file does not change what it says. -/
theorem policyOf_normalizeExecApprovals {file : ExecApprovalsFile} (h : Normal file) :
    policyOf (normalizeExecApprovals cases ids file) = policyOf file := by
  have hmerge : mergeDefaultAgent cases file.agentMap = file.agentMap := by
    rw [mergeDefaultAgent, h.noDefault]
  have hgiven : ∀ agent, (file.patternsOf agent).filter isGiven = file.patternsOf agent :=
    fun agent => filter_eq_self.mpr (h.given agent)
  simp only [policyOf, settings_normalizeExecApprovals, patternsOf_normalizeExecApprovals, hmerge,
    ← patternsOf_eq, hgiven]
  rfl

theorem policyOf_load_some {file : ExecApprovalsFile} (h : Normal file) (io : IOValues) :
    policyOf (loadExecApprovals cases io (some file)) = policyOf file :=
  policyOf_normalizeExecApprovals h

theorem normal_ensureExecApprovals (io : IOValues) (disk : Option ExecApprovalsFile) :
    Normal (ensureExecApprovals cases socketPath io disk) :=
  let h : Normal (normalizeExecApprovals cases io.ids (loadExecApprovals cases io disk)) :=
    normal_normalizeExecApprovals _
  ⟨h.noDefault, h.given⟩

/-- Making sure that there is a file does not change what it says. -/
theorem policyOf_ensureExecApprovals (io io' : IOValues) (disk : Option ExecApprovalsFile) :
    policyOf (ensureExecApprovals cases socketPath io disk) = policyOf (loadExecApprovals cases io' disk) := by
  have hload : Normal (loadExecApprovals cases io disk) := normal_normalizeExecApprovals _
  calc policyOf (ensureExecApprovals cases socketPath io disk)
      = policyOf (normalizeExecApprovals cases io.ids (loadExecApprovals cases io disk)) := rfl
    _ = policyOf (loadExecApprovals cases io disk) := policyOf_normalizeExecApprovals hload
    _ = policyOf (loadExecApprovals cases io' disk) := policyOf_normalizeExecApprovals_ids _ _

/-! ### The writes -/

variable {io : IOValues} {file file' : ExecApprovalsFile} {agentId : Option String} {pattern : String}

theorem policyOf_set (agents : JsMap String ExecApprovalsAgent) (hagents : file.agentMap = agents)
    (target : String) (agent : ExecApprovalsAgent)
    (hsettings : agent.toExecApprovalsDefaults = ((agents.get? target).getD {}).toExecApprovalsDefaults) :
    policyOf { file with agents := some (agents.set target agent) } =
      { policyOf file with
        patterns := Function.update (policyOf file).patterns target { p | p ∈ agent.patterns } } := by
  subst hagents
  simp only [policyOf, ExecApprovalsFile.agentMap, getD_some, get?_set, patternsOf_eq]
  congr 1
  · funext a
    by_cases ha : target = a
    · subst ha
      rw [if_pos rfl]
      exact hsettings
    · rw [if_neg ha]
  · funext a
    by_cases ha : a = target
    · subst ha
      rw [Function.update_self, if_pos rfl]
      rfl
    · rw [update_of_ne ha, if_neg (Ne.symm ha)]

theorem normal_set (h : Normal file) (agents : JsMap String ExecApprovalsAgent)
    (hagents : file.agentMap = agents) {target : String} (htarget : target ≠ "default")
    {agent : ExecApprovalsAgent} (hgiven : ∀ pattern ∈ agent.patterns, isGiven pattern = true) :
    Normal { file with agents := some (agents.set target agent) } := by
  subst hagents
  constructor
  · simp only [ExecApprovalsFile.agentMap, getD_some, get?_set, if_neg htarget]
    exact h.noDefault
  · intro a pattern hmem
    simp only [patternsOf_eq, ExecApprovalsFile.agentMap, getD_some, get?_set] at hmem
    split at hmem
    · exact hgiven pattern hmem
    · exact h.given a pattern hmem

theorem addAllowlistEntry_eq_none :
    addAllowlistEntry io file agentId pattern = none ↔
      trimString pattern = "" ∨
        trimString pattern ∈ file.patternsOf (agentId.getD DEFAULT_AGENT_ID) := by
  unfold addAllowlistEntry
  dsimp only
  split
  · rename_i hblank
    exact iff_of_true rfl (.inl hblank)
  · rename_i hblank
    rw [ite_eq_left_iff, or_iff_right hblank]
    simp [patternsOf_eq, ExecApprovalsAgent.patterns]

/-- The flow's file gets the pattern. -/
theorem policyOf_addAllowlistEntry (h : addAllowlistEntry io file agentId pattern = some file') :
    policyOf file' = (policyOf file).grant (agentId.getD DEFAULT_AGENT_ID) (trimString pattern) := by
  unfold addAllowlistEntry at h
  dsimp only at h
  split at h
  · cases h
  · split at h
    · cases h
    · cases h
      rw [policyOf_set file.agentMap rfl, Policy.grant]
      swap
      · rfl
      refine congrArg (Policy.mk _ _) (congrArg (Function.update _ _) ?_)
      ext p
      simp [policyOf, patternsOf_eq, ExecApprovalsAgent.patterns, or_comm]

theorem Normal.addAllowlistEntry (hn : Normal file) (htarget : agentId.getD DEFAULT_AGENT_ID ≠ "default")
    (h : addAllowlistEntry io file agentId pattern = some file') : Normal file' := by
  unfold ExecApprovals.addAllowlistEntry at h
  dsimp only at h
  split at h
  · cases h
  · rename_i hblank
    split at h
    · cases h
    · cases h
      refine normal_set hn _ rfl htarget fun p hp => ?_
      simp only [ExecApprovalsAgent.patterns, getD_some, map_append, mem_append,
        map_cons, map_nil, mem_singleton] at hp
      rcases hp with hp | rfl
      · exact hn.given _ p hp
      · simpa [isGiven] using hblank

/-- Recording a use does not change what the flow's file says. -/
theorem policyOf_recordAllowlistUse (io : IOValues) (file : ExecApprovalsFile) (agentId : Option String)
    (pattern command : String) (resolvedPath : Option String) :
    policyOf (recordAllowlistUse io file agentId pattern command resolvedPath) = policyOf file := by
  unfold recordAllowlistUse
  dsimp only
  rw [policyOf_set file.agentMap rfl]
  swap
  · rfl
  have hsame := patterns_mapIdx
    (((file.agentMap.get? (agentId.getD DEFAULT_AGENT_ID)).getD {}).allowlist.getD [])
    (fun i item =>
      if item.pattern = pattern then
        { item with
          id := some (item.id.getD (io.ids (agentId.getD DEFAULT_AGENT_ID) i))
          lastUsedAt := some io.now
          lastUsedCommand := some command
          lastResolvedPath := resolvedPath }
      else item) fun i item => by split <;> rfl
  simp only [ExecApprovalsAgent.patterns, getD_some, hsame]
  exact congrArg (Policy.mk _ _) (update_eq_self _ _)

theorem Normal.recordAllowlistUse (hn : Normal file) (htarget : agentId.getD DEFAULT_AGENT_ID ≠ "default")
    (io : IOValues) (pattern command : String) (resolvedPath : Option String) :
    Normal (recordAllowlistUse io file agentId pattern command resolvedPath) := by
  unfold ExecApprovals.recordAllowlistUse
  refine normal_set hn _ rfl htarget fun p hp => ?_
  rw [ExecApprovalsAgent.patterns, getD_some, patterns_mapIdx _ _ fun i item => by split <;> rfl] at hp
  exact hn.given _ p hp

/-! ### Current files -/

/-- The file on disk says what the edits and the grants add up to. -/
def Kept (cases : CaseMap) (s : State) : Prop := s.policy cases = s.asked

/-- A file that differs from a policy at most in one pattern of one agent. -/
structure SameBut (agent pattern : String) (p q : Policy) : Prop where
  defaults : p.defaults = q.defaults
  agents : p.agents = q.agents
  patterns : ∀ a, ∀ x, (a, x) ≠ (agent, pattern) → (x ∈ p.patterns a ↔ x ∈ q.patterns a)

/-- The flow's file is current for its next write. The legacy agent `default` is written by nobody: what is
written to it belongs to the main agent as soon as the file is loaded. -/
def CurrentFor (cases : CaseMap) (s : State) (flow : Flow) : Write → Prop
  | .add pattern =>
    trimString pattern ≠ "" → flow.target ≠ "default" ∧
      if trimString pattern ∈ flow.file.patternsOf flow.target then
        trimString pattern ∈ (s.policy cases).patterns flow.target
      else SameBut flow.target (trimString pattern) (policyOf flow.file) (s.policy cases)
  | .use _ _ _ => flow.target ≠ "default" ∧ policyOf flow.file = s.policy cases

variable {flow : Flow}

/-- A flow whose file says what the file on disk says is current for every write. -/
theorem currentFor_of_eq {s : State} (htarget : flow.target ≠ "default")
    (h : policyOf flow.file = s.policy cases) (write : Write) : CurrentFor cases s flow write := by
  cases write with
  | add pattern =>
    refine fun _ => ⟨htarget, ?_⟩
    split
    · rename_i hmem
      rw [← h]
      exact hmem
    · rw [← h]
      exact ⟨rfl, rfl, fun _ _ _ => Iff.rfl⟩
  | use pattern command resolvedPath => exact ⟨htarget, h⟩

/-- Each write is made with a current file. -/
def Current (cases : CaseMap) (s : State) : Action → Prop
  | .write id _ => ∀ flow, s.flows.get? id = some flow → ∀ write todo, flow.todo = some (write :: todo) →
      CurrentFor cases s flow write
  | _ => True

theorem SameBut.grant_eq_iff {agent pattern : String} {p q : Policy} :
    p.grant agent pattern = q.grant agent pattern ↔ SameBut agent pattern p q := by
  constructor
  · intro h
    obtain ⟨hdefaults, hagents, hpatterns⟩ := Policy.mk.inj h
    refine ⟨hdefaults, hagents, fun a x hne => ?_⟩
    have ha := Set.ext_iff.mp (congrFun hpatterns a) x
    by_cases hself : a = agent
    · subst hself
      have hx : x ≠ pattern := fun heq => hne (by rw [heq])
      simpa [hx] using ha
    · simpa [update_of_ne hself] using ha
  · rintro ⟨hdefaults, hagents, hpatterns⟩
    rw [Policy.grant, Policy.grant, hdefaults, hagents]
    refine congrArg (Policy.mk _ _) (funext fun a => Set.ext fun x => ?_)
    by_cases hself : a = agent
    · subst hself
      simp only [Function.update_self, Set.mem_insert_iff]
      by_cases hx : x = pattern
      · simp [hx]
      · simp [hx, hpatterns a x (by simpa using hx)]
    · rw [update_of_ne hself, update_of_ne hself]
      exact hpatterns a x (by simp [hself])

theorem Policy.grant_eq_self_iff {agent pattern : String} {p : Policy} :
    p = p.grant agent pattern ↔ pattern ∈ p.patterns agent := by
  constructor
  · intro h
    rw [h]
    simp [Policy.grant]
  · intro h
    rw [Policy.grant, Set.insert_eq_of_mem h, update_eq_self]

/-- What holds in every run: the flows' files are normal, if no flow runs under the legacy agent. -/
def FlowsNormal (s : State) : Prop := ∀ id flow, s.flows.get? id = some flow → Normal flow.file

theorem FlowsNormal.set {s : State} (h : FlowsNormal s) (id : ℕ) (hflow : Normal flow.file)
    (disk : Option ExecApprovalsFile) (asked : Policy) :
    FlowsNormal { disk, flows := s.flows.set id flow, asked } := by
  intro id' flow' hget
  rw [get?_set] at hget
  split at hget
  · cases hget
    exact hflow
  · exact h id' flow' hget

theorem policy_some (hn : Normal file) (flows : JsMap ℕ Flow) (asked : Policy) :
    ({ disk := some file, flows, asked } : State).policy cases = policyOf file :=
  policyOf_load_some hn _

/-! ### Steps -/

variable {s s' : State}

variable {todo : List Write}

/-- An added pattern keeps the file right exactly when the flow's file is current. -/
theorem kept_add_iff {id : ℕ} {pattern : String}
    (hget : s.flows.get? id = some flow) (htodo : flow.todo = some (.add pattern :: todo))
    (hn : Normal flow.file) (htarget : flow.target ≠ "default") (hk : Kept cases s)
    (h : next cases socketPath s (.write id io) = some s') :
    Kept cases s' ↔ CurrentFor cases s flow (.add pattern) := by
  simp only [next, hget, htodo] at h
  by_cases hblank : trimString pattern = ""
  · have hnone : addAllowlistEntry io flow.file flow.agentId pattern = none :=
      addAllowlistEntry_eq_none.mpr (.inl hblank)
    simp only [hnone, if_pos hblank, some.injEq] at h
    subst h
    exact iff_of_true hk fun hne => absurd hblank hne
  · rw [CurrentFor]
    simp only [hblank, ne_eq, not_false_eq_true, htarget, true_and, forall_true_left]
    cases hadd : addAllowlistEntry io flow.file flow.agentId pattern with
    | none =>
      have hmem : trimString pattern ∈ flow.file.patternsOf flow.target :=
        (addAllowlistEntry_eq_none.mp hadd).resolve_left hblank
      simp only [hadd, if_neg hblank, some.injEq] at h
      subst h
      rw [if_pos hmem]
      change s.policy cases = s.asked.grant _ _ ↔ _
      rw [← hk]
      exact Policy.grant_eq_self_iff
    | some file =>
      have hmem : trimString pattern ∉ flow.file.patternsOf flow.target := fun hmem => by
        rw [addAllowlistEntry_eq_none.mpr (.inr hmem)] at hadd
        cases hadd
      simp only [hadd, if_neg hblank, some.injEq] at h
      subst h
      rw [if_neg hmem, Kept, policy_some (hn.addAllowlistEntry htarget hadd), policyOf_addAllowlistEntry hadd,
        ← SameBut.grant_eq_iff, ← hk]
      rfl

/-- A recorded use keeps the file right exactly when the flow's file is current. -/
theorem kept_use_iff {id : ℕ} {pattern command : String} {resolvedPath : Option String}
    (hget : s.flows.get? id = some flow)
    (htodo : flow.todo = some (.use pattern command resolvedPath :: todo)) (hn : Normal flow.file)
    (htarget : flow.target ≠ "default") (hk : Kept cases s)
    (h : next cases socketPath s (.write id io) = some s') :
    Kept cases s' ↔ CurrentFor cases s flow (.use pattern command resolvedPath) := by
  simp only [next, hget, htodo, some.injEq] at h
  subst h
  rw [Kept, policy_some (hn.recordAllowlistUse htarget io _ _ _), policyOf_recordAllowlistUse, CurrentFor,
    and_iff_right htarget, ← hk]

theorem flowsNormal_write {id : ℕ} {write : Write} (hf : FlowsNormal s) (hget : s.flows.get? id = some flow)
    (htodo : flow.todo = some (write :: todo)) (hcurrent : CurrentFor cases s flow write)
    (h : next cases socketPath s (.write id io) = some s') : FlowsNormal s' := by
  have hn := hf id flow hget
  cases write with
  | add pattern =>
    simp only [next, hget, htodo] at h
    cases hadd : addAllowlistEntry io flow.file flow.agentId pattern with
    | none =>
      simp only [hadd, some.injEq] at h
      subst h
      exact hf.set id (by exact hn) _ _
    | some file =>
      simp only [hadd, some.injEq] at h
      subst h
      have hblank : trimString pattern ≠ "" := fun hblank => by
        rw [addAllowlistEntry_eq_none.mpr (.inl hblank)] at hadd
        cases hadd
      exact hf.set id (by exact hn.addAllowlistEntry (hcurrent hblank).1 hadd) _ _
  | use pattern command resolvedPath =>
    simp only [next, hget, htodo, some.injEq] at h
    subst h
    exact hf.set id (by exact hn.recordAllowlistUse hcurrent.1 io _ _ _) _ _

/-- A step made with a current file keeps the file on disk right. -/
theorem kept_next {a : Action} (hk : FlowsNormal s ∧ Kept cases s) (hP : Current cases s a)
    (h : next cases socketPath s a = some s') : FlowsNormal s' ∧ Kept cases s' := by
  obtain ⟨hf, hk⟩ := hk
  cases a with
  | resolve id agentId overrides isMatch io =>
    have hdisk : Normal (ensureExecApprovals cases socketPath io s.disk) := normal_ensureExecApprovals _ _
    have hsame : policyOf (ensureExecApprovals cases socketPath io s.disk) = s.asked :=
      (policyOf_ensureExecApprovals io .reading s.disk).trans hk
    simp only [next] at h
    split at h
    · cases h
    · split at h
      · cases h
        exact ⟨hf, (policy_some hdisk _ _).trans hsame⟩
      · cases h
        exact ⟨hf.set id (normal_normalizeExecApprovals _) _ _, (policy_some hdisk _ _).trans hsame⟩
  | decide id decision command resolvedPath =>
    simp only [next] at h
    split at h
    · cases h
    · rename_i flow hget
      split at h
      · cases h
      · cases h
        exact ⟨hf.set id (by exact hf id flow hget) _ _, hk⟩
  | write id io =>
    have hnext := h
    simp only [next] at h
    cases hget : s.flows.get? id with
    | none => simp [hget] at h
    | some flow =>
      cases htodo : flow.todo with
      | none => simp [hget, htodo] at h
      | some writes =>
        cases writes with
        | nil => simp [hget, htodo] at h
        | cons write todo =>
          have hcurrent := hP flow hget write todo htodo
          refine ⟨flowsNormal_write hf hget htodo hcurrent hnext, ?_⟩
          have hn := hf id flow hget
          cases write with
          | add pattern =>
            by_cases hblank : trimString pattern = ""
            · have hnone : addAllowlistEntry io flow.file flow.agentId pattern = none :=
                addAllowlistEntry_eq_none.mpr (.inl hblank)
              simp only [hget, htodo, hnone, if_pos hblank, some.injEq] at h
              subst h
              exact hk
            · exact (kept_add_iff hget htodo hn (hcurrent hblank).1 hk hnext).mpr hcurrent
          | use pattern command resolvedPath =>
            exact (kept_use_iff hget htodo hn hcurrent.1 hk hnext).mpr hcurrent
  | edit file =>
    cases h
    exact ⟨hf, policyOf_normalizeExecApprovals_ids _ _⟩

/-- The start: a file on disk, and no flow. -/
def start (cases : CaseMap) (disk : Option ExecApprovalsFile) : State where
  disk
  flows := .empty
  asked := policyOf (loadExecApprovals cases .reading disk)

/-- All along a run whose writes are made with current files, the file on disk has the settings of the last
edit, and the patterns of the last edit and of the grants since. -/
theorem kept_of_current (disk : Option ExecApprovalsFile) {as : List Action}
    (h : Runs.Meets (next cases socketPath) (Current cases) (start cases disk) as) :
    Runs.Always (next cases socketPath) (Kept cases) (start cases disk) as := by
  have hstart : FlowsNormal (start cases disk) ∧ Kept cases (start cases disk) :=
    ⟨fun id flow hget => (by cases hget), rfl⟩
  exact (Runs.always_of_meets (fun _ _ _ hi hP hs => kept_next hi hP hs) h hstart).imp fun _ hi => hi.2

/-! ### A run, and two overlaps -/

/-- The values of a step of the examples. -/
def exampleIO : IOValues := ⟨fun key i => s!"{key}-{i}", "token", 0⟩

/-- A file that allows the commands of an allowlist, which has one pattern. -/
def allowlistFile : ExecApprovalsFile where
  defaults := some { security := some .allowlist }
  agents := some (JsMap.empty.set "main" { allowlist := some [{ pattern := "/usr/bin/git" }] })

/-- The same file, with the policy tightened. -/
def denyFile : ExecApprovalsFile :=
  { allowlistFile with defaults := some { security := some .deny } }

/-- What the tool asks for. -/
def exampleOverrides : Overrides := ⟨.full, .onMiss⟩

/-- A flow of the main agent, whose command matches nothing. -/
def resolves (id : ℕ) : Action := .resolve id none exampleOverrides (fun _ => false) exampleIO

/-- A pattern is always allowed for the flow's command. -/
def allowsAlways (id : ℕ) (pattern : String) : Action := .decide id (.allowAlways [pattern]) "rg foo" none

/-- An edit, and a flow that grants a pattern before anything else changes. -/
def grantRun : List Action :=
  [.edit allowlistFile, resolves 0, allowsAlways 0 "/usr/bin/rg", .write 0 exampleIO]

theorem kept_of_current_grantRun :
    Runs.Always (next .asciiOnly "sock") (Kept .asciiOnly) (start .asciiOnly none) grantRun := by
  refine kept_of_current none (.cons trivial rfl (.cons trivial rfl (.cons trivial rfl (.cons ?_ rfl trivial))))
  intro flow hget write todo _
  obtain rfl := some.inj hget
  refine currentFor_of_eq (by decide) ?_ write
  have hdisk := @normal_ensureExecApprovals .asciiOnly "sock" exampleIO (some allowlistFile)
  exact (policyOf_normalizeExecApprovals hdisk).trans (policyOf_load_some hdisk _).symm

/-- The policy is tightened while a flow waits. -/
def revertRun : List Action :=
  [.edit allowlistFile, resolves 0, .edit denyFile, allowsAlways 0 "/usr/bin/rg", .write 0 exampleIO]

/-- The flow's write undoes the edit. -/
theorem edit_reverted : ∃ t, Runs.exec (next .asciiOnly "sock") (start .asciiOnly none) revertRun = some t ∧
    ¬ Kept .asciiOnly t ∧ t.asked.defaults.security = some .deny ∧
    (t.policy .asciiOnly).defaults.security = some .allowlist := by
  refine ⟨_, rfl, fun hk => ?_, rfl, rfl⟩
  have hsecurity := congrArg (fun p => p.defaults.security) hk
  revert hsecurity
  decide

end Foxclaw.Infra.ExecApprovals
