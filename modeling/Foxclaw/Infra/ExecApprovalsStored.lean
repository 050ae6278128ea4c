import Foxclaw.Infra.ExecAllowlistPattern
import Foxclaw.Infra.ExecApprovalsPolicy

/-!
# Exec approvals as they stand in the file

`normalizeExecApprovals` reads files in which an item of an allowlist may be a text. Here an item is a text
or an entry, and what the function makes of such files is compared with what they grant. Patterns are
compared by what they match (`matched`), which is a parameter: off Windows it is that of
`Infra.AllowlistPattern` (`posixMatched`), on Windows it passes over the case of letters.

## What is proved

* `normalizedRight_iff` — what is asked of the normalization (`NormalizedRight`) holds exactly if the merge of
  the legacy agent loses nothing that is matched (`Mergeable`).
* `text_lost` — a text in the main agent's list is lost when there is a legacy agent.
-/

namespace Foxclaw.Infra.ExecApprovals

open JsMap Text List Option
open Routing (CaseMap DEFAULT_AGENT_ID)

/-! ### Items -/

/-- An item of an allowlist. -/
inductive Item where
  | text (value : String)
  | entry (value : ExecAllowlistEntry)
  deriving DecidableEq

/-- The entry that an item is made. -/
def Item.toEntry : Item → ExecAllowlistEntry
  | .text value => { pattern := trimString value }
  | .entry value => value

/-- The items that are entries. -/
def entries (items : List Item) : List ExecAllowlistEntry :=
  items.filterMap fun
    | .text _ => none
    | .entry value => some value

/-- The pattern of the item; that of a text is trimmed. -/
def Item.pattern (item : Item) : String := item.toEntry.pattern

structure StoredAgent extends ExecApprovalsDefaults where
  allowlist : Option (List Item) := none
  deriving DecidableEq

structure StoredFile where
  socket : Option ExecApprovalsSocket := none
  defaults : Option ExecApprovalsDefaults := none
  agents : JsMap String StoredAgent := .empty
  deriving DecidableEq

variable (file : StoredFile) (agent : String)

/-- The items of an agent. -/
def StoredFile.items : List Item :=
  ((file.agents.get? agent).getD {}).allowlist.getD []

def StoredFile.settings : ExecApprovalsDefaults :=
  ((file.agents.get? agent).getD {}).toExecApprovalsDefaults

/-- The items of an agent that are not blank. -/
def StoredFile.given : List Item :=
  (file.items agent).filter (isGiven ·.pattern)

/-! ### Normalization -/

section

variable (cases : CaseMap) (ids : String → ℕ → String)

/-- `a ?? b`, for each setting. -/
def ExecApprovalsDefaults.or (a b : ExecApprovalsDefaults) : ExecApprovalsDefaults where
  security := a.security.or b.security
  ask := a.ask.or b.ask
  askFallback := a.askFallback.or b.askFallback
  autoAllowSkills := a.autoAllowSkills.or b.autoAllowSkills

/-- `mergeLegacyAgent`; a text has no `pattern`, so that `pushEntry` passes over it. -/
def mergeStoredAgent (current legacy : StoredAgent) : StoredAgent :=
  let allowlist := pushEntries cases [] (entries (current.allowlist.getD [] ++ legacy.allowlist.getD []))
  { current.toExecApprovalsDefaults.or legacy.toExecApprovalsDefaults with
    allowlist := if allowlist = [] then none else some (allowlist.map .entry) }

/-- `coerceAllowlistEntries`. -/
def coerceItems : Option (List Item) → Option (List Item)
  | none => none
  | some [] => some []
  | some (first :: rest) =>
    let result := ((first :: rest).filter (isGiven ·.pattern)).map fun item => .entry item.toEntry
    if result = [] then none else some result

/-- The agents, with the legacy agent `default` merged into the main one. -/
def mergeStoredDefault (agents : JsMap String StoredAgent) : JsMap String StoredAgent :=
  match agents.get? "default" with
  | none => agents
  | some legacyDefault =>
    let main :=
      match agents.get? DEFAULT_AGENT_ID with
      | some main => mergeStoredAgent cases main legacyDefault
      | none => legacyDefault
    (agents.set DEFAULT_AGENT_ID main).delete "default"

/-- What an agent's allowlist is made, with `ensureAllowlistIds`. -/
def normalizeItems (key : String) (allowlist : Option (List Item)) : Option (List Item) :=
  (coerceItems allowlist).map (List.mapIdx fun i item => .entry (ensureId (ids key i) item.toEntry))

/-- `normalizeExecApprovals`. -/
def normalizeStored (file : StoredFile) : StoredFile where
  socket := some
    { path := trimmedText (file.socket.bind (·.path)), token := trimmedText (file.socket.bind (·.token)) }
  defaults := some (file.defaults.getD {})
  agents := (mergeStoredDefault cases file.agents).mapEntries fun key agent =>
    { agent with allowlist := normalizeItems ids key agent.allowlist }

variable {γ : Type} (matched : String → γ)

/-- What is asked of the normalization, when `matched` is what a pattern matches. -/
structure NormalizedRight (file : StoredFile) : Prop where
  /-- The main agent has what it granted and what the legacy agent granted. -/
  main : ∀ m, m ∈ ((normalizeStored cases ids file).items DEFAULT_AGENT_ID).map (matched ·.pattern) ↔
    m ∈ (file.given DEFAULT_AGENT_ID ++ file.given "default").map (matched ·.pattern)
  others : ∀ agent, agent ≠ DEFAULT_AGENT_ID → agent ≠ "default" →
    ((normalizeStored cases ids file).items agent).map (·.pattern) = (file.given agent).map (·.pattern)
  /-- Every item is an entry with an id. -/
  withId : ∀ agent, ∀ item ∈ (normalizeStored cases ids file).items agent,
    ∃ entry id, item = .entry entry ∧ entry.id = some id ∧ id ≠ ""
  settings : (normalizeStored cases ids file).settings DEFAULT_AGENT_ID =
    (file.settings DEFAULT_AGENT_ID).or (file.settings "default")
  /-- Normalizing again changes nothing. -/
  again : ∀ ids', normalizeStored cases ids' (normalizeStored cases ids file) = normalizeStored cases ids file

/-- An entry that is not blank, and whose pattern no entry before it has up to the case of letters. -/
def IsFirst (list : List ExecAllowlistEntry) (entry : ExecAllowlistEntry) : Prop :=
  isGiven entry.pattern = true ∧ ∃ before after, list = before ++ entry :: after ∧
    ∀ e ∈ before, normalizeAllowlistPattern cases e.pattern ≠ normalizeAllowlistPattern cases entry.pattern

/-- The merge loses nothing of these items: what an item matches an entry matches that is the first of
its pattern, up to the case of letters. -/
def Mergeable (items : List Item) : Prop :=
  ∀ item ∈ items, isGiven item.pattern = true →
    ∃ entry, IsFirst cases (entries items) entry ∧ matched entry.pattern = matched item.pattern

end

/-! ### Merging -/

variable {cases : CaseMap} {ids : String → ℕ → String} {γ : Type} {matched : String → γ}
  {entry : ExecAllowlistEntry}

/-- An entry is kept if no entry before it has its pattern, and it was not seen. -/
theorem mem_pushEntries {seen : List String} {list : List ExecAllowlistEntry} :
    entry ∈ pushEntries cases seen list ↔
      ∃ key ∉ seen, normalizeAllowlistPattern cases entry.pattern = some key ∧
        ∃ before after, list = before ++ entry :: after ∧
          ∀ e ∈ before, normalizeAllowlistPattern cases e.pattern ≠ some key := by
  induction list generalizing seen with
  | nil => simp [pushEntries]
  | cons first rest ih =>
    -- the first entry, or one of the rest
    have hsplit : ∀ key, (∃ before after, first :: rest = before ++ entry :: after ∧
          ∀ e ∈ before, normalizeAllowlistPattern cases e.pattern ≠ some key) ↔
        first = entry ∨ (normalizeAllowlistPattern cases first.pattern ≠ some key ∧
          ∃ before after, rest = before ++ entry :: after ∧
            ∀ e ∈ before, normalizeAllowlistPattern cases e.pattern ≠ some key) := by
      intro key
      constructor
      · rintro ⟨_ | ⟨e, before⟩, after, heq, hbefore⟩
        · exact .inl (cons.inj heq).1
        · obtain ⟨rfl, hrest⟩ := cons.inj heq
          exact .inr ⟨hbefore _ mem_cons_self, before, after, hrest,
            fun e he => hbefore e (mem_cons_of_mem _ he)⟩
      · rintro (rfl | ⟨hfirst, before, after, rfl, hbefore⟩)
        · exact ⟨[], rest, rfl, fun _ h => absurd h not_mem_nil⟩
        · exact ⟨first :: before, after, rfl, forall_mem_cons.mpr ⟨hfirst, hbefore⟩⟩
    simp only [hsplit]
    rw [pushEntries]
    cases hfirst : normalizeAllowlistPattern cases first.pattern with
    | none =>
      rw [ih]
      refine exists_congr fun key => and_congr_right fun _ => and_congr_right fun hkey => ?_
      refine ⟨fun h => .inr ⟨nofun, h⟩, ?_⟩
      rintro (rfl | ⟨-, h⟩)
      · rw [hfirst] at hkey
        cases hkey
      · exact h
    | some key' =>
      dsimp only
      split_ifs with hseen
      · rw [ih]
        refine exists_congr fun key => and_congr_right fun hkey => and_congr_right fun hpattern => ?_
        refine ⟨fun h => .inr ⟨fun heq => hkey (some.inj heq ▸ hseen), h⟩, ?_⟩
        rintro (rfl | ⟨-, h⟩)
        · exact absurd (some.inj (hfirst.symm.trans hpattern) ▸ hseen) hkey
        · exact h
      · rw [mem_cons, ih]
        constructor
        · rintro (rfl | ⟨key, hkey, hpattern, h⟩)
          · exact ⟨key', hseen, hfirst, .inl rfl⟩
          · exact ⟨key, fun hmem => hkey (mem_cons_of_mem _ hmem), hpattern,
              .inr ⟨fun heq => hkey (some.inj heq ▸ mem_cons_self), h⟩⟩
        · rintro ⟨key, hkey, hpattern, rfl | ⟨hne, h⟩⟩
          · exact .inl rfl
          · refine .inr ⟨key, fun hmem => ?_, hpattern, h⟩
            rcases mem_cons.mp hmem with rfl | hmem
            · exact hne rfl
            · exact hkey hmem

theorem normalizeAllowlistPattern_eq_some (cases : CaseMap) {pattern : String} :
    (∃ key, normalizeAllowlistPattern cases pattern = some key) ↔ isGiven pattern = true := by
  unfold normalizeAllowlistPattern isGiven
  dsimp only
  split_ifs with h <;> simp [h]

/-- What the merge keeps. -/
theorem isFirst_iff {list : List ExecAllowlistEntry} :
    IsFirst cases list entry ↔ entry ∈ pushEntries cases [] list := by
  rw [mem_pushEntries, IsFirst, ← normalizeAllowlistPattern_eq_some cases]
  constructor
  · rintro ⟨⟨key, hkey⟩, h⟩
    exact ⟨key, not_mem_nil, hkey, hkey ▸ h⟩
  · rintro ⟨key, -, hkey, h⟩
    exact ⟨⟨key, hkey⟩, hkey ▸ h⟩

theorem IsFirst.mem {items : List Item} (h : IsFirst cases (entries items) entry) : .entry entry ∈ items := by
  obtain ⟨-, before, after, heq, -⟩ := h
  have hmem : entry ∈ entries items := heq ▸ mem_append_right _ mem_cons_self
  rw [entries, mem_filterMap] at hmem
  obtain ⟨_ | value, hmem, hvalue⟩ := hmem
  · cases hvalue
  · cases hvalue
    exact hmem

/-- The merge keeps what is matched exactly if the first entries match it. -/
theorem merged_iff (items : List Item) :
    (∀ m, m ∈ (pushEntries cases [] (entries items)).map (matched ·.pattern) ↔
      m ∈ (items.filter (isGiven ·.pattern)).map (matched ·.pattern)) ↔ Mergeable cases matched items := by
  constructor
  · intro h item hitem hgiven
    have hmem := (h (matched item.pattern)).mpr
      (List.mem_map.mpr ⟨item, mem_filter.mpr ⟨hitem, hgiven⟩, rfl⟩)
    obtain ⟨entry, hentry, heq⟩ := List.mem_map.mp hmem
    exact ⟨entry, isFirst_iff.mpr hentry, heq⟩
  · intro h m
    constructor
    · intro hm
      obtain ⟨entry, hentry, rfl⟩ := List.mem_map.mp hm
      have hfirst : IsFirst cases (entries items) entry := isFirst_iff.mpr hentry
      exact List.mem_map.mpr ⟨.entry entry, mem_filter.mpr ⟨hfirst.mem, hfirst.1⟩, rfl⟩
    · intro hm
      obtain ⟨item, hitem, rfl⟩ := List.mem_map.mp hm
      obtain ⟨entry, hfirst, heq⟩ := h item (mem_filter.mp hitem).1 (mem_filter.mp hitem).2
      exact List.mem_map.mpr ⟨entry, isFirst_iff.mp hfirst, heq⟩

/-! ### The normalized file -/

/-- An entry that grants something, with an id. -/
def Item.Finished (item : Item) : Prop :=
  isGiven item.pattern = true ∧ ∃ entry id, item = .entry entry ∧ entry.id = some id ∧ id ≠ ""

theorem ensureId_id {id : String} (h : id ≠ "") (entry : ExecAllowlistEntry) :
    ∃ id', (ensureId id entry).id = some id' ∧ id' ≠ "" := by
  unfold ensureId
  split_ifs with hid
  · exact ⟨id, rfl, h⟩
  · obtain ⟨id', hsome⟩ := ne_none_iff_exists'.mp (not_or.mp hid).1
    exact ⟨id', hsome, fun hempty => hid (.inr (hempty ▸ hsome))⟩

/-- What becomes of an allowlist. -/
theorem normalizeItems_spec (hids : ∀ key i, ids key i ≠ "") (key : String) (allowlist : Option (List Item)) :
    ((normalizeItems ids key allowlist).getD []).map (·.pattern) =
        ((allowlist.getD []).filter (isGiven ·.pattern)).map (·.pattern) ∧
      ∀ item ∈ (normalizeItems ids key allowlist).getD [], item.Finished := by
  rcases allowlist with _ | _ | ⟨first, rest⟩
  · exact ⟨rfl, fun item h => by cases h⟩
  · exact ⟨rfl, fun item h => by cases h⟩
  · rw [normalizeItems, coerceItems, getD_some]
    have hgiven : ∀ item ∈ (first :: rest).filter (isGiven ·.pattern), isGiven item.pattern = true :=
      fun item hitem => (mem_filter.mp hitem).2
    revert hgiven
    generalize (first :: rest).filter (isGiven ·.pattern) = kept
    intro hgiven
    split_ifs with hnone
    · rw [map_eq_nil_iff.mp hnone]
      exact ⟨rfl, fun item h => by cases h⟩
    · rw [map_some, getD_some]
      refine ⟨ext_getElem (by simp) fun i hi hi' => by simp [Item.pattern, Item.toEntry], fun item hitem => ?_⟩
      obtain ⟨i, hi, rfl⟩ := mem_iff_getElem.mp hitem
      rw [getElem_mapIdx, getElem_map]
      have hi' : i < kept.length := by simpa using hi
      obtain ⟨id, hid, hne⟩ := ensureId_id (hids key i) kept[i].toEntry
      refine ⟨?_, _, id, rfl, hid, hne⟩
      simpa [Item.pattern, Item.toEntry] using hgiven _ (getElem_mem hi')

theorem normalizeItems_of_finished (key : String) {allowlist : Option (List Item)}
    (h : ∀ item ∈ allowlist.getD [], item.Finished) : normalizeItems ids key allowlist = allowlist := by
  rcases allowlist with _ | _ | ⟨first, rest⟩
  · rfl
  · rfl
  · rw [getD_some] at h
    have hall : (first :: rest).filter (isGiven ·.pattern) = first :: rest :=
      filter_eq_self.mpr fun item hitem => (h item hitem).1
    rw [normalizeItems, coerceItems, hall, if_neg (by simp), map_some]
    refine congrArg some (ext_getElem (by simp) fun i hi hi' => ?_)
    obtain ⟨-, entry, id, heq, hid, hne⟩ := h _ (getElem_mem hi')
    rw [getElem_mapIdx, getElem_map, heq, Item.toEntry, Item.toEntry, ensureId, if_neg]
    simp [hid, hne]

theorem items_normalizeStored (file : StoredFile) (agent : String) :
    (normalizeStored cases ids file).items agent =
      (normalizeItems ids agent
        (((mergeStoredDefault cases file.agents).get? agent).getD {}).allowlist).getD [] := by
  rw [StoredFile.items, normalizeStored, get?_mapEntries]
  cases (mergeStoredDefault cases file.agents).get? agent <;> rfl

theorem get?_mergeStoredDefault (agents : JsMap String StoredAgent) {agent : String}
    (hne : agent ≠ DEFAULT_AGENT_ID) (hne' : agent ≠ "default") :
    (mergeStoredDefault cases agents).get? agent = agents.get? agent := by
  unfold mergeStoredDefault
  split
  · rfl
  · rw [get?_delete, if_neg hne'.symm, get?_set, if_neg hne.symm]

theorem default_mergeStoredDefault (agents : JsMap String StoredAgent) :
    (mergeStoredDefault cases agents).get? "default" = none := by
  unfold mergeStoredDefault
  split
  · assumption
  · exact get?_delete_self _ _

theorem trimmedText_trimmedText (value : Option String) : trimmedText (trimmedText value) = trimmedText value := by
  cases value with
  | none => rfl
  | some value =>
    by_cases h : trimString value = "" <;> simp [trimmedText, h]

theorem again_normalizeStored (hids : ∀ key i, ids key i ≠ "") (file : StoredFile)
    (ids' : String → ℕ → String) :
    normalizeStored cases ids' (normalizeStored cases ids file) = normalizeStored cases ids file := by
  have hmerge : mergeStoredDefault cases (normalizeStored cases ids file).agents =
      (normalizeStored cases ids file).agents := by
    rw [mergeStoredDefault, normalizeStored, get?_mapEntries, default_mergeStoredDefault, map_none]
  have hagents : (normalizeStored cases ids' (normalizeStored cases ids file)).agents =
      (normalizeStored cases ids file).agents := by
    rw [normalizeStored, hmerge]
    refine eq_of_entries ?_
    dsimp only [normalizeStored, JsMap.mapEntries]
    rw [List.map_map]
    refine map_congr_left fun e _ => ?_
    simp [normalizeItems_of_finished e.1 (normalizeItems_spec hids e.1 e.2.allowlist).2]
  rw [normalizeStored, StoredFile.mk.injEq]
  refine ⟨?_, rfl, hagents⟩
  simp [normalizeStored, trimmedText_trimmedText]

theorem patterns_normalizeStored (hids : ∀ key i, ids key i ≠ "") (file : StoredFile) (agent : String) :
    ((normalizeStored cases ids file).items agent).map (·.pattern) =
      (((((mergeStoredDefault cases file.agents).get? agent).getD {}).allowlist.getD []).filter
        (isGiven ·.pattern)).map (·.pattern) := by
  rw [items_normalizeStored]
  exact (normalizeItems_spec hids _ _).1

/-- What the merge gives the main agent. -/
theorem main_iff (hids : ∀ key i, ids key i ≠ "") (file : StoredFile) :
    (∀ m, m ∈ ((normalizeStored cases ids file).items DEFAULT_AGENT_ID).map (matched ·.pattern) ↔
      m ∈ (file.given DEFAULT_AGENT_ID ++ file.given "default").map (matched ·.pattern)) ↔
      ((file.agents.get? DEFAULT_AGENT_ID).isSome → (file.agents.get? "default").isSome →
        Mergeable cases matched (file.items DEFAULT_AGENT_ID ++ file.items "default")) := by
  have hmatched := congrArg (List.map matched) (@patterns_normalizeStored cases ids hids file DEFAULT_AGENT_ID)
  simp only [List.map_map, Function.comp_def] at hmatched
  rw [hmatched, StoredFile.given, StoredFile.given, ← filter_append]
  have hne : ("default" : String) ≠ DEFAULT_AGENT_ID := by decide
  unfold mergeStoredDefault StoredFile.items
  cases hdefault : file.agents.get? "default" with
  | none => simp
  | some legacy =>
    dsimp only
    rw [get?_delete, if_neg hne, get?_set_self]
    cases hmain : file.agents.get? DEFAULT_AGENT_ID with
    | none => simp
    | some main =>
      have hkept : (mergeStoredAgent cases main legacy).allowlist.getD [] =
          (pushEntries cases [] (entries (main.allowlist.getD [] ++ legacy.allowlist.getD []))).map .entry := by
        rw [mergeStoredAgent]
        split_ifs with hnone
        · rw [hnone]
          rfl
        · rfl
      have hgiven : ∀ item ∈ (mergeStoredAgent cases main legacy).allowlist.getD [],
          isGiven item.pattern = true := by
        intro item hitem
        rw [hkept] at hitem
        obtain ⟨entry, hentry, rfl⟩ := List.mem_map.mp hitem
        exact (isFirst_iff.mpr hentry).1
      simp only [getD_some, isSome_some, true_imp_iff]
      rw [filter_eq_self.mpr hgiven, hkept, List.map_map, ← merged_iff]
      rfl

/-- **Main result.** The normalization is right exactly if there is no legacy agent to merge into the main one,
or the merge loses nothing that is matched. -/
theorem normalizedRight_iff (hids : ∀ key i, ids key i ≠ "") (file : StoredFile) :
    NormalizedRight cases ids matched file ↔
      ((file.agents.get? DEFAULT_AGENT_ID).isSome → (file.agents.get? "default").isSome →
        Mergeable cases matched (file.items DEFAULT_AGENT_ID ++ file.items "default")) := by
  refine ⟨fun h => (main_iff hids file).mp h.main, fun h => ⟨(main_iff hids file).mpr h, ?_, ?_, ?_, ?_⟩⟩
  · intro agent hne hne'
    rw [items_normalizeStored, (normalizeItems_spec hids _ _).1, get?_mergeStoredDefault _ hne hne']
    rfl
  · intro agent item hitem
    rw [items_normalizeStored] at hitem
    exact ((normalizeItems_spec hids _ _).2 item hitem).2
  · rw [StoredFile.settings, normalizeStored, get?_mapEntries, mergeStoredDefault, StoredFile.settings,
      StoredFile.settings]
    cases hdefault : file.agents.get? "default" with
    | none => cases file.agents.get? DEFAULT_AGENT_ID <;> simp [ExecApprovalsDefaults.or]
    | some legacy =>
      dsimp only
      rw [get?_delete, if_neg (by decide), get?_set_self]
      cases file.agents.get? DEFAULT_AGENT_ID <;> simp [ExecApprovalsDefaults.or, mergeStoredAgent]
  · exact again_normalizeStored hids file

/-- What a pattern matches off Windows, with `/home/u` for `~`. -/
def posixMatched (pattern : String) (target : CodeUnits) : Bool :=
  AllowlistPattern.globAnswer id ⟨none, some (CodeUnits.ofString "/home/u"), none, none⟩
    (CodeUnits.ofString pattern) target

/-- A file with a list for the main agent and one for the legacy agent. -/
def twoLists (main legacy : List Item) : StoredFile where
  agents := (JsMap.empty.set DEFAULT_AGENT_ID { allowlist := some main }).set "default"
    { security := some .allowlist, allowlist := some legacy }

/-- `/usr/bin/jq` stands in both lists, in the main one as a text, and `~/bin/RG` in two spellings. -/
theorem normalizedRight_iff_twoLists :
    NormalizedRight .asciiOnly (fun _ _ => "id") posixMatched
      (twoLists [.entry { pattern := "~/bin/rg" }, .text " /usr/bin/jq"]
        [.entry { pattern := "/usr/bin/jq" }, .entry { pattern := " " }, .entry { pattern := "~/bin/RG" },
          .entry { pattern := "/home/u/bin/RG" }]) := by
  refine (normalizedRight_iff (fun _ _ => by decide) _).mpr fun _ _ => ?_
  have hitems (main legacy : List Item) : (twoLists main legacy).items DEFAULT_AGENT_ID ++
      (twoLists main legacy).items "default" = main ++ legacy := rfl
  have hhome : posixMatched "/home/u/bin/RG" = posixMatched "~/bin/RG" := by
    have hexpanded : AllowlistPattern.expanded id ⟨none, some (CodeUnits.ofString "/home/u"), none, none⟩
          (CodeUnits.trim (CodeUnits.ofString "/home/u/bin/RG")) =
        AllowlistPattern.expanded id ⟨none, some (CodeUnits.ofString "/home/u"), none, none⟩
          (CodeUnits.trim (CodeUnits.ofString "~/bin/RG")) := by decide +kernel
    funext target
    rw [posixMatched, posixMatched, AllowlistPattern.globAnswer, AllowlistPattern.globAnswer, hexpanded]
    rfl
  rw [hitems]
  have hjq : ∃ entry, IsFirst .asciiOnly [⟨none, "~/bin/rg", none, none, none⟩,
      ⟨none, "/usr/bin/jq", none, none, none⟩, ⟨none, " ", none, none, none⟩,
      ⟨none, "~/bin/RG", none, none, none⟩, ⟨none, "/home/u/bin/RG", none, none, none⟩] entry ∧
      posixMatched entry.pattern = posixMatched "/usr/bin/jq" :=
    ⟨_, ⟨by decide +kernel, [_], _, rfl, by decide +kernel⟩, rfl⟩
  intro item hitem hgiven
  simp only [cons_append, nil_append, mem_cons, not_mem_nil, or_false] at hitem
  rcases hitem with rfl | rfl | rfl | rfl | rfl | rfl
  · exact ⟨_, ⟨by decide +kernel, [], _, rfl, by decide +kernel⟩, rfl⟩
  · exact hjq
  · exact hjq
  · exact absurd hgiven (by decide +kernel)
  · exact ⟨_, ⟨by decide +kernel, [_, _, _, _], _, rfl, by decide +kernel⟩, hhome⟩
  · exact ⟨_, ⟨by decide +kernel, [_, _, _, _], _, rfl, by decide +kernel⟩, rfl⟩

/-- A text in the main agent's list is lost when there is a legacy agent, even one that grants nothing. -/
theorem text_lost :
    ¬ NormalizedRight .asciiOnly (fun _ _ => "id") posixMatched
      { agents :=
          (JsMap.empty.set DEFAULT_AGENT_ID { allowlist := some [.text "/usr/bin/rg"] }).set "default" {} } := by
  intro h
  have hmain := (h.main (posixMatched "/usr/bin/rg")).mpr
    (List.mem_map.mpr ⟨.text "/usr/bin/rg", by decide +kernel, rfl⟩)
  have hnone : (normalizeStored .asciiOnly (fun _ _ => "id")
      { agents :=
          (JsMap.empty.set DEFAULT_AGENT_ID { allowlist := some [.text "/usr/bin/rg"] }).set "default" {} }).items
      DEFAULT_AGENT_ID = [] := by decide +kernel
  rw [hnone] at hmain
  exact absurd hmain not_mem_nil

end Foxclaw.Infra.ExecApprovals
