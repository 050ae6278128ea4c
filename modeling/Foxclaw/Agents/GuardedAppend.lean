import Foxclaw.Agents.SessionToolResultGuard
import Foxclaw.Agents.TranscriptTurn

/-!
# The guard keeps tool calls paired

The guard persists every tool result it is given, so it is the caller who decides whether a
result has a call: a call that was dropped when its message was sanitized has none, and a call
may be answered twice.

## What is proved

* `Inv.result`, `Inv.other`, `Inv.flush` — what one more message keeps.
* `unchecked_results` — a result is persisted twice, and one without its call.
* `guard_keeps_paired` — if each tool result answers a call of the assistant message that was
  persisted last, one that is still pending unless another message came in between, the
  transcript is paired after every append.
-/

namespace Foxclaw.Agents

open Bool JsMap List Option Runs

/-- The ids of the tool calls of a message, errored or not. -/
def toolCallIds (msg : AgentMessage) : List String :=
  (extractToolCallsFromAssistant msg).map (·.id)

variable {msg : AgentMessage}

theorem toolCallIds_of_callIds {id : String} (h : id ∈ callIds msg) : id ∈ toolCallIds msg := by
  unfold callIds toolCallsOf at h
  split at h
  · exact h
  · cases h

theorem isAssistant_of_callIds {id : String} (h : id ∈ callIds msg) : isAssistant msg = true := by
  refine isAssistant_of_toolCallsOf fun hnil => ?_
  rw [callIds, hnil] at h
  cases h

theorem not_isToolResult_of_callIds {id : String} (h : id ∈ callIds msg) : isToolResult msg = false :=
  not_isToolResult_of_isAssistant (isAssistant_of_callIds h)

/-! ### Paired transcripts -/

/-- The assistant message that was persisted last. -/
def lastAssistantOf (persisted : List AgentMessage) : Option AgentMessage :=
  (persisted.filter isAssistant).getLast?

/-- The message the tool results at the end follow. -/
def lastOtherOf (persisted : List AgentMessage) : Option AgentMessage := (others persisted).getLast?

/-- No tool result lacks its call in the assistant message before it. -/
def Called (persisted : List AgentMessage) : Prop :=
  ∀ before r, before ++ [r] <+: persisted → isToolResult r = true →
    ∃ msg ∈ lastAssistantOf before, ∃ id ∈ toolCallIds msg, Answers r id

/-- The calls and the results of the session are paired. -/
structure Paired (st : GuardState) : Prop where
  /-- A call is pending, and its message followed by results only, or it has exactly one result
  before the next message that is none. -/
  answered : ∀ msg rest, msg :: rest <:+ st.persisted → ∀ id ∈ callIds msg,
    (st.pending.has id = true ∧ ∀ r ∈ rest, isToolResult r = true) ∨
      (resultIds (rest.takeWhile isToolResult)).count id = 1
  /-- Each result has its call. -/
  called : Called st.persisted

/-! ### The end of the transcript -/

variable {persisted : List AgentMessage}

theorem lastAssistantOf_append_assistant
    (h : isAssistant msg = true) : lastAssistantOf (persisted ++ [msg]) = some msg := by
  rw [lastAssistantOf, filter_append, filter_cons_of_pos h, filter_nil, getLast?_concat]

theorem lastAssistantOf_append_other
    (h : isAssistant msg = false) : lastAssistantOf (persisted ++ [msg]) = lastAssistantOf persisted := by
  rw [lastAssistantOf, lastAssistantOf, filter_append, filter_cons_of_neg (by simp [h]),
    filter_nil, append_nil]

variable {r : AgentMessage}

theorem lastAssistantOf_append_result
    (h : isToolResult r = true) : lastAssistantOf (persisted ++ [r]) = lastAssistantOf persisted := by
  refine lastAssistantOf_append_other (not_eq_true _ ▸ fun hr => ?_)
  rw [not_isToolResult_of_isAssistant hr] at h
  cases h

theorem lastOtherOf_of_suffix {persisted rest : List AgentMessage}
    (h : msg :: rest <:+ persisted) (hmsg : isToolResult msg = false)
    (hrest : ∀ r ∈ rest, isToolResult r = true) : lastOtherOf persisted = some msg := by
  obtain ⟨before, rfl⟩ := h
  rw [lastOtherOf, others_append, others_cons_other hmsg, others_of_forall hrest, getLast?_concat]

/-- An assistant message followed by results only is the last assistant message. -/
theorem lastAssistantOf_of_suffix {persisted rest : List AgentMessage}
    (h : msg :: rest <:+ persisted) (hmsg : isAssistant msg = true)
    (hrest : ∀ r ∈ rest, isToolResult r = true) : lastAssistantOf persisted = some msg := by
  obtain ⟨before, rfl⟩ := h
  induction rest using List.reverseRecOn with
  | nil => exact lastAssistantOf_append_assistant hmsg
  | append_singleton rest r ih =>
    rw [forall_mem_append] at hrest
    rw [← cons_append, ← append_assoc, lastAssistantOf_append_result (hrest.2 r mem_cons_self)]
    exact ih hrest.1

/-- Only one message is followed by results only. -/
theorem open_unique {persisted rest rest' : List AgentMessage} {msg msg' : AgentMessage}
    (h : msg :: rest <:+ persisted) (h' : msg' :: rest' <:+ persisted) (hmsg : isToolResult msg = false)
    (hmsg' : isToolResult msg' = false) (hrest : ∀ r ∈ rest, isToolResult r = true)
    (hrest' : ∀ r ∈ rest', isToolResult r = true) : msg :: rest = msg' :: rest' := by
  rcases suffix_or_suffix_of_suffix h h' with hs | hs
  · rcases suffix_cons_iff.mp hs with heq | hs
    · exact heq
    · have hmem := hrest' msg (hs.subset mem_cons_self)
      rw [hmsg] at hmem
      cases hmem
  · rcases suffix_cons_iff.mp hs with heq | hs
    · exact heq.symm
    · have hmem := hrest msg' (hs.subset mem_cons_self)
      rw [hmsg'] at hmem
      cases hmem

variable {rest : List AgentMessage}

/-- What follows a message that is no result is not looked at. -/
theorem takeWhile_append_of_not (h : ¬ ∀ r ∈ rest, isToolResult r = true) (more : List AgentMessage) :
    (rest ++ more).takeWhile isToolResult = rest.takeWhile isToolResult := by
  rw [takeWhile_append, if_neg fun hlen => h fun r hr => ?_]
  have heq : rest.takeWhile isToolResult = rest := ( takeWhile_prefix _).eq_of_length hlen
  rw [← heq] at hr
  exact mem_takeWhile_imp hr

theorem takeWhile_of_forall (h : ∀ r ∈ rest, isToolResult r = true) : rest.takeWhile isToolResult = rest :=
  takeWhile_eq_self_iff.mpr h

theorem takeWhile_append_other (h : isToolResult msg = false) :
    (rest ++ [msg]).takeWhile isToolResult = rest.takeWhile isToolResult := by
  by_cases hrest : ∀ r ∈ rest, isToolResult r = true
  · rw [takeWhile_append_of_pos hrest, takeWhile_cons_of_neg (by simp [h]), append_nil,
      takeWhile_of_forall hrest]
  · exact takeWhile_append_of_not hrest _

theorem resultIds_append_answer {id : String}
    (h : Answers r id) : resultIds (rest ++ [r]) = resultIds rest ++ [id] := by
  simp [resultIds, h.1, h.2]

/-- A message of a list that has become longer is the new one or was there before. -/
theorem suffix_concat_cases {persisted rest : List AgentMessage} {msg new : AgentMessage}
    (h : msg :: rest <:+ persisted ++ [new]) :
    (msg = new ∧ rest = []) ∨ ∃ rest', rest = rest' ++ [new] ∧ msg :: rest' <:+ persisted := by
  rcases suffix_concat_iff.mp h with hnil | ⟨old, hold, hsuffix⟩
  · cases hnil
  · cases old with
    | nil => exact .inl (cons_eq_cons.mp hold)
    | cons _ rest' =>
      obtain ⟨rfl, rfl⟩ := cons_eq_cons.mp hold
      exact .inr ⟨rest', rfl, hsuffix⟩

/-! ### The invariant -/

/-- The transcript is paired but for the calls that are owed a result. -/
structure Inv (persisted : List AgentMessage) (owed : String → Prop) : Prop where
  /-- A call is owed a result, or it has exactly one. -/
  answered : ∀ msg rest, msg :: rest <:+ persisted → ∀ id ∈ callIds msg,
    (owed id ∧ ∀ r ∈ rest, isToolResult r = true) ∨
      (resultIds (rest.takeWhile isToolResult)).count id = 1
  /-- What is owed is a result for the message the results at the end follow. -/
  owed_last : ∀ id, owed id → ∃ msg rest, msg :: rest <:+ persisted ∧ id ∈ callIds msg ∧
    (∀ r ∈ rest, isToolResult r = true) ∧ id ∉ resultIds rest
  /-- Each result has its call. -/
  called : Called persisted

theorem Inv.congr {owed owed' : String → Prop}
    (h : Inv persisted owed) (hiff : ∀ id, owed id ↔ owed' id) : Inv persisted owed' :=
  (funext fun id => propext (hiff id) : owed = owed') ▸ h

theorem Inv.nil : Inv [] fun _ => False where
  answered msg rest h := by cases suffix_nil.mp h
  owed_last _ h := h.elim
  called before r h := by
    have hlen := h.length_le
    simp at hlen

theorem Inv.result {owed : String → Prop} (h : Inv persisted owed) {id : String} (hans : Answers r id)
    (hcall : ∃ msg ∈ lastAssistantOf persisted, id ∈ toolCallIds msg)
    (howed : ∀ msg ∈ lastOtherOf persisted, id ∈ callIds msg → owed id) :
    Inv (persisted ++ [r]) fun id' => owed id' ∧ id' ≠ id where
  answered msg rest hsuffix id' hid' := by
    have hmsg := not_isToolResult_of_callIds hid'
    rcases suffix_concat_cases hsuffix with ⟨rfl, -⟩ | ⟨rest', rfl, hold⟩
    · rw [hans.1] at hmsg
      cases hmsg
    · by_cases hrest : ∀ r ∈ rest', isToolResult r = true
      · have hall : ∀ r' ∈ rest' ++ [r], isToolResult r' = true :=
          forall_mem_append.mpr ⟨hrest, by simpa using hans.1⟩
        have hold' := h.answered msg rest' hold id' hid'
        rw [takeWhile_of_forall hrest] at hold'
        rw [takeWhile_of_forall hall, resultIds_append_answer hans, count_append, count_singleton]
        by_cases heq : id' = id
        · -- the result answers this call, which is still owed one
          subst heq
          obtain ⟨msg₀, rest₀, hsuffix₀, hid₀, hrest₀, hnot⟩ :=
            h.owed_last id' (howed msg (lastOtherOf_of_suffix hold hmsg hrest) hid')
          have hopen := open_unique hold hsuffix₀ hmsg (not_isToolResult_of_callIds hid₀) hrest hrest₀
          rw [← (cons_eq_cons.mp hopen).2] at hnot
          right
          rw [count_eq_zero.mpr hnot]
          simp
        · rcases hold' with ⟨hold', -⟩ | hold'
          · exact .inl ⟨⟨hold', heq⟩, hall⟩
          · right
            rw [hold', if_neg (by simpa using Ne.symm heq)]
      · rcases h.answered msg rest' hold id' hid' with ⟨-, hall⟩ | hold'
        · exact absurd hall hrest
        · rw [takeWhile_append_of_not hrest]
          exact .inr hold'
  owed_last id' := by
    rintro ⟨hid', hne⟩
    obtain ⟨msg, rest, hsuffix, hmem, hrest, hnot⟩ := h.owed_last id' hid'
    refine ⟨msg, rest ++ [r], ?_, hmem, ?_, ?_⟩
    · rw [← cons_append]
      exact suffix_concat_iff.mpr (.inr ⟨_, rfl, hsuffix⟩)
    · exact forall_mem_append.mpr ⟨hrest, by simpa using hans.1⟩
    · rw [resultIds_append_answer hans]
      simpa [hnot] using hne
  called before r' hprefix hr' := by
    rcases prefix_concat_iff.mp hprefix with heq | hprefix
    · obtain ⟨rfl, hr⟩ := append_inj' heq rfl
      obtain rfl : r' = r := (cons_eq_cons.mp hr).1
      obtain ⟨msg, hmsg, hid⟩ := hcall
      exact ⟨msg, hmsg, id, hid, hans⟩
    · exact h.called before r' hprefix hr'

/-- A message more that is no result, when nothing is owed. -/
theorem Inv.other (h : Inv persisted fun _ => False) (hmsg : isToolResult msg = false) :
    Inv (persisted ++ [msg]) fun id => id ∈ callIds msg where
  answered msg' rest hsuffix id hid := by
    rcases suffix_concat_cases hsuffix with ⟨rfl, rfl⟩ | ⟨rest', rfl, hold⟩
    · exact .inl ⟨hid, by simp⟩
    · rcases h.answered msg' rest' hold id hid with ⟨hno, -⟩ | hold'
      · exact hno.elim
      · rw [takeWhile_append_other hmsg]
        exact .inr hold'
  owed_last id hid :=
    ⟨msg, [], suffix_append _ _, hid, by simp, by simp⟩
  called before r hprefix hr := by
    rcases prefix_concat_iff.mp hprefix with heq | hprefix
    · obtain rfl : r = msg := (cons_eq_cons.mp (append_inj' heq rfl).2).1
      rw [hmsg] at hr
      cases hr
    · exact h.called before r hprefix hr

/-- Synthetic results for everything that is owed. -/
theorem Inv.flush {now : ℚ} {entries : List (String × Option String)}
    (hnodup : (entries.map Prod.fst).Nodup) (h : Inv persisted fun id => id ∈ entries.map Prod.fst) :
    Inv (persisted ++ entries.map fun entry => makeMissingToolResult now entry.1 entry.2)
      fun _ => False := by
  induction entries generalizing persisted with
  | nil => simpa using h
  | cons entry entries ih =>
    rw [map_cons, nodup_cons] at hnodup
    have hmem : entry.1 ∈ (entry :: entries).map Prod.fst := mem_cons_self
    obtain ⟨msg, rest, hsuffix, hid, hrest, -⟩ := h.owed_last entry.1 hmem
    have hassistant := isAssistant_of_callIds hid
    have hne : entry.1 ≠ "" := by
      obtain ⟨call, hcall, heq⟩ := List.mem_map.mp hid
      exact heq ▸ id_ne_empty_of_mem hcall
    have hnext := h.result (answers_makeMissingToolResult now hne entry.2)
      ⟨msg, lastAssistantOf_of_suffix hsuffix hassistant hrest, toolCallIds_of_callIds hid⟩
      fun _ _ _ => hmem
    rw [map_cons, ← singleton_append, ← append_assoc]
    refine ih hnodup.2 (hnext.congr fun id => ?_)
    rw [map_cons, mem_cons]
    constructor
    · rintro ⟨rfl | hid', hne'⟩
      · exact absurd rfl hne'
      · exact hid'
    · exact fun hid' => ⟨.inr hid', fun heq => hnodup.1 (heq ▸ hid')⟩

/-! ### The operations of the guard -/

/-- The invariant of the guard: what is owed is what is pending. -/
def GuardState.Keeps (st : GuardState) : Prop := Inv st.persisted fun id => st.pending.has id = true

variable {opts : GuardOpts} {st : GuardState}

theorem flush_of_size_eq_zero {now : ℚ}
    (h : st.pending.size = 0) : flushPendingToolResults opts now st = st := by
  rw [flushPendingToolResults, if_pos h]

theorem has_eq_false_of_size {pending : JsMap String (Option String)} (h : pending.size = 0)
    (id : String) : pending.has id = false :=
  not_eq_true _ ▸ fun hid => absurd (size_pos_iff.mpr ⟨id, hid⟩) (by omega)

theorem flush_pending (opts : GuardOpts) (now : ℚ) (st : GuardState) (id : String) :
    (flushPendingToolResults opts now st).pending.has id = false := by
  unfold flushPendingToolResults
  split
  · rename_i hsize
    exact has_eq_false_of_size hsize id
  · rfl

theorem flush_keeps (hsynthetic : opts.allowSyntheticToolResults = true) (now : ℚ)
    (h : st.Keeps) : (flushPendingToolResults opts now st).Keeps := by
  unfold flushPendingToolResults
  split
  · exact h
  · refine (Inv.flush st.pending.nodup_keys (h.congr fun id => ?_)).congr fun id => ?_
    · exact JsMap.mem_keys_iff.symm
    · simp [JsMap.has]

theorem lastAssistantOf_flush (opts : GuardOpts) (now : ℚ) (st : GuardState) :
    lastAssistantOf (flushPendingToolResults opts now st).persisted = lastAssistantOf st.persisted := by
  unfold flushPendingToolResults
  split
  · rfl
  · dsimp only
    split
    · generalize st.pending.entries = entries
      induction entries using List.reverseRecOn with
      | nil => simp
      | append_singleton entries entry ih =>
        rw [map_append, ← append_assoc, map_singleton, lastAssistantOf_append_result (by rfl), ih]
    · rfl

theorem trackToolCalls_has (pending : JsMap String (Option String)) (calls : List ToolCallLike)
    (id : String) :
    (trackToolCalls pending calls).has id = true ↔ pending.has id = true ∨ id ∈ calls.map (·.id) := by
  unfold trackToolCalls
  induction calls generalizing pending with
  | nil => simp
  | cons call calls ih =>
    have hset : (pending.set call.id call.name).has id = true ↔ call.id = id ∨ pending.has id = true := by
      rw [JsMap.has, get?_set]
      by_cases hid : call.id = id <;> simp [hid, JsMap.has]
    rw [foldl_cons, ih, hset, map_cons, mem_cons]
    tauto

/-- Before another message everything pending is flushed. -/
theorem appendOther_eq (opts : GuardOpts) (now : ℚ) (st : GuardState) (msg : AgentMessage) :
    appendOther opts now st msg =
      { persisted := (flushPendingToolResults opts now st).persisted ++ [msg]
        pending := trackToolCalls (flushPendingToolResults opts now st).pending (toolCallsOf msg) } := by
  unfold appendOther
  dsimp only
  by_cases hsize : st.pending.size = 0
  · have hno (role : Option String) (n : ℕ) : shouldFlushBeforeNonToolResult st.pending role n = false := by
      simp [shouldFlushBeforeNonToolResult, hsize]
    have hno' (n : ℕ) : shouldFlushBeforeNewToolCalls st.pending n = false := by
      simp [shouldFlushBeforeNewToolCalls, hsize]
    rw [hno, if_neg Bool.false_ne_true, hno', if_neg Bool.false_ne_true, flush_of_size_eq_zero hsize]
    by_cases hcalls : toolCallsOf msg = [] <;> simp [hcalls, trackToolCalls]
  · have hpos : 0 < st.pending.size := Nat.pos_of_ne_zero hsize
    have hempty : (flushPendingToolResults opts now st).pending.size = 0 := by
      rw [flushPendingToolResults, if_neg hsize]
      rfl
    by_cases hcalls : toolCallsOf msg = []
    · have hyes : shouldFlushBeforeNonToolResult st.pending (roleOf msg) (toolCallsOf msg).length = true := by
        simp [shouldFlushBeforeNonToolResult, hpos, hcalls]
      rw [if_pos hyes, flush_of_size_eq_zero hempty, ite_self]
      simp [hcalls, trackToolCalls]
    · have hrole : roleOf msg = some "assistant" := by
        simpa [isAssistant] using isAssistant_of_toolCallsOf hcalls
      have hno : shouldFlushBeforeNonToolResult st.pending (roleOf msg) (toolCallsOf msg).length =
          false := by
        simp [shouldFlushBeforeNonToolResult, hcalls, hrole]
      have hyes : shouldFlushBeforeNewToolCalls st.pending (toolCallsOf msg).length = true := by
        simpa [shouldFlushBeforeNewToolCalls, hpos, length_pos_iff] using hcalls
      rw [hno, if_neg Bool.false_ne_true, if_pos hyes, if_pos hcalls]

theorem appendOther_keeps (hsynthetic : opts.allowSyntheticToolResults = true) (now : ℚ) (h : st.Keeps)
    (hmsg : isToolResult msg = false) : (appendOther opts now st msg).Keeps := by
  have hflush : Inv (flushPendingToolResults opts now st).persisted fun _ => False :=
    (flush_keeps hsynthetic now h).congr fun id => by simp [flush_pending]
  rw [appendOther_eq]
  refine (hflush.other hmsg).congr fun id => ?_
  rw [trackToolCalls_has, flush_pending]
  simp [callIds]

/-- What the guard persists for a tool result answers the same call. -/
theorem answers_capToolResultSize (opts : GuardOpts) {id : String}
    (h : Answers msg id) : Answers (capToolResultSize opts msg) id := by
  unfold capToolResultSize
  rw [if_pos h.1]
  unfold truncateToolResultMessage
  split
  · dsimp only
    split
    · exact h
    · refine ⟨?_, ?_⟩
      · rw [isToolResult, roleOf_setField (by decide)]
        exact h.1
      · rw [extractToolResultId_setField (by decide) (by decide)]
        exact h.2
  · exact h

theorem answers_normalizePersistedToolResultName {id : String} (h : Answers msg id) (name : Option String) :
    Answers (normalizePersistedToolResultName msg name) id := by
  unfold normalizePersistedToolResultName
  rw [if_pos h.1]
  cases hname : normalizeToolResultName msg name with
  | none => exact h
  | some msg' =>
    obtain ⟨toolName, rfl⟩ := normalizeToolResultName_eq hname
    exact h.setField toolName

theorem appendToolResult_keeps (h : st.Keeps) {id : String} (hans : Answers msg id)
    (hcall : ∃ last ∈ lastAssistantOf st.persisted, id ∈ toolCallIds last)
    (hpending : ∀ last ∈ lastOtherOf st.persisted, id ∈ callIds last → st.pending.has id = true) :
    (appendToolResult opts st msg).Keeps := by
  unfold appendToolResult
  rw [hans.2]
  have hnew := answers_capToolResultSize opts
    (answers_normalizePersistedToolResultName hans (st.pending.get? id).join)
  refine (Inv.result h hnew hcall hpending).congr fun id' => ?_
  dsimp only
  rw [JsMap.has, JsMap.has, get?_delete]
  by_cases hid : id = id'
  · simp [hid]
  · simp [hid, Ne.symm hid]

/-! ### Sessions -/

/-- A tool result answers a tool call of the assistant message that was appended last. -/
def AnswersAppended (s : Session) (a : Append) : Prop :=
  isToolResult a.message = true →
    ∃ last ∈ s.lastAssistant, ∃ id ∈ extractToolResultId a.message, id ∈ toolCallIds last

/-- A tool result answers a tool call that the assistant message appended last has as it was
persisted; while that message is followed by results only, and is not errored, the call is still
pending. -/
def AnswersPending (opts : GuardOpts) (s : Session) (a : Append) : Prop :=
  isToolResult a.message = true →
    ∃ last ∈ s.lastAssistant.bind (sanitizedAssistant opts), ∃ id ∈ extractToolResultId a.message,
      id ∈ toolCallIds last ∧
        ∀ other ∈ lastOtherOf s.guard.persisted, id ∈ callIds other → s.guard.pending.has id = true

instance (s : Session) (a : Append) : Decidable (AnswersAppended s a) := by
  unfold AnswersAppended
  exact inferInstance

instance (opts : GuardOpts) (s : Session) (a : Append) : Decidable (AnswersPending opts s a) := by
  unfold AnswersPending
  exact inferInstance

/-- The invariant of a session with a guard. -/
structure Session.Keeps (opts : GuardOpts) (s : Session) : Prop where
  guard : s.guard.Keeps
  /-- The assistant message appended last, if it was persisted, is the last one persisted. -/
  last : ∀ last ∈ s.lastAssistant.bind (sanitizedAssistant opts),
    lastAssistantOf s.guard.persisted = some last

/-- Sanitizing an assistant message leaves an assistant message. -/
theorem isAssistant_of_sanitizedAssistant {message next : AgentMessage} (hmsg : isAssistant message = true)
    (h : sanitizedAssistant opts message = some next) : isAssistant next = true := by
  unfold sanitizedAssistant sanitizeToolCallInputs at h
  generalize normalizeAllowedToolNames opts.toLowerCase opts.allowedToolNames = names at h
  have hone : repairToolCallInputsOf opts.toLowerCase names message = some next := by
    cases hrepair : repairToolCallInputsOf opts.toLowerCase names message with
    | none => simp [hrepair] at h
    | some msg => simpa [hrepair] using h
  unfold repairToolCallInputsOf at hone
  split at hone
  · dsimp only at hone
    split at hone
    · cases hone
    · split at hone
      · obtain rfl := some.inj hone
        rw [isAssistant, roleOf_setField (by decide)]
        exact hmsg
      · exact some.inj hone ▸ hmsg
  · exact some.inj hone ▸ hmsg

theorem appendNext_keeps (hsynthetic : opts.allowSyntheticToolResults = true)
    {s s' : Session} {a : Append} (h : s.Keeps opts) (ha : AnswersPending opts s a)
    (hs : appendNext opts s a = some s') : s'.Keeps opts := by
  have hnext : s' = ⟨guardedAppend opts a.now s.guard a.message,
      if isAssistant a.message then some a.message else s.lastAssistant⟩ := by
    unfold appendNext at hs
    split at hs
    · cases hs
    · exact (some.inj hs).symm
  subst hnext
  unfold guardedAppend
  by_cases hassistant : isAssistant a.message = true
  · rw [if_pos hassistant, if_pos hassistant]
    cases hsanitized : sanitizedAssistant opts a.message with
    | none =>
      -- the message is dropped
      refine ⟨?_, fun last hlast => ?_⟩
      · dsimp only
        split
        · exact flush_keeps hsynthetic a.now h.guard
        · exact h.guard
      · rw [bind_some, hsanitized] at hlast
        cases hlast
    | some next =>
      have hnext := isAssistant_of_sanitizedAssistant hassistant hsanitized
      refine ⟨appendOther_keeps hsynthetic a.now h.guard (not_isToolResult_of_isAssistant hnext),
        fun last hlast => ?_⟩
      rw [bind_some, hsanitized] at hlast
      obtain rfl := some.inj hlast
      dsimp only
      rw [appendOther_eq]
      exact lastAssistantOf_append_assistant hnext
  · rw [if_neg hassistant, if_neg hassistant]
    by_cases hresult : isToolResult a.message = true
    · rw [if_pos hresult]
      obtain ⟨last, hlast, id, hid, hcall, hpending⟩ := ha hresult
      have hans : Answers a.message id := ⟨hresult, hid⟩
      refine ⟨appendToolResult_keeps h.guard hans ⟨last, h.last last hlast, hcall⟩ hpending,
        fun last' hlast' => ?_⟩
      unfold appendToolResult
      have hnew := answers_capToolResultSize opts (answers_normalizePersistedToolResultName hans
        ((extractToolResultId a.message).bind fun id => (s.guard.pending.get? id).join))
      dsimp only
      rw [lastAssistantOf_append_result hnew.1]
      exact h.last last' hlast'
    · rw [if_neg hresult]
      rw [not_eq_true] at hassistant hresult
      refine ⟨appendOther_keeps hsynthetic a.now h.guard hresult, fun last hlast => ?_⟩
      dsimp only
      rw [appendOther_eq]
      dsimp only
      rw [lastAssistantOf_append_other hassistant, lastAssistantOf_flush]
      exact h.last last hlast

theorem Session.Keeps.init (opts : GuardOpts) : Session.init.Keeps opts where
  guard := Inv.nil.congr fun id => by simp [Session.init, JsMap.has]
  last _ h := by cases h

/-- If each tool result answers a call of the assistant message that was appended last, as it
was persisted, and no call twice in a row, the transcript is paired after every append. -/
theorem guard_keeps_paired {opts : GuardOpts} (hsynthetic : opts.allowSyntheticToolResults = true)
    {as : List Append} {s : Session} (h : exec (appendNext opts) .init as = some s)
    (ha : Meets (appendNext opts) (AnswersPending opts) .init as) : Paired s.guard := by
  have hkeeps : s.Keeps opts :=
    exec_invariant_of_meets (fun _ _ _ hs hP hnext => appendNext_keeps hsynthetic hs hP hnext) ha
      (Session.Keeps.init opts) h
  exact ⟨hkeeps.guard.answered, hkeeps.guard.called⟩

/-! ### Results nobody asked for -/

/-- A guard with no hooks and no list of tools. -/
def plainGuard : GuardOpts where
  toLowerCase := id
  truncateToolResultText text budget := String.ofList (text.toList.take budget)
  blockBudget length total := HARD_MAX_TOOL_RESULT_CHARS * length / total
  allowSyntheticToolResults := true
  allowedToolNames := none

/-- An assistant message with two tool calls, the second one without arguments. -/
def twoCalls : AgentMessage :=
  .obj [("role", .str "assistant"),
    ("content", .arr [
      .obj [("type", .str "toolCall"), ("id", .str "call_1"), ("name", .str "read"), ("arguments", .obj [])],
      .obj [("type", .str "toolCall"), ("id", .str "call_2"), ("name", .str "read")]])]

/-- A result for a call. -/
def resultFor (id : String) : AgentMessage :=
  .obj [("role", .str "toolResult"), ("toolCallId", .str id), ("toolName", .str "read"),
    ("content", .arr [.obj [("type", .str "text"), ("text", .str "ok")]])]

def userMessage : AgentMessage := .obj [("role", .str "user"), ("content", .str "and now?")]

/-- A call with a result, one that is dropped, and a call that gets a synthetic result. -/
def interrupted : List Append :=
  [⟨twoCalls, 0⟩, ⟨resultFor "call_1", 1⟩, ⟨userMessage, 2⟩, ⟨twoCalls, 3⟩, ⟨userMessage, 4⟩]

/-- A call with two results. -/
def answeredTwice : List Append := [⟨twoCalls, 0⟩, ⟨resultFor "call_1", 1⟩, ⟨resultFor "call_1", 2⟩]

/-- A result for a call that is dropped. -/
def answersDropped : List Append := [⟨twoCalls, 0⟩, ⟨resultFor "call_1", 1⟩, ⟨resultFor "call_2", 2⟩]

theorem guard_keeps_paired_interrupted :
    ∃ s, exec (appendNext plainGuard) .init interrupted = some s ∧ Paired s.guard :=
  ⟨_, rfl, @guard_keeps_paired plainGuard rfl interrupted _ rfl (by decide +kernel)⟩

/-- Two results for one call are both persisted, and so is the result of a call that was
dropped when its message was sanitized. -/
theorem unchecked_results :
    (∃ s, exec (appendNext plainGuard) .init answeredTwice = some s ∧
      Meets (appendNext plainGuard) AnswersAppended .init answeredTwice ∧ ¬ Paired s.guard) ∧
    ∃ s, exec (appendNext plainGuard) .init answersDropped = some s ∧
      Meets (appendNext plainGuard) AnswersAppended .init answersDropped ∧ ¬ Paired s.guard := by
  refine ⟨⟨_, rfl, by decide +kernel, fun h => ?_⟩, ⟨_, rfl, by decide +kernel, fun h => ?_⟩⟩
  · rcases h.answered _ _ (suffix_refl _) "call_1" (by decide +kernel) with ⟨hpending, -⟩ | hcount
    · exact absurd hpending (by decide +kernel)
    · exact absurd hcount (by decide +kernel)
  · obtain ⟨msg, hmsg, id, hid, hans⟩ := h.called [_, _] _ (prefix_refl _) (by decide +kernel)
    obtain rfl := some.inj hmsg
    obtain rfl := some.inj hans.2
    exact absurd hid (by decide +kernel)

end Foxclaw.Agents
