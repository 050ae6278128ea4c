import Foxclaw.Agents.SessionTranscriptRepair

/-!
# One turn of a transcript

What `repairToolUseResultPairing` does with an assistant message that has tool calls and with
the messages up to the next assistant message.

## What is proved

* `foldl_scanSpan` — what the inner loop collects.
* `foldl_pushCallResult` — what the loop over the tool calls appends.
* `repairTurn_repaired` — the turn as a whole: the message, a result for each call id that has
  none yet, and what else stood in the span; and when `changed` is set.
-/

namespace Foxclaw.Agents

open Bool JsMap List Option

/-! ### Ids -/

/-- The ids in the list that are not among `seen`, each once. -/
def distinctFrom : List String → List String → List String
  | _, [] => []
  | seen, id :: ids =>
    if id ∈ seen then distinctFrom seen ids else id :: distinctFrom (seen ++ [id]) ids

theorem not_mem_of_mem_distinctFrom {seen ids : List String} {id : String}
    (h : id ∈ distinctFrom seen ids) : id ∉ seen ∧ id ∈ ids := by
  induction ids generalizing seen with
  | nil => cases h
  | cons id' ids ih =>
    rw [distinctFrom] at h
    split at h
    · exact ⟨(ih h).1, mem_cons_of_mem _ (ih h).2⟩
    · rename_i hnot
      rcases mem_cons.mp h with rfl | h
      · exact ⟨hnot, mem_cons_self⟩
      · exact ⟨fun hmem => (ih h).1 (mem_append_left _ hmem), mem_cons_of_mem _ (ih h).2⟩

theorem mem_distinctFrom {seen ids : List String} {id : String} (h : id ∈ ids) (hnot : id ∉ seen) :
    id ∈ distinctFrom seen ids := by
  induction ids generalizing seen with
  | nil => cases h
  | cons id' ids ih =>
    rw [distinctFrom]
    rcases mem_cons.mp h with rfl | h
    · rw [if_neg hnot]
      exact mem_cons_self
    · split
      · exact ih h hnot
      · by_cases heq : id = id'
        · exact heq ▸ mem_cons_self
        · refine mem_cons_of_mem _ (ih h fun hmem => ?_)
          rcases mem_append.mp hmem with hmem | hmem
          · exact hnot hmem
          · exact heq (mem_singleton.mp hmem)

theorem nodup_append_distinctFrom {seen : List String} (h : seen.Nodup) (ids : List String) :
    (seen ++ distinctFrom seen ids).Nodup := by
  induction ids generalizing seen with
  | nil => simpa [distinctFrom] using h
  | cons id ids ih =>
    rw [distinctFrom]
    split
    · exact ih h
    · rename_i hnot
      have hseen : (seen ++ [id]).Nodup := by
        rw [nodup_append]
        exact ⟨h, nodup_singleton id, fun a ha b hb heq => hnot (by simp_all)⟩
      have hnodup := ih hseen
      rwa [append_assoc, singleton_append] at hnodup

/-- What was seen before matters only for the ids it contains. -/
theorem distinctFrom_congr {seen seen' ids : List String} (h : ∀ id ∈ ids, id ∈ seen ↔ id ∈ seen') :
    distinctFrom seen ids = distinctFrom seen' ids := by
  induction ids generalizing seen seen' with
  | nil => rfl
  | cons id ids ih =>
    have htail : ∀ id' ∈ ids, id' ∈ seen ↔ id' ∈ seen' := fun id' hid' =>
      h id' (mem_cons_of_mem _ hid')
    rw [distinctFrom, distinctFrom]
    by_cases hid : id ∈ seen
    · rw [if_pos hid, if_pos ((h id mem_cons_self).mp hid)]
      exact ih htail
    · rw [if_neg hid, if_neg fun hid' => hid ((h id mem_cons_self).mpr hid')]
      refine congrArg _ (ih fun id' hid' => ?_)
      rw [mem_append, mem_append]
      exact or_congr_left (htail id' hid')

theorem distinctFrom_of_nodup {seen ids : List String} (h : (seen ++ ids).Nodup) :
    distinctFrom seen ids = ids := by
  induction ids generalizing seen with
  | nil => rfl
  | cons id ids ih =>
    have hnot : id ∉ seen := by
      rw [nodup_append] at h
      exact fun hmem => h.2.2 id hmem id mem_cons_self rfl
    rw [distinctFrom, if_neg hnot, ih]
    rwa [append_assoc, singleton_append]

/-- The ids an assistant message is to be answered for, each once and in call order. -/
def expectedIds (msg : AgentMessage) : List String := distinctFrom [] (callIds msg)

/-- The ids of the tool results among the messages. -/
def resultIds (messages : List AgentMessage) : List String :=
  (messages.filter isToolResult).filterMap extractToolResultId

@[simp] theorem resultIds_nil : resultIds [] = [] := rfl

/-- The messages that are no tool results. -/
def others (messages : List AgentMessage) : List AgentMessage :=
  messages.filter fun msg => !isToolResult msg

@[simp] theorem others_append (messages messages' : List AgentMessage) :
    others (messages ++ messages') = others messages ++ others messages' :=
  filter_append _ _

variable {msg : AgentMessage}

theorem others_cons_other (h : isToolResult msg = false)
    (rest : List AgentMessage) : others (msg :: rest) = msg :: others rest :=
  filter_cons_of_pos (by rw [h]; rfl)

theorem others_cons_result (h : isToolResult msg = true)
    (rest : List AgentMessage) : others (msg :: rest) = others rest :=
  filter_cons_of_neg (by rw [h]; decide)

variable {messages : List AgentMessage}

theorem others_of_forall_not (h : ∀ msg ∈ messages, isToolResult msg = false) : others messages = messages :=
  filter_eq_self.mpr fun msg hmsg => by rw [h msg hmsg]; rfl

theorem others_of_forall (h : ∀ msg ∈ messages, isToolResult msg = true) : others messages = [] :=
  filter_eq_nil_iff.mpr fun msg hmsg => by rw [h msg hmsg]; decide

theorem not_isToolResult_of_mem_others (h : msg ∈ others messages) : isToolResult msg = false := by
  simpa using (mem_filter.mp h).2

/-! ### The results of a span -/

/-- The result answers the call with this id. -/
def Answers (msg : AgentMessage) (id : String) : Prop :=
  isToolResult msg = true ∧ extractToolResultId msg = some id

/-- `normalizeToolResultName` changes the name only. -/
theorem normalizeToolResultName_eq {msg msg' : AgentMessage} {name : Option String}
    (h : normalizeToolResultName msg name = some msg') :
    ∃ toolName, msg' = setField msg "toolName" (.str toolName) := by
  unfold normalizeToolResultName at h
  dsimp only at h
  split at h
  · split at h
    · cases h
    · cases h
      exact ⟨_, rfl⟩
  · split at h
    · cases h
      exact ⟨_, rfl⟩
    · split at h
      · cases h
        exact ⟨_, rfl⟩
      · cases h

theorem Answers.setField {id : String} (h : Answers msg id) (name : String) :
    Answers (setField msg "toolName" (.str name)) id := by
  refine ⟨?_, ?_⟩
  · rw [isToolResult, roleOf_setField (by decide)]
    exact h.1
  · rw [extractToolResultId_setField (by decide) (by decide)]
    exact h.2

variable (toolCalls : List ToolCallLike)

/-- The name a result gets when it has none. -/
def fallbackName (id : String) : Option String :=
  ((toolCallNamesById toolCalls).get? id).join

/-- The result with its name normalized. -/
def normalized (id : String) (msg : AgentMessage) : AgentMessage :=
  (normalizeToolResultName msg (fallbackName toolCalls id)).getD msg

theorem normalized_eq (id : String) (msg : AgentMessage) :
    normalized toolCalls id msg = msg ∨
      ∃ name, normalized toolCalls id msg = setField msg "toolName" (.str name) := by
  unfold normalized
  cases hname : normalizeToolResultName msg (fallbackName toolCalls id) with
  | none => exact .inl rfl
  | some msg' =>
    obtain ⟨name, rfl⟩ := normalizeToolResultName_eq hname
    exact .inr ⟨name, rfl⟩

theorem Answers.normalized {id : String} (h : Answers msg id)
    (toolCalls : List ToolCallLike) (id' : String) : Answers (normalized toolCalls id' msg) id := by
  rcases normalized_eq toolCalls id' msg with heq | ⟨name, heq⟩
  · rwa [heq]
  · rw [heq]
    exact h.setField name

/-- What makes the inner loop set `changed` on a message. -/
def ScanChanges (seen : List String) (msg : AgentMessage) : Prop :=
  isToolResult msg = true ∧ ∀ id, extractToolResultId msg = some id → id ∈ toolCalls.map (·.id) →
    id ∈ seen ∨ (normalizeToolResultName msg (fallbackName toolCalls id)).isSome = true

/-- What the inner loop has collected from the messages. -/
structure Scanned (toolCalls : List ToolCallLike) (seen : List String)
    (messages : List AgentMessage) (span : Span) : Prop where
  /-- The messages that are no tool results. -/
  remainder : span.remainder = others messages
  /-- A result that was found is one of the messages, perhaps with its name normalized. -/
  found : ∀ id r, span.spanResultsById.get? id = some r →
    id ∉ seen ∧ ∃ msg ∈ messages, Answers msg id ∧ r = normalized toolCalls id msg
  /-- A result that is there is found, unless its call was answered before. -/
  complete : ∀ id ∈ toolCalls.map (·.id), id ∉ seen → (∃ msg ∈ messages, Answers msg id) →
    span.spanResultsById.has id = true
  /-- When `changed` is set. -/
  changed : span.changed = true ↔ ∃ msg ∈ messages, ScanChanges toolCalls seen msg

theorem Scanned.nil (seen : List String) : Scanned toolCalls seen [] .init where
  remainder := rfl
  found _ _ h := by cases h
  complete _ _ _ h := by
    obtain ⟨_, hmsg, -⟩ := h
    cases hmsg
  changed := ⟨fun h => (by cases h), fun ⟨_, hmsg, _⟩ => (by cases hmsg)⟩

variable {toolCalls : List ToolCallLike}

variable {next : AgentMessage} {span : Span}

theorem Scanned.other {seen : List String} (h : Scanned toolCalls seen messages span)
    (hnext : isToolResult next = false) :
    Scanned toolCalls seen (messages ++ [next]) { span with remainder := span.remainder ++ [next] } where
  remainder := by
    rw [others_append, ← h.remainder]
    exact congrArg _ (others_of_forall_not (by simpa using hnext)).symm
  found id r hr := by
    obtain ⟨hseen, msg, hmsg, hmsg'⟩ := h.found id r hr
    exact ⟨hseen, msg, mem_append_left _ hmsg, hmsg'⟩
  complete id hid hseen hex := by
    obtain ⟨msg, hmsg, hans⟩ := hex
    rcases mem_append.mp hmsg with hmsg | hmsg
    · exact h.complete id hid hseen ⟨msg, hmsg, hans⟩
    · rw [mem_singleton.mp hmsg] at hans
      rw [hans.1] at hnext
      cases hnext
  changed := by
    rw [h.changed]
    constructor
    · rintro ⟨msg, hmsg, hch⟩
      exact ⟨msg, mem_append_left _ hmsg, hch⟩
    · rintro ⟨msg, hmsg, hch⟩
      rcases mem_append.mp hmsg with hmsg | hmsg
      · exact ⟨msg, hmsg, hch⟩
      · rw [mem_singleton.mp hmsg] at hch
        rw [hch.1] at hnext
        cases hnext

theorem Scanned.dropped {seen : List String} {span span' : Span} (h : Scanned toolCalls seen messages span)
    (hnext : isToolResult next = true)
    (hdrop : ∀ id, extractToolResultId next = some id → id ∈ toolCalls.map (·.id) → id ∈ seen)
    (hremainder : span'.remainder = span.remainder)
    (hresults : span'.spanResultsById = span.spanResultsById) (hchanged : span'.changed = true) :
    Scanned toolCalls seen (messages ++ [next]) span' where
  remainder := by
    rw [hremainder, others_append, ← h.remainder, others_of_forall (by simpa using hnext),
      append_nil]
  found id r hr := by
    obtain ⟨hseen, msg, hmsg, hmsg'⟩ := h.found id r (hresults ▸ hr)
    exact ⟨hseen, msg, mem_append_left _ hmsg, hmsg'⟩
  complete id hid hseen hex := by
    obtain ⟨msg, hmsg, hans⟩ := hex
    rw [hresults]
    rcases mem_append.mp hmsg with hmsg | hmsg
    · exact h.complete id hid hseen ⟨msg, hmsg, hans⟩
    · rw [mem_singleton.mp hmsg] at hans
      exact absurd (hdrop id hans.2 hid) hseen
  changed := by
    rw [hchanged]
    refine iff_of_true rfl ⟨next, mem_append_right _ mem_cons_self, hnext, ?_⟩
    exact fun id hid hmem => .inl (hdrop id hid hmem)

theorem Scanned.answer {seen : List String} (h : Scanned toolCalls seen messages span) {id : String}
    (hans : Answers next id) (hid : id ∈ toolCalls.map (·.id)) (hseen : id ∉ seen) :
    Scanned toolCalls seen (messages ++ [next])
      { span with
        changed :=
          span.changed || (normalizeToolResultName next (fallbackName toolCalls id)).isSome
        spanResultsById :=
          if span.spanResultsById.has id then span.spanResultsById
          else span.spanResultsById.set id (normalized toolCalls id next) } where
  remainder := by
    rw [others_append, ← h.remainder, others_of_forall (by simpa using hans.1), append_nil]
  found id' r hr := by
    have hold (hr : span.spanResultsById.get? id' = some r) :
        id' ∉ seen ∧ ∃ msg ∈ messages ++ [next], Answers msg id' ∧ r = normalized toolCalls id' msg := by
      obtain ⟨hseen, msg, hmsg, hmsg'⟩ := h.found id' r hr
      exact ⟨hseen, msg, mem_append_left _ hmsg, hmsg'⟩
    dsimp only at hr
    split at hr
    · exact hold hr
    · rw [get?_set] at hr
      split at hr
      · rename_i heq
        cases hr
        subst heq
        exact ⟨hseen, next, mem_append_right _ mem_cons_self, hans, rfl⟩
      · exact hold hr
  complete id' hid' hseen' hex := by
    obtain ⟨msg, hmsg, hans'⟩ := hex
    dsimp only
    rcases mem_append.mp hmsg with hmsg | hmsg
    · have hhas := h.complete id' hid' hseen' ⟨msg, hmsg, hans'⟩
      split
      · exact hhas
      · exact has_set_of_has _ hhas
    · rw [mem_singleton.mp hmsg] at hans'
      obtain rfl : id = id' := some.inj (hans.2.symm.trans hans'.2)
      split
      · assumption
      · exact has_set_self _ _ _
  changed := by
    have hnext : ScanChanges toolCalls seen next ↔
        (normalizeToolResultName next (fallbackName toolCalls id)).isSome = true := by
      constructor
      · rintro ⟨-, hch⟩
        exact (hch id hans.2 hid).resolve_left hseen
      · refine fun hname => ⟨hans.1, fun id' hid' _ => .inr ?_⟩
        obtain rfl : id = id' := some.inj (hans.2.symm.trans hid')
        exact hname
    rw [or_eq_true, h.changed, ← hnext]
    simp only [mem_append, mem_singleton, or_and_right, exists_or, exists_eq_left]

theorem foldl_scanSpan (toolCalls : List ToolCallLike) (seen : List String) (messages : List AgentMessage) :
    Scanned toolCalls seen messages (messages.foldl (scanSpan toolCalls seen) .init) := by
  induction messages using List.reverseRecOn with
  | nil => exact Scanned.nil toolCalls seen
  | append_singleton messages next ih =>
    rw [foldl_append, foldl_cons, foldl_nil]
    generalize messages.foldl (scanSpan toolCalls seen) .init = span at ih ⊢
    unfold scanSpan
    split
    · rename_i hnext
      split
      · rename_i id hid
        split
        · rename_i hmem
          split
          · rename_i hseen
            refine ih.dropped hnext (fun id' hid' _ => ?_) rfl rfl rfl
            exact some.inj (hid.symm.trans hid') ▸ hseen
          · rename_i hseen
            exact ih.answer ⟨hnext, hid⟩ hmem hseen
        · rename_i hmem
          refine ih.dropped hnext (fun id' hid' hmem' => ?_) rfl rfl rfl
          exact absurd (some.inj (hid.symm.trans hid') ▸ hmem') hmem
      · rename_i hid
        refine ih.dropped hnext (fun id' hid' _ => ?_) rfl rfl rfl
        rw [hid] at hid'
        cases hid'
    · rename_i hnext
      exact ih.other (not_eq_true _ ▸ hnext)

/-! ### The results of a turn -/

theorem answers_makeMissingToolResult (now : ℚ) {id : String} (hid : id ≠ "")
    (name : Option String) : Answers (makeMissingToolResult now id name) id := by
  refine ⟨by rfl, ?_⟩
  have hlookup : (fieldsOf (makeMissingToolResult now id name)).lookup "toolCallId" = some (.str id) := by
    rfl
  rw [extractToolResultId, hlookup, nonEmptyText, textOf, filter_some, if_pos (by simpa using hid)]
  rfl

variable {call : ToolCallLike}

theorem id_ne_empty_of_mem (h : call ∈ toolCallsOf msg) : call.id ≠ "" := by
  unfold toolCallsOf at h
  split at h
  · unfold extractToolCallsFromAssistant at h
    split at h
    · obtain ⟨block, -, hblock⟩ := mem_filterMap.mp h
      unfold toolCallOf at hblock
      split at hblock
      · obtain ⟨hcond, hcall⟩ := ite_none_right_eq_some.mp hblock
        exact some.inj hcall ▸ hcond.1
      · cases hblock
    · cases h
  · cases h

/-- What the loop over the tool calls does: it appends results, one for each id that was not
answered before. -/
structure Pushed (results : JsMap String AgentMessage) (callIds : List String) (st st' : Repair)
    (rs : List AgentMessage) : Prop where
  out : st'.out = st.out ++ rs
  /-- The ids they are recorded under. -/
  seen : st'.seenToolResultIds = st.seenToolResultIds ++ distinctFrom st.seenToolResultIds callIds
  isResult : ∀ r ∈ rs, isToolResult r = true
  ids : rs.map extractToolResultId = (distinctFrom st.seenToolResultIds callIds).map some
  /-- A result was found or is synthetic. -/
  origin : ∀ r ∈ rs, (∃ id, results.get? id = some r) ∨ r ∈ st'.added
  /-- No synthetic result is forgotten. -/
  added : ∀ r ∈ st.added, r ∈ st'.added
  /-- When `changed` is set. -/
  changed : st'.changed = true ↔ st.changed = true ∨ (∃ id ∈ callIds, results.has id = false) ∨
    ¬ (callIds.Nodup ∧ ∀ id ∈ callIds, id ∉ st.seenToolResultIds)
  /-- `moved` stays. -/
  moved : st'.moved = st.moved

variable {st : Repair}

/-- `pushToolResult` of a result whose call was answered before. -/
theorem pushToolResult_seen {id : String} (h : Answers msg id) (hseen : id ∈ st.seenToolResultIds) :
    pushToolResult st msg =
      { st with droppedDuplicateCount := st.droppedDuplicateCount + 1, changed := true } := by
  simp only [pushToolResult, h.2, if_pos hseen]

/-- `pushToolResult` of a result whose call was not answered before. -/
theorem pushToolResult_fresh {id : String} (h : Answers msg id) (hseen : id ∉ st.seenToolResultIds) :
    pushToolResult st msg =
      { st with seenToolResultIds := st.seenToolResultIds ++ [id], out := st.out ++ [msg] } := by
  simp only [pushToolResult, h.2, if_neg hseen]

variable {results : JsMap String AgentMessage}

theorem pushed_one (now : ℚ)
    (hresults : ∀ id r, results.get? id = some r → Answers r id)
    (hid : call.id ≠ "") (st : Repair) :
    ∃ rs, Pushed results [call.id] st (pushCallResult now results st call) rs := by
  have hpush : ∃ st₀ msg, pushCallResult now results st call = pushToolResult st₀ msg ∧
      Answers msg call.id ∧ st₀.out = st.out ∧ st₀.seenToolResultIds = st.seenToolResultIds ∧
      ((∃ id, results.get? id = some msg) ∨ msg ∈ st₀.added) ∧ (∀ r ∈ st.added, r ∈ st₀.added) ∧
      (st₀.changed = true ↔ st.changed = true ∨ results.has call.id = false) ∧ st₀.moved = st.moved := by
    unfold pushCallResult
    cases hget : results.get? call.id with
    | some existing =>
      refine ⟨st, existing, rfl, hresults _ _ hget, rfl, rfl, .inl ⟨_, hget⟩, fun _ h => h, ?_, rfl⟩
      simp [has_iff.mpr ⟨_, hget⟩]
    | none =>
      refine ⟨_, _, rfl, answers_makeMissingToolResult now hid _, rfl, rfl, .inr ?_,
        fun r h => mem_append_left _ h, ?_, rfl⟩
      · exact mem_append_right _ mem_cons_self
      · simp [JsMap.has, hget]
  obtain ⟨st₀, msg, heq, hans, hout, hseen, horigin, hadded, hchanged, hmoved⟩ := hpush
  rw [heq]
  by_cases hmem : call.id ∈ st.seenToolResultIds
  · rw [pushToolResult_seen hans (hseen ▸ hmem)]
    have hnone : distinctFrom st.seenToolResultIds [call.id] = [] := by simp [distinctFrom, hmem]
    refine ⟨[], by simpa using hout, by simpa [hnone] using hseen, by simp, by simp [hnone], by simp,
      hadded, ?_, hmoved⟩
    exact iff_of_true rfl (.inr (.inr fun h => h.2 _ mem_cons_self hmem))
  · rw [pushToolResult_fresh hans (hseen ▸ hmem)]
    have hone : distinctFrom st.seenToolResultIds [call.id] = [call.id] := by simp [distinctFrom, hmem]
    refine ⟨[msg], by rw [hout], by rw [hone, hseen], by simpa using hans.1, by simp [hone, hans.2],
      by simpa using horigin, hadded, ?_, hmoved⟩
    rw [hchanged]
    simp [hmem]

theorem Pushed.cons {id : String} {ids : List String}
    {st st₁ st₂ : Repair} {rs₁ rs₂ : List AgentMessage} (h₁ : Pushed results [id] st st₁ rs₁)
    (h₂ : Pushed results ids st₁ st₂ rs₂) : Pushed results (id :: ids) st st₂ (rs₁ ++ rs₂) := by
  have hsplit : distinctFrom st.seenToolResultIds (id :: ids) =
      distinctFrom st.seenToolResultIds [id] ++ distinctFrom st₁.seenToolResultIds ids := by
    rw [h₁.seen]
    by_cases hmem : id ∈ st.seenToolResultIds <;> simp [distinctFrom, hmem]
  refine ⟨?_, ?_, ?_, ?_, ?_, fun r hr => h₂.added r (h₁.added r hr), ?_, h₂.moved.trans h₁.moved⟩
  · rw [h₂.out, h₁.out, append_assoc]
  · rw [h₂.seen, hsplit, ← append_assoc, ← h₁.seen]
  · exact fun r hr => (mem_append.mp hr).elim (h₁.isResult r) (h₂.isResult r)
  · rw [map_append, h₁.ids, h₂.ids, hsplit, map_append]
  · intro r hr
    rcases mem_append.mp hr with hr | hr
    · exact (h₁.origin r hr).imp_right (h₂.added r)
    · exact h₂.origin r hr
  · rw [h₂.changed, h₁.changed, h₁.seen]
    by_cases hmem : id ∈ st.seenToolResultIds
    · simp [hmem]
    · simp only [distinctFrom, hmem, mem_append, nodup_cons,
        mem_cons, exists_eq_or_imp, forall_eq_or_imp, nodup_nil, not_mem_nil,
        not_false_eq_true, if_false]
      grind

theorem foldl_pushCallResult (now : ℚ)
    (hresults : ∀ id r, results.get? id = some r → Answers r id) {calls : List ToolCallLike}
    (hids : ∀ call ∈ calls, call.id ≠ "") (st : Repair) :
    ∃ rs, Pushed results (calls.map (·.id)) st (calls.foldl (pushCallResult now results) st) rs := by
  induction calls generalizing st with
  | nil => exact ⟨[], by simp, by simp [distinctFrom], by simp, by simp [distinctFrom], by simp, by simp,
      by simp, rfl⟩
  | cons call calls ih =>
    obtain ⟨rs₁, h₁⟩ := pushed_one now hresults (hids call mem_cons_self) st
    obtain ⟨rs₂, h₂⟩ := ih (fun c hc => hids c (mem_cons_of_mem _ hc)) (pushCallResult now results st call)
    exact ⟨rs₁ ++ rs₂, h₁.cons h₂⟩

/-! ### The turn -/

/-- The turn needs no repair: each call has a result, and there is nothing but results of the
calls, with their names normalized. -/
def SpanClean (msg : AgentMessage) (span : List AgentMessage) : Prop :=
  (callIds msg).Nodup ∧ (∀ id ∈ callIds msg, ∃ r ∈ span, Answers r id) ∧
    ∀ r ∈ span, ∃ id ∈ callIds msg, Answers r id ∧
      normalizeToolResultName r (fallbackName (toolCallsOf msg) id) = none

/-- What a turn does. -/
structure TurnRepaired (st st' : Repair) (msg : AgentMessage) (span : List AgentMessage)
    (rs : List AgentMessage) : Prop where
  /-- The messages: the assistant message, its results and what else stood in the span. -/
  out : st'.out = st.out ++ msg :: rs ++ others span
  seen : st'.seenToolResultIds =
    st.seenToolResultIds ++ distinctFrom st.seenToolResultIds (callIds msg)
  isResult : ∀ r ∈ rs, isToolResult r = true
  ids : rs.map extractToolResultId = (distinctFrom st.seenToolResultIds (callIds msg)).map some
  /-- A result is one of the span, perhaps with its name normalized, or synthetic. -/
  origin : ∀ r ∈ rs, r ∈ st'.added ∨
    ∃ id, ∃ r₀ ∈ span, Answers r₀ id ∧ r = normalized (toolCallsOf msg) id r₀
  /-- No synthetic result is forgotten. -/
  added : ∀ r ∈ st.added, r ∈ st'.added
  /-- When `changed` is set. -/
  changed : st'.changed = true ↔
    st.changed = true ∨ ¬ ((∀ id ∈ callIds msg, id ∉ st.seenToolResultIds) ∧ SpanClean msg span)
  /-- `moved` is set with `changed` only. -/
  moved : st'.moved = true → st.moved = true ∨ st'.changed = true

theorem Scanned.get?_answers {seen : List String} (h : Scanned toolCalls seen messages span) (id : String)
    (r : AgentMessage) (hr : span.spanResultsById.get? id = some r) : Answers r id := by
  obtain ⟨-, msg, -, hans, rfl⟩ := h.found id r hr
  exact hans.normalized _ _

/-- Nothing in the span sets `changed` exactly if the turn needs no repair. -/
theorem Scanned.unchanged_iff (hcalls : toolCallsOf msg ≠ []) {seen : List String}
    (h : Scanned (toolCallsOf msg) seen messages span) :
    (span.changed = false ∧ ¬ (0 < span.spanResultsById.size ∧ span.remainder ≠ []) ∧
        (∀ id ∈ callIds msg, span.spanResultsById.has id = true) ∧ (callIds msg).Nodup ∧
        ∀ id ∈ callIds msg, id ∉ seen) ↔
      (∀ id ∈ callIds msg, id ∉ seen) ∧ SpanClean msg messages := by
  have hunchanged : span.changed = false ↔ ∀ r ∈ messages, ¬ ScanChanges (toolCallsOf msg) seen r := by
    rw [← not_eq_true, h.changed]
    push Not
    rfl
  constructor
  · rintro ⟨hspan, hdisplaced, hhas, hnodup, hfresh⟩
    have hsize : 0 < span.spanResultsById.size := by
      obtain ⟨call, rest, hcall⟩ := exists_cons_of_ne_nil hcalls
      have hmem : call.id ∈ callIds msg := by simp [callIds, hcall]
      exact size_pos_iff.mpr ⟨_, hhas _ hmem⟩
    have hothers : others messages = [] := by
      rw [← h.remainder]
      exact not_not.mp fun hne => hdisplaced ⟨hsize, hne⟩
    refine ⟨hfresh, hnodup, fun id hid => ?_, fun r hr => ?_⟩
    · obtain ⟨r, hr⟩ := has_iff.mp (hhas id hid)
      obtain ⟨-, r₀, hr₀, hans, -⟩ := h.found id r hr
      exact ⟨r₀, hr₀, hans⟩
    · have hresult : isToolResult r = true := by
        simpa using filter_eq_nil_iff.mp hothers r hr
      have hno := hunchanged.mp hspan r hr
      rw [ScanChanges] at hno
      push Not at hno
      obtain ⟨id, hid, hmem, -, hname⟩ := hno hresult
      exact ⟨id, hmem, ⟨hresult, hid⟩, by simpa using hname⟩
  · rintro ⟨hfresh, hnodup, hall, hclean⟩
    have hothers : others messages = [] := others_of_forall fun r hr => by
      obtain ⟨id, -, hans, -⟩ := hclean r hr
      exact hans.1
    refine ⟨hunchanged.mpr fun r hr hch => ?_, fun hd => hd.2 (h.remainder.trans hothers),
      fun id hid => h.complete id hid (hfresh id hid) (hall id hid), hnodup, hfresh⟩
    obtain ⟨id, hid, hans, hname⟩ := hclean r hr
    rcases hch.2 id hans.2 hid with hseen | hsome
    · exact hfresh id hid hseen
    · rw [hname] at hsome
      cases hsome

theorem repairTurn_repaired (now : ℚ) (hcalls : toolCallsOf msg ≠ [])
    (st : Repair) (messages : List AgentMessage) :
    ∃ rs, TurnRepaired st (repairTurn now st msg messages) msg messages rs := by
  have hscan := foldl_scanSpan (toolCallsOf msg) st.seenToolResultIds messages
  have hclean := hscan.unchanged_iff hcalls
  unfold repairTurn
  dsimp only
  generalize messages.foldl (scanSpan (toolCallsOf msg) st.seenToolResultIds) .init = span at *
  obtain ⟨rs, hpushed⟩ := foldl_pushCallResult now hscan.get?_answers
    (fun call hcall => id_ne_empty_of_mem hcall)
    { st with
      out := st.out ++ [msg]
      droppedDuplicateCount := st.droppedDuplicateCount + span.droppedDuplicates
      droppedOrphanCount := st.droppedOrphanCount + span.droppedOrphans
      moved := st.moved || (0 < span.spanResultsById.size && span.remainder ≠ [])
      changed :=
        st.changed || span.changed || (0 < span.spanResultsById.size && span.remainder ≠ []) }
  refine ⟨rs, ?_, hpushed.seen, hpushed.isResult, hpushed.ids, fun r hr => ?_, hpushed.added, ?_, ?_⟩
  · rw [hpushed.out, hscan.remainder]
    simp
  · rcases hpushed.origin r hr with ⟨id, hget⟩ | hadded
    · obtain ⟨-, r₀, hr₀, hans, heq⟩ := hscan.found id r hget
      exact .inr ⟨id, r₀, hr₀, hans, heq⟩
    · exact .inl hadded
  · rw [hpushed.changed, ← hclean]
    simp only [or_eq_true, and_eq_true, decide_eq_true_eq, callIds]
    grind
  · intro hmoved
    rw [hpushed.moved] at hmoved
    rcases or_eq_true_iff.mp hmoved with hmoved | hdisplaced
    · exact .inl hmoved
    · refine .inr (hpushed.changed.mpr (.inl ?_))
      rw [or_eq_true]
      exact .inr hdisplaced

end Foxclaw.Agents
