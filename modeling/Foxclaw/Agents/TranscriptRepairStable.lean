import Foxclaw.Agents.TranscriptPairing

/-!
# Transcripts that the repair leaves alone

When `repairToolUseResultPairing` reports nothing about a transcript whose results are in place, and
when a repaired transcript is left as it is by another repair.

## The model

`WellPaired` is a transcript in which every call is answered at once. Neither half holds always: a
message behind the results counts as a move, an id that comes back costs the second call its result, and
a synthetic result keeps the name of its call as it was written, which the next repair trims.

## What is proved

* `repairTurn_out` — the messages of a turn, as a function of the span.
* `secondTurn_iff` — what a second repair makes of them.
* `repairLoop_twice` — a second repair of the whole list.
* `repair_stable_iff` — both halves, each with the exact condition.
-/

namespace Foxclaw.Agents

open List Option

/-! ### The messages of a turn -/

/-- The result answers the call with this id. -/
def answersId (id : String) (r : AgentMessage) : Bool :=
  isToolResult r && decide (extractToolResultId r = some id)

variable {r : AgentMessage}

theorem answersId_iff {id : String} : answersId id r = true ↔ Answers r id := by
  rw [answersId, Bool.and_eq_true, decide_eq_true_eq, Answers]

variable {toolCalls : List ToolCallLike}

variable {seen seen' : List String}

/-- The inner loop keeps the first result of a call that was not answered before. -/
theorem get?_foldl_scanSpan {id : String}
    (hid : id ∈ toolCalls.map (·.id)) (hseen : id ∉ seen) (messages : List AgentMessage) :
    (messages.foldl (scanSpan toolCalls seen) .init).spanResultsById.get? id =
      (messages.find? (answersId id)).map (normalized toolCalls id) := by
  induction messages using List.reverseRecOn with
  | nil => rfl
  | append_singleton messages next ih =>
    rw [foldl_append, foldl_cons, foldl_nil, find?_append, find?_singleton]
    generalize messages.foldl (scanSpan toolCalls seen) .init = span at ih ⊢
    by_cases hans : Answers next id
    · rw [if_pos (answersId_iff.mpr hans), scanSpan, if_pos hans.1]
      simp only [hans.2, if_pos hid, if_neg hseen, JsMap.has, ih]
      cases hfind : messages.find? (answersId id) with
      | some first =>
        simp only [map_some, isSome_some, if_true, some_or]
        rw [ih, hfind]
        rfl
      | none =>
        simp only [map_none, isSome_none, Bool.false_eq_true, if_false, none_or, JsMap.get?_set_self]
        rfl
    · have hnot : answersId id next = false := by
        rw [← Bool.not_eq_true, answersId_iff]
        exact hans
      rw [if_neg (by rw [hnot]; decide), or_none, ← ih, scanSpan]
      split
      next hresult =>
        split
        next id' hid' =>
          have hne : id' ≠ id := fun heq => hans ⟨hresult, heq ▸ hid'⟩
          split
          · split
            · rfl
            · dsimp only
              split
              · rfl
              · rw [JsMap.get?_set, if_neg hne]
          · rfl
        next => rfl
      next => rfl

/-- The first call of each id that was not answered before. -/
def freshCalls : List String → List ToolCallLike → List ToolCallLike
  | _, [] => []
  | seen, call :: calls =>
    if call.id ∈ seen then freshCalls seen calls else call :: freshCalls (seen ++ [call.id]) calls

theorem map_id_freshCalls (seen : List String) (calls : List ToolCallLike) :
    (freshCalls seen calls).map (·.id) = distinctFrom seen (calls.map (·.id)) := by
  induction calls generalizing seen with
  | nil => rfl
  | cons call calls ih =>
    rw [freshCalls, map_cons, distinctFrom]
    split
    · exact ih seen
    · rw [map_cons, ih]

variable {call : ToolCallLike} {calls : List ToolCallLike}

theorem mem_freshCalls (h : call ∈ freshCalls seen calls) : call ∈ calls ∧ call.id ∉ seen := by
  refine ⟨?_, ?_⟩
  · induction calls generalizing seen with
    | nil => cases h
    | cons first calls ih =>
      rw [freshCalls] at h
      split at h
      · exact mem_cons_of_mem _ (ih h)
      · rcases mem_cons.mp h with rfl | h
        · exact mem_cons_self
        · exact mem_cons_of_mem _ (ih h)
  · have hid : call.id ∈ distinctFrom seen (calls.map (·.id)) := by
      rw [← map_id_freshCalls]
      exact List.mem_map_of_mem h
    exact (not_mem_of_mem_distinctFrom hid).1

theorem freshCalls_congr (h : ∀ id, id ∈ seen ↔ id ∈ seen')
    (calls : List ToolCallLike) : freshCalls seen calls = freshCalls seen' calls := by
  induction calls generalizing seen seen' with
  | nil => rfl
  | cons call calls ih =>
    have hnext : ∀ id, id ∈ seen ++ [call.id] ↔ id ∈ seen' ++ [call.id] := by
      intro id
      rw [mem_append, mem_append, h id]
    rw [freshCalls, freshCalls]
    by_cases hmem : call.id ∈ seen
    · rw [if_pos hmem, if_pos ((h _).mp hmem), ih h]
    · rw [if_neg hmem, if_neg fun hmem' => hmem ((h _).mpr hmem'), ih hnext]

/-- The result a call gets: the first one in the span, or a synthetic one. -/
def callResult (now : ℚ) (msg : AgentMessage) (span : List AgentMessage) (call : ToolCallLike) :
    AgentMessage :=
  ((span.find? (answersId call.id)).map (normalized (toolCallsOf msg) call.id)).getD
    (makeMissingToolResult now call.id call.name)

/-- The results of a turn. -/
def turnResults (now : ℚ) (seen : List String) (msg : AgentMessage) (span : List AgentMessage) :
    List AgentMessage :=
  (freshCalls seen (toolCallsOf msg)).map (callResult now msg span)

variable (now : ℚ)

theorem out_foldl_pushCallResult {results : JsMap String AgentMessage}
    (hresults : ∀ id r, results.get? id = some r → Answers r id)
    (hids : ∀ call ∈ calls, call.id ≠ "") (st : Repair) :
    (calls.foldl (pushCallResult now results) st).out =
      st.out ++ (freshCalls st.seenToolResultIds calls).map fun call =>
        (results.get? call.id).getD (makeMissingToolResult now call.id call.name) := by
  induction calls generalizing st with
  | nil => simp [freshCalls]
  | cons call calls ih =>
    obtain ⟨st₀, hpush, hout, hseen⟩ : ∃ st₀ : Repair, pushCallResult now results st call = pushToolResult st₀
          ((results.get? call.id).getD (makeMissingToolResult now call.id call.name)) ∧
        st₀.out = st.out ∧ st₀.seenToolResultIds = st.seenToolResultIds := by
      rw [pushCallResult]
      cases results.get? call.id with
      | some existing => exact ⟨st, rfl, rfl, rfl⟩
      | none => exact ⟨_, rfl, rfl, rfl⟩
    have hans : Answers
        ((results.get? call.id).getD (makeMissingToolResult now call.id call.name)) call.id := by
      cases hget : results.get? call.id with
      | some existing => exact hresults _ _ hget
      | none => exact answers_makeMissingToolResult now (hids call mem_cons_self) call.name
    rw [foldl_cons, ih (fun c hc => hids c (mem_cons_of_mem _ hc)), hpush, freshCalls]
    by_cases hmem : call.id ∈ st.seenToolResultIds
    · rw [pushToolResult_seen hans (hseen ▸ hmem), if_pos hmem]
      simp only [hout, hseen]
    · rw [pushToolResult_fresh hans (hseen ▸ hmem), if_neg hmem]
      simp only [hout, hseen, map_cons, append_assoc, singleton_append]

/-- The messages of a turn: the assistant message, its results and what else stood in the span. -/
theorem repairTurn_out (st : Repair) (msg : AgentMessage) (span : List AgentMessage) :
    (repairTurn now st msg span).out =
      st.out ++ (msg :: turnResults now st.seenToolResultIds msg span ++ others span) := by
  have hscan := foldl_scanSpan (toolCallsOf msg) st.seenToolResultIds span
  have hresults : (freshCalls st.seenToolResultIds (toolCallsOf msg)).map (fun call =>
      ((span.foldl (scanSpan (toolCallsOf msg) st.seenToolResultIds) .init).spanResultsById.get?
        call.id).getD (makeMissingToolResult now call.id call.name)) =
      turnResults now st.seenToolResultIds msg span := by
    refine map_congr_left fun call hcall => ?_
    obtain ⟨hmem, hseen⟩ := mem_freshCalls hcall
    rw [get?_foldl_scanSpan (List.mem_map_of_mem hmem) hseen, callResult]
  rw [repairTurn]
  dsimp only
  rw [out_foldl_pushCallResult now hscan.get?_answers fun call hcall => id_ne_empty_of_mem hcall,
    hscan.remainder, hresults]
  simp only [append_assoc, cons_append, nil_append]

variable {msg : AgentMessage}

theorem repairTurn_seen (st : Repair) (hcalls : toolCallsOf msg ≠ []) (span : List AgentMessage) :
    (repairTurn now st msg span).seenToolResultIds =
      st.seenToolResultIds ++ distinctFrom st.seenToolResultIds (callIds msg) := by
  obtain ⟨rs, hrs⟩ := repairTurn_repaired now hcalls st span
  exact hrs.seen

/-! ### Names -/

/-- A synthetic result gets a name that is trimmed already. -/
def TrimmedName (call : ToolCallLike) : Prop :=
  ∀ name, call.name = some name → trimNonEmptyString (some name) = some name

variable {name : String}

theorem trimNonEmptyString_idem {value : Option String}
    (h : trimNonEmptyString value = some name) : trimNonEmptyString (some name) = some name := by
  obtain ⟨text, -, htext⟩ := bind_eq_some_iff.mp h
  dsimp only at htext
  split at htext
  next hne =>
    obtain rfl := some.inj htext
    simp [trimNonEmptyString, hne]
  next => cases htext

/-- The name of a result. -/
abbrev resultName (r : AgentMessage) : Option String := textOf ((fieldsOf r).lookup "toolName")

theorem resultName_setField (r : AgentMessage) (name : String) :
    resultName (setField r "toolName" (.str name)) = some name := by
  rw [resultName, lookup_setField, if_pos rfl, textOf]

theorem normalizeToolResultName_trimmed (fallback : Option String) (hname : resultName r = some name)
    (htrim : trimNonEmptyString (some name) = some name) : normalizeToolResultName r fallback = none := by
  rw [normalizeToolResultName]
  simp only [hname, htrim, if_true]

/-- A new name is trimmed, and another one than before. -/
theorem normalizeToolResultName_some {r r' : AgentMessage} {fallback : Option String}
    (h : normalizeToolResultName r fallback = some r') :
    ∃ name, r' = setField r "toolName" (.str name) ∧ trimNonEmptyString (some name) = some name ∧
      resultName r ≠ some name := by
  have hother : ∀ name, trimNonEmptyString (some name) = some name →
      trimNonEmptyString (resultName r) = none → resultName r ≠ some name := by
    intro name htrim hnone heq
    rw [heq, htrim] at hnone
    cases hnone
  rw [normalizeToolResultName] at h
  split at h
  next name hname =>
    split at h
    next => cases h
    next hne =>
      obtain rfl := some.inj h
      exact ⟨name, rfl, trimNonEmptyString_idem hname, hne⟩
  next hnone =>
    split at h
    next name hname =>
      obtain rfl := some.inj h
      have htrim := trimNonEmptyString_idem hname
      exact ⟨name, rfl, htrim, hother name htrim hnone⟩
    next =>
      split at h
      next =>
        obtain rfl := some.inj h
        have htrim : trimNonEmptyString (some "unknown") = some "unknown" := by decide +kernel
        exact ⟨"unknown", rfl, htrim, hother "unknown" htrim hnone⟩
      next => cases h

theorem normalized_eq_self_iff {id : String} :
    normalized toolCalls id r = r ↔ normalizeToolResultName r (fallbackName toolCalls id) = none := by
  rw [normalized]
  cases h : normalizeToolResultName r (fallbackName toolCalls id) with
  | none => exact iff_of_true rfl rfl
  | some r' =>
    refine iff_of_false (fun heq => ?_) (fun h => nomatch h)
    obtain ⟨name, rfl, -, hne⟩ := normalizeToolResultName_some h
    rw [getD_some] at heq
    exact hne (heq ▸ resultName_setField r name)

theorem normalized_normalized (toolCalls : List ToolCallLike) (id : String) (r : AgentMessage) :
    normalized toolCalls id (normalized toolCalls id r) = normalized toolCalls id r := by
  cases h : normalizeToolResultName r (fallbackName toolCalls id) with
  | none =>
    have hself : normalized toolCalls id r = r := normalized_eq_self_iff.mpr h
    rw [hself, hself]
  | some r' =>
    obtain ⟨name, rfl, htrim, -⟩ := normalizeToolResultName_some h
    have hnew : normalized toolCalls id r = setField r "toolName" (.str name) := by
      rw [normalized, h, getD_some]
    rw [hnew, normalized_eq_self_iff]
    exact normalizeToolResultName_trimmed _ (resultName_setField r name) htrim

/-- The name of a synthetic result is normalized already exactly if that of the call is trimmed. -/
theorem normalized_missing_iff (toolCalls : List ToolCallLike) (id : String) (call : ToolCallLike) :
    normalized toolCalls id (makeMissingToolResult now call.id call.name) =
        makeMissingToolResult now call.id call.name ↔ TrimmedName call := by
  have hname : resultName (makeMissingToolResult now call.id call.name) =
      some (call.name.getD "unknown") := rfl
  rw [normalized_eq_self_iff, TrimmedName]
  constructor
  · intro h name hcall
    have hraw : textOf ((fieldsOf (makeMissingToolResult now call.id call.name)).lookup "toolName") =
        some name := by
      rw [hcall] at hname ⊢
      exact hname
    by_contra hne
    rw [normalizeToolResultName] at h
    simp only [hraw] at h
    split at h
    next trimmed htrim =>
      split at h
      next heq => exact hne (htrim.trans heq.symm)
      next => cases h
    next =>
      split at h
      · cases h
      · simp at h
  · intro h
    refine normalizeToolResultName_trimmed _ hname ?_
    cases hcall : call.name with
    | none => decide +kernel
    | some name => exact h name hcall

/-! ### A second repair of a turn -/

theorem nodup_distinctFrom (seen ids : List String) : (distinctFrom seen ids).Nodup := by
  induction ids generalizing seen with
  | nil => exact nodup_nil
  | cons id ids ih =>
    rw [distinctFrom]
    split
    · exact ih seen
    · refine nodup_cons.mpr ⟨fun hmem => ?_, ih _⟩
      exact (not_mem_of_mem_distinctFrom hmem).1 (mem_append_right _ mem_cons_self)

theorem answers_callResult (hcall : call ∈ toolCallsOf msg) (span : List AgentMessage) :
    Answers (callResult now msg span call) call.id := by
  rw [callResult]
  cases hfind : span.find? (answersId call.id) with
  | some r => exact (answersId_iff.mp (find?_some hfind)).normalized _ _
  | none => exact answers_makeMissingToolResult now (id_ne_empty_of_mem hcall) call.name

variable {span : List AgentMessage}

theorem answers_of_mem_turnResults {now : ℚ} {msg r : AgentMessage} (h : r ∈ turnResults now seen msg span) :
    ∃ call ∈ freshCalls seen (toolCallsOf msg), callResult now msg span call = r ∧ Answers r call.id := by
  obtain ⟨call, hcall, rfl⟩ := List.mem_map.mp h
  exact ⟨call, hcall, rfl, answers_callResult now (mem_freshCalls hcall).1 span⟩

theorem others_repaired (seen : List String) (msg : AgentMessage) (span : List AgentMessage) :
    others (turnResults now seen msg span ++ others span) = others span := by
  have hresults : others (turnResults now seen msg span) = [] := others_of_forall fun r hr => by
    obtain ⟨call, -, -, hans⟩ := answers_of_mem_turnResults hr
    exact hans.1
  rw [others_append, hresults, nil_append, others_of_forall_not fun m hm => not_isToolResult_of_mem_others hm]

/-- In a repaired turn each call finds its result. -/
theorem find?_repaired (hcall : call ∈ freshCalls seen (toolCallsOf msg)) (span : List AgentMessage) :
    (turnResults now seen msg span ++ others span).find? (answersId call.id) =
      some (callResult now msg span call) := by
  have hans := answers_callResult now (mem_freshCalls hcall).1 span
  have hmem : callResult now msg span call ∈ turnResults now seen msg span :=
    List.mem_map_of_mem hcall
  have hnodup : ((freshCalls seen (toolCallsOf msg)).map (·.id)).Nodup := by
    rw [map_id_freshCalls]
    exact nodup_distinctFrom _ _
  -- another result for the same id would be that of the same call
  have hunique : ∀ r ∈ turnResults now seen msg span, answersId call.id r = true →
      r = callResult now msg span call := by
    intro r hr hid
    obtain ⟨call', hcall', rfl, hans'⟩ := answers_of_mem_turnResults hr
    have heq : call'.id = call.id :=
      some.inj (hans'.2.symm.trans (answersId_iff.mp hid).2)
    rw [inj_on_of_nodup_map hnodup hcall' hcall heq]
  obtain ⟨r, hfind⟩ : ∃ r, (turnResults now seen msg span).find? (answersId call.id) = some r := by
    rw [← isSome_iff_exists, find?_isSome]
    exact ⟨_, hmem, answersId_iff.mpr hans⟩
  rw [find?_append, hfind, some_or, hunique r (mem_of_find?_eq_some hfind) (find?_some hfind)]

theorem callResult_repaired (now now' : ℚ)
    (hcall : call ∈ freshCalls seen (toolCallsOf msg)) (span : List AgentMessage) :
    callResult now' msg (turnResults now seen msg span ++ others span) call =
      normalized (toolCallsOf msg) call.id (callResult now msg span call) := by
  rw [callResult, find?_repaired now hcall, map_some, getD_some]

/-- The calls that get a synthetic result have trimmed names. -/
def TurnNamesTrimmed (seen : List String) (msg : AgentMessage) (span : List AgentMessage) : Prop :=
  ∀ call ∈ freshCalls seen (toolCallsOf msg), (∀ r ∈ span, ¬ Answers r call.id) → TrimmedName call

theorem find?_eq_none_iff {id : String} : span.find? (answersId id) = none ↔ ∀ r ∈ span, ¬ Answers r id := by
  simp only [List.find?_eq_none, answersId_iff]

/-- A second repair of a turn leaves the results exactly if the synthetic ones have trimmed names. -/
theorem secondTurn_iff (now now' : ℚ) (seen : List String) (msg : AgentMessage) (span : List AgentMessage) :
    turnResults now' seen msg (turnResults now seen msg span ++ others span) =
        turnResults now seen msg span ↔ TurnNamesTrimmed seen msg span := by
  have hmap : turnResults now' seen msg (turnResults now seen msg span ++ others span) =
      turnResults now seen msg span ↔ ∀ call ∈ freshCalls seen (toolCallsOf msg),
        callResult now' msg (turnResults now seen msg span ++ others span) call =
          callResult now msg span call := map_inj_left
  rw [hmap, TurnNamesTrimmed]
  refine forall_congr' fun call => forall_congr' fun hcall => ?_
  rw [callResult_repaired now now' hcall, ← find?_eq_none_iff, callResult]
  cases hfind : span.find? (answersId call.id) with
  | some r => simp [normalized_normalized]
  | none => simp [normalized_missing_iff]

/-- If nothing in the repaired turn is noticed, the names were trimmed. -/
theorem turnNamesTrimmed_of_spanClean (h : SpanClean msg (turnResults now seen msg span ++ others span)) :
    TurnNamesTrimmed seen msg span := by
  intro call hcall hnone
  have hmissing : callResult now msg span call = makeMissingToolResult now call.id call.name := by
    rw [callResult, find?_eq_none_iff.mpr hnone]
    rfl
  have hans := answers_callResult now (mem_freshCalls hcall).1 span
  have hmem : callResult now msg span call ∈ turnResults now seen msg span ++ others span :=
    mem_append_left _ (List.mem_map_of_mem hcall)
  obtain ⟨id, -, hid, hname⟩ := h.2.2 _ hmem
  obtain rfl : id = call.id := some.inj (hid.2.symm.trans hans.2)
  rw [hmissing] at hname
  exact (normalized_missing_iff now (toolCallsOf msg) call.id call).mp (normalized_eq_self_iff.mpr hname)

/-! ### A second repair of the list -/

/-- The calls of the list that get a synthetic result have trimmed names. -/
def NamesTrimmed : List String → List AgentMessage → Prop
  | _, [] => True
  | seen, msg :: rest => TurnNamesTrimmed seen msg (spanOf rest) ∧ NamesTrimmed (seen ++ callIds msg) rest

theorem namesTrimmed_congr (h : ∀ id, id ∈ seen ↔ id ∈ seen')
    (messages : List AgentMessage) : NamesTrimmed seen messages ↔ NamesTrimmed seen' messages := by
  induction messages generalizing seen seen' with
  | nil => exact Iff.rfl
  | cons msg rest ih =>
    have hnext : ∀ id, id ∈ seen ++ callIds msg ↔ id ∈ seen' ++ callIds msg := by
      intro id
      rw [mem_append, mem_append, h id]
    rw [NamesTrimmed, NamesTrimmed, ih hnext, TurnNamesTrimmed, TurnNamesTrimmed, freshCalls_congr h]

theorem namesTrimmed_loose (h : toolCallsOf msg = [])
    (rest : List AgentMessage) : NamesTrimmed seen (msg :: rest) ↔ NamesTrimmed seen rest := by
  rw [NamesTrimmed, TurnNamesTrimmed, h, callIds_of_toolCallsOf h, append_nil]
  simp [freshCalls]

variable {messages : List AgentMessage}

theorem namesTrimmed_append_of_forall (h : ∀ msg ∈ messages, toolCallsOf msg = [])
    (rest : List AgentMessage) : NamesTrimmed seen (messages ++ rest) ↔ NamesTrimmed seen rest := by
  induction messages with
  | nil => exact Iff.rfl
  | cons msg messages ih =>
    rw [cons_append, namesTrimmed_loose (h msg mem_cons_self)]
    exact ih fun m hm => h m (mem_cons_of_mem _ hm)

theorem namesTrimmed_turn (rest : List AgentMessage)
    (hseen : ∀ id, id ∈ seen' ↔ id ∈ seen ∨ id ∈ callIds msg) :
    NamesTrimmed seen (msg :: rest) ↔
      TurnNamesTrimmed seen msg (spanOf rest) ∧ NamesTrimmed seen' (afterSpan rest) := by
  have hset : ∀ id, id ∈ seen ++ callIds msg ↔ id ∈ seen' := by
    intro id
    rw [hseen, mem_append]
  have hspan : NamesTrimmed seen' rest ↔ NamesTrimmed seen' (afterSpan rest) := by
    conv_lhs => rw [← spanOf_append_afterSpan rest]
    exact namesTrimmed_append_of_forall (fun m hm => toolCallsOf_of_mem_spanOf hm) _
  rw [NamesTrimmed, namesTrimmed_congr hset, hspan]

theorem spanOf_append (h : ∀ m ∈ span, isAssistant m = false)
    (rest : List AgentMessage) : spanOf (span ++ rest) = span ++ spanOf rest :=
  takeWhile_append_of_pos fun m hm => by rw [h m hm]; rfl

theorem afterSpan_append (h : ∀ m ∈ span, isAssistant m = false)
    (rest : List AgentMessage) : afterSpan (span ++ rest) = afterSpan rest :=
  dropWhile_append_of_pos fun m hm => by rw [h m hm]; rfl

theorem spanOf_afterSpan (messages : List AgentMessage) : spanOf (afterSpan messages) = [] := by
  have hlen := congrArg spanOf (spanOf_append_afterSpan messages)
  rw [spanOf_append fun m hm => not_isAssistant_of_mem_spanOf hm] at hlen
  exact append_right_eq_self.mp hlen

theorem afterSpan_eq_self (h : spanOf messages = []) : afterSpan messages = messages := by
  have heq := spanOf_append_afterSpan messages
  rwa [h, nil_append] at heq

/-- The messages of a repaired turn behind the assistant message are no assistant messages. -/
theorem not_isAssistant_of_mem_repaired {now : ℚ} {rest : List AgentMessage} :
    ∀ m ∈ turnResults now seen msg (spanOf rest) ++ others (spanOf rest), isAssistant m = false := by
  intro m hm
  rcases mem_append.mp hm with hm | hm
  · obtain ⟨call, -, -, hans⟩ := answers_of_mem_turnResults hm
    by_contra hassistant
    have := not_isToolResult_of_isAssistant (Bool.not_eq_false _ ▸ hassistant)
    rw [hans.1] at this
    cases this
  · exact not_isAssistant_of_mem_spanOf (mem_of_mem_filter hm)

/-- What a second repair makes of the messages of the first. -/
structure RepairedTwice (seen : List String) (messages extra extra' : List AgentMessage) : Prop where
  length : extra'.length = extra.length
  /-- They are the same exactly if the synthetic results have trimmed names. -/
  same : extra' = extra ↔ NamesTrimmed seen messages
  /-- They start with an assistant message if the list does. -/
  first : spanOf messages = [] → spanOf extra = []
  /-- If the second repair notices nothing, the names were trimmed. -/
  clean : Clean extra → NamesTrimmed seen messages

/-- The outer loop, twice. -/
theorem repairLoop_twice (now now' : ℚ) (messages : List AgentMessage) (st st' : Repair)
    (hseen : st'.seenToolResultIds = st.seenToolResultIds) :
    ∃ extra extra', (repairLoop now 0 messages st).out = st.out ++ extra ∧
      (repairLoop now' 0 extra st').out = st'.out ++ extra' ∧
      RepairedTwice st.seenToolResultIds messages extra extra' := by
  induction messages using turns_induction generalizing st st' with
  | nil =>
    refine ⟨[], [], by simp [repairLoop], by simp [repairLoop], rfl, ?_, fun h => h, fun _ => ?_⟩
    · simp [NamesTrimmed]
    · simp [NamesTrimmed]
  | loose msg rest hcalls ih =>
    cases hresult : isToolResult msg with
    | true =>
      obtain ⟨extra, extra', hout, hout', h⟩ := ih (repairLoose st msg) st' (by
        rw [hseen, repairLoose, if_pos hresult])
      rw [repairLoop_loose now hcalls]
      rw [repairLoose, if_pos hresult] at hout h ⊢
      have hfirst : spanOf (msg :: rest) ≠ [] := by
        have hassistant : isAssistant msg = false := by
          by_contra hassistant
          have := not_isToolResult_of_isAssistant (Bool.not_eq_false _ ▸ hassistant)
          rw [hresult] at this
          cases this
        simp [spanOf, hassistant]
      refine ⟨extra, extra', hout, hout', h.length, ?_, fun hnil => absurd hnil hfirst, fun hclean => ?_⟩
      · rw [h.same, namesTrimmed_loose hcalls]
      · exact (namesTrimmed_loose hcalls rest).mpr (h.clean hclean)
    | false =>
      have hnot : ¬ isToolResult msg = true := by
        rw [hresult]
        decide
      obtain ⟨extra, extra', hout, hout', h⟩ := ih (repairLoose st msg) (repairLoose st' msg) (by
        rw [repairLoose, repairLoose, if_neg hnot, if_neg hnot]
        exact hseen)
      rw [repairLoop_loose now hcalls]
      refine ⟨msg :: extra, msg :: extra', ?_, ?_, ?_, ?_, fun hnil => ?_, fun hclean => ?_⟩
      · rw [hout, repairLoose, if_neg hnot, append_assoc, singleton_append]
      · rw [repairLoop_loose now' hcalls, hout', repairLoose, if_neg hnot, append_assoc, singleton_append]
      · rw [length_cons, length_cons, h.length]
      · rw [cons_inj_right, h.same, namesTrimmed_loose hcalls, repairLoose, if_neg hnot]
      · have hassistant : isAssistant msg = true := by
          by_contra hassistant
          simp [spanOf, hassistant] at hnil
        simp [spanOf, hassistant]
      · rw [namesTrimmed_loose hcalls]
        have hrest := h.clean ((clean_loose hcalls extra).mp hclean).2
        rwa [repairLoose, if_neg hnot] at hrest
  | turn msg rest hcalls ih =>
    set rs := turnResults now st.seenToolResultIds msg (spanOf rest) with hrs
    set tail := rs ++ others (spanOf rest) with htail
    have hassistant := isAssistant_of_toolCallsOf hcalls
    have hturn := repairTurn_out now st msg (spanOf rest)
    have hturn' := repairTurn_out now' st' msg tail
    obtain ⟨extra, extra', hout, hout', h⟩ := ih (repairTurn now st msg (spanOf rest))
      (repairTurn now' st' msg tail) (by
        rw [repairTurn_seen now st hcalls, repairTurn_seen now' st' hcalls, hseen])
    have hspan : spanOf (tail ++ extra) = tail := by
      rw [spanOf_append not_isAssistant_of_mem_repaired, h.first (spanOf_afterSpan rest), append_nil]
    have hafter : afterSpan (tail ++ extra) = extra := by
      rw [afterSpan_append not_isAssistant_of_mem_repaired, afterSpan_eq_self (h.first (spanOf_afterSpan rest))]
    set rs' := turnResults now' st.seenToolResultIds msg tail with hrs'
    have hlength : rs'.length = rs.length := by
      rw [hrs', hrs, turnResults, turnResults, length_map, length_map]
    have hnames : NamesTrimmed st.seenToolResultIds (msg :: rest) ↔
        TurnNamesTrimmed st.seenToolResultIds msg (spanOf rest) ∧
          NamesTrimmed (repairTurn now st msg (spanOf rest)).seenToolResultIds (afterSpan rest) :=
      namesTrimmed_turn rest (by
        intro id
        rw [repairTurn_seen now st hcalls, mem_append]
        refine ⟨Or.imp_right fun hid => (not_mem_of_mem_distinctFrom hid).2, fun hid => ?_⟩
        by_cases hold : id ∈ st.seenToolResultIds
        · exact .inl hold
        · exact .inr (mem_distinctFrom (hid.resolve_left hold) hold))
    refine ⟨msg :: (tail ++ extra), msg :: (rs' ++ others (spanOf rest) ++ extra'), ?_, ?_, ?_, ?_,
      fun _ => by simp [spanOf, hassistant], fun hclean => ?_⟩
    · rw [repairLoop_turn now hcalls, hout, hturn, ← hrs]
      simp only [htail, append_assoc, cons_append]
    · rw [repairLoop_turn now' hcalls, hspan, hafter, hout', hturn', hseen, ← hrs', htail, hrs,
        others_repaired]
      simp only [append_assoc, cons_append]
    · simp only [htail, length_cons, length_append, hlength, h.length]
    · rw [cons_inj_right, hnames, ← h.same, ← secondTurn_iff now now', ← hrs, ← htail, ← hrs', htail,
        append_assoc, append_assoc]
      constructor
      · intro heq
        obtain ⟨hfirst, hsecond⟩ := append_inj heq hlength
        exact ⟨hfirst, append_cancel_left hsecond⟩
      · rintro ⟨hfirst, hsecond⟩
        rw [hfirst, hsecond]
    · obtain ⟨hturnClean, hrest⟩ := (clean_turn hcalls _).mp hclean
      rw [hspan] at hturnClean
      rw [hafter] at hrest
      exact hnames.mpr ⟨turnNamesTrimmed_of_spanClean now hturnClean, h.clean hrest⟩

/-! ### A repair that reports nothing -/

/-- As long as `changed` is not set there is nothing to report. -/
def Quiet (st : Repair) : Prop :=
  st.changed = false →
    st.added = [] ∧ st.droppedDuplicateCount = 0 ∧ st.droppedOrphanCount = 0 ∧ st.moved = false

variable {st : Repair}

theorem pushToolResult_quiet (h : Quiet st) (msg : AgentMessage) : Quiet (pushToolResult st msg) := by
  rw [pushToolResult]
  split
  · split
    · exact fun h => absurd h (by simp)
    · exact h
  · exact h

theorem pushCallResult_quiet (results : JsMap String AgentMessage) (h : Quiet st)
    (call : ToolCallLike) : Quiet (pushCallResult now results st call) := by
  rw [pushCallResult]
  split
  · exact pushToolResult_quiet h _
  · refine pushToolResult_quiet ?_ _
    exact fun h => absurd h (by simp)

theorem foldl_scanSpan_quiet (toolCalls : List ToolCallLike) (seen : List String)
    (messages : List AgentMessage) :
    (messages.foldl (scanSpan toolCalls seen) .init).changed = false →
      (messages.foldl (scanSpan toolCalls seen) .init).droppedDuplicates = 0 ∧
        (messages.foldl (scanSpan toolCalls seen) .init).droppedOrphans = 0 := by
  induction messages using List.reverseRecOn with
  | nil => exact fun _ => ⟨rfl, rfl⟩
  | append_singleton messages next ih =>
    rw [foldl_append, foldl_cons, foldl_nil]
    generalize messages.foldl (scanSpan toolCalls seen) .init = span at ih ⊢
    rw [scanSpan]
    split
    · split
      · split
        · split
          · exact fun h => absurd h (by simp)
          · intro h
            exact ih (Bool.or_eq_false_iff.mp h).1
        · exact fun h => absurd h (by simp)
      · exact fun h => absurd h (by simp)
    · exact ih

theorem repairTurn_quiet (h : Quiet st) (msg : AgentMessage)
    (messages : List AgentMessage) : Quiet (repairTurn now st msg messages) := by
  have hspan := foldl_scanSpan_quiet (toolCallsOf msg) st.seenToolResultIds messages
  have hpush : ∀ (results : JsMap String AgentMessage) (calls : List ToolCallLike) (st : Repair),
      Quiet st → Quiet (calls.foldl (pushCallResult now results) st) := by
    intro results calls
    induction calls with
    | nil => exact fun st h => h
    | cons call calls ih => exact fun st h => ih _ (pushCallResult_quiet now results h call)
  rw [repairTurn]
  generalize messages.foldl (scanSpan (toolCallsOf msg) st.seenToolResultIds) .init = span at hspan ⊢
  refine hpush span.spanResultsById (toolCallsOf msg) _ fun hchanged => ?_
  obtain ⟨hboth, hdisplaced⟩ := Bool.or_eq_false_iff.mp hchanged
  obtain ⟨hold, hscan⟩ := Bool.or_eq_false_iff.mp hboth
  obtain ⟨hadded, hduplicates, horphans, hmoved⟩ := h hold
  obtain ⟨hspanDuplicates, hspanOrphans⟩ := hspan hscan
  refine ⟨hadded, ?_, ?_, ?_⟩
  · simp only [hduplicates, hspanDuplicates]
  · simp only [horphans, hspanOrphans]
  · simp only [hmoved, hdisplaced, Bool.or_self]

theorem repairLoop_quiet (skip : ℕ) (messages : List AgentMessage) (h : Quiet st) :
    Quiet (repairLoop now skip messages st) := by
  induction messages generalizing skip st with
  | nil => cases skip <;> exact h
  | cons msg rest ih =>
    cases skip with
    | succ skip => exact ih skip h
    | zero =>
      rw [repairLoop]
      split
      · refine ih 0 ?_
        rw [repairLoose]
        split
        · exact fun h => absurd h (by simp)
        · exact h
      · exact ih _ (repairTurn_quiet now h msg _)

theorem changed_iff (messages : List AgentMessage) :
    (repairLoop now 0 messages .init).changed = true ↔ ¬ (IdsFresh messages ∧ Clean messages) := by
  obtain ⟨extra, h⟩ := repairLoop_repaired now messages .init
  have hfresh : FreshFrom Repair.init.seenToolResultIds messages ↔ IdsFresh messages :=
    freshFrom_nil_iff
  rw [h.changed, hfresh]
  simp [Repair.init]

/-- Unless `changed` is set the messages are returned and nothing is reported. -/
theorem report_of_unchanged {now : ℚ} (h : (repairLoop now 0 messages .init).changed = false) :
    repairToolUseResultPairing now messages = ⟨messages, [], 0, 0, false⟩ := by
  obtain ⟨hadded, hduplicates, horphans, hmoved⟩ :=
    repairLoop_quiet now 0 messages (fun _ => ⟨rfl, rfl, rfl, rfl⟩ : Quiet .init) h
  rw [repairToolUseResultPairing]
  simp only [h, hadded, hduplicates, horphans, hmoved, Bool.or_self, Bool.false_eq_true, if_false]

/-- If `changed` is set the messages are those of the loop. -/
theorem messages_of_changed {now : ℚ} (h : (repairLoop now 0 messages .init).changed = true) :
    (repairToolUseResultPairing now messages).messages = (repairLoop now 0 messages .init).out := by
  rw [repairToolUseResultPairing]
  simp only [h, Bool.true_or, if_true]

/-- Nothing is reported exactly if there is nothing to notice. -/
theorem report_nothing_iff (messages : List AgentMessage) :
    repairToolUseResultPairing now messages = ⟨messages, [], 0, 0, false⟩ ↔
      IdsFresh messages ∧ Clean messages := by
  constructor
  · intro h
    by_contra hnotice
    have hmoved := congrArg ToolUseRepairReport.moved h
    simp [repairToolUseResultPairing, (changed_iff now messages).mpr hnotice] at hmoved
  · intro h
    refine report_of_unchanged ?_
    rw [← Bool.not_eq_true, changed_iff]
    exact not_not.mpr h

/-! ### Well-paired transcripts -/

/-- The result is named as its call; if that has no name, it has none that is to be corrected. -/
def CorrectlyNamed (call : ToolCallLike) (r : AgentMessage) : Prop :=
  match trimNonEmptyString call.name with
  | some name => resultName r = some name
  | none => trimNonEmptyString (resultName r) = resultName r

/-- The span starts with one correctly named result per call, in call order, and has no others. -/
def AnsweredAtOnce (msg : AgentMessage) (span : List AgentMessage) : Prop :=
  ∃ rs rest, span = rs ++ rest ∧ (∀ m ∈ rest, isToolResult m = false) ∧
    List.Forall₂ (fun call r => Answers r call.id ∧ CorrectlyNamed call r) (toolCallsOf msg) rs

/-- Every call is answered at once, and there are no other results. -/
def WellPaired (messages : List AgentMessage) : Prop :=
  looseResults false messages = [] ∧ ∀ turn ∈ turns messages, AnsweredAtOnce turn.1 turn.2

/-- Between the results and the next assistant message there is no message. -/
def NothingBehindResults (messages : List AgentMessage) : Prop :=
  ∀ turn ∈ turns messages, others turn.2 = []

theorem fallbackName_of_nodup (h : (toolCalls.map (·.id)).Nodup)
    (hcall : call ∈ toolCalls) : fallbackName toolCalls call.id = call.name := by
  have other : ∀ (calls : List ToolCallLike) (names : JsMap String (Option String)) (id : String),
      id ∉ calls.map (·.id) →
        (calls.foldl (fun names call => names.set call.id call.name) names).get? id = names.get? id := by
    intro calls
    induction calls with
    | nil => exact fun names id _ => rfl
    | cons first calls ih =>
      intro names id hid
      rw [map_cons, mem_cons, not_or] at hid
      rw [foldl_cons, ih _ _ hid.2, JsMap.get?_set, if_neg (Ne.symm hid.1)]
  have found : ∀ (calls : List ToolCallLike) (names : JsMap String (Option String)),
      (calls.map (·.id)).Nodup → call ∈ calls →
        (calls.foldl (fun names call => names.set call.id call.name) names).get? call.id =
          some call.name := by
    intro calls
    induction calls with
    | nil => exact fun names _ h => absurd h not_mem_nil
    | cons first calls ih =>
      intro names hnodup hmem
      obtain ⟨hnot, hnodup⟩ := nodup_cons.mp hnodup
      rw [foldl_cons]
      rcases mem_cons.mp hmem with rfl | hmem
      · rw [other calls _ _ hnot, JsMap.get?_set_self]
      · exact ih _ hnodup hmem
  rw [fallbackName, toolCallNamesById, found toolCalls .empty h hcall]
  rfl

/-- A correctly named result is not renamed. -/
theorem CorrectlyNamed.normalize (h : CorrectlyNamed call r) :
    normalizeToolResultName r call.name = none := by
  rw [CorrectlyNamed] at h
  split at h
  next name hname => exact normalizeToolResultName_trimmed _ h (trimNonEmptyString_idem hname)
  next hnone =>
    cases hr : resultName r with
    | some name => exact normalizeToolResultName_trimmed _ hr (by rw [← hr, h])
    | none =>
      have hraw : textOf ((fieldsOf r).lookup "toolName") = none := hr
      have htrim : trimNonEmptyString none = none := rfl
      rw [normalizeToolResultName]
      simp [hraw, htrim, hnone]

variable {R : ToolCallLike → AgentMessage → Prop} {rs : List AgentMessage}

theorem exists_call_of_mem (h : List.Forall₂ R calls rs) (hr : r ∈ rs) : ∃ call ∈ calls, R call r := by
  induction h with
  | nil => cases hr
  | cons hfirst _ ih =>
    rcases mem_cons.mp hr with rfl | hr
    · exact ⟨_, mem_cons_self, hfirst⟩
    · obtain ⟨call, hcall, hR⟩ := ih hr
      exact ⟨call, mem_cons_of_mem _ hcall, hR⟩

theorem exists_result_of_mem (h : List.Forall₂ R calls rs) (hcall : call ∈ calls) : ∃ r ∈ rs, R call r := by
  induction h with
  | nil => cases hcall
  | cons hfirst _ ih =>
    rcases mem_cons.mp hcall with rfl | hcall
    · exact ⟨_, mem_cons_self, hfirst⟩
    · obtain ⟨r, hr, hR⟩ := ih hcall
      exact ⟨r, mem_cons_of_mem _ hr, hR⟩

/-- A turn that is answered at once needs no repair if nothing stands behind the results. -/
theorem AnsweredAtOnce.spanClean (h : AnsweredAtOnce msg span) (hnodup : (callIds msg).Nodup)
    (hothers : others span = []) : SpanClean msg span := by
  obtain ⟨rs, rest, rfl, hrest, hpaired⟩ := h
  have hnil : rest = [] := by
    rw [others_append, append_eq_nil_iff, others_of_forall_not hrest] at hothers
    exact hothers.2
  rw [hnil, append_nil]
  refine ⟨hnodup, fun id hid => ?_, fun r hr => ?_⟩
  · obtain ⟨call, hcall, rfl⟩ := List.mem_map.mp hid
    obtain ⟨r, hr, hans, -⟩ := exists_result_of_mem hpaired hcall
    exact ⟨r, hr, hans⟩
  · obtain ⟨call, hcall, hans, hname⟩ := exists_call_of_mem hpaired hr
    refine ⟨call.id, List.mem_map_of_mem hcall, hans, ?_⟩
    rw [fallbackName_of_nodup hnodup hcall]
    exact hname.normalize

theorem mem_of_mem_turns {turn : AgentMessage × List AgentMessage}
    (h : turn ∈ turns messages) : turn.1 ∈ messages := by
  induction messages with
  | nil => cases h
  | cons msg rest ih =>
    rw [turns] at h
    split at h
    · exact mem_cons_of_mem _ (ih h)
    · rcases mem_cons.mp h with rfl | h
      · exact mem_cons_self
      · exact mem_cons_of_mem _ (ih h)

theorem exists_mem_turns (h : msg ∈ messages)
    (hcalls : toolCallsOf msg ≠ []) : ∃ span, (msg, span) ∈ turns messages := by
  induction messages with
  | nil => cases h
  | cons first rest ih =>
    rw [turns]
    rcases mem_cons.mp h with rfl | h
    · rw [if_neg hcalls]
      exact ⟨_, mem_cons_self⟩
    · obtain ⟨span, hspan⟩ := ih h
      split
      · exact ⟨span, hspan⟩
      · exact ⟨span, mem_cons_of_mem _ hspan⟩

/-- In a well-paired transcript the repair notices a message behind the results and a call id that comes
back, and nothing else. -/
theorem wellPaired_clean_iff (h : WellPaired messages) :
    IdsFresh messages ∧ Clean messages ↔
      NothingBehindResults messages ∧ (messages.flatMap callIds).Nodup := by
  rw [nodup_flatMap]
  constructor
  · rintro ⟨hfresh, -, hclean⟩
    refine ⟨fun turn hturn => ?_, fun msg hmsg => ?_, hfresh⟩
    · refine others_of_forall fun r hr => ?_
      obtain ⟨id, -, hans, -⟩ := (hclean turn hturn).2.2 r hr
      exact hans.1
    · by_cases hcalls : toolCallsOf msg = []
      · rw [callIds_of_toolCallsOf hcalls]
        exact nodup_nil
      · obtain ⟨span, hspan⟩ := exists_mem_turns hmsg hcalls
        exact (hclean _ hspan).1
  · rintro ⟨hothers, hnodup, hfresh⟩
    refine ⟨hfresh, h.1, fun turn hturn => ?_⟩
    exact (h.2 turn hturn).spanClean (hnodup _ (mem_of_mem_turns hturn)) (hothers turn hturn)

/-! ### Both halves -/

theorem namesTrimmed_of_clean (h : Clean messages) (seen : List String) : NamesTrimmed seen messages := by
  have hturns := h.2
  clear h
  induction messages generalizing seen with
  | nil => trivial
  | cons msg rest ih =>
    by_cases hcalls : toolCallsOf msg = []
    · rw [turns, if_pos hcalls] at hturns
      exact (namesTrimmed_loose hcalls rest).mpr (ih seen hturns)
    · rw [turns, if_neg hcalls, forall_mem_cons] at hturns
      refine ⟨fun call hcall hnone => ?_, ih _ hturns.2⟩
      obtain ⟨r, hr, hans⟩ := hturns.1.2.1 call.id (List.mem_map_of_mem (mem_freshCalls hcall).1)
      exact absurd hans (hnone r hr)

/-- A second repair leaves the messages exactly if the synthetic results have trimmed names. -/
theorem repair_twice_iff (now now' : ℚ) (messages : List AgentMessage) :
    (repairToolUseResultPairing now' (repairToolUseResultPairing now messages).messages).messages =
        (repairToolUseResultPairing now messages).messages ↔ NamesTrimmed [] messages := by
  by_cases hch : (repairLoop now 0 messages .init).changed = true
  · obtain ⟨extra, extra', hout, hout', h⟩ := repairLoop_twice now now' messages .init .init rfl
    have hfirst : (repairToolUseResultPairing now messages).messages = extra :=
      (messages_of_changed hch).trans hout
    rw [hfirst]
    by_cases hch' : (repairLoop now' 0 extra .init).changed = true
    · have hsecond : (repairToolUseResultPairing now' extra).messages = extra' :=
      (messages_of_changed hch').trans hout'
      rw [hsecond]
      exact h.same
    · refine iff_of_true (by rw [report_of_unchanged (Bool.not_eq_true _ ▸ hch')]) ?_
      rw [changed_iff, not_not] at hch'
      exact h.clean hch'.2
  · have hclean : IdsFresh messages ∧ Clean messages := by
      rw [changed_iff, not_not] at hch
      exact hch
    have hnothing : ∀ time, repairToolUseResultPairing time messages = ⟨messages, [], 0, 0, false⟩ :=
      fun time => (report_nothing_iff time messages).mpr hclean
    rw [hnothing now]
    exact iff_of_true (by rw [hnothing now']) (namesTrimmed_of_clean hclean.2 [])

/-- A well-paired transcript is returned and nothing reported exactly if no message stands behind results
and no call id occurs twice; a repaired transcript is left by another repair exactly if the calls that got
a synthetic result have trimmed names. -/
theorem repair_stable_iff (now now' : ℚ) (messages : List AgentMessage) :
    (WellPaired messages →
      (repairToolUseResultPairing now messages = ⟨messages, [], 0, 0, false⟩ ↔
        NothingBehindResults messages ∧ (messages.flatMap callIds).Nodup)) ∧
    ((repairToolUseResultPairing now' (repairToolUseResultPairing now messages).messages).messages =
        (repairToolUseResultPairing now messages).messages ↔ NamesTrimmed [] messages) :=
  ⟨fun h => (report_nothing_iff now messages).trans (wellPaired_clean_iff h),
    repair_twice_iff now now' messages⟩

/-- A user message. -/
def thanks : AgentMessage := .obj [("role", .str "user"), ("content", .str "thanks")]

/-- A call whose name has a space in front. -/
def spacedCall : AgentMessage :=
  .obj [("role", .str "assistant"),
    ("content", .arr [.obj [("type", .str "toolCall"), ("id", .str "call_1"), ("name", .str " read"),
      ("arguments", .obj [])]])]

/-- A user turn behind the result counts as a move, and a call with a space in its name gets a synthetic
result that the next repair renames. -/
theorem repair_unstable :
    (WellPaired [readCall, readResult, thanks] ∧
      (repairToolUseResultPairing 0 [readCall, readResult, thanks]).moved = true) ∧
    (repairToolUseResultPairing 0 (repairToolUseResultPairing 0 [spacedCall]).messages).messages ≠
      (repairToolUseResultPairing 0 [spacedCall]).messages := by
  have hcalls : toolCallsOf readCall = [⟨"call_1", some "read"⟩] := by decide +kernel
  have hresult : toolCallsOf readResult = [] := by decide +kernel
  have hthanks : toolCallsOf thanks = [] := by decide +kernel
  have hassistant : isAssistant readCall = true := by decide +kernel
  have hnot : isAssistant readResult = false ∧ isAssistant thanks = false := by decide +kernel
  have hother : isToolResult thanks = false := by decide +kernel
  have hturns : turns [readCall, readResult, thanks] = [(readCall, [readResult, thanks])] := by
    simp [turns, spanOf, hcalls, hresult, hthanks, hnot]
  refine ⟨⟨⟨?_, ?_⟩, by decide +kernel⟩, fun heq => ?_⟩
  · simp [looseResults, hassistant, hnot, hcalls]
  · rw [hturns, forall_mem_singleton]
    refine ⟨[readResult], [thanks], rfl, by simpa using hother, ?_⟩
    dsimp only
    rw [hcalls]
    refine .cons ⟨⟨by decide +kernel, by decide +kernel⟩, ?_⟩ .nil
    have hname : trimNonEmptyString (some "read") = some "read" := by decide +kernel
    simp only [CorrectlyNamed, hname]
    decide +kernel
  · have hnames := congrArg (List.map resultName) heq
    exact absurd hnames (by decide +kernel)

end Foxclaw.Agents
