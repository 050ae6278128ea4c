import Foxclaw.Agents.TranscriptTurn

/-!
# Transcripts whose tool calls and results are paired

What a provider accepts, and when `repairToolUseResultPairing` returns such a transcript.

## The model

`Valid` is what the repair is for. The repaired list is valid unless a call id is used in two
turns (`IdsFresh`): the set of answered ids spans the whole transcript, so the result of the
second turn is dropped, the synthetic one too. But the function returns the list it was given
unless `changed` is set, and a turn whose results are doubled or in another order than the calls
does not set it.

## What is proved

* `repairLoop_repaired` — what the outer loop appends, and when it sets `changed`.
* `repair_valid_iff` — when the messages that are returned are valid.
-/

namespace Foxclaw.Agents

open List

/-! ### Valid transcripts -/

variable (messages : List AgentMessage)

/-- The ids of the tool results a list starts with. -/
def leadingIds : List (Option String) :=
  (messages.takeWhile isToolResult).map extractToolResultId

/-- Each message that is no tool result is followed by the results it is to be answered with. -/
def Answered : Prop :=
  ∀ msg rest, msg :: rest <:+ messages → isToolResult msg = false →
    leadingIds rest = (expectedIds msg).map some

/-- The result is the other one with at most its tool name changed. -/
def SameButName (r r₀ : AgentMessage) : Prop :=
  r = r₀ ∨ ∃ name, r = setField r₀ "toolName" (.str name)

/-- The list is a valid transcript of the messages; the synthetic results are given. -/
structure Valid (messages added out : List AgentMessage) : Prop where
  first : leadingIds out = []
  /-- Each assistant message is followed by its results, in call order, and no other result. -/
  answered : Answered out
  /-- No id is answered twice. -/
  once : (resultIds out).Nodup
  /-- The messages that are no results are kept, in their order. -/
  kept : others out = others messages
  /-- A result that is not synthetic is one of the results for that id. -/
  origin : ∀ r ∈ out, isToolResult r = true → r ∈ added ∨
    ∃ id, Answers r id ∧ ∃ r₀ ∈ messages, Answers r₀ id ∧ SameButName r r₀

/-! ### The condition -/

/-- No call id is used in two messages. -/
def IdsFresh : Prop :=
  messages.Pairwise fun msg msg' => (callIds msg).Disjoint (callIds msg')

/-- The messages with tool calls to be answered, each with the messages up to the next assistant
message. -/
def turns : List AgentMessage → List (AgentMessage × List AgentMessage)
  | [] => []
  | msg :: rest => if toolCallsOf msg = [] then turns rest else (msg, spanOf rest) :: turns rest

/-- The tool results that stand in no turn. -/
def looseResults : Bool → List AgentMessage → List AgentMessage
  | _, [] => []
  | inTurn, msg :: rest =>
    if isAssistant msg then looseResults (toolCallsOf msg ≠ []) rest
    else if isToolResult msg && !inTurn then msg :: looseResults inTurn rest
    else looseResults inTurn rest

/-- There is nothing the repair takes notice of. -/
def Clean : Prop :=
  looseResults false messages = [] ∧ ∀ turn ∈ turns messages, SpanClean turn.1 turn.2

/-- In each turn the ids of the results are those of the calls. -/
def InCallOrder : Prop :=
  ∀ turn ∈ turns messages, resultIds turn.2 = callIds turn.1

/-! ### Turns -/

/-- The messages from the next assistant message on. -/
def afterSpan : List AgentMessage :=
  messages.dropWhile fun msg => !isAssistant msg

theorem spanOf_append_afterSpan : spanOf messages ++ afterSpan messages = messages :=
  takeWhile_append_dropWhile

theorem drop_length_spanOf : messages.drop (spanOf messages).length = afterSpan messages := by
  have hdrop : (spanOf messages ++ afterSpan messages).drop (spanOf messages).length =
      afterSpan messages := drop_left
  rwa [spanOf_append_afterSpan] at hdrop

variable {msg : AgentMessage} {messages : List AgentMessage}

theorem not_isAssistant_of_mem_spanOf (h : msg ∈ spanOf messages) : isAssistant msg = false := by
  simpa using mem_takeWhile_imp h

theorem toolCallsOf_of_mem_spanOf (h : msg ∈ spanOf messages) : toolCallsOf msg = [] :=
  toolCallsOf_of_not_isAssistant (not_isAssistant_of_mem_spanOf h)

/-- Induction turn by turn. -/
theorem turns_induction {P : List AgentMessage → Prop} (nil : P [])
    (loose : ∀ msg rest, toolCallsOf msg = [] → P rest → P (msg :: rest))
    (turn : ∀ msg rest, toolCallsOf msg ≠ [] → P (afterSpan rest) → P (msg :: rest))
    (messages : List AgentMessage) : P messages := by
  induction hn : messages.length using Nat.strong_induction_on generalizing messages with
  | _ n ih =>
    cases messages with
    | nil => exact nil
    | cons msg rest =>
      subst hn
      by_cases hcalls : toolCallsOf msg = []
      · exact loose msg rest hcalls (ih rest.length (by simp) rest rfl)
      · refine turn msg rest hcalls (ih (afterSpan rest).length ?_ _ rfl)
        exact Nat.lt_succ_of_le (dropWhile_sublist _).length_le

theorem turns_append_of_forall (h : ∀ msg ∈ messages, toolCallsOf msg = []) (rest : List AgentMessage) :
    turns (messages ++ rest) = turns rest := by
  induction messages with
  | nil => rfl
  | cons msg messages ih =>
    rw [cons_append, turns, if_pos (h msg mem_cons_self)]
    exact ih fun msg' hmsg' => h msg' (mem_cons_of_mem _ hmsg')

theorem turns_turn (h : toolCallsOf msg ≠ []) (rest : List AgentMessage) :
    turns (msg :: rest) = (msg, spanOf rest) :: turns (afterSpan rest) := by
  rw [turns, if_neg h]
  conv_lhs => rw [← spanOf_append_afterSpan rest]
  rw [turns_append_of_forall (fun msg' hmsg' => toolCallsOf_of_mem_spanOf hmsg'), spanOf_append_afterSpan]

/-- Nothing in a turn is loose. -/
theorem looseResults_span {span : List AgentMessage} (h : ∀ msg ∈ span, isAssistant msg = false)
    (rest : List AgentMessage) : looseResults true (span ++ rest) = looseResults true rest := by
  induction span with
  | nil => rfl
  | cons msg span ih =>
    rw [cons_append, looseResults, h msg mem_cons_self, if_neg Bool.false_ne_true,
      Bool.not_true, Bool.and_false, if_neg Bool.false_ne_true]
    exact ih fun msg' hmsg' => h msg' (mem_cons_of_mem _ hmsg')

/-- After the turn there is an assistant message. -/
theorem looseResults_afterSpan (inTurn : Bool) (messages : List AgentMessage) :
    looseResults inTurn (afterSpan messages) = looseResults false (afterSpan messages) := by
  unfold afterSpan
  cases hrest : messages.dropWhile fun msg => !isAssistant msg with
  | nil => rfl
  | cons msg rest =>
    have hassistant : isAssistant msg = true := by
      have hhead := head_dropWhile_not (fun msg => !isAssistant msg) (l := messages) (by simp [hrest])
      simpa [hrest] using hhead
    rw [looseResults, looseResults, if_pos hassistant, if_pos hassistant]

theorem clean_loose (h : toolCallsOf msg = []) (rest : List AgentMessage) :
    Clean (msg :: rest) ↔ isToolResult msg = false ∧ Clean rest := by
  rw [Clean, Clean, turns, if_pos h, looseResults]
  cases hassistant : isAssistant msg with
  | true => simp [h, not_isToolResult_of_isAssistant hassistant]
  | false => cases hresult : isToolResult msg <;> simp

theorem clean_turn (h : toolCallsOf msg ≠ []) (rest : List AgentMessage) :
    Clean (msg :: rest) ↔ SpanClean msg (spanOf rest) ∧ Clean (afterSpan rest) := by
  have hloose : looseResults false (msg :: rest) = looseResults false (afterSpan rest) := by
    rw [looseResults, if_pos (isAssistant_of_toolCallsOf h), decide_eq_true h]
    conv_lhs => rw [← spanOf_append_afterSpan rest]
    rw [looseResults_span (fun msg' hmsg' => not_isAssistant_of_mem_spanOf hmsg'), looseResults_afterSpan]
  rw [Clean, Clean, turns_turn h, hloose, forall_mem_cons]
  tauto

/-! ### Fresh ids -/

/-- The ids are neither among those answered before nor used twice. -/
def FreshFrom (seen : List String) (messages : List AgentMessage) : Prop :=
  (∀ msg ∈ messages, ∀ id ∈ callIds msg, id ∉ seen) ∧ IdsFresh messages

theorem callIds_of_toolCallsOf (h : toolCallsOf msg = []) : callIds msg = [] := by
  rw [callIds, h]
  rfl

theorem freshFrom_loose {seen : List String} (h : toolCallsOf msg = [])
    (rest : List AgentMessage) : FreshFrom seen (msg :: rest) ↔ FreshFrom seen rest := by
  simp [FreshFrom, IdsFresh, callIds_of_toolCallsOf h]

theorem freshFrom_append_of_forall {seen : List String} (h : ∀ msg ∈ messages, toolCallsOf msg = [])
    (rest : List AgentMessage) : FreshFrom seen (messages ++ rest) ↔ FreshFrom seen rest := by
  induction messages with
  | nil => rfl
  | cons msg messages ih =>
    rw [cons_append, freshFrom_loose (h msg mem_cons_self)]
    exact ih fun msg' hmsg' => h msg' (mem_cons_of_mem _ hmsg')

theorem freshFrom_turn {seen seen' : List String} (rest : List AgentMessage)
    (hseen : ∀ id, id ∈ seen' ↔ id ∈ seen ∨ id ∈ callIds msg) :
    FreshFrom seen (msg :: rest) ↔
      (∀ id ∈ callIds msg, id ∉ seen) ∧ FreshFrom seen' (afterSpan rest) := by
  have hspan : FreshFrom seen' (afterSpan rest) ↔ FreshFrom seen' rest := by
    conv_rhs => rw [← spanOf_append_afterSpan rest]
    exact (freshFrom_append_of_forall (fun msg' hmsg' => toolCallsOf_of_mem_spanOf hmsg') _).symm
  rw [hspan]
  simp only [FreshFrom, IdsFresh, forall_mem_cons, pairwise_cons, hseen, not_or, List.Disjoint]
  grind

/-! ### Results that follow -/

variable {rs rest : List AgentMessage}

theorem leadingIds_append (hrs : ∀ r ∈ rs, isToolResult r = true)
    (hrest : leadingIds rest = []) : leadingIds (rs ++ rest) = rs.map extractToolResultId := by
  rw [leadingIds, takeWhile_append_of_pos hrs, map_append]
  exact (congrArg _ hrest).trans (append_nil _)

theorem leadingIds_cons_other (h : isToolResult msg = false)
    (rest : List AgentMessage) : leadingIds (msg :: rest) = [] := by
  rw [leadingIds, takeWhile_cons_of_neg (by rw [h]; decide), map_nil]

theorem answered_nil : Answered [] := by
  intro msg rest hsuffix
  cases suffix_nil.mp hsuffix

theorem answered_cons (msg : AgentMessage) (rest : List AgentMessage) :
    Answered (msg :: rest) ↔
      (isToolResult msg = false → leadingIds rest = (expectedIds msg).map some) ∧ Answered rest := by
  constructor
  · refine fun h => ⟨h msg rest (suffix_refl _), fun msg' rest' hsuffix => ?_⟩
    exact h msg' rest' (hsuffix.trans (suffix_cons _ _))
  · rintro ⟨hmsg, hrest⟩ msg' rest' hsuffix
    rcases suffix_cons_iff.mp hsuffix with heq | hsuffix
    · cases heq
      exact hmsg
    · exact hrest msg' rest' hsuffix

theorem answered_append_results {rs : List AgentMessage} (hrs : ∀ r ∈ rs, isToolResult r = true)
    (rest : List AgentMessage) : Answered (rs ++ rest) ↔ Answered rest := by
  induction rs with
  | nil => rfl
  | cons r rs ih =>
    rw [cons_append, answered_cons, ih fun r' hr' => hrs r' (mem_cons_of_mem _ hr')]
    simp [hrs r mem_cons_self]

theorem answered_block (hmsg : isToolResult msg = false)
    (hrs : ∀ r ∈ rs, isToolResult r = true) (hrest : leadingIds rest = []) :
    Answered (msg :: rs ++ rest) ↔
      rs.map extractToolResultId = (expectedIds msg).map some ∧ Answered rest := by
  rw [cons_append, answered_cons, leadingIds_append hrs hrest, answered_append_results hrs]
  simp [hmsg]

theorem expectedIds_of_toolCallsOf (h : toolCallsOf msg = []) : expectedIds msg = [] := by
  rw [expectedIds, callIds_of_toolCallsOf h]
  rfl

/-- Messages that are to be answered with nothing. -/
theorem answered_append_others (messages : List AgentMessage)
    (h : ∀ msg ∈ messages, isToolResult msg = false ∧ toolCallsOf msg = []) {rest : List AgentMessage}
    (hrest : leadingIds rest = []) :
    (Answered (messages ++ rest) ↔ Answered rest) ∧ leadingIds (messages ++ rest) = [] := by
  induction messages with
  | nil => exact ⟨Iff.rfl, hrest⟩
  | cons msg messages ih =>
    obtain ⟨hresult, hcalls⟩ := h msg mem_cons_self
    obtain ⟨hiff, hleading⟩ := ih fun msg' hmsg' => h msg' (mem_cons_of_mem _ hmsg')
    refine ⟨?_, leadingIds_cons_other hresult _⟩
    rw [cons_append, answered_cons, hleading, hiff, expectedIds_of_toolCallsOf hcalls]
    simp

/-- The results of a valid transcript have the ids that the calls have. -/
theorem resultIds_of_answered (h : Answered messages) :
    (messages.filter isToolResult).map extractToolResultId =
      leadingIds messages ++ ((others messages).flatMap expectedIds).map some := by
  induction messages with
  | nil => rfl
  | cons msg rest ih =>
    rw [answered_cons] at h
    specialize ih h.2
    cases hresult : isToolResult msg with
    | true => simp [leadingIds, others_cons_result, hresult, ih]
    | false =>
      rw [leadingIds_cons_other hresult, others_cons_other hresult,
        filter_cons_of_neg (by simp [hresult]), ih, h.1 hresult]
      simp

/-! ### The outer loop -/

/-- The messages that the inner loop has taken are skipped. -/
theorem repairLoop_skip (now : ℚ) (skip : ℕ) (messages : List AgentMessage) (st : Repair) :
    repairLoop now skip messages st = repairLoop now 0 (messages.drop skip) st := by
  induction messages generalizing skip with
  | nil => cases skip <;> rfl
  | cons msg rest ih =>
    cases skip with
    | zero => rfl
    | succ skip =>
      rw [repairLoop, drop_succ_cons]
      exact ih skip

theorem repairLoop_turn (now : ℚ) (h : toolCallsOf msg ≠ []) (rest : List AgentMessage) (st : Repair) :
    repairLoop now 0 (msg :: rest) st =
      repairLoop now 0 (afterSpan rest) (repairTurn now st msg (spanOf rest)) := by
  rw [repairLoop, if_neg h, repairLoop_skip, drop_length_spanOf]

theorem repairLoop_loose (now : ℚ) (h : toolCallsOf msg = []) (rest : List AgentMessage) (st : Repair) :
    repairLoop now 0 (msg :: rest) st = repairLoop now 0 rest (repairLoose st msg) := by
  rw [repairLoop, if_pos h]

/-- What the outer loop does: it appends some messages. -/
structure Repaired (messages : List AgentMessage) (st st' : Repair) (extra : List AgentMessage) :
    Prop where
  out : st'.out = st.out ++ extra
  first : leadingIds extra = []
  /-- Their results are those that are missing, unless an id is used twice. -/
  answered : Answered extra ↔ FreshFrom st.seenToolResultIds messages
  /-- Nothing but results is dropped. -/
  kept : others extra = others messages
  /-- A result is one of the messages, perhaps with its name normalized, or synthetic. -/
  origin : ∀ r ∈ extra, isToolResult r = true → r ∈ st'.added ∨
    ∃ id, Answers r id ∧ ∃ r₀ ∈ messages, Answers r₀ id ∧ SameButName r r₀
  /-- No synthetic result is forgotten. -/
  added : ∀ r ∈ st.added, r ∈ st'.added
  /-- When `changed` is set. -/
  changed : st'.changed = true ↔
    st.changed = true ∨ ¬ (FreshFrom st.seenToolResultIds messages ∧ Clean messages)
  /-- `moved` is set with `changed` only. -/
  moved : st'.moved = true → st.moved = true ∨ st'.changed = true

variable {extra : List AgentMessage}

/-- A tool result in no turn is dropped. -/
theorem Repaired.looseResult (hcalls : toolCallsOf msg = []) (hresult : isToolResult msg = true)
    {st st' : Repair} (h : Repaired messages (repairLoose st msg) st' extra) :
    Repaired (msg :: messages) st st' extra := by
  have hfresh (seen : List String) : FreshFrom seen (msg :: messages) ↔ FreshFrom seen messages :=
    freshFrom_loose hcalls messages
  rw [repairLoose, if_pos hresult] at h
  refine ⟨h.out, h.first, ?_, ?_, fun r hr hr' => ?_, h.added, ?_, h.moved⟩
  · rw [hfresh]
    exact h.answered
  · rw [h.kept, others_cons_result hresult]
  · refine (h.origin r hr hr').imp_right fun ⟨id, hid, r₀, hr₀, hrest⟩ => ?_
    exact ⟨id, hid, r₀, mem_cons_of_mem _ hr₀, hrest⟩
  · rw [h.changed, clean_loose hcalls, hresult]
    simp

/-- Another message in no turn is kept. -/
theorem Repaired.looseOther (hcalls : toolCallsOf msg = []) (hresult : isToolResult msg = false)
    {st st' : Repair} (h : Repaired messages (repairLoose st msg) st' extra) :
    Repaired (msg :: messages) st st' (msg :: extra) := by
  have hfresh (seen : List String) : FreshFrom seen (msg :: messages) ↔ FreshFrom seen messages :=
    freshFrom_loose hcalls messages
  rw [repairLoose, if_neg (by rw [hresult]; decide)] at h
  have hanswered := answered_append_others [msg] (by simp [hresult, hcalls]) h.first
  refine ⟨?_, leadingIds_cons_other hresult _, ?_, ?_, fun r hr hr' => ?_, h.added, ?_, h.moved⟩
  · rw [h.out]
    simp
  · rw [hfresh, ← h.answered]
    exact hanswered.1
  · rw [others_cons_other hresult, others_cons_other hresult, h.kept]
  · rcases mem_cons.mp hr with rfl | hr
    · rw [hresult] at hr'
      cases hr'
    · refine (h.origin r hr hr').imp_right fun ⟨id, hid, r₀, hr₀, hrest⟩ => ?_
      exact ⟨id, hid, r₀, mem_cons_of_mem _ hr₀, hrest⟩
  · rw [h.changed, hfresh, clean_loose hcalls, hresult]
    simp

/-- A result for each call exactly if none of them was answered before. -/
theorem distinctFrom_eq_expectedIds {seen : List String} :
    distinctFrom seen (callIds msg) = expectedIds msg ↔ ∀ id ∈ callIds msg, id ∉ seen := by
  constructor
  · intro heq id hid
    have hmem : id ∈ distinctFrom seen (callIds msg) := by
      rw [heq]
      exact mem_distinctFrom hid not_mem_nil
    exact (not_mem_of_mem_distinctFrom hmem).1
  · exact fun h => distinctFrom_congr fun id hid => by simpa using h id hid

theorem Repaired.turn (hcalls : toolCallsOf msg ≠ []) {rest : List AgentMessage} {st st₁ st' : Repair}
    {rs extra : List AgentMessage} (hturn : TurnRepaired st st₁ msg (spanOf rest) rs)
    (h : Repaired (afterSpan rest) st₁ st' extra) :
    Repaired (msg :: rest) st st' (msg :: rs ++ (others (spanOf rest) ++ extra)) := by
  have hmsg := not_isToolResult_of_isAssistant (isAssistant_of_toolCallsOf hcalls)
  have hothers := answered_append_others (others (spanOf rest))
    (fun m hm => ⟨not_isToolResult_of_mem_others hm,
      toolCallsOf_of_mem_spanOf (mem_of_mem_filter hm)⟩) h.first
  have hfresh : FreshFrom st.seenToolResultIds (msg :: rest) ↔
      (∀ id ∈ callIds msg, id ∉ st.seenToolResultIds) ∧
        FreshFrom st₁.seenToolResultIds (afterSpan rest) :=
    freshFrom_turn rest fun id => by
      rw [hturn.seen, mem_append]
      refine ⟨Or.imp_right fun hid => (not_mem_of_mem_distinctFrom hid).2, fun hid => ?_⟩
      by_cases hseen : id ∈ st.seenToolResultIds
      · exact .inl hseen
      · exact .inr (mem_distinctFrom (hid.resolve_left hseen) hseen)
  refine ⟨?_, ?_, ?_, ?_, fun r hr hr' => ?_, fun r hr => h.added r (hturn.added r hr), ?_, ?_⟩
  · rw [h.out, hturn.out]
    simp
  · exact leadingIds_cons_other hmsg _
  · rw [answered_block hmsg hturn.isResult hothers.2, hothers.1, h.answered, hfresh, hturn.ids,
      List.map_inj_right (fun _ _ => Option.some.inj), distinctFrom_eq_expectedIds]
  · have hspan : others (others (spanOf rest)) = others (spanOf rest) :=
      others_of_forall_not fun m hm => not_isToolResult_of_mem_others hm
    rw [cons_append, others_cons_other hmsg, others_cons_other hmsg, others_append,
      others_append, others_of_forall hturn.isResult, h.kept, hspan, nil_append,
      ← others_append, spanOf_append_afterSpan]
  · have hspan : ∀ r₀ ∈ spanOf rest, r₀ ∈ msg :: rest := fun r₀ hr₀ =>
      mem_cons_of_mem _ ((takeWhile_sublist _).mem hr₀)
    rcases mem_append.mp hr with hr | hr
    · rcases mem_cons.mp hr with rfl | hr
      · rw [hmsg] at hr'
        cases hr'
      · rcases hturn.origin r hr with hadded | ⟨id, r₀, hr₀, hans, rfl⟩
        · exact .inl (h.added r hadded)
        · refine .inr ⟨id, hans.normalized _ _, r₀, hspan r₀ hr₀, hans, ?_⟩
          exact normalized_eq _ _ _
    · rcases mem_append.mp hr with hr | hr
      · rw [not_isToolResult_of_mem_others hr] at hr'
        cases hr'
      · refine (h.origin r hr hr').imp_right fun ⟨id, hid, r₀, hr₀, hrest⟩ => ?_
        exact ⟨id, hid, r₀, mem_cons_of_mem _ ((dropWhile_sublist _).mem hr₀), hrest⟩
  · rw [h.changed, hturn.changed, hfresh, clean_turn hcalls]
    tauto
  · intro hmoved
    rcases h.moved hmoved with hmoved | hchanged
    · exact (hturn.moved hmoved).imp_right fun hch => h.changed.mpr (.inl hch)
    · exact .inr hchanged

/-- What the outer loop appends, and when it sets `changed`. -/
theorem repairLoop_repaired (now : ℚ) (messages : List AgentMessage) (st : Repair) :
    ∃ extra, Repaired messages st (repairLoop now 0 messages st) extra := by
  induction messages using turns_induction generalizing st with
  | nil =>
    refine ⟨[], by simp [repairLoop], rfl, iff_of_true answered_nil ?_, rfl, by simp,
      fun r hr => hr, ?_, fun hmoved => .inl hmoved⟩
    · exact ⟨by simp, List.Pairwise.nil⟩
    · simp [repairLoop, FreshFrom, IdsFresh, Clean, looseResults, turns]
  | loose msg rest hcalls ih =>
    rw [repairLoop_loose now hcalls]
    obtain ⟨extra, hextra⟩ := ih (repairLoose st msg)
    cases hresult : isToolResult msg with
    | true => exact ⟨extra, hextra.looseResult hcalls hresult⟩
    | false => exact ⟨msg :: extra, hextra.looseOther hcalls hresult⟩
  | turn msg rest hcalls ih =>
    rw [repairLoop_turn now hcalls]
    obtain ⟨rs, hrs⟩ := repairTurn_repaired now hcalls st (spanOf rest)
    obtain ⟨extra, hextra⟩ := ih (repairTurn now st msg (spanOf rest))
    exact ⟨_, Repaired.turn hcalls hrs hextra⟩

/-! ### Validity -/

theorem freshFrom_nil_iff : FreshFrom [] messages ↔ IdsFresh messages := by
  simp [FreshFrom]

/-- In a list whose calls are answered each result has the id of a call. -/
theorem resultIds_eq_expectedIds (h : Answered messages)
    (hfirst : leadingIds messages = []) : resultIds messages = (others messages).flatMap expectedIds := by
  have hids := resultIds_of_answered h
  rw [hfirst, nil_append] at hids
  have hsome := congrArg (List.filterMap id) hids
  rw [filterMap_map, filterMap_map] at hsome
  simpa [resultIds] using hsome

theorem exists_answers_of_answered (h : Answered messages) (hfirst : leadingIds messages = [])
    {r : AgentMessage} (hr : r ∈ messages) (hresult : isToolResult r = true) : ∃ id, Answers r id := by
  have hids := resultIds_of_answered h
  rw [hfirst, nil_append] at hids
  have hmem : extractToolResultId r ∈ (messages.filter isToolResult).map extractToolResultId :=
    List.mem_map_of_mem (mem_filter.mpr ⟨hr, hresult⟩)
  rw [hids] at hmem
  obtain ⟨id, -, hid⟩ := List.mem_map.mp hmem
  exact ⟨id, hresult, hid.symm⟩

/-- If no id is used in two messages, none is answered twice. -/
theorem nodup_resultIds {messages out : List AgentMessage} (hfresh : IdsFresh messages)
    (hanswered : Answered out) (hfirst : leadingIds out = []) (hkept : others out = others messages) :
    (resultIds out).Nodup := by
  rw [resultIds_eq_expectedIds hanswered hfirst, hkept, nodup_flatMap]
  refine ⟨fun msg _ => ?_, ?_⟩
  · exact nodup_append_distinctFrom nodup_nil (callIds msg)
  · refine (List.Pairwise.sublist filter_sublist hfresh).imp fun hdisjoint id hid hid' => ?_
    exact hdisjoint (not_mem_of_mem_distinctFrom hid).2 (not_mem_of_mem_distinctFrom hid').2

/-- When the repair takes no notice of anything, the calls are answered if the results stand in
call order, each once. -/
theorem answered_iff_of_clean (h : Clean messages) :
    leadingIds messages = [] ∧ (Answered messages ↔ InCallOrder messages) := by
  induction messages using turns_induction with
  | nil => exact ⟨rfl, iff_of_true answered_nil (by simp [InCallOrder, turns])⟩
  | loose msg rest hcalls ih =>
    obtain ⟨hresult, hrest⟩ := (clean_loose hcalls rest).mp h
    obtain ⟨hfirst, hiff⟩ := ih hrest
    have hothers := answered_append_others [msg] (by simp [hresult, hcalls]) hfirst
    refine ⟨hothers.2, hothers.1.trans (hiff.trans ?_)⟩
    rw [InCallOrder, InCallOrder, turns, if_pos hcalls]
  | turn msg rest hcalls ih =>
    obtain ⟨⟨hnodup, -, hspan⟩, hrest⟩ := (clean_turn hcalls rest).mp h
    obtain ⟨hfirst, hiff⟩ := ih hrest
    have hmsg := not_isToolResult_of_isAssistant (isAssistant_of_toolCallsOf hcalls)
    have hresults : ∀ r ∈ spanOf rest, isToolResult r = true := fun r hr => by
      obtain ⟨id, -, hans, -⟩ := hspan r hr
      exact hans.1
    have hids : (spanOf rest).map extractToolResultId = (resultIds (spanOf rest)).map some := by
      rw [resultIds, filter_eq_self.mpr hresults, map_filterMap]
      refine (filterMap_eq_map_iff_forall_eq_some.mpr fun r hr => ?_).symm
      obtain ⟨id, -, hans, -⟩ := hspan r hr
      rw [hans.2]
      rfl
    have hexpected : expectedIds msg = callIds msg := distinctFrom_of_nodup (by simpa using hnodup)
    refine ⟨leadingIds_cons_other hmsg _, ?_⟩
    have hblock := answered_block hmsg hresults hfirst
    rw [cons_append, spanOf_append_afterSpan] at hblock
    rw [hblock, hids, hexpected, List.map_inj_right (fun _ _ => Option.some.inj), hiff, InCallOrder,
      InCallOrder, turns_turn hcalls, forall_mem_cons]

/-- The returned messages are a valid transcript exactly if no call id is used in two messages
and either the repair takes notice of something or the results already stand in call order. -/
theorem repair_valid_iff (now : ℚ) (messages : List AgentMessage) :
    Valid messages (repairToolUseResultPairing now messages).added
        (repairToolUseResultPairing now messages).messages ↔
      IdsFresh messages ∧ (¬ Clean messages ∨ InCallOrder messages) := by
  obtain ⟨extra, h⟩ := repairLoop_repaired now messages .init
  have hfresh : FreshFrom Repair.init.seenToolResultIds messages ↔ IdsFresh messages :=
    freshFrom_nil_iff
  have hchanged := h.changed
  have hanswered := h.answered
  rw [hfresh] at hchanged hanswered
  rw [repairToolUseResultPairing]
  dsimp only
  by_cases hch : (repairLoop now 0 messages .init).changed = true
  · -- something was noticed: the repaired list is returned
    have hnotice : ¬ (IdsFresh messages ∧ Clean messages) := by
      simpa [Repair.init] using hchanged.mp hch
    have hout : (repairLoop now 0 messages .init).out = extra := h.out
    rw [hch, Bool.true_or, if_pos rfl, hout]
    constructor
    · intro hvalid
      have hids := hanswered.mp hvalid.answered
      exact ⟨hids, .inl fun hclean => hnotice ⟨hids, hclean⟩⟩
    · rintro ⟨hids, -⟩
      have hans := hanswered.mpr hids
      exact ⟨h.first, hans, nodup_resultIds hids hans h.first h.kept, h.kept, h.origin⟩
  · -- nothing was noticed: the list is returned as it was given
    have hmoved : ¬ (repairLoop now 0 messages .init).moved = true := fun hmoved => by
      rcases h.moved hmoved with hinit | hch'
      · cases hinit
      · exact hch hch'
    rw [Bool.not_eq_true] at hmoved
    obtain ⟨hids, hclean⟩ : IdsFresh messages ∧ Clean messages :=
      not_not.mp fun hno => hch (hchanged.mpr (.inr hno))
    obtain ⟨hfirst, hiff⟩ := answered_iff_of_clean hclean
    rw [Bool.not_eq_true] at hch
    rw [hch, hmoved, Bool.or_self, if_neg Bool.false_ne_true]
    constructor
    · exact fun hvalid => ⟨hids, .inr (hiff.mp hvalid.answered)⟩
    · rintro ⟨-, hno | horder⟩
      · exact absurd hclean hno
      · have hans := hiff.mpr horder
        refine ⟨hfirst, hans, nodup_resultIds hids hans hfirst rfl, rfl, fun r hr hresult => .inr ?_⟩
        obtain ⟨id, hid⟩ := exists_answers_of_answered hans hfirst hr hresult
        exact ⟨id, hid, r, hr, hid, .inl rfl⟩

/-- An assistant message with one tool call. -/
def readCall : AgentMessage :=
  .obj [("role", .str "assistant"),
    ("content", .arr [.obj [("type", .str "toolCall"), ("id", .str "call_1"), ("name", .str "read"),
      ("arguments", .obj [])]])]

/-- A result of the call. -/
def readResult : AgentMessage :=
  .obj [("role", .str "toolResult"), ("toolCallId", .str "call_1"), ("toolName", .str "read")]

/-- Two adjacent results of one call are returned as they are. -/
theorem adjacent_duplicate_returned :
    ¬ Valid [readCall, readResult, readResult]
      (repairToolUseResultPairing 0 [readCall, readResult, readResult]).added
      (repairToolUseResultPairing 0 [readCall, readResult, readResult]).messages := by
  have hids : resultIds (repairToolUseResultPairing 0 [readCall, readResult, readResult]).messages =
      ["call_1", "call_1"] := by
    decide +kernel
  intro hvalid
  have honce := hvalid.once
  rw [hids] at honce
  exact absurd honce (by decide)

end Foxclaw.Agents
