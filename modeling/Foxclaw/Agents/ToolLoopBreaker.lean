import Foxclaw.Agents.ToolLoopDetection

/-!
# The circuit breaker for tool loops

What a detection counts is in the history, and what is at the end of the history is counted. The
history is the end of all that a session recorded: `Session` keeps what has slid out of it as well,
which the program does not.

## What is proved

* `le_noProgressFrom` — equal calls with equal outcomes at the end of the history are all counted.
* `getNoProgressStreak_sound`, `getPingPongStreak_sound` — what is counted is in the history.
* `run_kept` — the history holds the newest records, and is full before anything slides out of it.
* `breaker_trips_and_is_sound` — the breaker trips in time and with reason.
* `breaker_out_of_reach` — with a history shorter than the threshold it does not trip, and the count
  of a ping-pong loop is one more than the calls recorded.
-/

namespace Foxclaw.Agents.ToolLoop

open List

/-! ### Calls without progress -/

/-- A call of the tool with these parameters that had this outcome. -/
def Same (toolName argsHash resultHash : String) (call : ToolCallRecord) : Prop :=
  call.toolName = toolName ∧ call.argsHash = argsHash ∧ call.resultHash = some resultHash

theorem truthy_eq_some {value : Option String} {s : String} :
    truthy value = some s ↔ value = some s ∧ s ≠ "" := by
  simp [truthy, Option.filter_eq_some_iff]

/-- With an outcome to compare with, the streak grows by calls that had it. -/
theorem noProgressFrom_some (toolName argsHash latest : String) (records : List ToolCallRecord) (streak : ℕ) :
    ∃ calls : List ToolCallRecord, calls.Sublist records ∧ (∀ call ∈ calls, Same toolName argsHash latest call) ∧
      noProgressFrom toolName argsHash records streak (some latest) =
        (streak + calls.length, some latest) := by
  induction records generalizing streak with
  | nil => exact ⟨[], List.Sublist.slnil, List.forall_mem_nil _, rfl⟩
  | cons record older ih =>
    rw [noProgressFrom]
    split
    · obtain ⟨calls, hsub, hsame, heq⟩ := ih streak
      exact ⟨calls, hsub.cons _, hsame, heq⟩
    · rename_i hcall
      simp only [not_or, not_not] at hcall
      split
      · obtain ⟨calls, hsub, hsame, heq⟩ := ih streak
        exact ⟨calls, hsub.cons _, hsame, heq⟩
      · rename_i resultHash htruthy
        dsimp only
        split
        · exact ⟨[], nil_sublist _, List.forall_mem_nil _, rfl⟩
        · rename_i hlatest
          rw [not_not] at hlatest
          obtain ⟨calls, hsub, hsame, heq⟩ := ih (streak + 1)
          have hrecord : Same toolName argsHash latest record :=
            ⟨hcall.1, hcall.2, by rw [(truthy_eq_some.mp htruthy).1, hlatest]⟩
          refine ⟨record :: calls, hsub.cons_cons _, forall_mem_cons.mpr ⟨hrecord, hsame⟩, ?_⟩
          rw [heq, length_cons]
          congr 1
          omega

/-- What the streak counts is in the history. -/
theorem noProgressFrom_none (toolName argsHash : String) (records : List ToolCallRecord) :
    ∃ (resultHash : String) (calls : List ToolCallRecord), calls.Sublist records ∧
      (∀ call ∈ calls, Same toolName argsHash resultHash call) ∧
      (noProgressFrom toolName argsHash records 0 none).1 = calls.length := by
  induction records with
  | nil => exact ⟨"", [], List.Sublist.slnil, List.forall_mem_nil _, rfl⟩
  | cons record older ih =>
    obtain ⟨resultHash, calls, hsub, hsame, heq⟩ := ih
    rw [noProgressFrom]
    split
    · exact ⟨resultHash, calls, hsub.cons _, hsame, heq⟩
    · rename_i hcall
      simp only [not_or, not_not] at hcall
      split
      · exact ⟨resultHash, calls, hsub.cons _, hsame, heq⟩
      · rename_i first htruthy
        obtain ⟨calls, hsub, hsame, heq⟩ := noProgressFrom_some toolName argsHash first older 1
        have hrecord : Same toolName argsHash first record :=
          ⟨hcall.1, hcall.2, (truthy_eq_some.mp htruthy).1⟩
        refine ⟨first, record :: calls, hsub.cons_cons _, forall_mem_cons.mpr ⟨hrecord, hsame⟩, ?_⟩
        dsimp only
        rw [heq, length_cons]
        omega

theorem getNoProgressStreak_sound (history : List ToolCallRecord) (toolName argsHash : String) :
    ∃ (resultHash : String) (calls : List ToolCallRecord), calls.Sublist history ∧
      (∀ call ∈ calls, Same toolName argsHash resultHash call) ∧
      (getNoProgressStreak history toolName argsHash).1 = calls.length := by
  obtain ⟨resultHash, calls, hsub, hsame, heq⟩ := noProgressFrom_none toolName argsHash history.reverse
  refine ⟨resultHash, calls.reverse, ?_, ?_, ?_⟩
  · simpa using hsub.reverse
  · simpa using hsame
  · rw [getNoProgressStreak, heq, length_reverse]

variable {toolName argsHash resultHash : String}

variable {calls tail : List ToolCallRecord}

/-- The calls at the end of the history that had the outcome are all counted. -/
theorem le_noProgressFrom_some (hne : resultHash ≠ "")
    (h : ∀ call ∈ calls, Same toolName argsHash resultHash call)
    (older : List ToolCallRecord) (streak : ℕ) :
    streak + calls.length ≤
      (noProgressFrom toolName argsHash (calls ++ older) streak (some resultHash)).1 := by
  induction calls generalizing streak with
  | nil =>
    obtain ⟨calls, -, -, heq⟩ := noProgressFrom_some toolName argsHash resultHash older streak
    rw [nil_append, heq, length_nil]
    omega
  | cons call calls ih =>
    obtain ⟨⟨hname, hargs, hresult⟩, hcalls⟩ := forall_mem_cons.mp h
    have htruthy : truthy call.resultHash = some resultHash := truthy_eq_some.mpr ⟨hresult, hne⟩
    have hstep := ih hcalls (streak + 1)
    rw [cons_append, noProgressFrom, if_neg (by simp [hname, hargs])]
    simp only [htruthy, ne_eq, not_true_eq_false, if_false]
    rw [length_cons]
    omega

theorem le_noProgressFrom (hne : resultHash ≠ "")
    (h : ∀ call ∈ calls, Same toolName argsHash resultHash call)
    (older : List ToolCallRecord) :
    calls.length ≤ (noProgressFrom toolName argsHash (calls ++ older) 0 none).1 := by
  cases calls with
  | nil => exact Nat.zero_le _
  | cons call calls =>
    obtain ⟨⟨hname, hargs, hresult⟩, hcalls⟩ := forall_mem_cons.mp h
    have htruthy : truthy call.resultHash = some resultHash := truthy_eq_some.mpr ⟨hresult, hne⟩
    have hstep := le_noProgressFrom_some hne hcalls older 1
    rw [cons_append, noProgressFrom, if_neg (by simp [hname, hargs])]
    simp only [htruthy]
    rw [length_cons]
    omega

theorem le_getNoProgressStreak (hne : resultHash ≠ "")
    {history calls : List ToolCallRecord} (hend : calls <:+ history)
    (h : ∀ call ∈ calls, Same toolName argsHash resultHash call) :
    calls.length ≤ (getNoProgressStreak history toolName argsHash).1 := by
  obtain ⟨older, rfl⟩ := hend
  have hrev : ∀ call ∈ calls.reverse, Same toolName argsHash resultHash call := by simpa using h
  simpa [getNoProgressStreak] using le_noProgressFrom hne hrev older.reverse

/-! ### Calls that alternate -/

/-- The signatures alternate; the newest call comes first. -/
def Alternates (a b : String) : List ToolCallRecord → Prop
  | [] => True
  | call :: older => call.argsHash = a ∧ Alternates b a older

/-- Calls with the same signature had the same outcome, and all have one. -/
def Unchanged (calls : List ToolCallRecord) : Prop :=
  ∀ call ∈ calls, (truthy call.resultHash).isSome = true ∧
    ∀ call' ∈ calls, call'.argsHash = call.argsHash → call'.resultHash = call.resultHash

/-- The tail that is counted alternates. -/
theorem alternatingTailFrom_spec (last other : String) (records : List ToolCallRecord) (n : ℕ) :
    ∃ k, k ≤ records.length ∧ alternatingTailFrom last other records n = n + k ∧
      Alternates (if n % 2 = 0 then last else other) (if n % 2 = 0 then other else last)
        (records.take k) := by
  induction records generalizing n with
  | nil => exact ⟨0, le_rfl, rfl, trivial⟩
  | cons call older ih =>
    rw [alternatingTailFrom]
    by_cases hcall : call.argsHash = if n % 2 = 0 then last else other
    · rw [if_neg (not_not.mpr hcall)]
      obtain ⟨k, hk, heq, halt⟩ := ih (n + 1)
      refine ⟨k + 1, Nat.succ_le_succ hk, by omega, ?_⟩
      rw [take_succ_cons]
      refine ⟨hcall, ?_⟩
      rcases Nat.mod_two_eq_zero_or_one n with hn | hn
      · have hnext : (n + 1) % 2 = 1 := by omega
        simpa [hn, hnext] using halt
      · have hnext : (n + 1) % 2 = 0 := by omega
        simpa [hn, hnext] using halt
    · rw [if_pos hcall]
      exact ⟨0, Nat.zero_le _, rfl, trivial⟩

/-- Without a sign of progress, each side had one outcome. -/
theorem evidenceFrom_spec {last other : String} {a b : Option String}
    (h : (evidenceFrom last other tail a b).1 = true) :
    (∀ call ∈ tail, (truthy call.resultHash).isSome = true ∧
      ((call.argsHash = last ∧ call.resultHash = (evidenceFrom last other tail a b).2.1) ∨
        (call.argsHash ≠ last ∧ call.resultHash = (evidenceFrom last other tail a b).2.2))) ∧
      (a.isSome = true → (evidenceFrom last other tail a b).2.1 = a) ∧
      (b.isSome = true → (evidenceFrom last other tail a b).2.2 = b) := by
  induction tail generalizing a b with
  | nil => exact ⟨List.forall_mem_nil _, fun _ => rfl, fun _ => rfl⟩
  | cons call rest ih =>
    rw [evidenceFrom] at h ⊢
    cases htruthy : truthy call.resultHash with
    | none => simp [htruthy] at h
    | some resultHash =>
      have hresult := (truthy_eq_some.mp htruthy).1
      have hsome : (truthy call.resultHash).isSome = true := by rw [htruthy]; rfl
      simp only [htruthy] at h ⊢
      split at h
      · rename_i hlast
        simp only [hlast, if_true]
        cases a with
        | none =>
          obtain ⟨hcalls, ha, hb⟩ := ih h
          refine ⟨forall_mem_cons.mpr ⟨⟨hsome, Or.inl ⟨hlast, ?_⟩⟩, hcalls⟩, ?_, hb⟩
          · rw [hresult, ha rfl]
          · intro hnone
            cases hnone
        | some first =>
          dsimp only at h ⊢
          split at h
          · cases h
          · rename_i hfirst
            obtain ⟨hcalls, ha, hb⟩ := ih h
            rw [if_neg hfirst]
            refine ⟨forall_mem_cons.mpr ⟨⟨hsome, Or.inl ⟨hlast, ?_⟩⟩, hcalls⟩, ha, hb⟩
            rw [hresult, ha rfl, not_not.mp hfirst]
      · rename_i hlast
        simp only [hlast, if_false]
        split at h
        · rename_i hother
          simp only [hother, if_true]
          cases b with
          | none =>
            obtain ⟨hcalls, ha, hb⟩ := ih h
            refine ⟨forall_mem_cons.mpr ⟨⟨hsome, Or.inr ⟨hlast, ?_⟩⟩, hcalls⟩, ha, ?_⟩
            · rw [hresult, hb rfl]
            · intro hnone
              cases hnone
          | some first =>
            dsimp only at h ⊢
            split at h
            · cases h
            · rename_i hfirst
              obtain ⟨hcalls, ha, hb⟩ := ih h
              rw [if_neg hfirst]
              refine ⟨forall_mem_cons.mpr ⟨⟨hsome, Or.inr ⟨hlast, ?_⟩⟩, hcalls⟩, ha, hb⟩
              rw [hresult, hb rfl, not_not.mp hfirst]
        · cases h

theorem unchanged_of_evidence {last other : String}
    (h : (evidenceFrom last other tail none none).1 = true) : Unchanged tail := by
  obtain ⟨hcalls, -, -⟩ := evidenceFrom_spec h
  intro call hcall
  refine ⟨(hcalls call hcall).1, fun call' hcall' hsame => ?_⟩
  rcases (hcalls call hcall).2 with ⟨hc, hr⟩ | ⟨hc, hr⟩ <;>
    rcases (hcalls call' hcall').2 with ⟨hc', hr'⟩ | ⟨hc', hr'⟩
  · rw [hr, hr']
  · exact absurd (hsame.trans hc) hc'
  · exact absurd (hsame.symm.trans hc') hc
  · rw [hr, hr']

variable {history : List ToolCallRecord}

/-- What a streak of two alternating calls counts is at the end of the history, but for the call that
is about to be made. -/
theorem getPingPongStreak_sound {currentSignature : String}
    (h : 0 < (getPingPongStreak history currentSignature).count) :
    ∃ (last : String) (calls : List ToolCallRecord), calls <:+ history ∧
      (getPingPongStreak history currentSignature).count = calls.length + 1 ∧
      last ≠ currentSignature ∧ Alternates last currentSignature calls.reverse ∧
      ((getPingPongStreak history currentSignature).noProgressEvidence = true → Unchanged calls) := by
  unfold getPingPongStreak at h ⊢
  split at h
  · cases h
  · rename_i last older hrev
    split at h
    · cases h
    · rename_i call hfind
      have hne : call.argsHash ≠ last.argsHash := by simpa using find?_some hfind
      dsimp only at h
      split at h
      · cases h
      · rename_i hsignature
        obtain ⟨k, hk, heq, halt⟩ :=
          alternatingTailFrom_spec last.argsHash call.argsHash (last :: older) 0
        rw [Nat.zero_add] at heq
        split at h
        · cases h
        · rename_i htwo
          split at h
          · cases h
          · rename_i hcurrent
            rw [not_not] at hcurrent
            subst hcurrent
            rw [heq] at htwo
            have hlength : history.length = (last :: older).length := by
              rw [← hrev, length_reverse]
            have htail : (history.drop (history.length - k)).reverse = (last :: older).take k := by
              rw [← hrev, reverse_drop, Nat.sub_sub_self (by omega)]
            have hcount : (history.drop (history.length - k)).length = k := by
              rw [length_drop]
              omega
            simp only [hsignature, htwo, heq, if_false, ne_eq, not_true_eq_false]
            refine ⟨last.argsHash, history.drop (history.length - k), drop_suffix _ _, ?_, hne.symm, ?_, ?_⟩
            · rw [hcount]
            · rw [htail]
              exact halt
            · intro hevidence
              exact unchanged_of_evidence (Bool.and_eq_true_iff.mp hevidence).1

/-! ### Sessions -/

/-- A session: its history, and the records that have slid out of it. -/
structure Session where
  /-- What the program does not know any more. -/
  forgotten : List ToolCallRecord
  /-- `toolCallHistory`. -/
  history : List ToolCallRecord

/-- All that was recorded, the oldest record first. -/
def Session.recorded (s : Session) : List ToolCallRecord := s.forgotten ++ s.history

/-- What happens in a session. -/
inductive Event where
  /-- `recordToolCall`. -/
  | call (toolName : String) (params : Json) (toolCallId : Option String)
  /-- `recordToolCallOutcome`. -/
  | outcome (toolName : String) (params : Json) (toolCallId : Option String) (result error : Option Json)

variable (env : LoopEnv) (config : Option ToolLoopDetectionConfig)

/-- The history after an event. -/
def historyAfter (history : List ToolCallRecord) : Event → List ToolCallRecord
  | .call toolName params toolCallId => recordToolCall env config history toolName params toolCallId
  | .outcome toolName params toolCallId result error =>
    recordToolCallOutcome env config history toolName params toolCallId result error

/-- The history after an event, before it is cut. -/
def pushedBy (history : List ToolCallRecord) : Event → List ToolCallRecord
  | .call toolName params toolCallId => history ++ [newCall env toolName params toolCallId]
  | .outcome toolName params toolCallId result error =>
    match truthy (env.hashToolOutcome toolName params result error) with
    | none => history
    | some resultHash =>
      noteOutcome history toolName (hashToolCall env toolName params) toolCallId resultHash

/-- One event. -/
def Session.step (s : Session) (event : Event) : Session :=
  let pushed := pushedBy env s.history event
  let history := historyAfter env config s.history event
  ⟨s.forgotten ++ pushed.take (pushed.length - history.length), history⟩

/-- A run of a session. -/
def run (events : List Event) : Session := events.foldl (Session.step env config) ⟨[], []⟩

theorem settle_spec {toolCallId : Option String} {records settled : List ToolCallRecord}
    (h : settle toolName argsHash toolCallId resultHash records = some settled) :
    settled.length = records.length ∧
      ∀ call ∈ settled, call ∈ records ∨ call.resultHash = some resultHash := by
  induction records generalizing settled with
  | nil => cases h
  | cons record older ih =>
    rw [settle] at h
    split at h
    · cases h
      refine ⟨rfl, forall_mem_cons.mpr ⟨Or.inr rfl, fun call hcall => ?_⟩⟩
      exact Or.inl (mem_cons_of_mem _ hcall)
    · obtain ⟨rest, hrest, rfl⟩ := Option.map_eq_some_iff.mp h
      obtain ⟨hlength, hmem⟩ := ih hrest
      refine ⟨by simp [hlength], forall_mem_cons.mpr ⟨Or.inl mem_cons_self, fun call hcall => ?_⟩⟩
      exact (hmem call hcall).imp_left (mem_cons_of_mem _)

/-- Nothing is lost before the history is cut, and no digest is empty. -/
theorem pushedBy_spec (history : List ToolCallRecord) (event : Event) :
    history.length ≤ (pushedBy env history event).length ∧
      (pushedBy env history event).length ≤ history.length + 1 ∧
      ((∀ call ∈ history, call.resultHash ≠ some "") →
        ∀ call ∈ pushedBy env history event, call.resultHash ≠ some "") := by
  cases event with
  | call toolName params toolCallId =>
    refine ⟨by simp [pushedBy], by simp [pushedBy], fun h => ?_⟩
    intro call hcall
    rcases mem_append.mp hcall with hold | hnew
    · exact h call hold
    · rw [mem_singleton.mp hnew]
      intro hresult
      cases hresult
  | outcome toolName params toolCallId result error =>
    simp only [pushedBy]
    split
    · exact ⟨le_rfl, Nat.le_succ _, fun h => h⟩
    · rename_i resultHash htruthy
      have hne : some resultHash ≠ some "" := by simpa using (truthy_eq_some.mp htruthy).2
      rw [noteOutcome]
      split
      · rename_i settled hsettled
        obtain ⟨hlength, hmem⟩ := settle_spec hsettled
        rw [length_reverse] at hlength
        refine ⟨by simp [hlength], by simp [hlength], fun h call hcall => ?_⟩
        rcases hmem call (mem_reverse.mp hcall) with hold | hnew
        · exact h call (mem_reverse.mp hold)
        · rw [hnew]
          exact hne
      · refine ⟨by simp, by simp, fun h call hcall => ?_⟩
        rcases mem_append.mp hcall with hold | hnew
        · exact h call hold
        · rw [mem_singleton.mp hnew]
          exact hne

/-- The history is cut to its size, from the front. -/
theorem historyAfter_spec (event : Event)
    (h : history.length ≤ (resolveLoopDetectionConfig config).historySize) :
    historyAfter env config history event <:+ pushedBy env history event ∧
      (historyAfter env config history event).length =
        min (pushedBy env history event).length (resolveLoopDetectionConfig config).historySize := by
  cases event with
  | call toolName params toolCallId =>
    simp only [historyAfter, pushedBy, recordToolCall]
    split
    · rename_i hlong
      refine ⟨tail_suffix _, ?_⟩
      rw [length_append, length_singleton] at hlong
      rw [length_tail, length_append, length_singleton]
      omega
    · rename_i hshort
      exact ⟨suffix_rfl, by omega⟩
  | outcome toolName params toolCallId result error =>
    simp only [historyAfter, pushedBy, recordToolCallOutcome]
    cases htruthy : truthy (env.hashToolOutcome toolName params result error) with
    | none => exact ⟨suffix_rfl, by dsimp only; omega⟩
    | some resultHash =>
      refine ⟨drop_suffix _ _, ?_⟩
      dsimp only
      rw [length_drop]
      omega

/-- What a session keeps: its history has at most its size, and is full when something has slid out
of it. -/
structure Session.Kept (s : Session) : Prop where
  short : s.history.length ≤ (resolveLoopDetectionConfig config).historySize
  /-- It is full before anything is forgotten. -/
  full : s.forgotten = [] ∨ s.history.length = (resolveLoopDetectionConfig config).historySize
  /-- No digest of an outcome is empty. -/
  digests : ∀ call ∈ s.history, call.resultHash ≠ some ""

variable {s : Session}

theorem Session.Kept.step (h : s.Kept config) (event : Event) : (s.step env config event).Kept config := by
  obtain ⟨hsuffix, hlength⟩ := historyAfter_spec env config event h.short
  obtain ⟨hle, -, hdigests⟩ := pushedBy_spec env s.history event
  refine ⟨?_, ?_, fun call hcall => hdigests h.digests call (hsuffix.subset hcall)⟩
  · show (historyAfter env config s.history event).length ≤ _
    omega
  · show s.forgotten ++ _ = [] ∨ (historyAfter env config s.history event).length = _
    rcases h.full with hnil | hfull
    · by_cases hcut : (pushedBy env s.history event).length ≤
          (resolveLoopDetectionConfig config).historySize
      · left
        rw [hnil, hlength, min_eq_left hcut, Nat.sub_self]
        rfl
      · right
        omega
    · right
      omega

theorem run_kept (events : List Event) : (run env config events).Kept config := by
  have hinit : (⟨[], []⟩ : Session).Kept config :=
    ⟨Nat.zero_le _, Or.inl rfl, List.forall_mem_nil _⟩
  have hrun : ∀ s : Session, s.Kept config → (events.foldl (Session.step env config) s).Kept config := by
    induction events with
    | nil => exact fun _ h => h
    | cons event rest ih => exact fun s h => ih _ (h.step env config event)
  exact hrun _ hinit

/-- The newest records are in the history, as many as it may hold. -/
theorem Session.Kept.suffix (h : s.Kept config) (hend : calls <:+ s.recorded)
    (hlength : calls.length ≤ (resolveLoopDetectionConfig config).historySize) : calls <:+ s.history := by
  rcases h.full with hnil | hfull
  · rw [Session.recorded, hnil] at hend
    exact hend
  · exact suffix_of_suffix_length_le hend (suffix_append _ _) (by omega)

/-! ### The breaker -/

/-- What a critical detection is about was recorded: calls of the tool with the parameters and one
outcome, or calls that alternate with it without progress. -/
def Founded (recorded : List ToolCallRecord) (toolName : String) (params : Json) (found : Stuck) : Prop :=
  if found.detector = .pingPong then
    ∃ (last : String) (calls : List ToolCallRecord), calls <:+ recorded ∧
      found.count = calls.length + 1 ∧ last ≠ hashToolCall env toolName params ∧
      Alternates last (hashToolCall env toolName params) calls.reverse ∧ Unchanged calls
  else
    ∃ (resultHash : String) (calls : List ToolCallRecord), calls.Sublist recorded ∧
      found.count = calls.length ∧
      ∀ call ∈ calls, Same toolName (hashToolCall env toolName params) resultHash call

variable {params : Json}

variable {found : Stuck}

theorem detectToolCallLoop_founded {toolName : String}
    (h : detectToolCallLoop env config history toolName params = some found)
    (hcritical : found.critical = true) : Founded env history toolName params found := by
  obtain ⟨resultHash, calls, hsub, hsame, hcount⟩ :=
    getNoProgressStreak_sound history toolName (hashToolCall env toolName params)
  unfold detectToolCallLoop at h
  dsimp only at h
  split at h
  · cases h
  split at h
  · cases h
    exact ⟨resultHash, calls, hsub, hcount, hsame⟩
  split at h
  · cases h
    exact ⟨resultHash, calls, hsub, hcount, hsame⟩
  split at h
  · cases h
    cases hcritical
  split at h
  · rename_i hpingPong
    have hcritical := (thresholds_ordered config).2.1
    obtain ⟨last, calls, hend, heq, hne, halt, hunchanged⟩ :=
      @getPingPongStreak_sound history (hashToolCall env toolName params) (by omega)
    cases h
    exact ⟨last, calls, hend, heq, hne, halt, hunchanged (Bool.and_eq_true_iff.mp hpingPong.1).2⟩
  split at h
  · cases h
    cases hcritical
  split at h
  · cases h
    cases hcritical
  · cases h

theorem Founded.mono {history recorded : List ToolCallRecord} {toolName : String}
    (h : Founded env history toolName params found) (hend : history <:+ recorded) :
    Founded env recorded toolName params found := by
  unfold Founded at h ⊢
  split
  · rename_i hdetector
    rw [if_pos hdetector] at h
    obtain ⟨last, calls, hcalls, hrest⟩ := h
    exact ⟨last, calls, hcalls.trans hend, hrest⟩
  · rename_i hdetector
    rw [if_neg hdetector] at h
    obtain ⟨resultHash, calls, hcalls, hrest⟩ := h
    exact ⟨resultHash, calls, hcalls.trans hend.sublist, hrest⟩

/-- A streak that reaches the threshold trips the breaker. -/
theorem detectToolCallLoop_of_streak {toolName : String}
    (henabled : (resolveLoopDetectionConfig config).enabled = true)
    (h : (resolveLoopDetectionConfig config).globalCircuitBreakerThreshold ≤
      (getNoProgressStreak history toolName (hashToolCall env toolName params)).1) :
    ∃ found, detectToolCallLoop env config history toolName params = some found ∧
      found.critical = true ∧ found.detector = .globalCircuitBreaker := by
  unfold detectToolCallLoop
  dsimp only
  rw [if_neg (by simp [henabled]), if_pos h]
  exact ⟨_, rfl, rfl, rfl⟩

/-- A critical detection is founded on what was recorded; and as many equal calls with one outcome as
the breaker needs, the newest of the session, make the next detection critical, provided the history
is long enough to hold them. -/
theorem breaker_trips_and_is_sound (henabled : (resolveLoopDetectionConfig config).enabled = true)
    (events : List Event) (toolName : String) (params : Json) :
    ((resolveLoopDetectionConfig config).globalCircuitBreakerThreshold ≤
        (resolveLoopDetectionConfig config).historySize →
      ∀ (resultHash : String) (calls : List ToolCallRecord), calls <:+ (run env config events).recorded →
        calls.length = (resolveLoopDetectionConfig config).globalCircuitBreakerThreshold →
        (∀ call ∈ calls, Same toolName (hashToolCall env toolName params) resultHash call) →
        ∃ found, detectToolCallLoop env config (run env config events).history toolName params =
          some found ∧ found.critical = true) ∧
      ∀ found, detectToolCallLoop env config (run env config events).history toolName params = some found →
        found.critical = true → Founded env (run env config events).recorded toolName params found := by
  have hkept := run_kept env config events
  refine ⟨fun hsize resultHash calls hend hlength hsame => ?_, fun found hfound hcritical => ?_⟩
  · have hhistory := hkept.suffix config hend (by omega)
    have hpos : calls ≠ [] := by
      intro hnil
      have := thresholds_ordered config
      rw [hnil, length_nil] at hlength
      omega
    obtain ⟨call, rest, hcalls⟩ := exists_cons_of_ne_nil hpos
    have hmem : call ∈ calls := by rw [hcalls]; exact mem_cons_self
    have hne : resultHash ≠ "" := by
      rintro rfl
      exact hkept.digests call (hhistory.subset hmem) (hsame call hmem).2.2
    have hstreak := le_getNoProgressStreak hne hhistory hsame
    obtain ⟨found, hfound, hcritical, -⟩ :=
      detectToolCallLoop_of_streak env config henabled (hlength ▸ hstreak)
    exact ⟨found, hfound, hcritical⟩
  · exact (detectToolCallLoop_founded env config hfound hcritical).mono env (suffix_append _ _)

/-- A configuration with the smallest thresholds, and a history of the given size. -/
def smallConfig (historySize : ℕ) : Option ToolLoopDetectionConfig :=
  some ⟨some true, some (.fin historySize), some (.fin 1), some (.fin 2), some (.fin 3), none, none, none⟩

/-- Digests that tell `null` from the rest; every outcome is the same. -/
def plainEnv : LoopEnv where
  digestStable
    | .null => "0"
    | _ => "1"
  hashToolOutcome _ _ _ _ := some "o"

/-- A call with an outcome. -/
def callOf (params : Json) : List Event :=
  [.call "edit" params none, .outcome "edit" params none (some .null) none]

/-- Three equal calls in a history that holds three. -/
theorem breaker_trips_three :
    ∃ found, detectToolCallLoop plainEnv (smallConfig 3)
      (run plainEnv (smallConfig 3) (callOf .null ++ callOf .null ++ callOf .null)).history "edit" .null =
        some found ∧ found.critical = true :=
  (breaker_trips_and_is_sound plainEnv (smallConfig 3) (by decide +kernel)
      (callOf .null ++ callOf .null ++ callOf .null) "edit" .null).1 (by decide +kernel) "o"
    (run plainEnv (smallConfig 3) (callOf .null ++ callOf .null ++ callOf .null)).recorded
    suffix_rfl (by decide +kernel) (by
      have hrecorded : (run plainEnv (smallConfig 3)
          (callOf .null ++ callOf .null ++ callOf .null)).recorded =
          List.replicate 3 ⟨"edit", hashToolCall plainEnv "edit" .null, none, some "o"⟩ := by
        decide +kernel
      rw [hrecorded]
      intro call hcall
      rw [eq_of_mem_replicate hcall]
      exact ⟨rfl, rfl, rfl⟩)

/-- In a history that holds one call the breaker, which needs three, is out of reach; and a ping-pong
loop is critical with a count of three when two calls were recorded. -/
theorem breaker_out_of_reach :
    (¬ ∀ (events : List Event) (calls : List ToolCallRecord),
        calls <:+ (run plainEnv (smallConfig 1) events).recorded →
        calls.length = (resolveLoopDetectionConfig (smallConfig 1)).globalCircuitBreakerThreshold →
        (∀ call ∈ calls, Same "edit" (hashToolCall plainEnv "edit" .null) "o" call) →
        ∃ found, detectToolCallLoop plainEnv (smallConfig 1)
          (run plainEnv (smallConfig 1) events).history "edit" .null = some found ∧
            found.critical = true) ∧
      ¬ ∀ (events : List Event) (found : Stuck), detectToolCallLoop plainEnv (smallConfig 3)
          (run plainEnv (smallConfig 3) events).history "edit" .null = some found →
        found.critical = true →
        ∃ calls : List ToolCallRecord, calls.Sublist (run plainEnv (smallConfig 3) events).recorded ∧
          found.count ≤ calls.length := by
  refine ⟨fun h => ?_, fun h => ?_⟩
  · have hrecorded : (run plainEnv (smallConfig 1) (callOf .null ++ callOf .null ++ callOf .null)).recorded =
        List.replicate 3 ⟨"edit", hashToolCall plainEnv "edit" .null, none, some "o"⟩ := by
      decide +kernel
    have hsame : ∀ call ∈ (run plainEnv (smallConfig 1)
        (callOf .null ++ callOf .null ++ callOf .null)).recorded,
        Same "edit" (hashToolCall plainEnv "edit" .null) "o" call := by
      rw [hrecorded]
      intro call hcall
      rw [eq_of_mem_replicate hcall]
      exact ⟨rfl, rfl, rfl⟩
    obtain ⟨found, hfound, hcritical⟩ := h (callOf .null ++ callOf .null ++ callOf .null) _
      suffix_rfl (by decide +kernel) hsame
    have hquiet : (detectToolCallLoop plainEnv (smallConfig 1) (run plainEnv (smallConfig 1)
        (callOf .null ++ callOf .null ++ callOf .null)).history "edit" .null).map (·.critical) =
        some false := by
      decide +kernel
    rw [hfound, Option.map_some, hcritical] at hquiet
    cases hquiet
  · obtain ⟨found, hfound, hcount⟩ : ∃ found, detectToolCallLoop plainEnv (smallConfig 3)
        (run plainEnv (smallConfig 3) (callOf .null ++ callOf (.bool true))).history "edit" .null =
          some found ∧ (found.critical, found.count) = (true, 3) := by
      have hsome : (detectToolCallLoop plainEnv (smallConfig 3) (run plainEnv (smallConfig 3)
          (callOf .null ++ callOf (.bool true))).history "edit" .null).map
            (fun found => (found.critical, found.count)) = some (true, 3) := by
        decide +kernel
      exact Option.map_eq_some_iff.mp hsome
    obtain ⟨hcritical, hcount⟩ := Prod.mk.inj hcount
    obtain ⟨calls, hcalls, hle⟩ := h _ found hfound hcritical
    have hlength : (run plainEnv (smallConfig 3)
        (callOf .null ++ callOf (.bool true))).recorded.length = 2 := by
      decide +kernel
    have := hcalls.length_le
    omega

end Foxclaw.Agents.ToolLoop
