import Foxclaw.Agents.ToolCallId
import Foxclaw.Lib.JsMap

/-!
# Renaming of tool call ids

This module models the other half of `agents/tool-call-id.ts`: the ids of tool calls and tool results
are replaced by ids that every provider accepts, the same id by the same one throughout a transcript.

## The model

Messages are JSON values. The hash is any function with the output of a hash: 64 hexadecimal digits.
The time is read only where all retries have failed; it is open, and may differ from one id to the next.
`used` is only asked for its elements, so it is a list.

## What is proved

* `uniqueToolId_spec` — an id that a retry finds is new, accepted, and not too long.
* `resolveAll_sound` — so the ids given out are pairwise different, and a given id stays.
* `rewriteMessages_eq` — one pass from left to right renames by the table that it ends with.
* `sanitizeToolCallIdsForCloudCodeAssist_renames` — the result is one injective renaming of the
  transcript, and that of a beginning of the transcript is the beginning of the result.
-/

namespace Foxclaw.Agents.ToolCallIds

open Bool JsMap String List Option

/-! ### Ids -/

inductive ToolCallIdMode where
  /-- Letters and digits only. -/
  | strict
  /-- Nine letters and digits. -/
  | strict9
  deriving DecidableEq

def STRICT9_LEN : ℕ := 9

def MAX_LEN : ℕ := 40

/-- `createHash("sha256").update(text).digest("hex")`: 64 hexadecimal digits. -/
structure Digest where
  hex : String → List Char
  alphanumeric : ∀ text, (hex text).all Char.isAlphanum = true
  length : ∀ text, (hex text).length = 64

/-- What a run depends on. -/
structure Env where
  mode : ToolCallIdMode
  digest : Digest
  /-- `Date.now()`, when that many ids have been given out. -/
  now : ℕ → ℕ

/-- `id.slice(0, n)`. -/
def clip (id : String) (n : ℕ) : String := String.ofList (id.toList.take n)

/-- `id.replace(/[^a-zA-Z0-9]/g, "")`. -/
def alphanumericOnly (id : String) : String := String.ofList (id.toList.filter Char.isAlphanum)

variable (env : Env)

def shortHash (text : String) (length : ℕ) : String :=
  String.ofList ((env.digest.hex text).take length)

def sanitizeToolCallId (id : String) : String :=
  if id = "" then
    match env.mode with
    | .strict9 => "defaultid"
    | .strict => "defaulttoolid"
  else
    let only := alphanumericOnly id
    match env.mode with
    | .strict9 =>
      if STRICT9_LEN ≤ only.length then clip only STRICT9_LEN
      else if 0 < only.length then shortHash env only STRICT9_LEN
      else shortHash env "sanitized" STRICT9_LEN
    | .strict => if 0 < only.length then only else "sanitizedtoolid"

def isValidCloudCodeAssistToolId (id : String) (mode : ToolCallIdMode) : Bool :=
  match mode with
  | .strict9 => id.toList.all Char.isAlphanum && id.toList.length = 9
  | .strict => id.toList.all Char.isAlphanum && id ≠ ""

/-- The candidate of `makeUniqueToolId` that ends in the hash of the id. -/
def hashedCandidate (id : String) : String :=
  let base := clip (sanitizeToolCallId env id) MAX_LEN
  let hash := shortHash env id 8
  let maxBaseLen := MAX_LEN - hash.length
  let clippedBase := if maxBaseLen < base.length then clip base maxBaseLen else base
  clippedBase ++ hash

/-- A candidate with a suffix, cut to the length of an id. -/
def withSuffix (candidate suffix : String) : String :=
  clip candidate (MAX_LEN - suffix.length) ++ suffix

/-- `makeUniqueToolId`, up to the point where all retries have failed. -/
def uniqueToolId (used : List String) (id : String) : Option String :=
  match env.mode with
  | .strict9 =>
    let base := sanitizeToolCallId env id
    let candidate := if STRICT9_LEN ≤ base.length then clip base STRICT9_LEN else ""
    if candidate ≠ "" ∧ candidate ∉ used then some candidate
    else
      ((List.range 1000).map fun i => shortHash env (id ++ ":" ++ toString i) STRICT9_LEN).find?
        fun hashed => hashed ∉ used
  | .strict =>
    let base := clip (sanitizeToolCallId env id) MAX_LEN
    if base ∉ used then some base
    else if hashedCandidate env id ∉ used then some (hashedCandidate env id)
    else
      ((List.range' 2 998).map fun i => withSuffix (hashedCandidate env id) ("x" ++ toString i)).find?
        fun next => next ∉ used

/-- The id that is made of the time, which may be in use already. -/
def timestampedToolId (time : ℕ) (id : String) : String :=
  match env.mode with
  | .strict9 => shortHash env (id ++ ":" ++ toString time) STRICT9_LEN
  | .strict => withSuffix (hashedCandidate env id) ("t" ++ toString time)

/-! ### The table -/

/-- `map` and `used`. -/
structure Resolver where
  /-- The ids given out, by the ids they replace. -/
  map : JsMap String String
  used : List String

/-- Nothing is given out. -/
def Resolver.empty : Resolver := ⟨.empty, []⟩

variable (s : Resolver)

/-- The id that `resolve` finds in the table; an empty one does not count. -/
def existing (id : String) : Option String := (s.map.get? id).filter (· ≠ "")

def makeUniqueToolId (id : String) : String :=
  (uniqueToolId env s.used id).getD (timestampedToolId env (env.now s.map.size) id)

def resolve (id : String) : String × Resolver :=
  match existing s id with
  | some known => (known, s)
  | none =>
    let next := makeUniqueToolId env s id
    (next, ⟨s.map.set id next, next :: s.used⟩)

/-- The table after the ids of a list, in order. -/
def resolveAll (ids : List String) : Resolver :=
  ids.foldl (fun s id => (resolve env s id).2) s

/-- No id of the list comes to the end of its retries. -/
def retriesSuffice : Resolver → List String → Bool
  | _, [] => true
  | s, id :: ids =>
    ((existing s id).isSome || (uniqueToolId env s.used id).isSome) &&
      retriesSuffice (resolve env s id).2 ids

/-! ### Messages -/

/-- The id of a block, if it is a tool call that has one. -/
def blockId (block : Json) : Option String := (toolCallOf block).map (·.id)

/-- The loop of `rewriteAssistantToolCallIds`: the blocks, whether one changed, and the table. -/
def rewriteBlocks : Resolver → List Json → List Json × Bool × Resolver
  | s, [] => ([], false, s)
  | s, block :: blocks =>
    match blockId block with
    | none =>
      let rest := rewriteBlocks s blocks
      (block :: rest.1, rest.2)
    | some id =>
      let next := resolve env s id
      let rest := rewriteBlocks next.2 blocks
      if next.1 = id then (block :: rest.1, rest.2)
      else (setField block "id" (.str next.1) :: rest.1, true, rest.2.2)

variable (message : AgentMessage)

def rewriteAssistantToolCallIds : AgentMessage × Bool × Resolver :=
  match (fieldsOf message).lookup "content" with
  | some (.arr blocks) =>
    let next := rewriteBlocks env s blocks
    if next.2.1 then (setField message "content" (.arr next.1), true, next.2.2)
    else (message, false, next.2.2)
  | _ => (message, false, s)

/-- The id at a property of a tool result, resolved if it is there. -/
def resolveField (key : String) : Option String × Resolver :=
  match nonEmptyText ((fieldsOf message).lookup key) with
  | some id => ((some (resolve env s id).1), (resolve env s id).2)
  | none => (none, s)

/-- Spreading a property that may be missing into a message; an empty id counts as missing. -/
def spreadField (key : String) : Option String → AgentMessage
  | some id => if id = "" then message else setField message key (.str id)
  | none => message

def rewriteToolResultIds : AgentMessage × Bool × Resolver :=
  let nextToolCallId := resolveField env s message "toolCallId"
  let nextToolUseId := resolveField env nextToolCallId.2 message "toolUseId"
  if nextToolCallId.1 = nonEmptyText ((fieldsOf message).lookup "toolCallId") ∧
      nextToolUseId.1 = nonEmptyText ((fieldsOf message).lookup "toolUseId") then
    (message, false, nextToolUseId.2)
  else
    (spreadField (spreadField message "toolCallId" nextToolCallId.1) "toolUseId" nextToolUseId.1, true,
      nextToolUseId.2)

/-- One message. -/
def rewriteMessage : AgentMessage × Bool × Resolver :=
  if isAssistant message then rewriteAssistantToolCallIds env s message
  else if isToolResult message then rewriteToolResultIds env s message
  else (message, false, s)

/-- The messages, whether one changed, and the table. -/
def rewriteMessages : Resolver → List AgentMessage → List AgentMessage × Bool × Resolver
  | s, [] => ([], false, s)
  | s, message :: messages =>
    let next := rewriteMessage env s message
    let rest := rewriteMessages next.2.2 messages
    (next.1 :: rest.1, next.2.1 || rest.2.1, rest.2.2)

def sanitizeToolCallIdsForCloudCodeAssist (messages : List AgentMessage) : List AgentMessage :=
  let next := rewriteMessages env .empty messages
  if next.2.1 then next.1 else messages

/-! ### What a new id looks like -/

/-- Letters and digits only. -/
def Alphanumeric (id : String) : Prop := id.toList.all Char.isAlphanum = true

instance (id : String) : Decidable (Alphanumeric id) :=
  inferInstanceAs (Decidable (id.toList.all Char.isAlphanum = true))

theorem alphanumeric_clip {id : String} (h : Alphanumeric id) (n : ℕ) : Alphanumeric (clip id n) := by
  simp only [Alphanumeric, clip, toList_ofList, List.all_eq_true] at h ⊢
  intro c hc
  exact h c (mem_of_mem_take hc)

theorem alphanumeric_append {id id' : String} (h : Alphanumeric id) (h' : Alphanumeric id') :
    Alphanumeric (id ++ id') := by
  simp only [Alphanumeric, toList_append, all_append, and_eq_true] at h h' ⊢
  exact ⟨h, h'⟩

theorem alphanumeric_shortHash (text : String) (n : ℕ) : Alphanumeric (shortHash env text n) := by
  have h := env.digest.alphanumeric text
  simp only [Alphanumeric, shortHash, toList_ofList, List.all_eq_true] at h ⊢
  intro c hc
  exact h c (mem_of_mem_take hc)

theorem alphanumeric_alphanumericOnly (id : String) : Alphanumeric (alphanumericOnly id) := by
  simp [Alphanumeric, alphanumericOnly]

theorem alphanumeric_sanitizeToolCallId (id : String) : Alphanumeric (sanitizeToolCallId env id) := by
  have only := alphanumeric_alphanumericOnly id
  rw [sanitizeToolCallId]
  split
  · split <;> decide +kernel
  dsimp only
  split
  · split
    · exact alphanumeric_clip only _
    split <;> exact alphanumeric_shortHash env _ _
  · split
    · exact only
    · decide +kernel

theorem alphanumeric_toString (n : ℕ) : Alphanumeric (toString n) := by
  have h : (toString n).toList = Nat.toDigits 10 n := by simp [toString, Nat.repr_eq_ofList_toDigits]
  rw [Alphanumeric, h, List.all_eq_true]
  intro c hc
  have digit := Nat.isDigit_of_mem_toDigits (by decide) (by decide) hc
  simp [Char.isAlphanum, digit]

theorem length_shortHash (text : String) {n : ℕ} (h : n ≤ 64) : (shortHash env text n).length = n := by
  simp [shortHash, env.digest.length, h]

theorem length_clip (id : String) (n : ℕ) : (clip id n).length = min n id.length := by
  simp [clip, String.length_toList]

theorem length_sanitizeToolCallId_pos (id : String) : 0 < (sanitizeToolCallId env id).length := by
  rw [sanitizeToolCallId]
  split
  · split <;> decide +kernel
  dsimp only
  split
  · split
    next h =>
      rw [length_clip]
      simp only [STRICT9_LEN] at h ⊢
      omega
    split <;> exact lt_of_lt_of_eq (by decide) (length_shortHash env _ (by decide)).symm
  · split
    next h => exact h
    next => decide +kernel

theorem length_hashedCandidate_le (id : String) : (hashedCandidate env id).length ≤ MAX_LEN := by
  have hash : (shortHash env id 8).length = 8 := length_shortHash env id (by decide)
  simp only [hashedCandidate, hash, String.length_append, MAX_LEN]
  split
  next => rw [length_clip]; omega
  next h => omega

theorem alphanumeric_hashedCandidate (id : String) : Alphanumeric (hashedCandidate env id) := by
  have base := alphanumeric_clip (alphanumeric_sanitizeToolCallId env id) MAX_LEN
  rw [hashedCandidate]
  refine alphanumeric_append ?_ (alphanumeric_shortHash env id 8)
  split
  · exact alphanumeric_clip base _
  · exact base

theorem length_withSuffix_le (candidate : String) {suffix : String} (h : suffix.length ≤ MAX_LEN) :
    (withSuffix candidate suffix).length ≤ MAX_LEN := by
  rw [withSuffix, String.length_append, length_clip]
  omega

theorem isValid_strict {id : String} (h : Alphanumeric id) (hpos : 0 < id.length) :
    isValidCloudCodeAssistToolId id .strict = true := by
  have hne : id ≠ "" := by
    rintro rfl
    exact absurd hpos (by decide)
  simp only [isValidCloudCodeAssistToolId, and_eq_true, decide_eq_true_eq]
  exact ⟨h, hne⟩

theorem isValid_strict9 {id : String} (h : Alphanumeric id) (hlen : id.length = STRICT9_LEN) :
    isValidCloudCodeAssistToolId id .strict9 = true := by
  simp only [isValidCloudCodeAssistToolId, and_eq_true, decide_eq_true_eq]
  exact ⟨h, by simpa [STRICT9_LEN, String.length_toList] using hlen⟩

/-- An id that is accepted in the mode. -/
structure Accepted (mode : ToolCallIdMode) (id : String) : Prop where
  valid : isValidCloudCodeAssistToolId id mode = true
  /-- In strict mode it is not too long. -/
  short : mode = .strict → id.length ≤ MAX_LEN

/-- An id that the retries find is new and accepted. -/
theorem uniqueToolId_spec {used : List String} {id next : String}
    (h : uniqueToolId env used id = some next) : next ∉ used ∧ Accepted env.mode next := by
  rw [uniqueToolId] at h
  split at h
  next hmode =>
    rw [hmode]
    have nine : ∀ hashed, Alphanumeric hashed → hashed.length = STRICT9_LEN → Accepted .strict9 hashed :=
      fun hashed halnum hlen => ⟨isValid_strict9 halnum hlen, fun h => nomatch h⟩
    have candidate : ∀ base : String, Alphanumeric base →
        (if STRICT9_LEN ≤ base.length then clip base STRICT9_LEN else "") ≠ "" →
          Accepted .strict9 (if STRICT9_LEN ≤ base.length then clip base STRICT9_LEN else "") := by
      intro base halnum hne
      by_cases hlong : STRICT9_LEN ≤ base.length
      · rw [if_pos hlong]
        refine nine _ (alphanumeric_clip halnum _) ?_
        rw [length_clip]
        omega
      · exact absurd (if_neg hlong) hne
    dsimp only at h
    generalize hbase : sanitizeToolCallId env id = base at h
    by_cases hcandidate : (if STRICT9_LEN ≤ base.length then clip base STRICT9_LEN else "") ≠ "" ∧
        (if STRICT9_LEN ≤ base.length then clip base STRICT9_LEN else "") ∉ used
    · rw [if_pos hcandidate] at h
      obtain rfl := some.inj h
      exact ⟨hcandidate.2, candidate base (hbase ▸ alphanumeric_sanitizeToolCallId env id) hcandidate.1⟩
    · rw [if_neg hcandidate] at h
      have hnew := find?_some h
      obtain ⟨i, -, rfl⟩ := List.mem_map.mp (mem_of_find?_eq_some h)
      exact ⟨of_decide_eq_true hnew, nine _ (alphanumeric_shortHash env _ _) (length_shortHash env _ (by decide))⟩
  next hmode =>
    rw [hmode]
    have base := alphanumeric_clip (alphanumeric_sanitizeToolCallId env id) MAX_LEN
    have hpos := length_sanitizeToolCallId_pos env id
    have hashed : (shortHash env id 8).length = 8 := length_shortHash env id (by decide)
    dsimp only at h
    split at h
    next hnew =>
      obtain rfl := some.inj h
      have hlen := length_clip (sanitizeToolCallId env id) MAX_LEN
      simp only [MAX_LEN] at hlen
      refine ⟨hnew, isValid_strict base (by simp only [MAX_LEN]; omega), fun _ => ?_⟩
      simp only [MAX_LEN]
      omega
    split at h
    next hnew =>
      obtain rfl := some.inj h
      refine ⟨hnew, isValid_strict (alphanumeric_hashedCandidate env id) ?_,
        fun _ => length_hashedCandidate_le env id⟩
      simp only [hashedCandidate, String.length_append, hashed]
      omega
    next =>
      have hnew := find?_some h
      obtain ⟨i, hi, rfl⟩ := List.mem_map.mp (mem_of_find?_eq_some h)
      obtain ⟨-, hlt⟩ := mem_range'_1.mp hi
      have hdigits : (toString i).length ≤ 3 := (Nat.length_repr_le_iff (by decide)).mpr (by omega)
      have hsuffix : ("x" ++ toString i).length = (toString i).length + 1 := by
        simp only [String.length_append]
        exact Nat.add_comm _ _
      have halnum : Alphanumeric ("x" ++ toString i) :=
        alphanumeric_append (by decide +kernel) (alphanumeric_toString i)
      refine ⟨of_decide_eq_true hnew, isValid_strict ?_ ?_, fun _ => length_withSuffix_le _ ?_⟩
      · exact alphanumeric_append (alphanumeric_clip (alphanumeric_hashedCandidate env id) _) halnum
      · rw [withSuffix, String.length_append, hsuffix]
        omega
      · simp only [MAX_LEN]
        omega

/-! ### The table over a run -/

variable {mode : ToolCallIdMode}

theorem Accepted.ne_empty {id : String} (h : Accepted mode id) : id ≠ "" := by
  rintro rfl
  cases mode <;> exact absurd h.valid (by decide +kernel)

/-- The ids given out are accepted and pairwise different. -/
structure Resolver.Sound (mode : ToolCallIdMode) (s : Resolver) : Prop where
  used : ∀ id next, s.map.get? id = some next → next ∈ s.used
  accepted : ∀ id next, s.map.get? id = some next → Accepted mode next
  /-- None is given out twice. -/
  injective : ∀ id id' next, s.map.get? id = some next → s.map.get? id' = some next → id = id'

/-- What the first table has, the second has as well. -/
def Grows (s s' : Resolver) : Prop :=
  ∀ id next, s.map.get? id = some next → s'.map.get? id = some next

theorem Grows.trans {s₁ s₂ s₃ : Resolver} (h : Grows s₁ s₂) (h' : Grows s₂ s₃) : Grows s₁ s₃ :=
  fun id next hnext => h' id next (h id next hnext)

variable {env}

theorem Resolver.sound_empty (mode : ToolCallIdMode) : Resolver.empty.Sound mode := by
  constructor <;> simp [Resolver.empty]

variable {s : Resolver}

theorem existing_eq (hs : s.Sound mode) (id : String) : existing s id = s.map.get? id := by
  rw [existing]
  cases hget : s.map.get? id with
  | none => rfl
  | some next =>
    have hne : next ≠ "" := (hs.accepted id next hget).ne_empty
    simp [Option.filter, hne]

/-- Resolving an id puts it into the table, for good. -/
theorem resolve_spec {id : String} (hs : s.Sound env.mode)
    (h : ((existing s id).isSome || (uniqueToolId env s.used id).isSome) = true) :
    (resolve env s id).2.Sound env.mode ∧ Grows s (resolve env s id).2 ∧
      (resolve env s id).2.map.get? id = some (resolve env s id).1 := by
  have heq := existing_eq hs id
  cases hknown : existing s id with
  | some known =>
    rw [resolve, hknown]
    exact ⟨hs, fun _ _ h => h, heq ▸ hknown⟩
  | none =>
    have hnone : s.map.get? id = none := heq ▸ hknown
    obtain ⟨next, hnext⟩ : ∃ next, uniqueToolId env s.used id = some next := by
      simpa [hknown, isSome_iff_exists] using h
    obtain ⟨hnew, haccepted⟩ := uniqueToolId_spec env hnext
    have hmake : makeUniqueToolId env s id = next := by rw [makeUniqueToolId, hnext, getD_some]
    have hother : ∀ id' other, (s.map.set id next).get? id' = some other →
        (id' = id ∧ other = next) ∨ (id' ≠ id ∧ s.map.get? id' = some other) := by
      intro id' other hget
      rw [get?_set] at hget
      split at hget
      next heq => exact .inl ⟨heq.symm, (some.inj hget).symm⟩
      next hne => exact .inr ⟨fun h => hne h.symm, hget⟩
    rw [resolve, hknown]
    simp only [hmake]
    refine ⟨⟨fun id' other hget => ?_, fun id' other hget => ?_, fun id₁ id₂ other h₁ h₂ => ?_⟩,
      fun id' other hget => ?_, get?_set_self _ _ _⟩
    · rcases hother id' other hget with ⟨-, rfl⟩ | ⟨-, hold⟩
      · exact mem_cons_self
      · exact mem_cons_of_mem _ (hs.used id' other hold)
    · rcases hother id' other hget with ⟨-, rfl⟩ | ⟨-, hold⟩
      · exact haccepted
      · exact hs.accepted id' other hold
    · -- an old id is in use, so the new one is none of them
      rcases hother id₁ other h₁ with ⟨hid₁, hnext₁⟩ | ⟨-, hold₁⟩ <;>
        rcases hother id₂ other h₂ with ⟨hid₂, hnext₂⟩ | ⟨-, hold₂⟩
      · exact hid₁.trans hid₂.symm
      · exact absurd (hnext₁ ▸ hs.used id₂ other hold₂) hnew
      · exact absurd (hnext₂ ▸ hs.used id₁ other hold₁) hnew
      · exact hs.injective id₁ id₂ other hold₁ hold₂
    · rw [get?_set]
      split
      next heq => rw [← heq, hnone] at hget; cases hget
      next => exact hget

theorem retriesSuffice_append (s : Resolver) (ids ids' : List String) :
    retriesSuffice env s (ids ++ ids') =
      (retriesSuffice env s ids && retriesSuffice env (resolveAll env s ids) ids') := by
  induction ids generalizing s with
  | nil => rfl
  | cons id ids ih =>
    rw [cons_append, retriesSuffice, retriesSuffice, ih, Bool.and_assoc]
    rfl

theorem resolveAll_append (s : Resolver) (ids ids' : List String) :
    resolveAll env s (ids ++ ids') = resolveAll env (resolveAll env s ids) ids' := foldl_append

variable {ids : List String}

/-- Over a run the table stays sound and grows, and in the end it has all ids of the run. -/
theorem resolveAll_sound (hs : s.Sound env.mode) (h : retriesSuffice env s ids = true) :
    (resolveAll env s ids).Sound env.mode ∧ Grows s (resolveAll env s ids) ∧
      ∀ id ∈ ids, ∃ next, (resolveAll env s ids).map.get? id = some next := by
  induction ids generalizing s with
  | nil => exact ⟨hs, fun _ _ h => h, fun id hid => absurd hid not_mem_nil⟩
  | cons id ids ih =>
    rw [retriesSuffice, and_eq_true] at h
    obtain ⟨hs', hgrows, hget⟩ := resolve_spec hs h.1
    obtain ⟨hsound, hgrows', hall⟩ := ih hs' h.2
    refine ⟨hsound, hgrows.trans hgrows', fun id' hid' => ?_⟩
    rcases mem_cons.mp hid' with rfl | hrest
    · exact ⟨_, hgrows' _ _ hget⟩
    · exact hall id' hrest

/-- Where the retries suffice the time plays no part. -/
theorem resolveAll_now (now : ℕ → ℕ) (h : retriesSuffice env s ids = true) :
    resolveAll { env with now := now } s ids = resolveAll env s ids ∧
      retriesSuffice { env with now := now } s ids = true := by
  induction ids generalizing s with
  | nil => exact ⟨rfl, rfl⟩
  | cons id ids ih =>
    rw [retriesSuffice, and_eq_true] at h
    have same : ∀ used, uniqueToolId { env with now := now } used id = uniqueToolId env used id :=
      fun used => rfl
    have step : resolve { env with now := now } s id = resolve env s id := by
      cases hknown : existing s id with
      | some known => rw [resolve, resolve, hknown]
      | none =>
        obtain ⟨next, hnext⟩ : ∃ next, uniqueToolId env s.used id = some next := by
          simpa [hknown, isSome_iff_exists] using h.1
        have hmake : makeUniqueToolId { env with now := now } s id = makeUniqueToolId env s id := by
          rw [makeUniqueToolId, makeUniqueToolId, same, hnext, getD_some, getD_some]
        rw [resolve, resolve, hknown, hmake]
    obtain ⟨hall, hsuffice⟩ := ih h.2
    have hrest : resolveAll { env with now := now } s (id :: ids) =
        resolveAll { env with now := now } (resolve { env with now := now } s id).2 ids := rfl
    rw [hrest, retriesSuffice, step, same, hall, hsuffice, h.1]
    exact ⟨rfl, rfl⟩

/-! ### A renaming of a transcript -/

/-- The ids of a message, in the order in which they are resolved. -/
def messageIds (message : AgentMessage) : List String :=
  if isAssistant message then
    match (fieldsOf message).lookup "content" with
    | some (.arr blocks) => blocks.filterMap blockId
    | _ => []
  else if isToolResult message then
    (nonEmptyText ((fieldsOf message).lookup "toolCallId")).toList ++
      (nonEmptyText ((fieldsOf message).lookup "toolUseId")).toList
  else []

/-- The ids of a transcript. -/
def transcriptIds (messages : List AgentMessage) : List String := messages.flatMap messageIds

variable (f : String → String)

/-- A block with its id renamed. -/
def renameBlock (block : Json) : Json :=
  match blockId block with
  | some id => setField block "id" (.str (f id))
  | none => block

/-- A tool result with the id at a property renamed. -/
def renameField (message : AgentMessage) (key : String) : AgentMessage :=
  match nonEmptyText ((fieldsOf message).lookup key) with
  | some id => setField message key (.str (f id))
  | none => message

/-- A message with its ids renamed. -/
def renameIds (message : AgentMessage) : AgentMessage :=
  if isAssistant message then
    match (fieldsOf message).lookup "content" with
    | some (.arr blocks) => setField message "content" (.arr (blocks.map (renameBlock f)))
    | _ => message
  else if isToolResult message then renameField f (renameField f message "toolCallId") "toolUseId"
  else message

/-- The table says what the renaming does. -/
def Agrees (s : Resolver) : Prop :=
  ∀ id next, s.map.get? id = some next → f id = next

variable {f : String → String}

theorem Agrees.of_grows {s s' : Resolver} (h : Agrees f s') (hg : Grows s s') :
    Agrees f s := fun id next hnext => h id next (hg id next hnext)

variable {key : String}

/-- Setting a property to what it is changes nothing. -/
theorem setField_self {message value : Json}
    (h : (fieldsOf message).lookup key = some value) : setField message key value = message := by
  have fields : ∀ fields : Json.Fields, fields.lookup key = some value → fields.set key value = fields := by
    intro fields
    induction fields with
    | nil => intro h; cases h
    | cons first rest ih =>
      obtain ⟨k, v⟩ := first
      intro h
      rw [Json.Fields.lookup_cons] at h
      rw [Json.Fields.set]
      split at h
      next heq =>
        obtain rfl := some.inj h
        rw [if_pos heq.symm, heq]
      next hne => rw [if_neg (Ne.symm hne), ih h]
  cases message with
  | obj own => rw [setField, fieldsOf, fields own h]
  | _ => cases h

variable {value : Option Json}

theorem eq_of_textOf {text : String} (h : textOf value = some text) : value = some (.str text) := by
  cases value with
  | none => cases h
  | some value => cases value <;> cases h; rfl

theorem lookup_of_nonEmptyText {id : String} (h : nonEmptyText value = some id) :
    value = some (.str id) := eq_of_textOf (filter_eq_some_iff.mp h).1

variable {block : Json}

theorem lookup_of_blockId {id : String} (h : blockId block = some id) :
    (fieldsOf block).lookup "id" = some (.str id) := by
  obtain ⟨call, hcall, rfl⟩ := map_eq_some_iff.mp h
  rw [toolCallOf] at hcall
  split at hcall
  next id htext =>
    split at hcall
    next =>
      obtain rfl := some.inj hcall
      exact eq_of_textOf htext
    next => cases hcall
  next => cases hcall

variable {blocks : List Json}

theorem rewriteBlocks_eq
    (hs : s.Sound env.mode) (hr : retriesSuffice env s (blocks.filterMap blockId) = true)
    (hf : Agrees f (resolveAll env s (blocks.filterMap blockId))) :
    (rewriteBlocks env s blocks).1 = blocks.map (renameBlock f) ∧
      (rewriteBlocks env s blocks).2.2 = resolveAll env s (blocks.filterMap blockId) ∧
      ((rewriteBlocks env s blocks).2.1 = false → blocks.map (renameBlock f) = blocks) := by
  induction blocks generalizing s with
  | nil => exact ⟨rfl, rfl, fun _ => rfl⟩
  | cons block blocks ih =>
    cases hid : blockId block with
    | none =>
      rw [filterMap_cons_none hid] at hr hf ⊢
      obtain ⟨hblocks, htable, hsame⟩ := ih hs hr hf
      have hkept : renameBlock f block = block := by simp only [renameBlock, hid]
      rw [map_cons, hkept]
      simp only [rewriteBlocks, hid]
      exact ⟨by rw [hblocks], htable, fun h => by rw [hsame h]⟩
    | some id =>
      rw [filterMap_cons_some hid] at hr hf ⊢
      rw [retriesSuffice, and_eq_true] at hr
      obtain ⟨hs', -, hget⟩ := resolve_spec hs hr.1
      obtain ⟨hblocks, htable, hsame⟩ := ih hs' hr.2 hf
      -- the id given out now is still the one in the last table
      have hlast := (resolveAll_sound hs' hr.2).2.1 _ _ hget
      have hrename : renameBlock f block = setField block "id" (.str (resolve env s id).1) := by
        simp only [renameBlock, hid, hf id _ hlast]
      rw [map_cons, hrename]
      simp only [rewriteBlocks, hid]
      split
      next heq =>
        rw [heq, setField_self (lookup_of_blockId hid)]
        exact ⟨by rw [hblocks], htable, fun h => by rw [hsame h]⟩
      next => exact ⟨by rw [hblocks], htable, fun h => nomatch h⟩

theorem rewriteAssistantToolCallIds_eq {message : AgentMessage} (hassistant : isAssistant message = true)
    (hs : s.Sound env.mode) (hr : retriesSuffice env s (messageIds message) = true)
    (hf : Agrees f (resolveAll env s (messageIds message))) :
    (rewriteAssistantToolCallIds env s message).1 = renameIds f message ∧
      (rewriteAssistantToolCallIds env s message).2.2 = resolveAll env s (messageIds message) ∧
      ((rewriteAssistantToolCallIds env s message).2.1 = false → renameIds f message = message) := by
  rw [messageIds, if_pos hassistant] at hr hf ⊢
  rw [renameIds, if_pos hassistant, rewriteAssistantToolCallIds]
  split
  next blocks hcontent =>
    simp only [hcontent] at hr hf ⊢
    obtain ⟨hblocks, htable, hsame⟩ := rewriteBlocks_eq hs hr hf
    split
    next => exact ⟨by rw [hblocks], htable, fun h => nomatch h⟩
    next hchanged =>
      have hkept := hsame (by simpa using hchanged)
      rw [hkept, setField_self hcontent]
      exact ⟨rfl, htable, fun _ => rfl⟩
  next => exact ⟨rfl, rfl, fun _ => rfl⟩

theorem resolveField_eq {message : AgentMessage} (hs : s.Sound env.mode)
    (hr : retriesSuffice env s (nonEmptyText ((fieldsOf message).lookup key)).toList = true)
    (hf : Agrees f (resolveAll env s (nonEmptyText ((fieldsOf message).lookup key)).toList)) :
    (resolveField env s message key).1 = (nonEmptyText ((fieldsOf message).lookup key)).map f ∧
      (resolveField env s message key).2 =
        resolveAll env s (nonEmptyText ((fieldsOf message).lookup key)).toList ∧
      ∀ id, (resolveField env s message key).1 = some id → id ≠ "" := by
  rw [resolveField]
  cases hid : nonEmptyText ((fieldsOf message).lookup key) with
  | none => exact ⟨rfl, rfl, fun id h => nomatch h⟩
  | some id =>
    rw [hid] at hr hf
    simp only [toList_some, retriesSuffice, Bool.and_true] at hr
    obtain ⟨hs', -, hget⟩ := resolve_spec hs hr
    refine ⟨?_, rfl, fun next hnext => ?_⟩
    · exact congrArg some (hf id _ hget).symm
    · obtain rfl := some.inj hnext
      exact (hs'.accepted id _ hget).ne_empty

theorem spreadField_eq {message message' : AgentMessage}
    {next : Option String} (hkey : (fieldsOf message').lookup key = (fieldsOf message).lookup key)
    (hnext : next = (nonEmptyText ((fieldsOf message).lookup key)).map f)
    (hne : ∀ id, next = some id → id ≠ "") : spreadField message' key next = renameField f message' key := by
  rw [renameField, hkey]
  cases hid : nonEmptyText ((fieldsOf message).lookup key) with
  | none =>
    rw [hid] at hnext
    rw [hnext]
    rfl
  | some id =>
    rw [hid] at hnext
    rw [hnext]
    exact if_neg (hne (f id) hnext)

theorem renameField_self {message : AgentMessage}
    (h : (nonEmptyText ((fieldsOf message).lookup key)).map f = nonEmptyText ((fieldsOf message).lookup key)) :
    renameField f message key = message := by
  rw [renameField]
  cases hid : nonEmptyText ((fieldsOf message).lookup key) with
  | none => rfl
  | some id =>
    rw [hid] at h
    have heq : f id = id := some.inj h
    simp only [heq]
    exact setField_self (lookup_of_nonEmptyText hid)

theorem lookup_renameField {message : AgentMessage} {key other : String} (h : other ≠ key) :
    (fieldsOf (renameField f message key)).lookup other = (fieldsOf message).lookup other := by
  rw [renameField]
  split
  next => rw [lookup_setField, if_neg h]
  next => rfl

theorem rewriteToolResultIds_eq {message : AgentMessage}
    (hs : s.Sound env.mode)
    (hr : retriesSuffice env s ((nonEmptyText ((fieldsOf message).lookup "toolCallId")).toList ++
      (nonEmptyText ((fieldsOf message).lookup "toolUseId")).toList) = true)
    (hf : Agrees f (resolveAll env s ((nonEmptyText ((fieldsOf message).lookup "toolCallId")).toList ++
      (nonEmptyText ((fieldsOf message).lookup "toolUseId")).toList))) :
    (rewriteToolResultIds env s message).1 =
        renameField f (renameField f message "toolCallId") "toolUseId" ∧
      (rewriteToolResultIds env s message).2.2 =
        resolveAll env s ((nonEmptyText ((fieldsOf message).lookup "toolCallId")).toList ++
          (nonEmptyText ((fieldsOf message).lookup "toolUseId")).toList) ∧
      ((rewriteToolResultIds env s message).2.1 = false →
        renameField f (renameField f message "toolCallId") "toolUseId" = message) := by
  rw [retriesSuffice_append, and_eq_true] at hr
  rw [resolveAll_append] at hf ⊢
  obtain ⟨hs₁, -, -⟩ := resolveAll_sound hs hr.1
  have hf₁ := hf.of_grows (resolveAll_sound hs₁ hr.2).2.1
  obtain ⟨hcall, htable₁, hne₁⟩ := resolveField_eq hs hr.1 hf₁
  rw [← htable₁] at hs₁ hr hf ⊢
  obtain ⟨huse, htable₂, hne₂⟩ := resolveField_eq hs₁ hr.2 hf
  have hother : (fieldsOf (renameField f message "toolCallId")).lookup "toolUseId" =
      (fieldsOf message).lookup "toolUseId" := lookup_renameField (by decide)
  rw [rewriteToolResultIds]
  split
  next hboth =>
    have hfirst : renameField f message "toolCallId" = message :=
      renameField_self (hcall.symm.trans hboth.1)
    have hsecond : renameField f message "toolUseId" = message :=
      renameField_self (huse.symm.trans hboth.2)
    rw [hfirst, hsecond]
    exact ⟨rfl, htable₂, fun _ => rfl⟩
  next =>
    rw [spreadField_eq rfl hcall hne₁, spreadField_eq hother huse hne₂]
    exact ⟨rfl, htable₂, fun h => nomatch h⟩

theorem rewriteMessage_eq {message : AgentMessage}
    (hs : s.Sound env.mode) (hr : retriesSuffice env s (messageIds message) = true)
    (hf : Agrees f (resolveAll env s (messageIds message))) :
    (rewriteMessage env s message).1 = renameIds f message ∧
      (rewriteMessage env s message).2.2 = resolveAll env s (messageIds message) ∧
      ((rewriteMessage env s message).2.1 = false → renameIds f message = message) := by
  rw [rewriteMessage]
  by_cases hassistant : isAssistant message = true
  · rw [if_pos hassistant]
    exact rewriteAssistantToolCallIds_eq hassistant hs hr hf
  rw [if_neg hassistant]
  rw [messageIds, if_neg hassistant] at hr hf ⊢
  rw [renameIds, if_neg hassistant]
  by_cases hresult : isToolResult message = true
  · rw [if_pos hresult] at hr hf ⊢
    rw [if_pos hresult, if_pos hresult]
    exact rewriteToolResultIds_eq hs hr hf
  · rw [if_neg hresult, if_neg hresult, if_neg hresult]
    exact ⟨rfl, rfl, fun _ => rfl⟩

variable {messages : List AgentMessage}

theorem rewriteMessages_eq
    (hs : s.Sound env.mode) (hr : retriesSuffice env s (transcriptIds messages) = true)
    (hf : Agrees f (resolveAll env s (transcriptIds messages))) :
    (rewriteMessages env s messages).1 = messages.map (renameIds f) ∧
      ((rewriteMessages env s messages).2.1 = false → messages.map (renameIds f) = messages) := by
  induction messages generalizing s with
  | nil => exact ⟨rfl, fun _ => rfl⟩
  | cons message messages ih =>
    rw [transcriptIds, flatMap_cons, ← transcriptIds] at hr hf
    rw [retriesSuffice_append, and_eq_true] at hr
    rw [resolveAll_append] at hf
    obtain ⟨hs', -, -⟩ := resolveAll_sound hs hr.1
    obtain ⟨hmessage, htable, hsame⟩ :=
      rewriteMessage_eq hs hr.1 (hf.of_grows (resolveAll_sound hs' hr.2).2.1)
    obtain ⟨hmessages, hsames⟩ := ih hs' hr.2 hf
    rw [rewriteMessages, map_cons]
    simp only [hmessage, htable, hmessages, or_eq_false_iff]
    refine ⟨trivial, fun h => ?_⟩
    rw [hsame h.1, hsames h.2]

/-! ### The whole transcript -/

/-- The renaming that a table says; other ids are left as they are. -/
def replacementOf (s : Resolver) (id : String) : String := (s.map.get? id).getD id

theorem agrees_replacementOf (s : Resolver) : Agrees (replacementOf s) s := by
  intro id next hnext
  rw [replacementOf, hnext, getD_some]

/-- The result is the transcript renamed, by any renaming that agrees with the last table. -/
theorem sanitize_eq (hr : retriesSuffice env .empty (transcriptIds messages) = true)
    (hf : Agrees f (resolveAll env .empty (transcriptIds messages))) :
    sanitizeToolCallIdsForCloudCodeAssist env messages = messages.map (renameIds f) := by
  obtain ⟨hmessages, hsame⟩ := rewriteMessages_eq (Resolver.sound_empty env.mode) hr hf
  rw [sanitizeToolCallIdsForCloudCodeAssist]
  split
  next => exact hmessages
  next hchanged => exact (hsame (by simpa using hchanged)).symm

/-- Renaming looks at no property but the content and the two ids. -/
theorem lookup_renameIds (f : String → String) (message : AgentMessage)
    (hcontent : key ≠ "content") (hcall : key ≠ "toolCallId") (huse : key ≠ "toolUseId") :
    (fieldsOf (renameIds f message)).lookup key = (fieldsOf message).lookup key := by
  rw [renameIds]
  split
  · split
    · rw [lookup_setField, if_neg hcontent]
    · rfl
  split
  · rw [lookup_renameField huse, lookup_renameField hcall]
  · rfl

theorem content_renameIds_assistant (f : String → String) {message : AgentMessage}
    (h : isAssistant message = true) (hcontent : (fieldsOf message).lookup "content" = some (.arr blocks)) :
    (fieldsOf (renameIds f message)).lookup "content" = some (.arr (blocks.map (renameBlock f))) := by
  rw [renameIds, if_pos h]
  simp only [hcontent]
  rw [lookup_setField, if_pos rfl]

theorem lookup_renameBlock (f : String → String) (block : Json) (h : key ≠ "id") :
    (fieldsOf (renameBlock f block)).lookup key = (fieldsOf block).lookup key := by
  rw [renameBlock]
  split
  · rw [lookup_setField, if_neg h]
  · rfl

theorem roleOf_renameIds (f : String → String) (message : AgentMessage) :
    roleOf (renameIds f message) = roleOf message := by
  rw [roleOf, roleOf, lookup_renameIds f message (by decide) (by decide) (by decide)]

/-- The id of a renamed block is the renamed id of the block. -/
theorem blockId_renameBlock
    (hne : ∀ id, blockId block = some id → f id ≠ "") :
    blockId (renameBlock f block) = (blockId block).map f := by
  have htype : hasToolCallType (renameBlock f block) = hasToolCallType block := by
    rw [hasToolCallType, hasToolCallType, lookup_renameBlock f block (by decide)]
  cases hid : blockId block with
  | none =>
    have hkept : renameBlock f block = block := by simp only [renameBlock, hid]
    rw [hkept, hid]
    rfl
  | some id =>
    have hcall : hasToolCallType block = true := by
      obtain ⟨call, hcall, -⟩ := map_eq_some_iff.mp hid
      rw [toolCallOf] at hcall
      split at hcall
      next =>
        split at hcall
        next hboth => exact hboth.2
        next => cases hcall
      next => cases hcall
    have hnew : (fieldsOf (renameBlock f block)).lookup "id" = some (.str (f id)) := by
      simp only [renameBlock, hid]
      rw [lookup_setField, if_pos rfl]
    rw [blockId, toolCallOf, hnew]
    simp only [textOf]
    rw [if_pos ⟨hne id hid, htype.trans hcall⟩]
    rfl

theorem nonEmptyText_renameField {message : AgentMessage}
    (hne : ∀ id, nonEmptyText ((fieldsOf message).lookup key) = some id → f id ≠ "") :
    nonEmptyText ((fieldsOf (renameField f message key)).lookup key) =
      (nonEmptyText ((fieldsOf message).lookup key)).map f := by
  rw [renameField]
  cases hid : nonEmptyText ((fieldsOf message).lookup key) with
  | none => exact hid
  | some id =>
    simp only [lookup_setField, if_true]
    simp [nonEmptyText, textOf, Option.filter, hne id hid]

/-- The ids of a renamed message are its ids, renamed. -/
theorem messageIds_renameIds {message : AgentMessage}
    (hne : ∀ id ∈ messageIds message, f id ≠ "") :
    messageIds (renameIds f message) = (messageIds message).map f := by
  have hrole := roleOf_renameIds f message
  rw [messageIds, isAssistant, isToolResult, hrole, ← isAssistant, ← isToolResult]
  rw [messageIds] at hne ⊢
  by_cases hassistant : isAssistant message = true
  · rw [if_pos hassistant] at hne ⊢
    rw [if_pos hassistant]
    cases hcontent : (fieldsOf message).lookup "content" with
    | none =>
      have hkept : renameIds f message = message := by rw [renameIds, if_pos hassistant]; simp only [hcontent]
      rw [hkept, hcontent]
      rfl
    | some content =>
      cases content with
      | arr blocks =>
        rw [content_renameIds_assistant f hassistant hcontent]
        simp only [hcontent] at hne ⊢
        rw [filterMap_map, map_filterMap]
        refine filterMap_congr fun block hblock => blockId_renameBlock fun id hid => ?_
        exact hne id (mem_filterMap.mpr ⟨block, hblock, hid⟩)
      | _ =>
        have hkept : renameIds f message = message := by rw [renameIds, if_pos hassistant]; simp only [hcontent]
        rw [hkept, hcontent]
        rfl
  rw [if_neg hassistant] at hne ⊢
  rw [if_neg hassistant]
  by_cases hresult : isToolResult message = true
  · rw [if_pos hresult] at hne ⊢
    have hother : (fieldsOf (renameField f message "toolCallId")).lookup "toolUseId" =
        (fieldsOf message).lookup "toolUseId" := lookup_renameField (by decide)
    have hrenamed : renameIds f message = renameField f (renameField f message "toolCallId") "toolUseId" := by
      rw [renameIds, if_neg hassistant, if_pos hresult]
    have hcall : nonEmptyText ((fieldsOf (renameIds f message)).lookup "toolCallId") =
        (nonEmptyText ((fieldsOf message).lookup "toolCallId")).map f := by
      rw [hrenamed, lookup_renameField (by decide)]
      refine nonEmptyText_renameField fun id hid => hne id ?_
      simp [hid]
    have huse : nonEmptyText ((fieldsOf (renameIds f message)).lookup "toolUseId") =
        (nonEmptyText ((fieldsOf message).lookup "toolUseId")).map f := by
      rw [hrenamed, ← hother]
      refine nonEmptyText_renameField fun id hid => hne id ?_
      rw [hother] at hid
      simp [hid]
    rw [if_pos hresult, hcall, huse, map_append]
    cases nonEmptyText ((fieldsOf message).lookup "toolCallId") <;>
      cases nonEmptyText ((fieldsOf message).lookup "toolUseId") <;> rfl
  · rw [if_neg hresult, if_neg hresult]
    rfl

/-- Unless an id comes to the end of its retries, the transcript is renamed by one function that is
injective on its ids and whose values are accepted. Nothing else changes, and at whatever time a beginning
of the transcript is rewritten, the result is the beginning of the result. -/
theorem sanitizeToolCallIdsForCloudCodeAssist_renames (env : Env) (messages : List AgentMessage)
    (hr : retriesSuffice env .empty (transcriptIds messages) = true) :
    ∃ f : String → String,
      sanitizeToolCallIdsForCloudCodeAssist env messages = messages.map (renameIds f) ∧
      transcriptIds (sanitizeToolCallIdsForCloudCodeAssist env messages) =
        (transcriptIds messages).map f ∧
      (∀ a ∈ transcriptIds messages, ∀ b ∈ transcriptIds messages, f a = f b → a = b) ∧
      (∀ id ∈ transcriptIds messages, isValidCloudCodeAssistToolId (f id) env.mode = true ∧
        (env.mode = .strict → (f id).length ≤ MAX_LEN)) ∧
      (∀ message key, key ≠ "content" → key ≠ "toolCallId" → key ≠ "toolUseId" →
        (fieldsOf (renameIds f message)).lookup key = (fieldsOf message).lookup key) ∧
      (∀ block key, key ≠ "id" →
        (fieldsOf (renameBlock f block)).lookup key = (fieldsOf block).lookup key) ∧
      ∀ k now, sanitizeToolCallIdsForCloudCodeAssist { env with now := now } (messages.take k) =
        (sanitizeToolCallIdsForCloudCodeAssist env messages).take k := by
  obtain ⟨hsound, -, hall⟩ := resolveAll_sound (Resolver.sound_empty env.mode) hr
  set last := resolveAll env .empty (transcriptIds messages) with hlast
  have hf : Agrees (replacementOf last) last := agrees_replacementOf last
  have haccepted : ∀ id ∈ transcriptIds messages, Accepted env.mode (replacementOf last id) := by
    intro id hid
    obtain ⟨next, hnext⟩ := hall id hid
    rw [hf id next hnext]
    exact hsound.accepted id next hnext
  have hmap : sanitizeToolCallIdsForCloudCodeAssist env messages =
      messages.map (renameIds (replacementOf last)) := sanitize_eq hr hf
  refine ⟨replacementOf last, hmap, ?_, fun a ha b hb hab => ?_,
    fun id hid => ⟨(haccepted id hid).valid, (haccepted id hid).short⟩,
    fun message key => lookup_renameIds _ message, fun block key => lookup_renameBlock _ block,
    fun k now => ?_⟩
  · rw [hmap, transcriptIds, flatMap_map, transcriptIds, map_flatMap]
    refine flatMap_congr fun message hmessage => messageIds_renameIds fun id hid => ?_
    exact (haccepted id (mem_flatMap.mpr ⟨message, hmessage, hid⟩)).ne_empty
  · obtain ⟨next, hnext⟩ := hall a ha
    obtain ⟨next', hnext'⟩ := hall b hb
    rw [hf a next hnext, hf b next' hnext'] at hab
    exact hsound.injective a b next hnext (hab ▸ hnext')
  · -- the ids of a beginning come first, so its table agrees with the last one
    have hids : transcriptIds messages =
        transcriptIds (messages.take k) ++ transcriptIds (messages.drop k) := by
      rw [transcriptIds, transcriptIds, transcriptIds, ← flatMap_append, take_append_drop]
    rw [hids, retriesSuffice_append, and_eq_true] at hr
    rw [hids, resolveAll_append] at hlast
    have hbegin := resolveAll_sound (Resolver.sound_empty env.mode) hr.1
    have hgrows := (resolveAll_sound hbegin.1 hr.2).2.1
    rw [← hlast] at hgrows
    obtain ⟨htable, hsuffice⟩ := resolveAll_now now hr.1
    rw [hmap, ← map_take]
    refine sanitize_eq hsuffice ?_
    rw [htable]
    exact hf.of_grows hgrows

/-- A hash that gives every text the same digits. -/
def constantDigest : Digest where
  hex _ := List.replicate 64 'a'
  alphanumeric _ := by decide
  length _ := by decide

/-- Two calls whose ids have the same letters, and their results. -/
def collidingTranscript : List AgentMessage :=
  [.obj [("role", .str "assistant"),
      ("content", .arr [.obj [("type", .str "toolCall"), ("id", .str "a|b")],
        .obj [("type", .str "toolCall"), ("id", .str "a:b")]])],
    .obj [("role", .str "toolResult"), ("toolCallId", .str "a:b")],
    .obj [("role", .str "toolResult"), ("toolCallId", .str "a|b"), ("toolUseId", .str "a|b")]]

/-- The two calls get different ids, and each result that of its call. -/
theorem collidingTranscript_renamed :
    ∃ f : String → String,
      sanitizeToolCallIdsForCloudCodeAssist ⟨.strict, constantDigest, fun _ => 0⟩ collidingTranscript =
        collidingTranscript.map (renameIds f) ∧ f "a|b" ≠ f "a:b" := by
  obtain ⟨f, hmap, -, hinj, -⟩ := sanitizeToolCallIdsForCloudCodeAssist_renames
    ⟨.strict, constantDigest, fun _ => 0⟩ collidingTranscript (by decide +kernel)
  refine ⟨f, hmap, fun h => absurd (hinj "a|b" ?_ "a:b" ?_ h) (by decide)⟩ <;> decide +kernel

end Foxclaw.Agents.ToolCallIds
