import Foxclaw.Lib.Lines
import Foxclaw.Routing.SessionKey

/-!
# The session keys of conversations

This module adds `resolveThreadSessionKeys` of `routing/session-key.ts` and `parseAgentSessionKey` of
`sessions/session-key-utils.ts`, and asks which conversations share a session key when direct chats
are kept apart by account, channel and peer.

## The model

`toLowerCase` lowers one letter after the other, and what becomes of a letter may depend on those
around it; a letter of ASCII is lowered by itself (`LetterCase`).

## What is proved

* `sessionKey_spelling` — what the key of a conversation is made of.
* `sessionKey_separates_iff` — which conversations have one key, and that the agent's id is read from
  every key.
-/

namespace Foxclaw.Routing

open List Option
open Foxclaw.Text (trimString isSpace)

/-! ### Lowering letters -/

/-- How `toLowerCase` lowers each letter. -/
structure LetterCase where
  /-- What becomes of a letter between others. -/
  lowerAt : List Char → Char → List Char → List Char
  /-- A letter of ASCII is lowered by itself. -/
  ascii : ∀ before c after, c.toNat < 128 → lowerAt before c after = [c.toLower]

namespace LetterCase

/-- `LetterCase` that lowers only the letters of ASCII. -/
def asciiOnly : LetterCase where
  lowerAt _ c _ := [c.toLower]
  ascii := fun _ _ _ _ => rfl

variable (letters : LetterCase)

/-- The letters of a text that follows `before`, lowered. -/
def lower : List Char → List Char → List Char
  | _, [] => []
  | before, c :: after => letters.lowerAt before c after ++ lower (before ++ [c]) after

/-- A part of ASCII characters is lowered by itself. -/
theorem lower_ascii_append {cs : List Char} (h : ∀ c ∈ cs, c.toNat < 128) (before after : List Char) :
    letters.lower before (cs ++ after) = cs.map Char.toLower ++ letters.lower (before ++ cs) after := by
  induction cs generalizing before with
  | nil => rw [append_nil]; rfl
  | cons c cs ih =>
    obtain ⟨hc, hcs⟩ := forall_mem_cons.mp h
    rw [cons_append, lower, letters.ascii _ _ _ hc, ih hcs, append_assoc, singleton_append]
    rfl

/-- A text is lowered part by part. -/
theorem exists_lower_append (before cs after : List Char) :
    ∃ lowered, letters.lower before (cs ++ after) = lowered ++ letters.lower (before ++ cs) after := by
  induction cs generalizing before with
  | nil => exact ⟨[], by rw [append_nil]; rfl⟩
  | cons c cs ih =>
    obtain ⟨lowered, hlowered⟩ := ih (before ++ [c])
    refine ⟨letters.lowerAt before c (cs ++ after) ++ lowered, ?_⟩
    rw [cons_append, lower, hlowered, append_assoc, append_assoc, singleton_append]

/-- `toLowerCase`. -/
def toCaseMap : CaseMap where
  toLowerCase s := String.ofList (letters.lower [] s.toList)
  ascii s hs := by
    have h := letters.lower_ascii_append hs [] []
    rw [append_nil, nil_append, lower, append_nil] at h
    rw [h]

end LetterCase

/-! ### Threads, and reading a key -/

/-- The result of `resolveThreadSessionKeys`. -/
structure ThreadSessionKeys where
  sessionKey : String
  parentSessionKey : Option String
  deriving DecidableEq

def resolveThreadSessionKeys (baseSessionKey : String) (threadId parentSessionKey : Option String)
    (useSuffix : Bool) (normalizeThreadId : String → String) : ThreadSessionKeys :=
  let threadId := trimString (threadId.getD "")
  if threadId = "" then { sessionKey := baseSessionKey, parentSessionKey := none }
  else
    let normalizedThreadId := normalizeThreadId threadId
    let sessionKey := if useSuffix then baseSessionKey ++ ":thread:" ++ normalizedThreadId else baseSessionKey
    { sessionKey, parentSessionKey }

structure ParsedAgentSessionKey where
  agentId : String
  rest : String
  deriving DecidableEq

def parseAgentSessionKey (cases : CaseMap) (sessionKey : Option String) : Option ParsedAgentSessionKey :=
  let raw := (cases.toLowerCase (trimString (sessionKey.getD ""))).toList
  if raw = [] then none
  else
    match (Lines.splitLines ':' raw).filter (· ≠ []) with
    | head :: agent :: part :: parts =>
      if head ≠ "agent".toList then none
      else
        let agentId := Text.trim agent
        let rest := [':'].intercalate (part :: parts)
        if agentId = [] ∨ rest = [] then none
        else some { agentId := String.ofList agentId, rest := String.ofList rest }
    | _ => none

/-! ### Conversations -/

/-- A conversation, as a message tells it. -/
structure Conversation where
  agentId : String
  channel : String
  accountId : String
  peerKind : ChatType
  peerId : String
  threadId : Option String

/-- What a conversation is told apart by. -/
structure Components where
  kind : ChatType
  agent : String
  channel : String
  account : Option String
  peer : String
  thread : Option String
  deriving DecidableEq

section
variable (cases : CaseMap)

/-- The session key of a conversation. -/
def sessionKey (mainKey : String) (c : Conversation) : String :=
  (resolveThreadSessionKeys (buildAgentPeerSessionKey cases c.agentId mainKey c.channel c.accountId c.peerKind
    (some c.peerId) none .perAccountChannelPeer) c.threadId none true cases.toLowerCase).sessionKey

/-- The components of a conversation, trimmed and lowered. -/
def Conversation.components (c : Conversation) : Components where
  kind := c.peerKind
  agent := normalizeAgentId cases c.agentId
  channel := normalizeToken cases (some c.channel)
  account := if c.peerKind = .direct then some (normalizeAccountId cases (some c.accountId)) else none
  peer := normalizeToken cases (some c.peerId)
  thread := c.threadId.map fun threadId => normalizeToken cases (some threadId)

/-- The channel has a name without colons, and the ids are not empty. -/
structure Conversation.Named (c : Conversation) : Prop where
  channel : ':' ∉ (normalizeToken cases (some c.channel)).toList
  peer : normalizeToken cases (some c.peerId) ≠ ""
  thread : ∀ threadId, c.threadId = some threadId → normalizeToken cases (some threadId) ≠ ""

/-- The peer with the thread, as they stand at the end of the key. -/
def Components.tail (c : Components) : String :=
  match c.thread with
  | none => c.peer
  | some thread => c.peer ++ ":thread:" ++ thread

/-- What stands after the channel in the key: an account or the kind of a room, and the rest. -/
def Components.address (c : Components) : String × String :=
  match c.account with
  | some account => (account, "direct:" ++ c.tail)
  | none => (c.kind.text, c.tail)

/-- What stands for the channel in the key. -/
def Components.channelKey (c : Components) : String := orElse c.channel "unknown"

/-- The key of conversations with the components. -/
def Components.key (c : Components) : String :=
  "agent:" ++ (c.agent ++ ":" ++ (c.channelKey ++ ":" ++ (c.address.1 ++ ":" ++ c.address.2)))

/-- Both conversations are of one agent and one channel (an empty name counts as `unknown`), and: both
are direct chats of one account, or of one kind of rooms, and the peers, with the threads after
`:thread:`, read the same; or one is a direct chat of an account that is called like the kind of the
other, and the other's peer begins with `direct:` and goes on as the peer of the one. -/
def Confusable (c c' : Components) : Prop :=
  c.agent = c'.agent ∧ c.channelKey = c'.channelKey ∧
    match c.account, c'.account with
    | some account, some account' => account = account' ∧ c.tail = c'.tail
    | none, none => c.kind = c'.kind ∧ c.tail = c'.tail
    | some account, none => account = c'.kind.text ∧ "direct:" ++ c.tail = c'.tail
    | none, some account' => c.kind.text = account' ∧ c.tail = "direct:" ++ c'.tail

/-! ### Ids -/

theorem isIdChar_toLower {c : Char} (h : isValidIdChar c = true) : isIdChar c.toLower = true := by
  have hall : ∀ n < 128, isValidIdChar (Char.ofNat n) = true → isIdChar (Char.ofNat n).toLower = true := by
    decide +kernel
  have hc := hall c.toNat (toNat_lt_of_isValidIdChar h)
  rw [Char.ofNat_toNat] at hc
  exact hc h

theorem isIdChar_canonicalizeAccountId (value : String) :
    ∀ c ∈ (canonicalizeAccountId cases value).toList, isIdChar c = true := by
  rw [canonicalizeAccountId]
  split_ifs with hvalid
  · have hchars := isValidIdChar_of_validIdRe hvalid
    rw [cases.ascii value fun c hc => toNat_lt_of_isValidIdChar (hchars c hc), String.toList_ofList]
    intro c hc
    obtain ⟨d, hd, rfl⟩ := List.mem_map.mp hc
    exact isIdChar_toLower (hchars d hd)
  · rw [String.toList_ofList]
    intro c hc
    exact replaceInvalidChars_isIdChar _ _ c ((dropWhile_sublist _).subset
      (( rdropWhile_prefix _ _).subset (mem_of_mem_take hc)))

/-- An account id is made of the characters of ids. -/
theorem isIdChar_normalizeAccountId (value : Option String) :
    ∀ c ∈ (normalizeAccountId cases value).toList, isIdChar c = true := by
  have hdefault : ∀ c ∈ DEFAULT_ACCOUNT_ID.toList, isIdChar c = true :=
    List.all_eq_true.mp (by decide +kernel)
  unfold normalizeAccountId
  dsimp only
  split
  · exact hdefault
  · split
    · exact hdefault
    · exact isIdChar_canonicalizeAccountId cases _

/-- So is an agent id. -/
theorem isIdChar_normalizeAgentId (value : String) :
    ∀ c ∈ (normalizeAgentId cases value).toList, isIdChar c = true := by
  have hdefault : ∀ c ∈ DEFAULT_AGENT_ID.toList, isIdChar c = true :=
    List.all_eq_true.mp (by decide +kernel)
  rw [normalizeAgentId]
  split_ifs
  · exact hdefault
  · rw [orElse]
    split_ifs
    · exact hdefault
    · exact isIdChar_canonicalizeAccountId cases _

theorem normalizeAgentId_ne_empty (value : String) : normalizeAgentId cases value ≠ "" := by
  rw [normalizeAgentId]
  split_ifs
  · decide
  · rw [orElse]
    split_ifs with hempty
    · decide
    · exact hempty

theorem colon_notMem_of_isIdChar {cs : List Char} (h : ∀ c ∈ cs, isIdChar c = true) : ':' ∉ cs :=
  fun hmem => absurd (h _ hmem) (by decide)

/-! ### The key -/

theorem toLowerCase_empty : cases.toLowerCase "" = "" := cases.ascii "" (List.forall_mem_nil _)

theorem trimString_ne_empty {id : String} (h : normalizeToken cases (some id) ≠ "") : trimString id ≠ "" := by
  intro hblank
  refine h ?_
  show cases.toLowerCase (trimString id) = ""
  rw [hblank, toLowerCase_empty]

/-- A thread stands at the end of the key. -/
theorem key_thread (c : Components) (thread : String) :
    ({ c with thread := some thread } : Components).key =
      ({ c with thread := none } : Components).key ++ ":thread:" ++ thread := by
  cases haccount : c.account with
  | none => simp [Components.key, Components.address, Components.tail, Components.channelKey,
      String.append_assoc]
  | some account => simp [Components.key, Components.address, Components.tail, Components.channelKey,
      String.append_assoc]

variable {c : Conversation}

/-- The key of a conversation that is not in a thread. -/
theorem buildAgentPeerSessionKey_eq (mainKey : String) (h : c.Named cases) :
    buildAgentPeerSessionKey cases c.agentId mainKey c.channel c.accountId c.peerKind (some c.peerId) none
      .perAccountChannelPeer = ({ c.components cases with thread := none } : Components).key := by
  have hpeer : cases.toLowerCase (trimString c.peerId) = normalizeToken cases (some c.peerId) := rfl
  have htrim := trimString_ne_empty cases h.peer
  rw [buildAgentPeerSessionKey]
  cases hkind : c.peerKind with
  | direct =>
    have hdirect : DmScope.perAccountChannelPeer ≠ .main := by decide
    simp only [↓reduceIte, hdirect, resolveLinkedPeerId, getD_some, getD_none, hpeer, ne_eq, h.peer,
      not_false_eq_true, and_self, Components.key, Conversation.components, Components.channelKey,
      Components.address, Components.tail, hkind, String.append_assoc]
    rfl
  | group =>
    have hroom : ChatType.group ≠ .direct := by decide
    simp only [if_neg hroom, getD_some, orElse, htrim, ↓reduceIte, hpeer, Components.key,
      Conversation.components, Components.channelKey, Components.address, Components.tail, hkind,
      String.append_assoc]
  | channel =>
    have hroom : ChatType.channel ≠ .direct := by decide
    simp only [if_neg hroom, getD_some, orElse, htrim, ↓reduceIte, hpeer, Components.key,
      Conversation.components, Components.channelKey, Components.address, Components.tail, hkind,
      String.append_assoc]

/-- What the key of a conversation is made of. -/
theorem sessionKey_spelling (mainKey : String) (h : c.Named cases) :
    sessionKey cases mainKey c = (c.components cases).key := by
  have hblank : trimString "" = "" := by decide
  rw [sessionKey, buildAgentPeerSessionKey_eq cases mainKey h, resolveThreadSessionKeys]
  cases hthread : c.threadId with
  | none =>
    have hcomponents : ({ c.components cases with thread := none } : Components) = c.components cases := by
      rw [Conversation.components, hthread]
      rfl
    rw [getD_none, hcomponents]
    dsimp only
    rw [if_pos hblank]
  | some threadId =>
    have hcomponents : c.components cases =
        { c.components cases with thread := some (normalizeToken cases (some threadId)) } := by
      rw [Conversation.components, hthread]
      rfl
    rw [hcomponents, key_thread, getD_some]
    dsimp only
    rw [if_neg (trimString_ne_empty cases (h.thread threadId hthread)), if_pos rfl]
    rfl

/-! ### Keys that are one -/

/-- A text is cut at its first colon in one way. -/
theorem colon_inj {a b x y : String} (ha : ':' ∉ a.toList) (hb : ':' ∉ b.toList) :
    a ++ ":" ++ x = b ++ ":" ++ y ↔ a = b ∧ x = y := by
  constructor
  · intro h
    have hlist := congrArg String.toList h
    simp only [String.toList_append] at hlist
    have hcolon : ":".toList = [':'] := by decide
    rw [hcolon, append_assoc, append_assoc, singleton_append, singleton_append] at hlist
    obtain ⟨hab, hxy⟩ := Text.append_cons_inj ha hb hlist
    exact ⟨String.toList_inj.mp hab, String.toList_inj.mp hxy⟩
  · rintro ⟨rfl, rfl⟩
    rfl

/-- What the key is cut at has no colon. -/
structure Components.Cut (c : Components) : Prop where
  agent : ':' ∉ c.agent.toList
  channelKey : ':' ∉ c.channelKey.toList
  first : ':' ∉ c.address.1.toList

theorem cut_components (h : c.Named cases) : (c.components cases).Cut where
  agent := colon_notMem_of_isIdChar (isIdChar_normalizeAgentId cases c.agentId)
  channelKey := by
    rw [Components.channelKey, orElse]
    split_ifs
    · decide
    · exact h.channel
  first := by
    have hgroup : ':' ∉ ChatType.group.text.toList := by decide
    have hchannel : ':' ∉ ChatType.channel.text.toList := by decide
    rw [Components.address, Conversation.components]
    cases c.peerKind with
    | direct => exact colon_notMem_of_isIdChar (isIdChar_normalizeAccountId cases _)
    | group => exact hgroup
    | channel => exact hchannel

theorem key_inj_iff {d d' : Components} (h : d.Cut) (h' : d'.Cut) :
    d.key = d'.key ↔ d.agent = d'.agent ∧ d.channelKey = d'.channelKey ∧ d.address = d'.address := by
  rw [Components.key, Components.key, String.append_right_inj, colon_inj h.agent h'.agent, colon_inj h.channelKey h'.channelKey,
    colon_inj h.first h'.first, Prod.ext_iff]

theorem text_inj {k k' : ChatType} : k.text = k'.text ↔ k = k' := by
  cases k <;> cases k' <;> decide

theorem confusable_iff {d d' : Components} :
    Confusable d d' ↔ d.agent = d'.agent ∧ d.channelKey = d'.channelKey ∧ d.address = d'.address := by
  rw [Confusable]
  refine and_congr_right fun _ => and_congr_right fun _ => ?_
  rw [Components.address, Components.address]
  cases d.account with
  | some account =>
    cases d'.account with
    | some account' => rw [Prod.mk.injEq, String.append_right_inj]
    | none => rw [Prod.mk.injEq]
  | none =>
    cases d'.account with
    | some account' => rw [Prod.mk.injEq]
    | none => rw [Prod.mk.injEq, text_inj]

end

/-! ### Reading the agent's id -/

theorem toNat_lt_of_isIdChar {c : Char} (h : isIdChar c = true) : c.toNat < 128 := by
  refine toNat_lt_of_isValidIdChar ?_
  rw [isIdChar, Bool.or_eq_true, Bool.or_eq_true, Bool.or_eq_true] at h
  rw [isValidIdChar, isIdStart, Bool.or_eq_true, Bool.or_eq_true, Bool.or_eq_true, Bool.or_eq_true]
  tauto

/-- What a character of an id is: it is lowered, and no space. -/
theorem idChar_spec {c : Char} (h : isIdChar c = true) : c.toLower = c ∧ isSpace c = false ∧ c ≠ ':' := by
  have hall : ∀ n < 128, isIdChar (Char.ofNat n) = true → (Char.ofNat n).toLower = Char.ofNat n ∧
      isSpace (Char.ofNat n) = false ∧ Char.ofNat n ≠ ':' := by
    decide +kernel
  have hc := hall c.toNat (toNat_lt_of_isIdChar h)
  rw [Char.ofNat_toNat] at hc
  exact hc h

theorem map_toLower_id {cs : List Char} (h : ∀ c ∈ cs, isIdChar c = true) : cs.map Char.toLower = cs := by
  have hid : cs.map Char.toLower = cs.map id := map_congr_left fun c hc => (idChar_spec (h c hc)).1
  rw [hid, List.map_id]

variable {agent first : List Char}

/-- The key of an agent, lowered: what stands between two colons is kept, if it is an id. -/
theorem lower_agentKey (letters : LetterCase) (channel second : List Char)
    (hagent : ∀ c ∈ agent, isIdChar c = true) (hfirst : ∀ c ∈ first, isIdChar c = true) :
    ∃ channel' second', letters.lower []
        ("agent:".toList ++ agent ++ [':'] ++ (channel ++ ([':'] ++ first ++ [':'] ++ second))) =
      "agent".toList ++ ':' :: (agent ++ ':' :: (channel' ++ ([':'] ++ first ++ [':'] ++ second'))) := by
  have hcolon : (':').toLower = ':' := by decide
  have hpre : ∀ c ∈ "agent:".toList ++ agent ++ [':'], c.toNat < 128 := by
    intro c hc
    rcases mem_append.mp hc with hc | hc
    · rcases mem_append.mp hc with hc | hc
      · exact Text.forall_mem_of_all (p := fun c => c.toNat < 128) (by decide) c hc
      · exact toNat_lt_of_isIdChar (hagent c hc)
    · rw [mem_singleton.mp hc]
      decide
  have hmid : ∀ c ∈ [':'] ++ first ++ [':'], c.toNat < 128 := by
    intro c hc
    rcases mem_append.mp hc with hc | hc
    · rcases mem_append.mp hc with hc | hc
      · rw [mem_singleton.mp hc]
        decide
      · exact toNat_lt_of_isIdChar (hfirst c hc)
    · rw [mem_singleton.mp hc]
      decide
  have hfront : ("agent:".toList ++ agent ++ [':']).map Char.toLower = "agent".toList ++ ':' :: (agent ++ [':']) := by
    have hlit : "agent:".toList.map Char.toLower = "agent".toList ++ [':'] := by decide
    rw [map_append, map_append, hlit, map_toLower_id hagent, map_singleton, hcolon]
    simp
  have hmiddle : ([':'] ++ first ++ [':']).map Char.toLower = [':'] ++ first ++ [':'] := by
    rw [map_append, map_append, map_toLower_id hfirst, map_singleton, hcolon]
  rw [letters.lower_ascii_append hpre, hfront]
  obtain ⟨channel', hchannel⟩ := letters.exists_lower_append ([] ++ ("agent:".toList ++ agent ++ [':'])) channel
    ([':'] ++ first ++ [':'] ++ second)
  rw [hchannel, letters.lower_ascii_append hmid, hmiddle]
  refine ⟨channel', letters.lower ([] ++ ("agent:".toList ++ agent ++ [':']) ++ channel ++
    ([':'] ++ first ++ [':'])) second, ?_⟩
  simp only [append_assoc, cons_append, nil_append]

/-- The parts of a lowered key: the agent's id is the second, and others follow. -/
theorem parts_agentKey (channel second : List Char) (hagent : ∀ c ∈ agent, isIdChar c = true)
    (hne : agent ≠ []) (hfirst : ∀ c ∈ first, isIdChar c = true) (hne' : first ≠ []) :
    ∃ part parts, part ≠ [] ∧
      (Lines.splitLines ':' ("agent".toList ++ ':' :: (agent ++ ':' :: (channel ++ ([':'] ++ first ++
        [':'] ++ second))))).filter (· ≠ []) = "agent".toList :: agent :: part :: parts := by
  have hword : ':' ∉ "agent".toList := by decide
  rw [Lines.splitLines_append_nl hword, Lines.splitLines_append_nl (colon_notMem_of_isIdChar hagent)]
  -- a letter of the third part is left in a part
  obtain ⟨c, cs, rfl⟩ := exists_cons_of_ne_nil hne'
  have hmem : c ∈ channel ++ ([':'] ++ (c :: cs) ++ [':'] ++ second) := by simp
  obtain ⟨l, hl, hcl⟩ := Lines.exists_mem_splitLines hmem (idChar_spec (hfirst c mem_cons_self)).2.2
  have hkept : l ∈ (Lines.splitLines ':' (channel ++ ([':'] ++ (c :: cs) ++ [':'] ++ second))).filter (· ≠ []) :=
    mem_filter.mpr ⟨hl, decide_eq_true (ne_nil_of_mem hcl)⟩
  obtain ⟨part, parts, hparts⟩ := exists_cons_of_ne_nil (ne_nil_of_mem hkept)
  refine ⟨part, parts, ?_, ?_⟩
  · have hpart : part ∈ (Lines.splitLines ':' (channel ++ ([':'] ++ (c :: cs) ++ [':'] ++ second))).filter
        (· ≠ []) := by
      rw [hparts]
      exact mem_cons_self
    exact of_decide_eq_true (mem_filter.mp hpart).2
  · rw [filter_cons_of_pos (by simp), filter_cons_of_pos (by simpa using hne), hparts]

/-- What is before the peer in a key is not trimmed. -/
theorem trim_agentKey {front : List Char} (second : List Char) (hstart : Text.trimStart front = front)
    (hend : Text.trimEnd front = front) (hne : front ≠ []) :
    Text.trim (front ++ second) = front ++ Text.trimEnd second := by
  obtain ⟨c, cs, rfl⟩ := exists_cons_of_ne_nil hne
  have hc := Text.trimStart_cons_eq_self_iff.mp hstart
  have hall : Text.trimStart (c :: cs ++ second) = c :: cs ++ second := Text.trimStart_cons_eq_self_iff.mpr hc
  rw [Text.trim, hall, Text.trimEnd_append hend]

/-- The agent's id is read from a key. -/
theorem parseAgentSessionKey_key (letters : LetterCase) {d : Components}
    (hagent : ∀ c ∈ d.agent.toList, isIdChar c = true) (hne : d.agent ≠ "")
    (hfirst : ∀ c ∈ d.address.1.toList, isIdChar c = true) (hne' : d.address.1 ≠ "") :
    (parseAgentSessionKey letters.toCaseMap (some d.key)).map ParsedAgentSessionKey.agentId = some d.agent := by
  have hlist : d.key.toList = ("agent:".toList ++ d.agent.toList ++ [':'] ++ (d.channelKey.toList ++
      ([':'] ++ d.address.1.toList ++ [':']))) ++ d.address.2.toList := by
    simp [Components.key]
  have hlast : Text.trimEnd ("agent:".toList ++ d.agent.toList ++ [':'] ++ (d.channelKey.toList ++
      ([':'] ++ d.address.1.toList ++ [':']))) = "agent:".toList ++ d.agent.toList ++ [':'] ++
        (d.channelKey.toList ++ ([':'] ++ d.address.1.toList ++ [':'])) := by
    refine Text.trimEnd_eq_self_iff.mpr fun c hc => ?_
    simp only [← append_assoc, getLast?_concat, some.injEq] at hc
    rw [← hc]
    decide
  have htrim : (trimString d.key).toList = "agent:".toList ++ d.agent.toList ++ [':'] ++ (d.channelKey.toList ++
      ([':'] ++ d.address.1.toList ++ [':'] ++ Text.trimEnd d.address.2.toList)) := by
    rw [trimString, String.toList_ofList, hlist, trim_agentKey _ rfl hlast (by simp)]
    simp only [append_assoc]
  obtain ⟨channel', second', hlower⟩ := lower_agentKey letters d.channelKey.toList
    (Text.trimEnd d.address.2.toList) hagent hfirst
  have hraw : (letters.toCaseMap.toLowerCase (trimString d.key)).toList = "agent".toList ++ ':' ::
      (d.agent.toList ++ ':' :: (channel' ++ ([':'] ++ d.address.1.toList ++ [':'] ++ second'))) := by
    show (String.ofList (letters.lower [] (trimString d.key).toList)).toList = _
    rw [String.toList_ofList, htrim, hlower]
  have hagentne : d.agent.toList ≠ [] := fun h => hne (String.toList_inj.mp h)
  obtain ⟨part, parts, hpart, hparts⟩ := parts_agentKey channel' second' hagent hagentne hfirst
    fun h => hne' (String.toList_inj.mp h)
  have hid : Text.trim d.agent.toList = d.agent.toList :=
    Text.trim_of_notSpace fun c hc => (idChar_spec (hagent c hc)).2.1
  have hrest : [':'].intercalate (part :: parts) ≠ [] := by
    obtain ⟨c, cs, rfl⟩ := exists_cons_of_ne_nil hpart
    cases parts <;> simp
  rw [parseAgentSessionKey, getD_some, hraw]
  dsimp only
  rw [if_neg (by simp), hparts]
  dsimp only
  rw [if_neg (fun h => h rfl), hid, if_neg (not_or.mpr ⟨hagentne, hrest⟩), map_some, String.ofList_toList]

theorem normalizeAccountId_ne_empty (cases : CaseMap) (value : Option String) :
    normalizeAccountId cases value ≠ "" := by
  have hdefault : DEFAULT_ACCOUNT_ID ≠ "" := by decide
  unfold normalizeAccountId
  dsimp only
  split
  · exact hdefault
  · split
    · exact hdefault
    · rename_i hcanonical
      exact fun h => hcanonical (.inl h)

/-- What stands between the channel and the peer in the key of a conversation. -/
theorem address_components (cases : CaseMap) (c : Conversation) :
    (∀ l ∈ (c.components cases).address.1.toList, isIdChar l = true) ∧ (c.components cases).address.1 ≠ "" := by
  have hgroup : (∀ l ∈ ChatType.group.text.toList, isIdChar l = true) ∧ ChatType.group.text ≠ "" :=
    ⟨List.all_eq_true.mp (by decide +kernel), by decide⟩
  have hchannel : (∀ l ∈ ChatType.channel.text.toList, isIdChar l = true) ∧ ChatType.channel.text ≠ "" :=
    ⟨List.all_eq_true.mp (by decide +kernel), by decide⟩
  rw [Components.address, Conversation.components]
  cases c.peerKind with
  | direct => exact ⟨isIdChar_normalizeAccountId cases _, normalizeAccountId_ne_empty cases _⟩
  | group => exact hgroup
  | channel => exact hchannel

/-- Conversations with different components have different keys exactly when they are not confusable; and
the agent's id is read from every key. -/
theorem sessionKey_separates_iff (letters : LetterCase) (mainKey : String) (c c' : Conversation)
    (h : c.Named letters.toCaseMap) (h' : c'.Named letters.toCaseMap) :
    ((c.components letters.toCaseMap ≠ c'.components letters.toCaseMap →
        sessionKey letters.toCaseMap mainKey c ≠ sessionKey letters.toCaseMap mainKey c') ↔
      (c.components letters.toCaseMap = c'.components letters.toCaseMap ∨
        ¬ Confusable (c.components letters.toCaseMap) (c'.components letters.toCaseMap))) ∧
    (parseAgentSessionKey letters.toCaseMap (some (sessionKey letters.toCaseMap mainKey c))).map
      ParsedAgentSessionKey.agentId = some (normalizeAgentId letters.toCaseMap c.agentId) := by
  have hkeys : sessionKey letters.toCaseMap mainKey c = sessionKey letters.toCaseMap mainKey c' ↔
      Confusable (c.components letters.toCaseMap) (c'.components letters.toCaseMap) := by
    rw [sessionKey_spelling _ mainKey h, sessionKey_spelling _ mainKey h',
      key_inj_iff (cut_components _ h) (cut_components _ h'), confusable_iff]
  constructor
  · refine ⟨fun hsep => or_iff_not_imp_left.mpr fun hne hconfusable => ?_, fun hcond hne hkey => ?_⟩
    · exact hsep hne (hkeys.mpr hconfusable)
    · rcases hcond with heq | hnot
      · exact hne heq
      · exact hnot (hkeys.mp hkey)
  · have hagent := isIdChar_normalizeAgentId letters.toCaseMap c.agentId
    have hne := normalizeAgentId_ne_empty letters.toCaseMap c.agentId
    obtain ⟨hfirst, hne'⟩ := address_components letters.toCaseMap c
    rw [sessionKey_spelling _ mainKey h]
    exact parseAgentSessionKey_key letters hagent hne hfirst hne'

/-- Two direct chats of two accounts have two keys. -/
theorem sessionKey_separates_accounts :
    sessionKey LetterCase.asciiOnly.toCaseMap "main" ⟨"main", "telegram", "work", .direct, "7:thread", none⟩ ≠
        sessionKey LetterCase.asciiOnly.toCaseMap "main" ⟨"main", "telegram", "home", .direct, "7:thread", none⟩ ∧
      (parseAgentSessionKey LetterCase.asciiOnly.toCaseMap (some (sessionKey LetterCase.asciiOnly.toCaseMap "main"
        ⟨"main", "telegram", "work", .direct, "7:thread", none⟩))).map ParsedAgentSessionKey.agentId =
          some (normalizeAgentId LetterCase.asciiOnly.toCaseMap "main") := by
  have hchannel : ':' ∉ (normalizeToken LetterCase.asciiOnly.toCaseMap (some "telegram")).toList := by
    decide +kernel
  have hpeer : normalizeToken LetterCase.asciiOnly.toCaseMap (some "7:thread") ≠ "" := by decide +kernel
  have hnamed : ∀ account, Conversation.Named LetterCase.asciiOnly.toCaseMap
      ⟨"main", "telegram", account, .direct, "7:thread", none⟩ := fun account =>
    ⟨hchannel, hpeer, fun threadId h => by cases h⟩
  have hsep := sessionKey_separates_iff LetterCase.asciiOnly "main" ⟨"main", "telegram", "work", .direct, "7:thread", none⟩
    ⟨"main", "telegram", "home", .direct, "7:thread", none⟩ (hnamed "work") (hnamed "home")
  refine ⟨hsep.1.mpr (.inr fun hconfusable => ?_) (by decide +kernel), hsep.2⟩
  exact absurd hconfusable.2.2.1 (by decide +kernel)

/-- A peer whose id reads like another peer with a thread shares its key. -/
theorem peer_and_thread_share_key :
    Conversation.Named LetterCase.asciiOnly.toCaseMap ⟨"main", "matrix", "work", .direct, "a:thread:b", none⟩ ∧
      Conversation.Named LetterCase.asciiOnly.toCaseMap ⟨"main", "matrix", "work", .direct, "a", some "b"⟩ ∧
      Conversation.components LetterCase.asciiOnly.toCaseMap ⟨"main", "matrix", "work", .direct, "a:thread:b", none⟩ ≠
        Conversation.components LetterCase.asciiOnly.toCaseMap ⟨"main", "matrix", "work", .direct, "a", some "b"⟩ ∧
      sessionKey LetterCase.asciiOnly.toCaseMap "main" ⟨"main", "matrix", "work", .direct, "a:thread:b", none⟩ =
        sessionKey LetterCase.asciiOnly.toCaseMap "main" ⟨"main", "matrix", "work", .direct, "a", some "b"⟩ := by
  refine ⟨⟨by decide +kernel, by decide +kernel, fun threadId h => by cases h⟩,
    ⟨by decide +kernel, by decide +kernel, fun threadId h => ?_⟩, by decide +kernel, by decide +kernel⟩
  obtain rfl : "b" = threadId := some.inj h
  decide +kernel

end Foxclaw.Routing
