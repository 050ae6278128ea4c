import Foxclaw.Lib.Json

/-!
# Patterns of secret targets

This module models `secrets/target-registry-pattern.ts` and `getPath` of `secrets/path-utils.ts`. A compiled
pattern is matched against the segments of a path, filled in with captures, or followed through a tree.

What a value inherits from its prototype is left out: no pattern names it.

## What is proved

* `matchPathTokens_eq_some` — matching and filling in are inverse to each other.
* `patterns_agree` — following a pattern finds each path that matches it and leads through the tree, once,
  with its captures and its value. A final name need not be there.
* `missing_leaf_found` — such a name.
-/

namespace Foxclaw.Secrets

open List

inductive PathPatternToken where
  | literal (value : String)
  | wildcard
  | array (field : String)
  deriving DecidableEq

/-- What is found at a path; `none` is `undefined`. -/
structure ExpandedPathMatch where
  segments : List String
  captures : List String
  value : Option Json

/-- The test for `/^\d+$/`. -/
def isArrayIndexSegment (segment : String) : Bool :=
  segment ≠ "" && segment.toList.all Char.isDigit

/-- What `matchPathTokens` captures, from the segments that are left. -/
def matchPathTokens : List String → List PathPatternToken → Option (List String)
  | [], [] => some []
  | segment :: segments, .literal value :: tokens =>
    if segment = value then matchPathTokens segments tokens else none
  | value :: segments, .wildcard :: tokens =>
    if value = "" then none else (matchPathTokens segments tokens).map (value :: ·)
  | segment :: next :: segments, .array field :: tokens =>
    if segment = field ∧ isArrayIndexSegment next = true then
      (matchPathTokens segments tokens).map (next :: ·)
    else none
  | _, _ => none

def materializePathTokens : List PathPatternToken → List String → Option (List String)
  | [], [] => some []
  | .literal value :: tokens, captures => (materializePathTokens tokens captures).map (value :: ·)
  | .wildcard :: tokens, value :: captures =>
    if value = "" then none else (materializePathTokens tokens captures).map (value :: ·)
  | .array field :: tokens, arrayIndex :: captures =>
    if isArrayIndexSegment arrayIndex then
      (materializePathTokens tokens captures).map (field :: arrayIndex :: ·)
    else none
  | _, _ => none

/-- Where `walk` goes by one token: the segments and captures it adds, and the node there. A name need not be
there: from `undefined` the walk goes nowhere, which is where the source looks before it goes on. -/
def walkTo : PathPatternToken → Option Json → List (List String × List String × Option Json)
  | .literal value, some (.obj fields) => [([value], [], fields.lookup value)]
  | .wildcard, some (.obj fields) => fields.map fun p => ([p.1], [p.1], some p.2)
  | .array field, some (.obj fields) =>
    match fields.lookup field with
    | some (.arr items) => items.zipIdx.map fun p => ([field, toString p.2], [toString p.2], some p.1)
    | _ => []
  | _, _ => []

/-- `walk` of `expandPathTokens`. -/
def walk (segments captures : List String) : List PathPatternToken → Option Json → List ExpandedPathMatch
  | [], node => [⟨segments, captures, node⟩]
  | token :: tokens, node =>
    (walkTo token node).flatMap fun b => walk (segments ++ b.1) (captures ++ b.2.1) tokens b.2.2

def expandPathTokens (root : Json) (tokens : List PathPatternToken) : List ExpandedPathMatch :=
  walk [] [] tokens (some root)

/-- `Number.parseInt` of digits. -/
def parseIndex (segment : String) : ℕ := Nat.ofDigitChars 10 segment.toList 0

/-- The loop of `getPath`. -/
def getFrom : Option Json → List String → Option Json
  | cursor, [] => cursor
  | some (.arr items), segment :: segments =>
    if isArrayIndexSegment segment then getFrom items[parseIndex segment]? segments else none
  | some (.obj fields), segment :: segments => getFrom (fields.lookup segment) segments
  | _, _ => none

def getPath (root : Json) (segments : List String) : Option Json :=
  if segments = [] then none else getFrom (some root) segments

/-! ### Paths that lead through a tree -/

/-- The path leads through the tree as the tokens say: to a name from an object, to a property that it has
where the name is free, and to an item of an array field by its index as it is written out. -/
def Leads : List PathPatternToken → Option Json → List String → Prop
  | [], _, segments => segments = []
  | .literal _ :: tokens, some (.obj fields), value :: segments => Leads tokens (fields.lookup value) segments
  | .wildcard :: tokens, some (.obj fields), key :: segments =>
    (fields.lookup key).isSome ∧ Leads tokens (fields.lookup key) segments
  | .array _ :: tokens, some (.obj fields), field :: index :: segments =>
    ∃ items, ∃ i : ℕ, fields.lookup field = some (.arr items) ∧ i < items.length ∧ index = toString i ∧
      Leads tokens items[i]? segments
  | _, _, _ => False

variable {tokens : List PathPatternToken} {segments captures : List String}

/-- Matching and filling in are inverse to each other. -/
theorem matchPathTokens_eq_some :
    matchPathTokens segments tokens = some captures ↔ materializePathTokens tokens captures = some segments := by
  induction tokens generalizing segments captures with
  | nil => cases segments <;> cases captures <;> simp [matchPathTokens, materializePathTokens]
  | cons token tokens ih =>
    cases token with
    | literal value =>
      cases segments <;> simp only [matchPathTokens, materializePathTokens, Option.map_eq_some_iff, ← ih] <;> grind
    | wildcard =>
      cases segments <;> cases captures <;>
        simp only [matchPathTokens, materializePathTokens, Option.ite_none_left_eq_some, Option.map_eq_some_iff,
          ← ih] <;> grind
    | array field =>
      rcases segments with _ | ⟨segment, _ | ⟨next, segments⟩⟩ <;> cases captures <;>
        simp only [matchPathTokens, materializePathTokens, Option.ite_none_right_eq_some, Option.map_eq_some_iff,
          ← ih] <;> grind

/-! ### Indices -/

theorem parseIndex_toString (i : ℕ) : parseIndex (toString i) = i := by
  rw [parseIndex, Nat.toString_eq_repr, Nat.toList_repr, Nat.ofDigitChars_ten_toDigits]

theorem toString_ne_empty {i : ℕ} : toString i ≠ "" := by
  intro h
  have hnil := congrArg String.toList h
  rw [Nat.toString_eq_repr, Nat.toList_repr] at hnil
  exact Nat.toDigits_ne_nil hnil

theorem isArrayIndexSegment_toString (i : ℕ) : isArrayIndexSegment (toString i) = true := by
  have hall : (toString i).toList.all Char.isDigit = true := by
    rw [Nat.toString_eq_repr, Nat.toList_repr, List.all_eq_true]
    exact fun c hc => Nat.isDigit_of_mem_toDigits (by decide) (by decide) hc
  rw [isArrayIndexSegment, hall, Bool.and_true, decide_eq_true toString_ne_empty]

/-! ### What is found -/

/-- A match below a path. -/
def ExpandedPathMatch.under (segments captures : List String) (m : ExpandedPathMatch) : ExpandedPathMatch :=
  ⟨segments ++ m.segments, captures ++ m.captures, m.value⟩

variable {m : ExpandedPathMatch} {node : Option Json} {token : PathPatternToken}
  {b : List String × List String × Option Json}

/-- What the walk has come along stands before what it finds. -/
theorem walk_eq : walk segments captures tokens node = (walk [] [] tokens node).map (.under segments captures) := by
  induction tokens generalizing segments captures node with
  | nil => simp [walk, ExpandedPathMatch.under]
  | cons token tokens ih =>
    simp only [walk, map_flatMap, nil_append]
    congr 1
    funext b
    rw [ih, @ih b.1, map_map]
    simp [ExpandedPathMatch.under, Function.comp_def]

theorem walk_cons : walk [] [] (token :: tokens) node =
    (walkTo token node).flatMap fun b => (walk [] [] tokens b.2.2).map (.under b.1 b.2.1) := by
  simp only [walk, nil_append, ← walk_eq]

/-- The path matches and leads through the tree; the captures are those of the match, and the value is that
at the path. -/
def Agrees (tokens : List PathPatternToken) (node : Option Json) (m : ExpandedPathMatch) : Prop :=
  matchPathTokens m.segments tokens = some m.captures ∧ Leads tokens node m.segments ∧
    m.value = getFrom node m.segments

/-- A node that is there has no two properties of one name in any part. -/
def Distinct (node : Option Json) : Prop := ∀ v ∈ node, v.DistinctKeys

theorem mem_walkTo_array {field : String} {fields : Json.Fields} :
    b ∈ walkTo (.array field) (some (.obj fields)) ↔ ∃ items, fields.lookup field = some (.arr items) ∧
      ∃ i : ℕ, i < items.length ∧ b = ([field, toString i], [toString i], items[i]?) := by
  rw [walkTo]
  split
  · rename_i items hitems
    simp only [mem_map, Prod.exists, mem_zipIdx_iff_getElem?, hitems]
    grind
  · grind

theorem Distinct.walkTo (h : Distinct node) (hb : b ∈ walkTo token node) : Distinct b.2.2 := by
  rintro v hv
  rcases node with _ | node
  · cases token <;> cases hb
  cases node with
  | obj fields =>
    have hfields := (Json.distinctKeys_obj.mp (h _ rfl)).2
    cases token with
    | literal value =>
      rw [mem_singleton.mp hb] at hv
      exact hfields _ (Json.Fields.mem_of_lookup hv)
    | wildcard =>
      obtain ⟨p, hp, rfl⟩ := mem_map.mp hb
      cases hv
      exact hfields p hp
    | array field =>
      obtain ⟨items, hitems, i, -, rfl⟩ := mem_walkTo_array.mp hb
      exact Json.distinctKeys_arr.mp (hfields _ (Json.Fields.mem_of_lookup hitems)) v (mem_of_getElem? hv)
  | _ => cases token <;> cases hb

/-- Each token goes one step along the paths that agree. -/
theorem agrees_cons (h : Distinct node) : Agrees (token :: tokens) node m ↔
    ∃ b ∈ walkTo token node, "" ∉ b.2.1 ∧ ∃ n, Agrees tokens b.2.2 n ∧ n.under b.1 b.2.1 = m := by
  obtain ⟨segments, captures, found⟩ := m
  simp only [Agrees, ExpandedPathMatch.under, ExpandedPathMatch.mk.injEq]
  rcases node with _ | node
  · cases token <;> simp [walkTo, Leads]
  cases node with
  | obj fields =>
    cases token with
    | literal value =>
      cases segments with
      | nil => simp [walkTo, Leads]
      | cons segment segments =>
        simp only [walkTo, Leads, matchPathTokens, getFrom, mem_singleton]
        constructor
        · rintro ⟨hm, hleads, hv⟩
          obtain ⟨rfl, hrest⟩ := Option.ite_none_right_eq_some.mp hm
          exact ⟨_, rfl, not_mem_nil, ⟨segments, captures, found⟩, ⟨hrest, hleads, hv⟩, rfl, rfl, rfl⟩
        · grind
    | wildcard =>
      cases segments with
      | nil => simp [walkTo, Leads]
      | cons segment segments =>
        simp only [walkTo, Leads, matchPathTokens, getFrom, mem_map]
        constructor
        · rintro ⟨hm, ⟨hsome, hleads⟩, hv⟩
          obtain ⟨hne, hmap⟩ := Option.ite_none_left_eq_some.mp hm
          obtain ⟨rest, hrest, rfl⟩ := Option.map_eq_some_iff.mp hmap
          obtain ⟨child, hchild⟩ := Option.isSome_iff_exists.mp hsome
          rw [hchild] at hleads hv
          exact ⟨_, ⟨_, Json.Fields.mem_of_lookup hchild, rfl⟩, fun e => hne (mem_singleton.mp e).symm,
            ⟨segments, rest, found⟩, ⟨hrest, hleads, hv⟩, rfl, rfl, rfl⟩
        · rintro ⟨_, ⟨p, hp, rfl⟩, hne, n, ⟨hrest, hleads, hv⟩, hsegments, rfl, rfl⟩
          have hchild := Json.Fields.lookup_of_mem (h _ rfl).nodup hp
          grind
    | array field =>
      simp only [mem_walkTo_array]
      rcases segments with _ | ⟨segment, _ | ⟨index, segments⟩⟩
      · simp [Leads]
      · simp [Leads]
      · simp only [Leads, matchPathTokens, getFrom]
        constructor
        · rintro ⟨hm, ⟨items, i, hitems, hi, rfl, hleads⟩, hv⟩
          obtain ⟨⟨rfl, -⟩, hmap⟩ := Option.ite_none_right_eq_some.mp hm
          obtain ⟨rest, hrest, rfl⟩ := Option.map_eq_some_iff.mp hmap
          rw [hitems, getFrom, if_pos (isArrayIndexSegment_toString i), parseIndex_toString] at hv
          exact ⟨_, ⟨items, hitems, i, hi, rfl⟩, fun e => toString_ne_empty (mem_singleton.mp e).symm,
            ⟨segments, rest, found⟩, ⟨hrest, hleads, hv⟩, rfl, rfl, rfl⟩
        · rintro ⟨_, ⟨items, hitems, i, hi, rfl⟩, -, n, ⟨hrest, hleads, hv⟩, hsegments, rfl, rfl⟩
          obtain ⟨rfl, rfl, rfl⟩ : field = segment ∧ toString i = index ∧ n.segments = segments := by
            simpa only [cons_append, cons.injEq, nil_append] using hsegments
          rw [hitems, getFrom, if_pos (isArrayIndexSegment_toString i), parseIndex_toString,
            if_pos ⟨rfl, isArrayIndexSegment_toString i⟩, hrest]
          exact ⟨rfl, ⟨items, i, rfl, hi, rfl, hleads⟩, hv⟩
  | _ => cases token <;> simp [walkTo, Leads]

theorem mem_walk (h : Distinct node) :
    (m ∈ walk [] [] tokens node ∧ "" ∉ m.captures) ↔ Agrees tokens node m := by
  induction tokens generalizing node m with
  | nil =>
    obtain ⟨segments, captures, value⟩ := m
    cases segments <;> simp [walk, Agrees, Leads, matchPathTokens, getFrom]
    grind
  | cons token tokens ih =>
    rw [agrees_cons h, walk_cons]
    constructor
    · rintro ⟨hm, hne⟩
      obtain ⟨b, hb, hm⟩ := mem_flatMap.mp hm
      obtain ⟨n, hn, rfl⟩ := mem_map.mp hm
      obtain ⟨hcaptures, hrest⟩ := not_or.mp (mt mem_append.mpr hne)
      exact ⟨b, hb, hcaptures, n, (ih (h.walkTo hb)).mp ⟨hn, hrest⟩, rfl⟩
    · rintro ⟨b, hb, hcaptures, n, hn, rfl⟩
      obtain ⟨hmem, hrest⟩ := (ih (h.walkTo hb)).mpr hn
      exact ⟨mem_flatMap.mpr ⟨b, hb, mem_map_of_mem hmem⟩, fun he => (mem_append.mp he).elim hcaptures hrest⟩

/-- No two paths by one token are the same, nor is one a part of another. -/
theorem walkTo_segments (h : Distinct node) : ((walkTo token node).map (·.1)).Nodup ∧
    ∀ b ∈ walkTo token node, ∀ b' ∈ walkTo token node, b.1.length = b'.1.length := by
  unfold walkTo
  split
  · simp
  · rename_i fields
    rw [map_map]
    exact ⟨Nodup.of_map (·.headD "") (by simpa [Function.comp_def] using (h _ rfl).nodup),
      forall_mem_map.mpr fun _ _ => forall_mem_map.mpr fun _ _ => rfl⟩
  · split
    · rename_i items _
      rw [map_map]
      refine ⟨Nodup.of_map (fun l : List String => parseIndex (l.getLastD "")) ?_,
        forall_mem_map.mpr fun _ _ => forall_mem_map.mpr fun _ _ => rfl⟩
      simp only [map_map, Function.comp_def, getLastD_cons, getLastD_nil, parseIndex_toString]
      exact zipIdx_map_snd 0 items ▸ nodup_range'
    · simp
  · simp

/-- No path is found twice. -/
theorem nodup_segments (h : Distinct node) : ((walk [] [] tokens node).map (·.segments)).Nodup := by
  induction tokens generalizing node with
  | nil => exact nodup_singleton _
  | cons token tokens ih =>
    obtain ⟨hnd, hlen⟩ := @walkTo_segments _ token h
    rw [walk_cons, map_flatMap]
    refine nodup_flatMap.mpr ⟨fun b hb => ?_, ?_⟩
    · rw [map_map]
      have := (ih (h.walkTo hb)).map (append_right_injective b.1)
      rwa [map_map] at this
    · refine (pairwise_map.mp hnd).imp_of_mem fun hb hb' hne x hx hx' => ?_
      simp only [map_map, mem_map] at hx hx'
      obtain ⟨n, -, rfl⟩ := hx
      obtain ⟨n', -, heq⟩ := hx'
      exact hne (append_inj heq (hlen _ hb' _ hb)).1.symm

/-- Matching and filling in are inverse to each other; and following a pattern finds, once each, the paths that
match it and lead through the tree, with the captures of the match and what `getPath` gives. What is found at a
name that is empty has no match. -/
theorem patterns_agree {root : Json} (h : root.DistinctKeys) (tokens : List PathPatternToken) :
    (∀ segments captures, matchPathTokens segments tokens = some captures ↔
      materializePathTokens tokens captures = some segments) ∧
    ((expandPathTokens root tokens).map (·.segments)).Nodup ∧
    ∀ m, m ∈ expandPathTokens root tokens ∧ "" ∉ m.captures ↔
      matchPathTokens m.segments tokens = some m.captures ∧ Leads tokens (some root) m.segments ∧
        m.value = if m.segments = [] then some root else getPath root m.segments := by
  have hroot : Distinct (some root) := by
    rintro v ⟨⟩
    exact h
  refine ⟨fun _ _ => matchPathTokens_eq_some, nodup_segments hroot, fun m => (mem_walk hroot).trans ?_⟩
  rw [Agrees, getPath]
  cases m.segments <;> rfl

/-- An account without its key. -/
theorem patterns_agree_account : ⟨["accounts", "main", "key"], ["main"], none⟩ ∈
    expandPathTokens (.obj [("accounts", .obj [("main", .obj [])])]) [.literal "accounts", .wildcard, .literal "key"] := by
  refine (((patterns_agree ?_ _).2.2 _).mpr ?_).1
  · simp only [Json.distinctKeys_obj]
    simp [Json.distinctKeys_obj]
  · exact ⟨by decide +kernel, ⟨by decide, rfl⟩, rfl⟩

/-- A name that is not there is found. -/
theorem missing_leaf_found : ¬ ∀ root tokens, root.DistinctKeys → ∀ segments,
    (∃ m ∈ expandPathTokens root tokens, m.segments = segments) ↔
      (∃ captures, matchPathTokens segments tokens = some captures) ∧ (getPath root segments).isSome := by
  intro hall
  have hiff := hall (.obj []) [.literal "key"] (Json.distinctKeys_obj.mpr ⟨nodup_nil, by simp⟩) ["key"]
  cases (hiff.mp ⟨⟨["key"], [], none⟩, mem_singleton.mpr rfl, rfl⟩).2

end Foxclaw.Secrets
