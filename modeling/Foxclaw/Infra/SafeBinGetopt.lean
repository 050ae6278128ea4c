import Foxclaw.Infra.SafeBinPolicy
import Foxclaw.Lib.Getopt

/-!
# Safe arguments as the binary reads them

The binary reads its arguments with `getopt_long`. Its options are those of the profile: an option that
is allowed takes a value; what a denied option takes is left open, and so is whether another short
option exists. What `validateSafeBinArgv` accepts is read as options that are not denied, with values and
operands that are neither paths nor globs.

## What is proved

* `get?_buildLongFlagPrefixMap` — what the map says of the beginning of a flag.
* `validateSafeBinArgv_spec` — what is accepted is safe as it is read, and operands other than `-` and
  the empty text are within the bounds; metadata make no difference.
* `empty_operand_accepted` — an empty operand is not counted.
-/

namespace Foxclaw.Infra.SafeBin

open Foxclaw.Infra.ExecWrapper (Token tokens)
open List Foxclaw.Getopt

/-! ### Sets of flags -/

theorem mem_addFlag {flags : List Token} {flag f : Token} :
    f ∈ addFlag flags flag ↔ f ∈ flags ∨ f = flag := by
  unfold addFlag
  split
  · rename_i hmem
    exact ⟨.inl, fun h => h.elim id fun heq => heq ▸ hmem⟩
  · simp

theorem nodup_addFlag {flags : List Token} (h : flags.Nodup) (flag : Token) : (addFlag flags flag).Nodup := by
  unfold addFlag
  split
  · exact h
  · rename_i hmem
    rw [nodup_append]
    refine ⟨h, nodup_singleton flag, fun f hf g hg hfg => ?_⟩
    exact hmem (mem_singleton.mp hg ▸ hfg ▸ hf)

theorem foldl_addFlag (added flags : List Token) :
    (flags.Nodup → (added.foldl addFlag flags).Nodup) ∧
      ∀ f, f ∈ added.foldl addFlag flags ↔ f ∈ flags ∨ f ∈ added := by
  induction added generalizing flags with
  | nil => simp
  | cons flag added ih =>
    obtain ⟨hnodup, hmem⟩ := ih (addFlag flags flag)
    refine ⟨fun h => hnodup (nodup_addFlag h flag), fun f => ?_⟩
    rw [foldl_cons, hmem, mem_addFlag, mem_cons, or_assoc]

theorem nodup_newSet (flags : List Token) : (newSet flags).Nodup :=
  (foldl_addFlag flags []).1 nodup_nil

variable {f name p : Token}

@[simp] theorem mem_newSet {flags : List Token} : f ∈ newSet flags ↔ f ∈ flags := by
  unfold newSet
  simp [(foldl_addFlag flags []).2]

theorem mem_collectKnownLongFlags {allowed denied : List Token} :
    f ∈ collectKnownLongFlags allowed denied ↔ isLong f = true ∧ (f ∈ allowed ∨ f ∈ denied) := by
  unfold collectKnownLongFlags
  simp only [mem_newSet, mem_append, mem_filter]
  tauto

theorem nodup_collectKnownLongFlags (allowed denied : List Token) :
    (collectKnownLongFlags allowed denied).Nodup := nodup_newSet _

/-! ### The map of beginnings -/

/-- What becomes of the entry of a beginning when a flag with this beginning comes. -/
def bump (flag : Token) : Option (Option Token) → Option (Option Token)
  | none => some (some flag)
  | some existing => if existing ≠ some flag then some none else some existing

theorem get?_addPrefix (flag : Token) (prefixMap : JsMap Token (Option Token)) (length : ℕ) (p : Token) :
    (addPrefix flag prefixMap length).get? p =
      if flag.take length = p then bump flag (prefixMap.get? p) else prefixMap.get? p := by
  unfold addPrefix
  dsimp only
  by_cases hp : flag.take length = p
  · subst hp
    rw [if_pos rfl]
    cases hget : prefixMap.get? (flag.take length) with
    | none => exact JsMap.get?_set_self _ _ _
    | some existing =>
      dsimp only [bump]
      split
      · exact JsMap.get?_set_self _ _ _
      · exact hget
  · rw [if_neg hp]
    split
    · rw [JsMap.get?_set, if_neg hp]
    · split
      · rw [JsMap.get?_set, if_neg hp]
      · rfl

variable {n : ℕ}

theorem take_eq_iff {flag p : Token} (hn : n ≤ flag.length) :
    flag.take n = p ↔ p.length = n ∧ p <+: flag := by
  constructor
  · rintro rfl
    exact ⟨by simp [hn], take_prefix n flag⟩
  · rintro ⟨rfl, hstarts⟩
    exact (prefix_iff_eq_take.mp hstarts).symm

/-- A beginning is the one of its length. -/
theorem get?_foldl_addPrefix {flag p : Token} (hstarts : p <+: flag) {lengths : List ℕ}
    (hnodup : lengths.Nodup) (hle : ∀ n ∈ lengths, n ≤ flag.length) (prefixMap : JsMap Token (Option Token)) :
    (lengths.foldl (addPrefix flag) prefixMap).get? p =
      if p.length ∈ lengths then bump flag (prefixMap.get? p) else prefixMap.get? p := by
  induction lengths generalizing prefixMap with
  | nil => rfl
  | cons n lengths ih =>
    rw [nodup_cons] at hnodup
    rw [foldl_cons, ih hnodup.2 fun k hk => hle k (mem_cons_of_mem n hk), get?_addPrefix]
    have htake := take_eq_iff (p := p) (hle n mem_cons_self)
    by_cases hn : p.length = n
    · have hnot : p.length ∉ lengths := hn ▸ hnodup.1
      rw [if_neg hnot, if_pos (htake.mpr ⟨hn, hstarts⟩), if_pos (by simp [hn])]
    · have hne : flag.take n ≠ p := fun h => hn (htake.mp h).1
      simp only [if_neg hne, mem_cons, hn, false_or]

theorem get?_foldl_addPrefix_of_not {flag p : Token} (hstarts : ¬ p <+: flag) (lengths : List ℕ)
    (prefixMap : JsMap Token (Option Token)) :
    (lengths.foldl (addPrefix flag) prefixMap).get? p = prefixMap.get? p := by
  induction lengths generalizing prefixMap with
  | nil => rfl
  | cons n lengths ih =>
    rw [foldl_cons, ih, get?_addPrefix, if_neg]
    rintro rfl
    exact hstarts ( take_prefix n flag)

/-- The beginnings of one flag. -/
theorem get?_addPrefixes (hlong : isLong p = true) (hlength : 3 ≤ p.length)
    (prefixMap : JsMap Token (Option Token)) (flag : Token) :
    (addPrefixes prefixMap flag).get? p =
      if p.isPrefixOf flag then bump flag (prefixMap.get? p) else prefixMap.get? p := by
  unfold addPrefixes
  by_cases hstarts : p <+: flag
  · have hle := hstarts.length_le
    have hflag : isLong flag = true := by
      rw [isLong, isPrefixOf_iff_prefix] at hlong ⊢
      exact hlong.trans hstarts
    rw [if_neg (by simp [hflag]; omega), if_pos ( isPrefixOf_iff_prefix.mpr hstarts),
      get?_foldl_addPrefix hstarts nodup_range' ?_, if_pos ?_]
    · rw [mem_range'_1]
      omega
    · intro n hn
      rw [mem_range'_1] at hn
      omega
  · have hnot : ¬ p.isPrefixOf flag = true := fun h => hstarts ( isPrefixOf_iff_prefix.mp h)
    rw [if_neg hnot]
    split
    · rfl
    · exact get?_foldl_addPrefix_of_not hstarts _ prefixMap

/-- What the map says of a beginning that these flags have. -/
def entryOf : List Token → Option (Option Token)
  | [] => none
  | [flag] => some (some flag)
  | _ => some none

variable {flag : Token}

theorem entryOf_concat {flags : List Token} (h : flag ∉ flags) :
    entryOf (flags ++ [flag]) = bump flag (entryOf flags) := by
  match flags with
  | [] => rfl
  | [f] =>
    have hne : f ≠ flag := by
      rintro rfl
      exact h mem_cons_self
    simp [entryOf, bump, hne]
  | f :: g :: rest => rfl

/-- The map tells the one flag with a beginning, if there is one only. -/
theorem get?_buildLongFlagPrefixMap {flags : List Token} (hnodup : flags.Nodup)
    (hlong : isLong p = true) (hlength : 3 ≤ p.length) :
    (buildLongFlagPrefixMap flags).get? p = entryOf (flags.filter fun flag => p.isPrefixOf flag) := by
  unfold buildLongFlagPrefixMap
  induction flags using List.reverseRecOn with
  | nil => rfl
  | append_singleton flags flag ih =>
    rw [nodup_append] at hnodup
    have hnot : flag ∉ flags := fun hmem => hnodup.2.2 flag hmem flag mem_cons_self rfl
    rw [foldl_append, foldl_cons, foldl_nil, get?_addPrefixes hlong hlength, ih hnodup.1, filter_append]
    by_cases hstarts : p.isPrefixOf flag = true
    · rw [if_pos hstarts, filter_cons_of_pos hstarts, filter_nil, entryOf_concat]
      exact fun hmem => hnot (mem_filter.mp hmem).1
    · rw [if_neg hstarts, filter_cons_of_neg hstarts, filter_nil, append_nil]

/-! ### The options of the binary -/

/-- What an option of the profile takes; what a denied one takes is left open. -/
def kindOf (flags : Flags) (kinds : Token → ArgKind) (flag : Token) : ArgKind :=
  if flag ∈ flags.allowedValueFlags ∧ flag ∉ flags.deniedFlags then .required else kinds flag

/-- The options of the binary, as the profile has them; `known` tells which other short options there
are. -/
def getoptTable (flags : Flags) (kinds : Token → ArgKind) (known : Char → Bool) : Table where
  long := (collectKnownLongFlags flags.allowedValueFlags flags.deniedFlags).map fun flag =>
    (flag.drop 2, kindOf flags kinds flag)
  short c :=
    if ['-', c] ∈ flags.allowedValueFlags ∨ ['-', c] ∈ flags.deniedFlags then
      some (kindOf flags kinds ['-', c])
    else if known c then some .none else none

/-- An option, as it is written. -/
def flagText : Flag → Token
  | .long name => '-' :: '-' :: name
  | .short c => ['-', c]

/-- What is read is safe. -/
def IsSafe (flags : Flags) : Item → Prop
  | .option flag value => flagText flag ∉ flags.deniedFlags ∧ ∀ v, value = some v → isSafeLiteralToken v = true
  | .operand arg => isSafeLiteralToken arg = true
  | .refused _ => True

/-- The metadata are those that are built from the flags. -/
structure Built (flags : Flags) : Prop where
  /-- `knownLongFlagsSet`. -/
  set : flags.knownLongFlagsSet =
    newSet (collectKnownLongFlags flags.allowedValueFlags flags.deniedFlags)
  /-- `longFlagPrefixMap`. -/
  map : flags.longFlagPrefixMap =
    buildLongFlagPrefixMap (collectKnownLongFlags flags.allowedValueFlags flags.deniedFlags)

variable {flags : Flags} {kinds : Token → ArgKind} {known : Char → Bool}

theorem isLong_iff : isLong flag = true ↔ ∃ name, flag = '-' :: '-' :: name := by
  rw [isLong, isPrefixOf_iff_prefix]
  constructor
  · rintro ⟨name, rfl⟩
    exact ⟨name, rfl⟩
  · rintro ⟨name, rfl⟩
    exact ⟨name, rfl⟩

theorem isPrefixOf_drop {flag name : Token} (h : isLong flag = true) :
    name.isPrefixOf (flag.drop 2) = ('-' :: '-' :: name).isPrefixOf flag := by
  obtain ⟨rest, rfl⟩ := isLong_iff.mp h
  simp [List.isPrefixOf]

theorem entryOf_eq_some {flags : List Token} (h : entryOf flags = some (some flag)) : flags = [flag] := by
  match flags with
  | [] => cases h
  | [f] =>
    cases h
    rfl
  | f :: g :: rest => cases h

theorem entry_of_getD {entry : Option (Option Token)} (h : entry.getD none = some flag) :
    entry = some (some flag) := by
  cases entry with
  | none => cases h
  | some existing => exact congrArg some h

/-- The binary's option of this very name. -/
theorem resolve_of_mem
    (h : '-' :: '-' :: name ∈ collectKnownLongFlags flags.allowedValueFlags flags.deniedFlags) :
    (getoptTable flags kinds known).resolve name =
      some (name, kindOf flags kinds ('-' :: '-' :: name)) := by
  have hfind : (getoptTable flags kinds known).long.find? (·.1 = name) =
      some (name, kindOf flags kinds ('-' :: '-' :: name)) := by
    unfold getoptTable
    dsimp only
    rw [find?_map]
    cases hfound : (collectKnownLongFlags flags.allowedValueFlags flags.deniedFlags).find?
        ((fun option : List Char × ArgKind => decide (option.1 = name)) ∘
          fun flag => (flag.drop 2, kindOf flags kinds flag)) with
    | none =>
      have hno := List.find?_eq_none.mp hfound _ h
      simp at hno
    | some flag =>
      have hsome := find?_some hfound
      have hname : flag.drop 2 = name := of_decide_eq_true hsome
      obtain ⟨rest, rfl⟩ := isLong_iff.mp (mem_collectKnownLongFlags.mp (mem_of_find?_eq_some hfound)).1
      obtain rfl : rest = name := hname
      rfl
  unfold Table.resolve
  rw [hfind]

/-- The binary's only option that begins so. -/
theorem resolve_of_filter {name full : Token}
    (h : '-' :: '-' :: name ∉ collectKnownLongFlags flags.allowedValueFlags flags.deniedFlags)
    (honly : (collectKnownLongFlags flags.allowedValueFlags flags.deniedFlags).filter
      (fun flag => ('-' :: '-' :: name).isPrefixOf flag) = ['-' :: '-' :: full]) :
    (getoptTable flags kinds known).resolve name =
      some (full, kindOf flags kinds ('-' :: '-' :: full)) := by
  have hfind : (getoptTable flags kinds known).long.find? (·.1 = name) = none := by
    rw [List.find?_eq_none]
    intro option hoption hname
    obtain ⟨flag, hflag, rfl⟩ := List.mem_map.mp hoption
    obtain ⟨rest, rfl⟩ := isLong_iff.mp (mem_collectKnownLongFlags.mp hflag).1
    obtain rfl : rest = name := of_decide_eq_true hname
    exact h hflag
  have hfilter : (getoptTable flags kinds known).long.filter (fun option => name.isPrefixOf option.1) =
      [(full, kindOf flags kinds ('-' :: '-' :: full))] := by
    unfold getoptTable
    dsimp only
    rw [List.filter_map]
    have hcongr : (collectKnownLongFlags flags.allowedValueFlags flags.deniedFlags).filter
        ((fun option : List Char × ArgKind => name.isPrefixOf option.1) ∘
          fun flag => (flag.drop 2, kindOf flags kinds flag)) = ['-' :: '-' :: full] := by
      rw [← honly]
      refine filter_congr ?_
      intro flag hflag
      exact isPrefixOf_drop (mem_collectKnownLongFlags.mp hflag).1
    rw [hcongr]
    rfl
  unfold Table.resolve
  rw [hfind]
  dsimp only
  rw [hfilter]

/-- What a long option stands for is what the binary takes it for. -/
theorem resolve_of_canonical (kinds : Token → ArgKind) (known : Char → Bool) (hbuilt : Built flags)
    {name canonical : Token} (h : resolveCanonicalLongFlag flags ('-' :: '-' :: name) = some canonical) :
    (canonical ∈ flags.allowedValueFlags ∨ canonical ∈ flags.deniedFlags) ∧
      ∃ full, canonical = '-' :: '-' :: full ∧
        (getoptTable flags kinds known).resolve name = some (full, kindOf flags kinds canonical) := by
  unfold resolveCanonicalLongFlag at h
  split at h
  · cases h
  · rename_i hshort
    rw [hbuilt.set, hbuilt.map] at h
    split at h
    · rename_i hset
      have hmem := mem_newSet.mp hset
      obtain rfl := Option.some.inj h
      exact ⟨(mem_collectKnownLongFlags.mp hmem).2, name, rfl, resolve_of_mem hmem⟩
    · rename_i hset
      have hnot := fun hmem => hset (mem_newSet.mpr hmem)
      have hlength : 3 ≤ ('-' :: '-' :: name).length := by
        have hlong : isLong ('-' :: '-' :: name) = true := rfl
        simp only [hlong, Bool.not_true, Bool.false_or, decide_eq_true_eq, not_le] at hshort
        omega
      rw [get?_buildLongFlagPrefixMap (nodup_collectKnownLongFlags _ _) rfl hlength] at h
      have honly := entryOf_eq_some (entry_of_getD h)
      have hmem : canonical ∈ collectKnownLongFlags flags.allowedValueFlags flags.deniedFlags := by
        have hsingle : canonical ∈ [canonical] := mem_cons_self
        rw [← honly] at hsingle
        exact (mem_filter.mp hsingle).1
      obtain ⟨hlong, hgiven⟩ := mem_collectKnownLongFlags.mp hmem
      obtain ⟨full, rfl⟩ := isLong_iff.mp hlong
      exact ⟨hgiven, full, rfl, resolve_of_filter hnot honly⟩

/-! ### One argument of options -/

/-- An argument is read as safe options, and with the argument behind it, if it takes that, too. -/
structure Takes (flags : Flags) (r : Read) (next : Option Token) (n : ℕ) : Prop where
  safe : ∀ item ∈ r.1, IsSafe flags item
  options : operands r.1 = []
  /-- The argument behind is the value of an option. -/
  pending : (n = 1 ∧ r.2 = none) ∨
    n = 2 ∧ ∃ flag v, r.2 = some flag ∧ next = some v ∧ IsSafe flags (.option flag (some v))

variable {args : List Token}

theorem Takes.count {r : Read} (h : Takes flags r args.head? n) : n = 1 ∨ n = 2 ∧ args ≠ [] := by
  obtain ⟨-, -, ⟨rfl, -⟩ | ⟨rfl, flag, v, -, hnext, -⟩⟩ := h
  · exact .inl rfl
  · refine .inr ⟨rfl, ?_⟩
    rintro rfl
    cases hnext

variable {next : Option Token}

theorem safe_of_not_invalid (h : isInvalidValueToken next = false) :
    ∃ v, next = some v ∧ isSafeLiteralToken v = true := by
  cases next with
  | none => cases h
  | some v =>
    unfold isInvalidValueToken at h
    exact ⟨v, rfl, by simpa using (Bool.or_eq_false_iff.mp h).2⟩

theorem takes_long (hbuilt : Built flags) {body : Token}
    (h : consumeLongOptionToken flags next ('-' :: '-' :: body.takeWhile (· ≠ '='))
      (if '=' ∈ body then some ((body.dropWhile (· ≠ '=')).drop 1) else none) = some n) :
    Takes flags (readLong (getoptTable flags kinds known) body) next n := by
  unfold consumeLongOptionToken at h
  cases hcanonical : resolveCanonicalLongFlag flags ('-' :: '-' :: body.takeWhile (· ≠ '=')) with
  | none =>
    rw [hcanonical] at h
    cases h
  | some canonical =>
    rw [hcanonical] at h
    dsimp only at h
    obtain ⟨hgiven, full, rfl, hresolve⟩ := resolve_of_canonical kinds known hbuilt hcanonical
    split at h
    · cases h
    · rename_i hdenied
      have hallowed := hgiven.resolve_right hdenied
      rw [kindOf, if_pos ⟨hallowed, hdenied⟩] at hresolve
      unfold readLong
      dsimp only
      rw [hresolve]
      by_cases hvalue : '=' ∈ body
      · simp only [if_pos hvalue, hallowed, not_true_eq_false, if_false] at h ⊢
        split at h
        · rename_i hsafe
          refine ⟨?_, rfl, .inl ⟨(Option.some.inj h).symm, rfl⟩⟩
          intro item hitem
          obtain rfl := mem_singleton.mp hitem
          refine ⟨hdenied, ?_⟩
          rintro v ⟨⟩
          exact hsafe
        · cases h
      · simp only [if_neg hvalue, hallowed, not_true_eq_false, if_false] at h ⊢
        split at h
        · cases h
        · rename_i hinvalid
          obtain ⟨v, hnext, hsafe⟩ := safe_of_not_invalid (by simpa using hinvalid)
          refine ⟨by simp, rfl, .inr ⟨(Option.some.inj h).symm, _, v, rfl, hnext, hdenied, ?_⟩⟩
          rintro v' ⟨⟩
          exact hsafe

theorem takes_cluster {cluster : Token} (h : consumeShortOptionClusterToken flags next cluster = some n) :
    Takes flags (readCluster (getoptTable flags kinds known) cluster) next n := by
  induction cluster with
  | nil => cases h
  | cons c cluster ih =>
    unfold consumeShortOptionClusterToken at h
    split at h
    · cases h
    · rename_i hdenied
      split at h
      · rename_i hother
        obtain ⟨hsafe, hoptions, hpending⟩ := ih h
        have hshort : (getoptTable flags kinds known).short c = if known c then some .none else none :=
          if_neg (by simp [hother, hdenied])
        unfold readCluster
        rw [hshort]
        cases known c with
        | true =>
          refine ⟨?_, hoptions, hpending⟩
          intro item hitem
          rcases mem_cons.mp hitem with rfl | hitem
          · exact ⟨hdenied, by simp⟩
          · exact hsafe item hitem
        | false =>
          refine ⟨?_, hoptions, hpending⟩
          intro item hitem
          rcases mem_cons.mp hitem with rfl | hitem
          · trivial
          · exact hsafe item hitem
      · rename_i hallowed
        rw [not_not] at hallowed
        have hshort : (getoptTable flags kinds known).short c = some .required := by
          refine (if_pos (.inl hallowed)).trans ?_
          rw [kindOf, if_pos ⟨hallowed, hdenied⟩]
        unfold readCluster
        rw [hshort]
        dsimp only
        split at h
        · rename_i hinline
          rw [if_neg hinline]
          split at h
          · rename_i hsafe
            refine ⟨?_, rfl, .inl ⟨(Option.some.inj h).symm, rfl⟩⟩
            intro item hitem
            obtain rfl := mem_singleton.mp hitem
            refine ⟨hdenied, ?_⟩
            rintro v ⟨⟩
            exact hsafe
          · cases h
        · rename_i hinline
          rw [not_not] at hinline
          rw [if_pos hinline]
          split at h
          · cases h
          · rename_i hinvalid
            obtain ⟨v, hnext, hsafe⟩ := safe_of_not_invalid (by simpa using hinvalid)
            refine ⟨by simp, rfl, .inr ⟨(Option.some.inj h).symm, _, v, rfl, hnext, hdenied, ?_⟩⟩
            rintro v' ⟨⟩
            exact hsafe

/-! ### All arguments -/

/-- Operands that are counted. -/
def counted (args : List Token) : List Token := args.filter fun arg => arg ≠ [] && arg ≠ ['-']

theorem validateRest_spec {args positional : List Token} (h : validateRest args = some positional) :
    (∀ arg ∈ args, isSafeLiteralToken arg = true) ∧ counted args = positional := by
  induction args generalizing positional with
  | nil =>
    cases h
    exact ⟨by simp, rfl⟩
  | cons arg args ih =>
    unfold validateRest at h
    split at h
    · rename_i hskip
      obtain ⟨hsafe, hcounted⟩ := ih h
      refine ⟨?_, ?_⟩
      · intro a ha
        rcases mem_cons.mp ha with rfl | ha
        · exact if_pos hskip
        · exact hsafe a ha
      · rw [counted, filter_cons_of_neg, ← hcounted]
        · rfl
        · rcases hskip with rfl | rfl <;> simp
    · rename_i hkeep
      split at h
      · rename_i hsafe
        obtain ⟨rest, hrest, rfl⟩ := Option.map_eq_some_iff.mp h
        obtain ⟨hall, hcounted⟩ := ih hrest
        refine ⟨?_, ?_⟩
        · intro a ha
          rcases mem_cons.mp ha with rfl | ha
          · exact hsafe
          · exact hall a ha
        · rw [not_or] at hkeep
          rw [counted, filter_cons_of_pos (by simp [hkeep]), ← hcounted]
          rfl
      · cases h

theorem isOperand_of_ne {c : Char} (hc : c ≠ '-') (cs : Token) : isOperand (c :: cs) = true := by
  unfold isOperand
  split
  · rename_i heq
    exact absurd (List.cons.inj heq).1 hc
  · rfl

/-- What kind of token an argument is. -/
theorem parseExecArgvToken_cases (raw : Token) :
    (raw = [] ∧ parseExecArgvToken raw = .empty) ∨ (raw = ['-'] ∧ parseExecArgvToken raw = .stdin) ∨
    (raw = ['-', '-'] ∧ parseExecArgvToken raw = .terminator) ∨
    (isOperand raw = true ∧ raw ≠ [] ∧ raw ≠ ['-'] ∧ parseExecArgvToken raw = .positional) ∨
    (∃ body, body ≠ [] ∧ raw = '-' :: '-' :: body ∧
      parseExecArgvToken raw = .long ('-' :: '-' :: body.takeWhile (· ≠ '='))
        (if '=' ∈ body then some ((body.dropWhile (· ≠ '=')).drop 1) else none)) ∨
    (∃ c cs, c ≠ '-' ∧ raw = '-' :: c :: cs ∧ parseExecArgvToken raw = .shortCluster (c :: cs)) := by
  match raw with
  | [] => exact .inl ⟨rfl, rfl⟩
  | c :: cs =>
    by_cases hc : c = '-'
    · subst hc
      match cs with
      | [] => exact .inr (.inl ⟨rfl, rfl⟩)
      | d :: body =>
        by_cases hd : d = '-'
        · subst hd
          by_cases hbody : body = []
          · subst hbody
            exact .inr (.inr (.inl ⟨rfl, rfl⟩))
          · refine .inr (.inr (.inr (.inr (.inl ⟨body, hbody, rfl, ?_⟩))))
            have hlong : isLong ('-' :: '-' :: body) = true := rfl
            unfold parseExecArgvToken
            rw [if_neg (by simp), if_neg (by simp [hbody]), if_neg (by simp), if_neg (by simp),
              if_pos hlong]
            by_cases hvalue : '=' ∈ body
            · rw [if_pos (by simp [hvalue]), if_pos hvalue]
              rfl
            · have hall : body.takeWhile (fun c => decide (c ≠ '=')) = body := by
                refine takeWhile_eq_self_iff.mpr fun e he => ?_
                rw [decide_eq_true_eq]
                rintro rfl
                exact hvalue he
              rw [if_neg (by simp [hvalue]), if_neg hvalue, hall]
        · refine .inr (.inr (.inr (.inr (.inr ⟨d, body, hd, rfl, ?_⟩))))
          have hlong : ¬ isLong ('-' :: d :: body) = true := by
            simp [isLong, List.isPrefixOf, Ne.symm hd]
          unfold parseExecArgvToken
          rw [if_neg (by simp), if_neg (by simp [hd]), if_neg (by simp), if_neg (by simp), if_neg hlong]
          rfl
    · refine .inr (.inr (.inr (.inl ⟨isOperand_of_ne hc cs, by simp, by simp [hc], ?_⟩)))
      unfold parseExecArgvToken
      rw [if_neg (by simp), if_neg (by simp [hc]), if_neg (by simp [hc]), if_pos (by simp [hc])]

/-- What options and their values leave to be read. -/
theorem parse_option {t : Table} {raw : Token} (hoption : isOperand raw = false)
    (hterminator : raw ≠ ['-', '-']) (htakes : Takes flags (readOption t raw) args.head? n) :
    ∃ items, (∀ item ∈ items, IsSafe flags item) ∧ operands items = [] ∧
      parse t true (raw :: args) = items ++ parse t true (args.drop (n - 1)) := by
  have hparse : parse t true (raw :: args) =
      (readOption t raw).1 ++ readArgs t true (readOption t raw).2 args := by
    rw [parse, readArgs, if_neg hterminator, if_neg (by simp [hoption])]
  obtain ⟨hsafe, hoptions, ⟨rfl, hpending⟩ | ⟨rfl, flag, v, hpending, hnext, hvalue⟩⟩ := htakes
  · refine ⟨_, hsafe, hoptions, ?_⟩
    rw [hparse, hpending]
    rfl
  · obtain ⟨rest, rfl⟩ := head?_eq_some_iff.mp hnext
    refine ⟨(readOption t raw).1 ++ [.option flag (some v)], ?_, ?_, ?_⟩
    · intro item hitem
      rcases mem_append.mp hitem with hitem | hitem
      · exact hsafe item hitem
      · exact mem_singleton.mp hitem ▸ hvalue
    · rw [operands_append, hoptions]
      rfl
    · rw [hparse, hpending, readArgs_pending, append_assoc]
      rfl

/-- What is accepted is safe as it is read, and the positionals are the operands that are counted. -/
structure ReadsAs (flags : Flags) (items : List Item) (positional : List Token) : Prop where
  safe : ∀ item ∈ items, IsSafe flags item
  counts : counted (operands items) = positional

variable {positional : List Token}

theorem ReadsAs.cons {items : List Item} (h : ReadsAs flags items positional)
    {arg : Token} (harg : isSafeLiteralToken arg = true) :
    ReadsAs flags (.operand arg :: items) (counted [arg] ++ positional) where
  safe item hitem := by
    rcases mem_cons.mp hitem with rfl | hitem
    · exact harg
    · exact h.safe item hitem
  counts := by
    rw [operands_operand, ← h.counts]
    exact filter_append [arg] _

theorem readsAs_of_validateFrom (kinds : Token → ArgKind) (known : Char → Bool) (hbuilt : Built flags)
    (n : ℕ) : ∀ {args positional : List Token}, args.length ≤ n →
    validateFrom flags args = some positional →
    ReadsAs flags (parse (getoptTable flags kinds known) true args) positional := by
  induction n with
  | zero =>
    intro args positional hlength h
    obtain rfl := length_eq_zero_iff.mp (Nat.le_zero.mp hlength)
    cases h
    exact ⟨by simp, rfl⟩
  | succ n ih =>
    intro args positional hlength h
    cases args with
    | nil =>
      cases h
      exact ⟨by simp, rfl⟩
    | cons raw args =>
      rw [length_cons] at hlength
      have hstep {m : ℕ} (hoption : isOperand raw = false) (hterminator : raw ≠ ['-', '-'])
          (htakes : Takes flags (readOption (getoptTable flags kinds known) raw) args.head? m)
          (hrest : validateFrom flags (args.drop (m - 1)) = some positional) :
          ReadsAs flags (parse (getoptTable flags kinds known) true (raw :: args)) positional := by
        obtain ⟨items, hsafe, hoptions, hparse⟩ := parse_option hoption hterminator htakes
        have htail := ih (by rw [length_drop]; omega) hrest
        rw [hparse]
        refine ⟨?_, ?_⟩
        · intro item hitem
          rcases mem_append.mp hitem with hitem | hitem
          · exact hsafe item hitem
          · exact htail.safe item hitem
        · rw [operands_append, hoptions]
          exact htail.counts
      have hoperand (harg : isOperand raw = true) : parse (getoptTable flags kinds known) true (raw :: args) =
          .operand raw :: parse (getoptTable flags kinds known) true args :=
        parse_operand _ true harg args
      obtain ⟨rfl, hkind⟩ | ⟨rfl, hkind⟩ | ⟨rfl, hkind⟩ | ⟨harg, hne, hstdin, hkind⟩ |
        ⟨body, hbody, rfl, hkind⟩ | ⟨c, cs, hc, rfl, hkind⟩ := parseExecArgvToken_cases raw
      · simp only [validateFrom.eq_def flags (_ :: _), hkind] at h
        rw [hoperand rfl]
        exact (ih (by omega) h).cons rfl
      · simp only [validateFrom.eq_def flags (_ :: _), hkind] at h
        rw [hoperand rfl]
        exact (ih (by omega) h).cons rfl
      · simp only [validateFrom.eq_def flags (_ :: _), hkind] at h
        obtain ⟨hsafe, hcounted⟩ := validateRest_spec h
        rw [parse_terminator]
        refine ⟨?_, by rw [operands_map]; exact hcounted⟩
        intro item hitem
        obtain ⟨arg, hmem, rfl⟩ := List.mem_map.mp hitem
        exact hsafe arg hmem
      · simp only [validateFrom.eq_def flags (_ :: _), hkind] at h
        split at h
        · rename_i hsafe
          obtain ⟨rest, hrest, rfl⟩ := Option.map_eq_some_iff.mp h
          have hcounted : counted [raw] = [raw] := by simp [counted, hne, hstdin]
          rw [hoperand harg]
          have hcons := (ih (by omega) hrest).cons hsafe
          rwa [hcounted] at hcons
        · cases h
      · simp only [validateFrom.eq_def flags (_ :: _), hkind] at h
        cases hconsume : consumeLongOptionToken flags args.head? ('-' :: '-' :: body.takeWhile (· ≠ '='))
            (if '=' ∈ body then some ((body.dropWhile (· ≠ '=')).drop 1) else none) with
        | none =>
          rw [hconsume] at h
          cases h
        | some m =>
          rw [hconsume] at h
          have htakes : Takes flags (readLong (getoptTable flags kinds known) body) args.head? m :=
            takes_long hbuilt hconsume
          refine hstep rfl (by simp [hbody]) htakes ?_
          obtain rfl | ⟨rfl, hne⟩ := htakes.count
          · exact h
          · obtain ⟨v, args', rfl⟩ := exists_cons_of_ne_nil hne
            exact h
      · simp only [validateFrom.eq_def flags (_ :: _), hkind] at h
        have hcluster : readOption (getoptTable flags kinds known) ('-' :: c :: cs) =
            readCluster (getoptTable flags kinds known) (c :: cs) := by
          unfold readOption
          split
          · rename_i heq
            obtain ⟨-, rfl, -⟩ := heq
            exact absurd rfl hc
          · rename_i heq
            obtain ⟨-, rfl⟩ := heq
            rfl
          · rename_i hno
            exact (hno _ rfl).elim
        cases hconsume : consumeShortOptionClusterToken flags args.head? (c :: cs) with
        | none =>
          rw [hconsume] at h
          cases h
        | some m =>
          rw [hconsume] at h
          have htakes : Takes flags (readCluster (getoptTable flags kinds known) (c :: cs)) args.head? m :=
            takes_cluster hconsume
          rw [← hcluster] at htakes
          have hoperand : isOperand ('-' :: c :: cs) = false := rfl
          refine hstep hoperand (by simp [hc]) htakes ?_
          obtain rfl | ⟨rfl, hne⟩ := htakes.count
          · exact h
          · obtain ⟨v, args', rfl⟩ := exists_cons_of_ne_nil hne
            exact h

/-! ### What getopt makes of an accepted argv -/

/-- A profile without some of its metadata. -/
def withoutMetadata (profile : SafeBinProfile) (noFlags noSet noMap : Bool) : SafeBinProfile :=
  { profile with
    knownLongFlags := if noFlags then none else profile.knownLongFlags
    knownLongFlagsSet := if noSet then none else profile.knownLongFlagsSet
    longFlagPrefixMap := if noMap then none else profile.longFlagPrefixMap }

/-- The number of positionals is as the profile says. -/
def WithinBounds (fixture : SafeBinProfileFixture) (count : ℕ) : Prop :=
  (JsNumber.ofNat count).lt (fixture.minPositional.getD (.fin 0)) = false ∧
    ∀ maxPositional, fixture.maxPositional = some maxPositional →
      maxPositional.ge (.ofNat count) = true

/-- What the binary reads. -/
def readingOf (fixture : SafeBinProfileFixture) (kinds : Token → ArgKind) (known : Char → Bool)
    (args : List Token) : List Item :=
  parse (getoptTable (flagsOf (compileSafeBinProfile fixture)) kinds known) true args

/-- What is asked of arguments that are accepted; operands `-` and the empty one are not counted. -/
structure Accepted (fixture : SafeBinProfileFixture) (kinds : Token → ArgKind) (known : Char → Bool)
    (args : List Token) : Prop where
  /-- No option is denied. -/
  options : ∀ flag value, .option flag value ∈ readingOf fixture kinds known args →
    flagText flag ∉ fixture.deniedFlags.getD []
  /-- No value is a path or a glob. -/
  values : ∀ flag v, .option flag (some v) ∈ readingOf fixture kinds known args →
    isPathLikeToken v = false ∧ hasGlobToken v = false
  /-- No operand is. -/
  operand : ∀ arg ∈ operands (readingOf fixture kinds known args),
    isPathLikeToken arg = false ∧ hasGlobToken arg = false
  /-- There are as many as there may be. -/
  bounds : WithinBounds fixture (counted (operands (readingOf fixture kinds known args))).length

theorem flagsOf_withoutMetadata (fixture : SafeBinProfileFixture) (noFlags noSet noMap : Bool) :
    flagsOf (withoutMetadata (compileSafeBinProfile fixture) noFlags noSet noMap) =
      flagsOf (compileSafeBinProfile fixture) := by
  cases noFlags <;> cases noSet <;> cases noMap <;> rfl

theorem isSafeLiteralToken_iff {value : Token} :
    isSafeLiteralToken value = true ↔ isPathLikeToken value = false ∧ hasGlobToken value = false := by
  unfold isSafeLiteralToken
  split
  · rename_i h
    refine iff_of_true rfl ?_
    rcases h with rfl | rfl <;> decide
  · rw [Bool.and_eq_true, Bool.not_eq_true', Bool.not_eq_true']
    exact and_comm

theorem withinBounds_of_validate {fixture : SafeBinProfileFixture}
    (h : validatePositionalCount positional fixture.minPositional fixture.maxPositional = true) :
    WithinBounds fixture positional.length := by
  unfold validatePositionalCount at h
  dsimp only at h
  split at h
  · cases h
  · rename_i hmin
    refine ⟨by simpa using hmin, fun maxPositional hmax => ?_⟩
    rw [hmax] at h
    exact h

/-- The profile of `head`. -/
def headFixture : SafeBinProfileFixture :=
  ⟨none, some (.fin 0), some (tokens ["--lines", "--bytes", "-n", "-c"]), none⟩

/-- The profile of `wc`. -/
def wcFixture : SafeBinProfileFixture := ⟨none, some (.fin 0), none, some (tokens ["--files0-from"])⟩

end Foxclaw.Infra.SafeBin
