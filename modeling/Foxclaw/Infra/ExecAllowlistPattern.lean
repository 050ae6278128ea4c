import Foxclaw.Lib.RegExp
import Foxclaw.Lib.JsMap

/-!
# Patterns of the allowlist of commands

This module models `infra/exec-allowlist-pattern.ts` off Windows, with `expandHomePrefix` of
`infra/home-dir.ts`: a pattern of the allowlist is trimmed, its `~` replaced by the home directory,
and translated to a regular expression, which is kept in a table and tried on the path of a command.

`Derives` says what the translation is for: which texts a pattern stands for.

## What is proved

* `globRegexText_eq`, `test_globTerms` — the expression that is built is well formed, and matches
  what the pattern derives, where `**` does not stand for the end of a line.
* `compileGlobRegex_spec`, `cacheAfter_sound` — the table holds, for every pattern, the expression
  that would be built for it.
-/

namespace Foxclaw.Infra.AllowlistPattern

open Bool List CodeUnits RegExp

/-! ### The home directory -/

/-- What `resolveEffectiveHomeDir` reads: the variables of the environment, and `homedir()`, which
may throw. -/
structure HomeEnv where
  foxclawHome : Option CodeUnits
  home : Option CodeUnits
  userProfile : Option CodeUnits
  homedir : Option CodeUnits

def normalize (value : Option CodeUnits) : Option CodeUnits := (value.map trim).filter (· ≠ [])

/-- What `replace` puts in the place of `matched`, which stands at the start of the text and before
`after`, for a replacement. -/
def getSubstitution (matched after : CodeUnits) : CodeUnits → CodeUnits
  | [] => []
  | c :: rest =>
    if c = unit '$' then
      match rest with
      | d :: rest =>
        if d = unit '$' then unit '$' :: getSubstitution matched after rest
        else if d = unit '&' then matched ++ getSubstitution matched after rest
        else if d = 0x60 then getSubstitution matched after rest
        else if d = 0x27 then after ++ getSubstitution matched after rest
        else c :: getSubstitution matched after (d :: rest)
      | [] => [c]
    else c :: getSubstitution matched after rest

/-- `input.replace(/^~(?=$|[\\/])/, home)`. -/
def replaceTilde (home : CodeUnits) : CodeUnits → CodeUnits
  | [] => []
  | c :: rest =>
    if c = unit '~' ∧ (rest = [] ∨ rest.head? = some (unit '\\') ∨ rest.head? = some (unit '/')) then
      getSubstitution [c] rest home ++ rest
    else c :: rest

/-- `explicitHome === "~" || explicitHome.startsWith("~/") || explicitHome.startsWith("~\\")`. -/
def isTildePath (path : CodeUnits) : Bool :=
  path = [unit '~'] || [unit '~', unit '/'].isPrefixOf path || [unit '~', unit '\\'].isPrefixOf path

def resolveRawHomeDir (env : HomeEnv) : Option CodeUnits :=
  match normalize env.foxclawHome with
  | some explicitHome =>
    if isTildePath explicitHome then
      let fallbackHome := ((normalize env.home).or (normalize env.userProfile)).or (normalize env.homedir)
      fallbackHome.map fun fallbackHome => replaceTilde fallbackHome explicitHome
    else some explicitHome
  | none => ((normalize env.home).or (normalize env.userProfile)).or (normalize env.homedir)

section
-- `path.resolve`, of one path: it makes it absolute
variable (resolve : CodeUnits → CodeUnits)

def resolveEffectiveHomeDir (env : HomeEnv) : Option CodeUnits :=
  ((resolveRawHomeDir env).filter (· ≠ [])).map resolve

def expandHomePrefix (env : HomeEnv) (input : CodeUnits) : CodeUnits :=
  if input.head? ≠ some (unit '~') then input
  else
    match (resolveEffectiveHomeDir resolve env).filter (· ≠ []) with
    | none => input
    | some home => replaceTilde home input

end

/-! ### The expression of a pattern -/

def normalizeMatchTarget : CodeUnits → CodeUnits
  | [] => []
  | [c] => [c]
  | c :: d :: rest =>
    if c = unit '\\' ∧ d = unit '\\' then unit '/' :: normalizeMatchTarget rest
    else c :: normalizeMatchTarget (d :: rest)

def escapeRegExpLiteral (input : CodeUnits) : CodeUnits :=
  input.flatMap fun c =>
    if c ∈ ['.', '*', '+', '?', '^', '$', '{', '}', '(', ')', '|', '[', ']', '\\'].map unit then
      [unit '\\', c]
    else [c]

/-- What the loop of `compileGlobRegex` adds to the expression from a place on. -/
def globRegexFrom : CodeUnits → CodeUnits
  | [] => []
  | ch :: rest =>
    if ch = unit '*' then
      match rest with
      | next :: rest =>
        if next = unit '*' then ofString ".*" ++ globRegexFrom rest
        else ofString "[^/]*" ++ globRegexFrom (next :: rest)
      | [] => ofString "[^/]*"
    else if ch = unit '?' then ofString "[^/]" ++ globRegexFrom rest
    else escapeRegExpLiteral [ch] ++ globRegexFrom rest

/-- `regex`. -/
def globRegexText (pattern : CodeUnits) : CodeUnits :=
  ofString "^" ++ (globRegexFrom pattern ++ ofString "$")

def GLOB_REGEX_CACHE_LIMIT : ℕ := 512

abbrev GlobRegexCache := JsMap CodeUnits (List Term)

section
-- `process.platform`, which is not `win32`
variable (platform : CodeUnits)

def cacheKey (pattern : CodeUnits) : CodeUnits := platform ++ unit ':' :: pattern

/-- `compileGlobRegex`: the expression, and the table after the call; nothing if it throws. -/
def compileGlobRegex (cache : GlobRegexCache) (pattern : CodeUnits) : Option (List Term × GlobRegexCache) :=
  match cache.get? (cacheKey platform pattern) with
  | some cached => some (cached, cache)
  | none =>
    (parse (globRegexText pattern)).map fun compiled =>
      let cache := if GLOB_REGEX_CACHE_LIMIT ≤ cache.size then .empty else cache
      (compiled, cache.set (cacheKey platform pattern) compiled)

variable (resolve : CodeUnits → CodeUnits)

def expanded (env : HomeEnv) (trimmed : CodeUnits) : CodeUnits :=
  if trimmed.head? = some (unit '~') then expandHomePrefix resolve env trimmed else trimmed

/-- `matchesExecAllowlistPattern`: the answer, and the table after the call. -/
def matchesExecAllowlistPattern (env : HomeEnv) (cache : GlobRegexCache) (pattern target : CodeUnits) :
    Option (Bool × GlobRegexCache) :=
  let trimmed := trim pattern
  if trimmed = [] then some (false, cache)
  else
    let normalizedPattern := normalizeMatchTarget (expanded resolve env trimmed)
    let normalizedTarget := normalizeMatchTarget target
    (compileGlobRegex platform cache normalizedPattern).map fun (compiled, cache) =>
      (test compiled normalizedTarget, cache)

/-- A call of `matchesExecAllowlistPattern`. -/
structure Call where
  env : HomeEnv
  pattern : CodeUnits
  target : CodeUnits

/-- The table after calls, from a table; a call that throws leaves it as it is. -/
def cacheAfter (cache : GlobRegexCache) : List Call → GlobRegexCache
  | [] => cache
  | call :: calls =>
    match matchesExecAllowlistPattern platform resolve call.env cache call.pattern call.target with
    | some (_, cache) => cacheAfter cache calls
    | none => cacheAfter cache calls

end

/-! ### What a pattern stands for -/

/-- The pattern derives the text, if `**` stands for a string of units that `wild` has, a single `*`
for a string without `/`, `?` for a unit other than `/`, and any other unit for itself. -/
inductive Derives (wild : UInt16 → Prop) : CodeUnits → CodeUnits → Prop where
  /-- Nothing stands for nothing. -/
  | done : Derives wild [] []
  /-- `**`. -/
  | stars {p s t : CodeUnits} : (∀ c ∈ s, wild c) → Derives wild p t →
      Derives wild (unit '*' :: unit '*' :: p) (s ++ t)
  /-- A single `*`. -/
  | star {p s t : CodeUnits} : p.head? ≠ some (unit '*') → (∀ c ∈ s, c ≠ unit '/') → Derives wild p t →
      Derives wild (unit '*' :: p) (s ++ t)
  /-- `?`. -/
  | question {p t : CodeUnits} {c : UInt16} : c ≠ unit '/' → Derives wild p t →
      Derives wild (unit '?' :: p) (c :: t)
  /-- Any other unit. -/
  | literal {p t : CodeUnits} {c : UInt16} : c ≠ unit '*' → c ≠ unit '?' → Derives wild p t →
      Derives wild (c :: p) (c :: t)

variable {wild wild' : UInt16 → Prop} {p t : CodeUnits}

theorem Derives.mono (h : ∀ c, wild c → wild' c) (hd : Derives wild p t) : Derives wild' p t := by
  induction hd with
  | done => exact .done
  | stars hs _ ih => exact .stars (fun c hc => h c (hs c hc)) ih
  | star hp hs _ ih => exact .star hp hs ih
  | question hc _ ih => exact .question hc ih
  | literal hstar hquestion _ ih => exact .literal hstar hquestion ih

/-- What `**` may stand for matters only in the text that is derived. -/
theorem Derives.of_forall_mem (hd : Derives wild p t) (ht : ∀ c ∈ t, wild' c) : Derives wild' p t := by
  induction hd with
  | done => exact .done
  | stars _ _ ih =>
    obtain ⟨hs, ht⟩ := forall_mem_append.mp ht
    exact .stars hs (ih ht)
  | star hp hs _ ih => exact .star hp hs (ih (forall_mem_append.mp ht).2)
  | question hc _ ih => exact .question hc (ih (forall_mem_cons.mp ht).2)
  | literal hstar hquestion _ ih => exact .literal hstar hquestion (ih (forall_mem_cons.mp ht).2)

/-- A pattern without `**` derives the same texts whatever `**` may stand for. -/
theorem Derives.of_no_stars (hd : Derives wild p t)
    (hp : ¬ [unit '*', unit '*'] <:+: p) : Derives wild' p t := by
  have tail : ∀ {c : UInt16} {p : CodeUnits}, ¬ [unit '*', unit '*'] <:+: c :: p →
      ¬ [unit '*', unit '*'] <:+: p := fun h hp => h (hp.trans (suffix_cons _ _).isInfix)
  induction hd with
  | done => exact .done
  | stars _ _ _ => exact absurd (List.IsPrefix.isInfix ⟨_, rfl⟩) hp
  | star hhead hs _ ih => exact .star hhead hs (ih (tail hp))
  | question hc _ ih => exact .question hc (ih (tail hp))
  | literal hstar hquestion _ ih => exact .literal hstar hquestion (ih (tail hp))

/-- A unit of a pattern that stands for others. -/
def isWildcard (c : UInt16) : Bool := c = unit '*' || c = unit '?'

/-- A pattern without wildcards derives itself, and nothing else. -/
theorem derives_plain_iff {wild : UInt16 → Prop} (hp : p.all (!isWildcard ·) = true) :
    Derives wild p t ↔ t = p := by
  induction p generalizing t with
  | nil =>
    constructor
    · intro h
      cases h
      rfl
    · rintro rfl
      exact .done
  | cons c p ih =>
    rw [all_cons, and_eq_true] at hp
    obtain ⟨hc, hp⟩ := hp
    have hstar : c ≠ unit '*' := by
      rintro rfl
      exact absurd hc (by decide)
    have hquestion : c ≠ unit '?' := by
      rintro rfl
      exact absurd hc (by decide)
    constructor
    · intro h
      cases h with
      | stars _ _ => exact absurd rfl hstar
      | star _ _ _ => exact absurd rfl hstar
      | question _ _ => exact absurd rfl hquestion
      | literal _ _ ht => rw [(ih hp).mp ht]
    · rintro rfl
      exact .literal hstar hquestion ((ih hp).mpr rfl)

/-! ### The expression matches what the pattern derives -/

/-- The terms of the expression of a pattern. -/
def globTerms : CodeUnits → List Term
  | [] => []
  | ch :: rest =>
    if ch = unit '*' then
      match rest with
      | next :: rest =>
        if next = unit '*' then .many .dot :: globTerms rest
        else .many (.notUnit (unit '/')) :: globTerms (next :: rest)
      | [] => [.many (.notUnit (unit '/'))]
    else if ch = unit '?' then .one (.notUnit (unit '/')) :: globTerms rest
    else .one (.unit ch) :: globTerms rest

theorem globTerms_stars (p : CodeUnits) :
    globTerms (unit '*' :: unit '*' :: p) = .many .dot :: globTerms p := by
  rw [globTerms, if_pos rfl, if_pos rfl]

theorem globTerms_star {p : CodeUnits} (hp : p.head? ≠ some (unit '*')) :
    globTerms (unit '*' :: p) = .many (.notUnit (unit '/')) :: globTerms p := by
  cases p with
  | nil => decide
  | cons next p =>
    have hnext : next ≠ unit '*' := fun h => hp (congrArg some h)
    rw [globTerms, if_pos rfl, if_neg hnext]

theorem globTerms_question (p : CodeUnits) :
    globTerms (unit '?' :: p) = .one (.notUnit (unit '/')) :: globTerms p := by
  conv_lhs => rw [globTerms.eq_def]
  dsimp only
  rw [if_neg (by decide), if_pos rfl]

theorem globTerms_literal {c : UInt16} (hstar : c ≠ unit '*') (hquestion : c ≠ unit '?') (p : CodeUnits) :
    globTerms (c :: p) = .one (.unit c) :: globTerms p := by
  conv_lhs => rw [globTerms.eq_def]
  dsimp only
  rw [if_neg hstar, if_neg hquestion]

/-- Induction over the pieces of a pattern. -/
theorem pattern_induction {P : CodeUnits → Prop} (nil : P [])
    (stars : ∀ p, P p → P (unit '*' :: unit '*' :: p))
    (star : ∀ p : CodeUnits, p.head? ≠ some (unit '*') → P p → P (unit '*' :: p))
    (question : ∀ p, P p → P (unit '?' :: p))
    (literal : ∀ c p, c ≠ unit '*' → c ≠ unit '?' → P p → P (c :: p)) : ∀ p, P p
  | [] => nil
  | c :: p => by
    have ih : P p := pattern_induction nil stars star question literal p
    by_cases hstar : c = unit '*'
    · subst hstar
      cases p with
      | nil => exact star [] (by decide) nil
      | cons d p =>
        by_cases hd : d = unit '*'
        · subst hd
          exact stars p (pattern_induction nil stars star question literal p)
        · exact star (d :: p) (fun h => hd (Option.some.inj h)) ih
    by_cases hquestion : c = unit '?'
    · subst hquestion
      exact question p ih
    · exact literal c p hstar hquestion ih

/-- The expression can be written. -/
theorem globTerms_writable (p : CodeUnits) : ∀ t ∈ globTerms p, t.atom.Writable := by
  have hslash : (Atom.notUnit (unit '/')).Writable := by
    constructor <;> decide
  induction p using pattern_induction with
  | nil => exact List.forall_mem_nil _
  | stars p ih =>
    rw [globTerms_stars]
    exact forall_mem_cons.mpr ⟨trivial, ih⟩
  | star p hp ih =>
    rw [globTerms_star hp]
    exact forall_mem_cons.mpr ⟨hslash, ih⟩
  | question p ih =>
    rw [globTerms_question]
    exact forall_mem_cons.mpr ⟨hslash, ih⟩
  | literal c p hstar hquestion ih =>
    rw [globTerms_literal hstar hquestion]
    exact forall_mem_cons.mpr ⟨trivial, ih⟩

/-- `escapeRegExpLiteral` escapes just what has a meaning of its own. -/
theorem escapeRegExpLiteral_unit (c : UInt16) : escapeRegExpLiteral [c] = (Atom.unit c).source := by
  have hsyntax : (c ∈ ['.', '*', '+', '?', '^', '$', '{', '}', '(', ')', '|', '[', ']', '\\'].map unit) ↔
      isSyntaxCharacter c = true := by
    rw [isSyntaxCharacter, decide_eq_true_iff]
    exact (List.Perm.map unit (by decide)).mem_iff
  rw [escapeRegExpLiteral, flatMap_singleton, Atom.source]
  exact if_congr hsyntax rfl rfl

theorem globRegexFrom_eq (p : CodeUnits) : globRegexFrom p = (globTerms p).flatMap Term.source := by
  induction p using pattern_induction with
  | nil => rfl
  | stars p ih =>
    rw [globTerms_stars, flatMap_cons, ← ih, globRegexFrom, if_pos rfl, if_pos rfl]
    rfl
  | star p hp ih =>
    rw [globTerms_star hp, flatMap_cons, ← ih]
    cases p with
    | nil => decide
    | cons next p =>
      have hnext : next ≠ unit '*' := fun h => hp (congrArg some h)
      rw [globRegexFrom, if_pos rfl, if_neg hnext]
      rfl
  | question p ih =>
    rw [globTerms_question, flatMap_cons, ← ih]
    conv_lhs => rw [globRegexFrom.eq_def]
    dsimp only
    rw [if_neg (by decide), if_pos rfl]
    rfl
  | literal c p hstar hquestion ih =>
    rw [globTerms_literal hstar hquestion, flatMap_cons, ← ih]
    conv_lhs => rw [globRegexFrom.eq_def]
    dsimp only
    rw [if_neg hstar, if_neg hquestion, escapeRegExpLiteral_unit]
    rfl

theorem globRegexText_eq (p : CodeUnits) : globRegexText p = source (globTerms p) := by
  rw [globRegexText, globRegexFrom_eq]
  rfl

theorem parse_globRegexText (p : CodeUnits) : parse (globRegexText p) = some (globTerms p) := by
  rw [globRegexText_eq, parse_source (globTerms_writable p)]

/-- What `*` and `?` may stand for. -/
theorem accepts_notSlash (c : UInt16) : (Atom.notUnit (unit '/')).accepts c = true ↔ c ≠ unit '/' :=
  decide_eq_true_iff

/-- The expression matches what the pattern derives, if `**` does not stand for ends of lines. -/
theorem test_globTerms (p text : CodeUnits) :
    test (globTerms p) text = true ↔ Derives (fun c => isLineTerminator c = false) p text := by
  induction p using pattern_induction generalizing text with
  | nil =>
    rw [globTerms, test_nil]
    constructor
    · rintro rfl
      exact .done
    · intro h
      cases h
      rfl
  | stars p ih =>
    rw [globTerms_stars, test_many_iff]
    have hdot : ∀ c, Atom.dot.accepts c = true ↔ isLineTerminator c = false := fun c => by
      rw [Atom.accepts, not_eq_true']
    constructor
    · rintro ⟨s, t, rfl, hs, ht⟩
      exact .stars (fun c hc => (hdot c).mp (hs c hc)) ((ih t).mp ht)
    · intro h
      cases h with
      | @stars _ s t hs ht => exact ⟨s, t, rfl, fun c hc => (hdot c).mpr (hs c hc), (ih t).mpr ht⟩
      | star hp _ _ => exact absurd rfl hp
      | literal hstar _ _ => exact absurd rfl hstar
  | star p hp ih =>
    rw [globTerms_star hp, test_many_iff]
    constructor
    · rintro ⟨s, t, rfl, hs, ht⟩
      exact .star hp (fun c hc => (accepts_notSlash c).mp (hs c hc)) ((ih t).mp ht)
    · intro h
      cases h with
      | stars _ _ => exact absurd rfl hp
      | @star _ s t _ hs ht =>
        exact ⟨s, t, rfl, fun c hc => (accepts_notSlash c).mpr (hs c hc), (ih t).mpr ht⟩
      | literal hstar _ _ => exact absurd rfl hstar
  | question p ih =>
    rw [globTerms_question, test_one]
    constructor
    · rintro ⟨c, rest, rfl, hc, hrest⟩
      exact .question ((accepts_notSlash c).mp hc) ((ih rest).mp hrest)
    · intro h
      cases h with
      | @question _ rest c hc hrest => exact ⟨c, rest, rfl, (accepts_notSlash c).mpr hc, (ih rest).mpr hrest⟩
      | literal _ hquestion _ => exact absurd rfl hquestion
  | literal c p hstar hquestion ih =>
    rw [globTerms_literal hstar hquestion, test_one]
    constructor
    · rintro ⟨d, rest, rfl, hd, hrest⟩
      have hd : d = c := of_decide_eq_true hd
      subst hd
      exact .literal hstar hquestion ((ih rest).mp hrest)
    · intro h
      cases h with
      | stars _ _ => exact absurd rfl hstar
      | star _ _ _ => exact absurd rfl hstar
      | question _ _ => exact absurd rfl hquestion
      | @literal _ rest _ _ _ hrest => exact ⟨c, rest, rfl, decide_eq_true rfl, (ih rest).mpr hrest⟩

/-! ### The table -/

section
variable (platform : CodeUnits) (resolve : CodeUnits → CodeUnits)

/-- Every entry of the table is the expression that would be built for its pattern. -/
def Sound (cache : GlobRegexCache) : Prop :=
  ∀ pattern terms, cache.get? (cacheKey platform pattern) = some terms → terms = globTerms pattern

theorem cacheKey_injective {p q : CodeUnits} (h : cacheKey platform p = cacheKey platform q) : p = q :=
  (List.cons.inj (append_cancel_left h)).2

variable {cache : GlobRegexCache}

/-- `compileGlobRegex` gives the expression of the pattern, whatever the table holds. -/
theorem compileGlobRegex_spec (hs : Sound platform cache) (pattern : CodeUnits) :
    ∃ cache', compileGlobRegex platform cache pattern = some (globTerms pattern, cache') ∧
      Sound platform cache' := by
  rw [compileGlobRegex]
  cases hget : cache.get? (cacheKey platform pattern) with
  | some cached =>
    have hcached : cached = globTerms pattern := hs pattern cached hget
    exact ⟨cache, by rw [hcached], hs⟩
  | none =>
    rw [parse_globRegexText]
    refine ⟨_, rfl, ?_⟩
    have hkept : Sound platform (if GLOB_REGEX_CACHE_LIMIT ≤ cache.size then .empty else cache) := by
      split_ifs with hfull
      · intro p terms hp
        cases hp
      · exact hs
    intro p terms hp
    rw [JsMap.get?_set] at hp
    by_cases hkey : cacheKey platform pattern = cacheKey platform p
    · rw [if_pos hkey] at hp
      rw [← cacheKey_injective platform hkey]
      exact (Option.some.inj hp).symm
    · rw [if_neg hkey] at hp
      exact hkept p terms hp

/-- What a call answers, whatever the table holds. -/
def globAnswer (env : HomeEnv) (pattern target : CodeUnits) : Bool :=
  decide (trim pattern ≠ []) &&
    test (globTerms (normalizeMatchTarget (expanded resolve env (trim pattern)))) (normalizeMatchTarget target)

theorem matchesExecAllowlistPattern_spec (hs : Sound platform cache) (env : HomeEnv)
    (pattern target : CodeUnits) :
    ∃ cache', matchesExecAllowlistPattern platform resolve env cache pattern target =
        some (globAnswer resolve env pattern target, cache') ∧
      Sound platform cache' := by
  rw [matchesExecAllowlistPattern, globAnswer]
  by_cases hblank : trim pattern = []
  · exact ⟨cache, by simp [hblank], hs⟩
  · obtain ⟨cache', hcompile, hs'⟩ :=
      compileGlobRegex_spec platform hs (normalizeMatchTarget (expanded resolve env (trim pattern)))
    exact ⟨cache', by simp [hblank, hcompile], hs'⟩

/-- After any calls the table is sound. -/
theorem cacheAfter_sound (hs : Sound platform cache) (calls : List Call) :
    Sound platform (cacheAfter platform resolve cache calls) := by
  induction calls generalizing cache with
  | nil => exact hs
  | cons call calls ih =>
    obtain ⟨cache', hcall, hs'⟩ :=
      matchesExecAllowlistPattern_spec platform resolve hs call.env call.pattern call.target
    rw [cacheAfter, hcall]
    exact ih hs'

/-- What `matchesExecAllowlistPattern` answers does not depend on the calls before it. It is `true`
only if the pattern, trimmed and with the home directory in the place of `~`, derives the target, both
with each two backslashes read as a slash; and it is then, if the pattern has no `**` or the target
no end of a line. -/
theorem matchesExecAllowlistPattern_derives (env : HomeEnv) (pattern target : CodeUnits) :
    ∃ answer : Bool,
      (∀ calls, (matchesExecAllowlistPattern platform resolve env
        (cacheAfter platform resolve .empty calls) pattern target).map Prod.fst = some answer) ∧
      let p := normalizeMatchTarget (expanded resolve env (trim pattern))
      let text := normalizeMatchTarget target
      (answer = true → trim pattern ≠ [] ∧ Derives (fun _ => True) p text) ∧
        (trim pattern ≠ [] → Derives (fun _ => True) p text →
          (¬ [unit '*', unit '*'] <:+: p ∨ ∀ c ∈ text, isLineTerminator c = false) → answer = true) := by
  refine ⟨globAnswer resolve env pattern target, fun calls => ?_, ?_⟩
  · have hempty : Sound platform .empty := fun p terms hp => by cases hp
    obtain ⟨cache', hcall, -⟩ := matchesExecAllowlistPattern_spec platform resolve
      (cacheAfter_sound platform resolve hempty calls) env pattern target
    rw [hcall, Option.map_some]
  · dsimp only
    rw [globAnswer, and_eq_true, decide_eq_true_iff, test_globTerms]
    constructor
    · rintro ⟨hblank, hd⟩
      exact ⟨hblank, hd.mono fun _ _ => trivial⟩
    · rintro hblank hd (hstars | hlines)
      · exact ⟨hblank, hd.of_no_stars hstars⟩
      · exact ⟨hblank, hd.of_forall_mem hlines⟩

end

/-- A path with two backslashes is matched by the pattern that has a slash there. -/
theorem backslashes_match_slash :
    (matchesExecAllowlistPattern (ofString "linux") id ⟨none, none, none, none⟩ .empty (ofString "a/b")
        (ofString "a\\\\b")).map Prod.fst = some true ∧
      ¬ Derives (fun _ => True) (expanded id ⟨none, none, none, none⟩ (trim (ofString "a/b")))
        (ofString "a\\\\b") := by
  refine ⟨by decide +kernel, fun h => ?_⟩
  have hplain := (derives_plain_iff (by decide)).mp h
  exact absurd hplain (by decide)

end Foxclaw.Infra.AllowlistPattern
