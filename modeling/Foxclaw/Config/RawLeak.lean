import Foxclaw.Config.RedactRoundTrip
import Foxclaw.Config.RedactSnapshot

/-!
# What the redacted text of a config still tells

The source text of a config is redacted by replacing the secrets where they stand in it. A
secret that the text writes with an escape does not stand in it: it is left, and the check, which
restores the text and compares it with the config, does not notice, since nothing is missing.

## What is proved

* `leaks_nothing` — the text that is returned tells no secret if every secret is written out, or
  if the check falls back on the structured redaction.
* `unreached_text_returned` — a text in which no secret is written out is returned as it is.
* `escaped_secret_left` — a secret written with an escape, read in the returned text.
-/

namespace Foxclaw.Config

open Option Json

/-! ### Values below a path -/

theorem at?_str_cons (s : String) (c : Step) (p : List Step) : at? (some (.str s)) (c :: p) = none := by
  rw [at?_cons, show down (some (.str s)) c = none from rfl, at?_none]

variable {p : List Step}

theorem obj_of_at? {v x : Json} {key : String} (h : at? (some v) (.key key :: p) = some x) :
    ∃ fields v', v = .obj fields ∧ fields.lookup key = some v' ∧ at? (some v') p = some x := by
  cases v with
  | obj fields =>
    rw [at?_cons, down_obj_key] at h
    cases hk : fields.lookup key with
    | none =>
      rw [hk, at?_none] at h
      cases h
    | some v' => exact ⟨fields, v', rfl, hk, hk ▸ h⟩
  | _ =>
    rw [at?_cons, show down _ (.key key) = none from rfl, at?_none] at h
    cases h

/-! ### What the redacted text tells -/

variable (json5 : Json5) (snapshot : ConfigFileSnapshot) (hints : Option UiHints)

/-- The structured redaction replaces the string at the path: itself, or as a sensitive string of
an object that it redacts as a whole; the sentinel itself is no secret. -/
def Replaced (p : List Step) (s : String) : Prop :=
  s ≠ redactedSentinel ∧ at? (some snapshot.parsed) p = some (.str s) ∧
    ∃ q v, q <+: p ∧ at? (some (structuredRedaction snapshot hints)) q = some (.str redactedSentinel) ∧
      at? (some snapshot.parsed) q = some v ∧ (v = .str s ∨ s ∈ collectSensitiveStrings v)

/-- Read back, the returned text has no string where the structured redaction replaces it. -/
def LeaksNothing : Prop :=
  ∀ text v, (redactConfigSnapshot json5 snapshot hints).raw = some text → json5.parse text = some v →
    ∀ p s, Replaced snapshot hints p s → at? (some v) p ≠ some (.str s)

/-- The text has the characters in quotes. -/
def Quoted (text : String) (w : List Char) : Prop :=
  ∃ q : Char, (q = '"' ∨ q = '\'') ∧ q :: (w ++ [q]) <:+: text.toList

/-- The literal has a secret of the config written out in it. -/
def HasSecret (w : List Char) : Prop :=
  ∃ secret ∈ collectSensitiveValues snapshot.config hints, secret.toList <:+: w

/-- The replaced strings do not contain the sentinel, and where the text has a literal of one,
a secret is written out in it. -/
def SecretsWrittenOut (denotes : List Char → String → Prop) (raw : String) : Prop :=
  ∀ p s, Replaced snapshot hints p s →
    ¬ redactedSentinel.toList <:+: s.toList ∧
      ∀ w, Quoted raw w → denotes w s → HasSecret snapshot hints w

variable {json5 snapshot hints}

/-- The structured redaction does not have a string that it replaces. -/
theorem Replaced.not_at? {p : List Step} {s : String} (h : Replaced snapshot hints p s) :
    at? (some (structuredRedaction snapshot hints)) p ≠ some (.str s) := by
  obtain ⟨hne, -, q, -, ⟨r, rfl⟩, hq, -⟩ := h
  intro hs
  rw [at?_append, hq] at hs
  cases r with
  | nil => exact hne (Json.str.inj (some.inj hs)).symm
  | cons c r => rw [at?_str_cons] at hs; cases hs

/-- The key of a service account is replaced with the account. -/
example (raw : Option String) (cfg resolved : Json) :
    Replaced ⟨true, raw, .obj [("serviceAccount", .obj [("private_key", .str "k")])], cfg, resolved⟩ none
      [.key "serviceAccount", .key "private_key"] "k" :=
  ⟨by decide, rfl, [.key "serviceAccount"], _, ⟨_, rfl⟩, rfl, rfl, .inr (by decide)⟩

/-- The literals of the redacted text have the sentinel in them, or are of the text itself and have
no secret written out. -/
theorem quoted_redactRawText {raw : String} {w : List Char}
    (h : Quoted (redactRawText raw snapshot.config hints) w) :
    redactedSentinel.toList <:+: w ∨ (Quoted raw w ∧ ¬ HasSecret snapshot hints w) := by
  obtain ⟨q, hq, h⟩ := h
  rw [redactRawText, replaceSensitiveValuesInRaw, String.toList_ofList] at h
  have hsentinel : q ∉ redactedSentinel.toList := by
    rcases hq with rfl | rfl <;> decide
  refine (Text.quoted_foldl_replaceAll hsentinel (by decide) h).imp_right fun ⟨hraw, hno⟩ => ?_
  refine ⟨⟨q, hq, hraw⟩, fun ⟨secret, hmem, hsub⟩ => hno _ ?_ hsub⟩
  exact List.mem_map.mpr ⟨secret, (List.mem_insertionSort _).mpr hmem, rfl⟩

/-- The text that is returned: the redacted one if it passes the check (or is empty), else the
structured redaction. -/
theorem raw_redactConfigSnapshot {text : String}
    (h : (redactConfigSnapshot json5 snapshot hints).raw = some text) :
    ∃ raw, snapshot.raw = some raw ∧
      (text = json5.stringify (structuredRedaction snapshot hints) ∨
        (text = redactRawText raw snapshot.config hints ∧
          (text = "" ∨ fallsBack json5 snapshot hints text = false))) := by
  rw [redactConfigSnapshot] at h
  split at h
  · cases h
  · dsimp only at h
    obtain ⟨redacted, hredacted, htext⟩ := Option.map_eq_some_iff.mp h
    obtain ⟨raw, hraw, rfl⟩ := Option.map_eq_some_iff.mp hredacted
    refine ⟨raw, (Option.filter_eq_some_iff.mp hraw).1, ?_⟩
    split at htext
    · exact .inl htext.symm
    · rename_i hcond
      refine .inr ⟨htext.symm, htext ▸ ?_⟩
      rw [not_and_or, not_not, Bool.not_eq_true] at hcond
      exact hcond

/-- **The returned text tells no secret** if the check falls back on the structured redaction, or
if the secrets are written out in the text. -/
theorem leaks_nothing {raw : String} (hraw : snapshot.raw = some raw)
    (hround : json5.parse (json5.stringify (structuredRedaction snapshot hints)) =
      some (structuredRedaction snapshot hints))
    {denotes : List Char → String → Prop}
    (hliteral : ∀ text v p s, json5.parse text = some v → at? (some v) p = some (.str s) →
      ∃ w, Quoted text w ∧ denotes w s)
    (hsentinel : ∀ w s, denotes w s → redactedSentinel.toList <:+: w →
      redactedSentinel.toList <:+: s.toList)
    (h : fallsBack json5 snapshot hints (redactRawText raw snapshot.config hints) = true ∨
      SecretsWrittenOut snapshot hints denotes raw) : LeaksNothing json5 snapshot hints := by
  intro text v htext hparse p s hreplaced hv
  obtain ⟨raw', hraw', hreturned⟩ := raw_redactConfigSnapshot htext
  obtain rfl : raw = raw' := Option.some.inj (hraw.symm.trans hraw')
  obtain ⟨w, hquoted, hdenotes⟩ := hliteral text v p s hparse hv
  rcases hreturned with rfl | ⟨rfl, hempty | hcheck⟩
  · -- the structured redaction has the sentinel there
    rw [hround, Option.some.injEq] at hparse
    exact hreplaced.not_at? (hparse ▸ hv)
  · -- an empty text has no literal
    obtain ⟨q, -, hsub⟩ := hquoted
    rw [hempty] at hsub
    cases List.infix_nil.mp hsub
  · rw [hcheck] at h
    obtain ⟨hfree, hwritten⟩ := h.resolve_left Bool.false_ne_true p s hreplaced
    rcases quoted_redactRawText hquoted with hsub | ⟨hquoted, hno⟩
    · exact hfree (hsentinel w s hdenotes hsub)
    · exact hno (hwritten w hquoted hdenotes)

/-! ### Secrets written with an escape -/

/-- **A text without a secret written out is returned as it is**: restoring finds nothing missing. -/
theorem unreached_text_returned (hvalid : snapshot.valid = true) {raw : String}
    (hraw : snapshot.raw = some raw) (hne : raw ≠ "") (hparse : json5.parse raw = some snapshot.config)
    (hw : WF snapshot.config) (hfree : SentinelFree snapshot.config)
    (hcontainer : isContainer snapshot.config = true)
    (hno : ¬ HasSecret snapshot hints raw.toList) :
    (redactConfigSnapshot json5 snapshot hints).raw = some raw := by
  have hredacted : redactRawText raw snapshot.config hints = raw := by
    rw [redactRawText, replaceSensitiveValuesInRaw, Text.foldl_replaceAll_of_not_infix, String.ofList_toList]
    intro pattern hpattern hsub
    obtain ⟨secret, hsecret, rfl⟩ := List.mem_map.mp hpattern
    exact hno ⟨secret, (List.mem_insertionSort _).mp hsecret, hsub⟩
  have hrestored : restoreRedactedValues (some snapshot.config) snapshot.config hints =
      .ok snapshot.config := by
    have hwalk : restoreObject snapshot.config snapshot.config hints = .ok snapshot.config := by
      cases hints with
      | none => exact restoreRedactedValuesGuessing_of_free none hfree _ _
      | some hints =>
        simp only [restoreObject]
        split
        · exact restoreRedactedValuesWithLookup_of_free hints _ hfree _ _
        · exact restoreRedactedValuesGuessing_of_free _ hfree _ _
    cases hc : snapshot.config <;> rw [hc] at hcontainer hwalk <;>
      first | exact hwalk | cases hcontainer
  have hcheck : fallsBack json5 snapshot hints raw = false := by
    rw [fallsBack, shouldFallbackToStructuredRawRedaction, hparse]
    dsimp only
    rw [hrestored]
    dsimp only
    rw [(deepEqual_iff hw hw).mpr (Same.refl _)]
    rfl
  rw [redactConfigSnapshot, if_neg (by rw [hvalid]; decide), hraw]
  simp [hne, hredacted, hcheck]

/-- A config with the token of the gateway. -/
def gatewayConfig (token : String) : Json :=
  .obj [("gateway", .obj [("auth", .obj [("token", .str token)])])]

/-- The path of the token. -/
def tokenPath : List Step := [.key "gateway", .key "auth", .key "token"]

/-- A snapshot of a config, read from the text. -/
def snapshotOf (raw : String) (cfg : Json) : ConfigFileSnapshot :=
  { valid := true, raw := some raw, parsed := cfg, config := cfg, resolved := cfg }

/-- A text with the token as it is; `\x7b` and `\x7d` are braces. -/
def plainText : String := "\x7bgateway:\x7bauth:\x7btoken:\"abcdef\"\x7d\x7d\x7d"

/-- The text with an escape for the `d`. -/
def escapedText : String := "\x7bgateway:\x7bauth:\x7btoken:\"abc\\u0064ef\"\x7d\x7d\x7d"

/-- The plain text redacted. -/
def redactedText : String := "\x7bgateway:\x7bauth:\x7btoken:\"__FOXCLAW_REDACTED__\"\x7d\x7d\x7d"

/-- The redacted config as `JSON5.stringify` writes it. -/
def structuredText : String :=
  "\x7b\n  gateway: \x7b\n    auth: \x7b\n      token: '__FOXCLAW_REDACTED__',\n    \x7d,\n  \x7d,\n\x7d"

/-- What `JSON5` makes of these texts. -/
def gatewayJson5 : Json5 where
  parse text :=
    if text = plainText ∨ text = escapedText then some (gatewayConfig "abcdef")
    else if text = redactedText ∨ text = structuredText then some (gatewayConfig redactedSentinel)
    else none
  stringify _ := structuredText

/-- What the literals of these texts denote. -/
def gatewayDenotes (w : List Char) (s : String) : Prop :=
  w = s.toList ∨ (s = "abcdef" ∧ w = "abc\\u0064ef".toList)

theorem at?_of_singleton {key : String} {v : Json} {s : String}
    (h : at? (some (.obj [(key, v)])) p = some (.str s)) : ∃ p', at? (some v) p' = some (.str s) := by
  cases p with
  | nil => cases h
  | cons c p =>
    cases c with
    | index i => rw [at?_cons, down_obj_index, at?_none] at h; cases h
    | key k =>
      obtain ⟨_, v', heq, hk, h⟩ := obj_of_at? h
      obtain rfl := Json.obj.inj heq
      rw [Fields.lookup_cons] at hk
      split at hk
      · exact ⟨p, some.inj hk ▸ h⟩
      · cases hk

theorem at?_gatewayConfig {token s : String}
    (h : at? (some (gatewayConfig token)) p = some (.str s)) : s = token := by
  obtain ⟨_, h⟩ := at?_of_singleton h
  obtain ⟨_, h⟩ := at?_of_singleton h
  obtain ⟨p, h⟩ := at?_of_singleton h
  cases p with
  | nil => exact (Json.str.inj (some.inj h)).symm
  | cons c p => rw [at?_str_cons] at h; cases h

theorem gatewayJson5_literal (text : String) (v : Json) (p : List Step) (s : String)
    (hparse : gatewayJson5.parse text = some v) (hv : at? (some v) p = some (.str s)) :
    ∃ w, Quoted text w ∧ gatewayDenotes w s := by
  simp only [gatewayJson5] at hparse
  split at hparse
  · rename_i htext
    obtain rfl := some.inj hparse
    obtain rfl := at?_gatewayConfig hv
    rcases htext with rfl | rfl
    · exact ⟨_, ⟨'"', .inl rfl, by decide⟩, .inl rfl⟩
    · exact ⟨_, ⟨'"', .inl rfl, by decide⟩, .inr ⟨rfl, rfl⟩⟩
  · split at hparse
    · rename_i htext
      obtain rfl := some.inj hparse
      obtain rfl := at?_gatewayConfig hv
      rcases htext with rfl | rfl
      · exact ⟨_, ⟨'"', .inl rfl, by decide⟩, .inl rfl⟩
      · exact ⟨_, ⟨'\'', .inr rfl, by decide⟩, .inl rfl⟩
    · cases hparse

/-- The plain text, redacted. -/
theorem leaks_nothing_plainText :
    LeaksNothing gatewayJson5 (snapshotOf plainText (gatewayConfig "abcdef")) none := by
  refine @leaks_nothing gatewayJson5 (snapshotOf plainText (gatewayConfig "abcdef")) none plainText rfl
    ?_ gatewayDenotes gatewayJson5_literal ?_ (.inr ?_)
  · rfl
  · rintro w s (rfl | ⟨rfl, rfl⟩) hsub
    · exact hsub
    · exact absurd hsub (by decide)
  · intro p s hs
    obtain rfl := at?_gatewayConfig hs.2.1
    refine ⟨by decide, ?_⟩
    rintro w hquoted (rfl | ⟨-, rfl⟩)
    · exact ⟨"abcdef", by decide, by decide⟩
    · obtain ⟨q, rfl | rfl, hsub⟩ := hquoted
      · exact absurd hsub (by decide)
      · exact absurd hsub (by decide)

/-- **A secret written with an escape is left**: the text is returned as it is, and read back it
has the token. -/
theorem escaped_secret_left :
    gatewayJson5.parse escapedText = some (snapshotOf escapedText (gatewayConfig "abcdef")).parsed ∧
      ¬ LeaksNothing gatewayJson5 (snapshotOf escapedText (gatewayConfig "abcdef")) none := by
  have hparse : gatewayJson5.parse escapedText = some (gatewayConfig "abcdef") := rfl
  refine ⟨hparse, fun hleaks => ?_⟩
  refine hleaks escapedText (gatewayConfig "abcdef") ?_ hparse tokenPath "abcdef"
    ⟨by decide, rfl, tokenPath, _, List.prefix_rfl, rfl, rfl, .inl rfl⟩ rfl
  refine unreached_text_returned rfl rfl (by decide) hparse ?_ ?_ rfl ?_
  · simp [snapshotOf, gatewayConfig, WF, Json.WFFields]
  · simp [snapshotOf, gatewayConfig, SentinelFree, SentinelFreeFields, redactedSentinel]
  · rintro ⟨secret, hsecret, hsub⟩
    obtain rfl : secret = "abcdef" := List.mem_singleton.mp hsecret
    exact absurd hsub (by decide)

end Foxclaw.Config
