import Mathlib.Data.List.Basic

/-!
# Scanning a text for tokens

A scanner goes over a text from left to right. Where a token begins it takes it and goes on
after it; any other character it takes by itself. A loop over the text that treats tokens and
other characters in its own way is a fold over what the scanner finds.

## What is proved

* `flatMap_scan` — the tokens and the characters, put together, are the text.
* `foldr_scan` — a loop with the steps of a scanner is a fold.
* `scan_of_forall` — a text in which no token begins.
-/

namespace Foxclaw.Scan

open List

universe u v w

variable {α : Type u} {β : Type v} {γ : Type w}

/-- A scanner's token: `token? cs` is the token at the start of `cs`, and how many characters
it has after the first. -/
abbrev Token? (α : Type u) (β : Type v) := List α → Option (β × ℕ)

/-- The tokens and the other characters of a text; so many characters are still part of the
last token. -/
def scan (token? : Token? α β) : ℕ → List α → List (β ⊕ α)
  | _, [] => []
  | skip + 1, _ :: rest => scan token? skip rest
  | 0, c :: rest => match token? (c :: rest) with
    | some (token, more) => .inl token :: scan token? more rest
    | none => .inr c :: scan token? 0 rest

/-- The text of a token or of a character. -/
def pieceText (text : β → List α) : β ⊕ α → List α
  | .inl token => text token
  | .inr c => [c]

/-- The tokens have this text. -/
def HasText (token? : Token? α β) (text : β → List α) : Prop :=
  ∀ c rest token more, token? (c :: rest) = some (token, more) → text token = c :: rest.take more

variable {token? : Token? α β}

/-- What a scanner finds, put together, is the text. -/
theorem flatMap_scan {text : β → List α} (htext : HasText token? text)
    (skip : ℕ) (cs : List α) : (scan token? skip cs).flatMap (pieceText text) = cs.drop skip := by
  induction cs generalizing skip with
  | nil => simp [scan]
  | cons c rest ih =>
    cases skip with
    | succ skip => rw [scan, ih, drop_succ_cons]
    | zero =>
      rw [scan, drop_zero]
      cases ht : token? (c :: rest) with
      | none => simp [pieceText, ih]
      | some t =>
        obtain ⟨token, more⟩ := t
        simp [pieceText, ih, htext c rest token more ht]

/-- A loop with the steps of a scanner is a fold over what it finds. -/
theorem foldr_scan {loop : ℕ → List α → γ} {step : β ⊕ α → γ → γ} {last : γ}
    (hnil : ∀ skip, loop skip [] = last)
    (hskip : ∀ skip c rest, loop (skip + 1) (c :: rest) = loop skip rest)
    (hstep : ∀ c rest, loop 0 (c :: rest) = match token? (c :: rest) with
      | some (token, more) => step (.inl token) (loop more rest)
      | none => step (.inr c) (loop 0 rest))
    (skip : ℕ) (cs : List α) : loop skip cs = (scan token? skip cs).foldr step last := by
  induction cs generalizing skip with
  | nil => rw [hnil, scan, foldr_nil]
  | cons c rest ih =>
    cases skip with
    | succ skip => rw [hskip, ih, scan]
    | zero =>
      rw [hstep, scan]
      cases ht : token? (c :: rest) with
      | none => simp [ih]
      | some t =>
        obtain ⟨token, more⟩ := t
        simp [ih]

/-- A text in which no token begins. -/
theorem scan_of_forall {cs : List α}
    (h : ∀ c rest, c :: rest <:+ cs → token? (c :: rest) = none) : scan token? 0 cs = cs.map .inr := by
  induction cs with
  | nil => rfl
  | cons c rest ih =>
    rw [scan, h c rest (suffix_refl _), map_cons,
      ih fun c' rest' hs => h c' rest' (hs.trans (suffix_cons _ _))]

/-- A token that is found begins somewhere in the text. -/
theorem exists_of_mem_scan {skip : ℕ} {cs : List α} {token : β} (h : .inl token ∈ scan token? skip cs) :
    ∃ c rest more, c :: rest <:+ cs ∧ token? (c :: rest) = some (token, more) := by
  induction cs generalizing skip with
  | nil => cases h
  | cons c rest ih =>
    have hrest : ∀ {skip}, .inl token ∈ scan token? skip rest →
        ∃ c' rest' more, c' :: rest' <:+ c :: rest ∧ token? (c' :: rest') = some (token, more) := by
      intro skip hm
      obtain ⟨c', rest', more, hs, ht⟩ := ih hm
      exact ⟨c', rest', more, hs.trans (suffix_cons _ _), ht⟩
    cases skip with
    | succ skip => exact hrest h
    | zero =>
      rw [scan] at h
      cases ht : token? (c :: rest) with
      | none =>
        rw [ht] at h
        rcases mem_cons.mp h with he | hm
        · cases he
        · exact hrest hm
      | some t =>
        obtain ⟨token', more⟩ := t
        rw [ht] at h
        rcases mem_cons.mp h with he | hm
        · obtain rfl := Sum.inl.inj he
          exact ⟨c, rest, more, suffix_refl _, ht⟩
        · exact hrest hm

end Foxclaw.Scan
