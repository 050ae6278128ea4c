import Mathlib.Data.List.DropRight

/-!
# Output of a background process

This module models `appendOutput` and `drainSession` of `agents/bash-process-registry.ts`: what a process
writes is gathered in two lists of chunks, until it is drained, and in one text; each keeps so many
characters as its cap says, the last ones.

## What is proved

* `capPendingBuffer_spec` — the chunks that are kept hold the last characters.
* `output_is_suffix` — over any calls, what is drained and what is kept are the last characters of what was
  written (`Written`), and `truncated` is set when there were more.
-/

namespace Foxclaw.Agents.ProcessRegistry

open List

variable {α : Type}

/-! ### The session -/

inductive Stream where
  | stdout
  | stderr
  deriving DecidableEq

/-- `pendingStdout` and `pendingStdoutChars`, or those of the other stream. -/
structure Pending (α : Type) where
  chunks : List (List α) := []
  chars : ℕ := 0

/-- A `ProcessSession`, as far as its output goes. -/
structure ProcessSession (α : Type) where
  maxOutputChars : ℕ
  pendingMaxOutputChars : Option ℕ
  pending : Stream → Pending α := fun _ => {}
  aggregated : List α := []
  truncated : Bool := false

def DEFAULT_PENDING_OUTPUT_CHARS : ℕ := 30000

def trimWithCap (text : List α) (max : ℕ) : List α :=
  if text.length ≤ max then text else text.drop (text.length - max)

/-- The `while` of `capPendingBuffer`. -/
def dropChunks (cap : ℕ) : List (List α) → ℕ → Pending α
  | [], pendingChars => ⟨[], pendingChars⟩
  | chunk :: buffer, pendingChars =>
    if cap ≤ pendingChars - chunk.length then dropChunks cap buffer (pendingChars - chunk.length)
    else ⟨chunk :: buffer, pendingChars⟩

/-- `capPendingBuffer`: the buffer, and what it returns. -/
def capPendingBuffer (buffer : List (List α)) (pendingChars cap : ℕ) : Pending α :=
  let last := buffer.getLast?.getD []
  if pendingChars ≤ cap then ⟨buffer, pendingChars⟩
  else if last ≠ [] ∧ cap ≤ last.length then ⟨[last.drop (last.length - cap)], cap⟩
  else
    match dropChunks cap buffer pendingChars with
    | ⟨[], pendingChars⟩ => ⟨[], pendingChars⟩
    | ⟨chunk :: buffer, pendingChars⟩ =>
      if cap < pendingChars then ⟨chunk.drop (pendingChars - cap) :: buffer, cap⟩
      else ⟨chunk :: buffer, pendingChars⟩

namespace ProcessSession

def pendingCap (session : ProcessSession α) : ℕ :=
  min (session.pendingMaxOutputChars.getD DEFAULT_PENDING_OUTPUT_CHARS) session.maxOutputChars

/-- A buffer with one more chunk. -/
def capped (session : ProcessSession α) (stream : Stream) (chunk : List α) : Pending α :=
  let buffer := (session.pending stream).chunks ++ [chunk]
  let pendingChars := (session.pending stream).chars + chunk.length
  if session.pendingCap < pendingChars then capPendingBuffer buffer pendingChars session.pendingCap
  else ⟨buffer, pendingChars⟩

def appendOutput (session : ProcessSession α) (stream : Stream) (chunk : List α) : ProcessSession α :=
  let aggregated := trimWithCap (session.aggregated ++ chunk) session.maxOutputChars
  { session with
    pending := Function.update session.pending stream (session.capped stream chunk)
    truncated := session.truncated || session.pendingCap < (session.pending stream).chars + chunk.length ||
      aggregated.length < session.aggregated.length + chunk.length
    aggregated }

/-- `drainSession`: what it returns. -/
def drained (session : ProcessSession α) (stream : Stream) : List α := (session.pending stream).chunks.flatten

/-- `drainSession`: the session after it. -/
def drainSession (session : ProcessSession α) : ProcessSession α := { session with pending := fun _ => {} }

end ProcessSession

inductive Call (α : Type) where
  | appendOutput (stream : Stream) (chunk : List α)
  | drainSession

/-- What the drains return, and the session after the calls. -/
def run (session : ProcessSession α) : List (Call α) → List (Stream → List α) × ProcessSession α
  | [] => ([], session)
  | .appendOutput stream chunk :: calls => run (session.appendOutput stream chunk) calls
  | .drainSession :: calls =>
    (session.drained :: (run session.drainSession calls).1, (run session.drainSession calls).2)

/-! ### What was written -/

/-- What was written since the last drain, and in all. -/
structure Written (α : Type) where
  since : Stream → List α := fun _ => []
  all : List α := []
  /-- Some character was more than a buffer or the text keeps. -/
  lost : Bool := false

/-- More is written, when so many characters are kept since a drain and in all. -/
def Written.append (w : Written α) (cap max : ℕ) (stream : Stream) (chunk : List α) : Written α where
  since := Function.update w.since stream (w.since stream ++ chunk)
  all := w.all ++ chunk
  lost := w.lost || cap < (w.since stream ++ chunk).length || max < (w.all ++ chunk).length

/-- What the drains are to return, and what was written after the calls. -/
def Written.run (cap max : ℕ) (w : Written α) : List (Call α) → List (Stream → List α) × Written α
  | [] => ([], w)
  | .appendOutput stream chunk :: calls => run cap max (w.append cap max stream chunk) calls
  | .drainSession :: calls =>
    let after := run cap max { w with since := fun _ => [] } calls
    ((fun stream => (w.since stream).rtake cap) :: after.1, after.2)

/-- A session holds what it is to hold of what was written. -/
structure Holds (session : ProcessSession α) (w : Written α) : Prop where
  pending : ∀ stream, (session.pending stream).chunks.flatten = (w.since stream).rtake session.pendingCap
  chars : ∀ stream, (session.pending stream).chars = (session.pending stream).chunks.flatten.length
  aggregated : session.aggregated = w.all.rtake session.maxOutputChars
  truncated : session.truncated = w.lost
  /-- Nothing was too long, unless something is lost. -/
  fits : w.lost = false →
    (∀ stream, (w.since stream).length ≤ session.pendingCap) ∧ w.all.length ≤ session.maxOutputChars

/-! ### The last characters -/

theorem rtake_of_length_le {l : List α} {n : ℕ} (h : l.length ≤ n) : l.rtake n = l := by
  rw [List.rtake, Nat.sub_eq_zero_of_le h, drop_zero]

theorem trimWithCap_eq (text : List α) (max : ℕ) : trimWithCap text max = text.rtake max := by
  unfold trimWithCap
  split_ifs with h
  · exact (rtake_of_length_le h).symm
  · rfl

theorem length_rtake (l : List α) (n : ℕ) : (l.rtake n).length = min n l.length := by
  rw [List.rtake, length_drop]
  omega

theorem rtake_append (a b : List α) {n : ℕ} (h : n ≤ b.length) : (a ++ b).rtake n = b.rtake n := by
  rw [List.rtake, List.rtake, drop_append, length_append, drop_eq_nil_of_le (by omega),
    nil_append]
  congr 1
  omega

theorem rtake_rtake_append (a b : List α) (n : ℕ) : (a.rtake n ++ b).rtake n = (a ++ b).rtake n := by
  rw [List.rtake, List.rtake, List.rtake, ← drop_append_of_le_length (by omega), drop_drop,
    length_drop, length_append]
  congr 1
  omega

theorem dropChunks_spec (cap : ℕ) (buffer : List (List α)) :
    (dropChunks cap buffer buffer.flatten.length).chunks.flatten.rtake cap = buffer.flatten.rtake cap ∧
      (dropChunks cap buffer buffer.flatten.length).chars =
        (dropChunks cap buffer buffer.flatten.length).chunks.flatten.length ∧
      ∀ chunk rest, (dropChunks cap buffer buffer.flatten.length).chunks = chunk :: rest →
        rest.flatten.length < cap := by
  induction buffer with
  | nil => exact ⟨rfl, rfl, fun _ _ h => by cases h⟩
  | cons chunk buffer ih =>
    have hrest : (chunk :: buffer).flatten.length - chunk.length = buffer.flatten.length := by
      rw [flatten_cons, length_append, Nat.add_sub_cancel_left]
    rw [dropChunks, hrest]
    split_ifs with h
    · rw [flatten_cons, rtake_append _ _ h]
      exact ih
    · refine ⟨rfl, rfl, ?_⟩
      rintro _ _ ⟨⟩
      exact not_le.mp h

/-- The chunks that are kept hold the last characters. -/
theorem capPendingBuffer_spec (buffer : List (List α)) {cap : ℕ} (hcap : 0 < cap) :
    (capPendingBuffer buffer buffer.flatten.length cap).chunks.flatten = buffer.flatten.rtake cap ∧
      (capPendingBuffer buffer buffer.flatten.length cap).chars = (buffer.flatten.rtake cap).length := by
  rw [length_rtake]
  unfold capPendingBuffer
  dsimp only
  split_ifs with hfew hlast
  · exact ⟨(rtake_of_length_le hfew).symm, (min_eq_right hfew).symm⟩
  · obtain ⟨front, last, rfl⟩ : ∃ front last, buffer = front ++ [last] := by
      rcases eq_nil_or_concat buffer with rfl | ⟨front, last, rfl⟩
      · exact absurd rfl hlast.1
      · exact ⟨front, last, concat_eq_append⟩
    have hgetLast : (front ++ [last]).getLast?.getD [] = last := by simp
    rw [hgetLast] at hlast ⊢
    refine ⟨?_, (min_eq_left (not_le.mp hfew).le).symm⟩
    rw [flatten_append, flatten_singleton, flatten_singleton, rtake_append _ _ hlast.2]
    rfl
  · obtain ⟨hflatten, hchars, hfirst⟩ := dropChunks_spec cap buffer
    have hlen := congrArg List.length hflatten
    rw [length_rtake, length_rtake] at hlen
    revert hflatten hchars hfirst hlen
    rcases dropChunks cap buffer buffer.flatten.length with ⟨_ | ⟨chunk, rest⟩, chars⟩
    · intro _ _ _ hlen
      rw [flatten_nil, length_nil] at hlen
      omega
    · intro hflatten hchars hfirst hlen
      have hrest := hfirst chunk rest rfl
      dsimp only at hchars hlen hflatten ⊢
      rw [flatten_cons, length_append] at hchars hlen
      rw [← hflatten, flatten_cons]
      split_ifs with hmore
      · refine ⟨?_, show cap = _ by omega⟩
        rw [flatten_cons, List.rtake, ← drop_append_of_le_length (by omega), length_append,
          hchars]
      · refine ⟨?_, show chars = _ by omega⟩
        rw [flatten_cons, rtake_of_length_le (by rw [length_append]; omega)]

/-! ### The session holds what was written -/

variable {session : ProcessSession α} {w : Written α}

@[simp] theorem pendingCap_appendOutput (stream : Stream) (chunk : List α) :
    (session.appendOutput stream chunk).pendingCap = session.pendingCap := rfl

@[simp] theorem pending_appendOutput (stream : Stream) (chunk : List α) :
    (session.appendOutput stream chunk).pending =
      Function.update session.pending stream (session.capped stream chunk) := rfl

theorem Holds.capped (h : Holds session w) (hcap : 0 < session.pendingCap) (stream : Stream) (chunk : List α) :
    (session.capped stream chunk).chunks.flatten = (w.since stream ++ chunk).rtake session.pendingCap ∧
      (session.capped stream chunk).chars = (session.capped stream chunk).chunks.flatten.length := by
  have hchars : (session.pending stream).chars + chunk.length =
      ((session.pending stream).chunks ++ [chunk]).flatten.length := by
    rw [h.chars, flatten_append, flatten_singleton, length_append]
  have hlast : ((session.pending stream).chunks ++ [chunk]).flatten.rtake session.pendingCap =
      (w.since stream ++ chunk).rtake session.pendingCap := by
    rw [flatten_append, flatten_singleton, h.pending, rtake_rtake_append]
  unfold ProcessSession.capped
  dsimp only
  rw [hchars, ← hlast]
  split_ifs with hmore
  · obtain ⟨hflatten, hlength⟩ := capPendingBuffer_spec ((session.pending stream).chunks ++ [chunk]) hcap
    exact ⟨hflatten, hlength.trans (congrArg List.length hflatten).symm⟩
  · exact ⟨(rtake_of_length_le (not_lt.mp hmore)).symm, rfl⟩

theorem Holds.appendOutput (h : Holds session w) (hcap : 0 < session.pendingCap) (stream : Stream)
    (chunk : List α) :
    Holds (session.appendOutput stream chunk)
      (w.append session.pendingCap session.maxOutputChars stream chunk) := by
  obtain ⟨hflatten, hchars⟩ := h.capped hcap stream chunk
  have haggregated : trimWithCap (session.aggregated ++ chunk) session.maxOutputChars =
      (w.all ++ chunk).rtake session.maxOutputChars := by
    rw [trimWithCap_eq, h.aggregated, rtake_rtake_append]
  refine ⟨fun other => ?_, fun other => ?_, haggregated, ?_, fun hkept => ?_⟩
  · rcases eq_or_ne other stream with rfl | hother
    · simpa [Written.append] using hflatten
    · simpa [Written.append, hother] using h.pending other
  · rcases eq_or_ne other stream with rfl | hother
    · simpa using hchars
    · simpa [hother] using h.chars other
  · simp only [ProcessSession.appendOutput, Written.append, haggregated, h.truncated, length_rtake]
    cases hlost : w.lost with
    | true => rfl
    | false =>
      -- nothing was too long before, so that the buffer and the text hold all of it
      obtain ⟨hsince, htotal⟩ := h.fits hlost
      rw [h.chars, h.pending, rtake_of_length_le (hsince stream), h.aggregated, rtake_of_length_le htotal,
        length_append, length_append]
      congr 1
      exact decide_eq_decide.mpr (by omega)
  · rw [Written.append, Bool.or_eq_false_iff, Bool.or_eq_false_iff, decide_eq_false_iff_not,
      decide_eq_false_iff_not, not_lt, not_lt] at hkept
    obtain ⟨⟨hkept, hsince⟩, htotal⟩ := hkept
    refine ⟨fun other => ?_, htotal⟩
    rcases eq_or_ne other stream with rfl | hother
    · simpa [Written.append] using hsince
    · simpa [Written.append, hother] using (h.fits hkept).1 other

theorem Holds.drainSession (h : Holds session w) :
    Holds session.drainSession { w with since := fun _ => [] } :=
  ⟨fun _ => (rtake_nil _).symm, fun _ => rfl, h.aggregated, h.truncated,
    fun hlost => ⟨fun _ => Nat.zero_le _, (h.fits hlost).2⟩⟩

/-- Over any calls the session holds what was written, and the drains return the last of it. -/
theorem run_follows (hcap : 0 < session.pendingCap) (h : Holds session w) (calls : List (Call α)) :
    (run session calls).1 = (Written.run session.pendingCap session.maxOutputChars w calls).1 ∧
      Holds (run session calls).2 (Written.run session.pendingCap session.maxOutputChars w calls).2 ∧
      (run session calls).2.pendingCap = session.pendingCap := by
  induction calls generalizing session w with
  | nil => exact ⟨rfl, h, rfl⟩
  | cons call calls ih =>
    cases call with
    | appendOutput stream chunk =>
      have hcap' : 0 < (session.appendOutput stream chunk).pendingCap := hcap
      exact ih hcap' (h.appendOutput hcap stream chunk)
    | drainSession =>
      have hcap' : 0 < session.drainSession.pendingCap := hcap
      obtain ⟨hdrains, hholds, hkept⟩ := ih hcap' h.drainSession
      exact ⟨congrArg₂ List.cons (funext h.pending) hdrains, hholds, hkept⟩

/-- **Main result.** From its start on, a session with positive caps drains and keeps the last characters of
what was written to it, and says when there were more. -/
theorem output_is_suffix (maxOutputChars : ℕ) (pendingMaxOutputChars : Option ℕ) (hmax : 0 < maxOutputChars)
    (hpending : 0 < pendingMaxOutputChars.getD DEFAULT_PENDING_OUTPUT_CHARS) (calls : List (Call α)) :
    let start : ProcessSession α := { maxOutputChars, pendingMaxOutputChars }
    let written := Written.run start.pendingCap maxOutputChars {} calls
    (run start calls).1 = written.1 ∧ Holds (run start calls).2 written.2 ∧
      ∀ stream, ((run start calls).2.pending stream).chars ≤ start.pendingCap := by
  intro start written
  have hstart : Holds start {} :=
    ⟨fun _ => (rtake_nil _).symm, fun _ => rfl, (rtake_nil _).symm, rfl,
      fun _ => ⟨fun _ => Nat.zero_le _, Nat.zero_le _⟩⟩
  obtain ⟨hdrains, hholds, hkept⟩ := run_follows (lt_min hpending hmax) hstart calls
  refine ⟨hdrains, hholds, fun stream => ?_⟩
  rw [hholds.chars, hholds.pending, hkept, length_rtake]
  exact min_le_left _ _

theorem output_is_suffix_small :
    let start : ProcessSession ℕ := { maxOutputChars := 5, pendingMaxOutputChars := some 3 }
    let calls : List (Call ℕ) := [.appendOutput .stdout [1, 2], .appendOutput .stdout [3, 4], .drainSession]
    (run start calls).1.map (· .stdout) = [[2, 3, 4]] ∧ (run start calls).2.truncated = true := by
  intro start calls
  obtain ⟨hdrains, hholds, -⟩ := output_is_suffix 5 (some 3) (by decide) (by decide) calls
  exact ⟨congrArg (List.map (· .stdout)) hdrains, hholds.truncated⟩

end Foxclaw.Agents.ProcessRegistry
