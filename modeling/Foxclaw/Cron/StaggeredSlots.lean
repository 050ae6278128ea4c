import Foxclaw.Cron.Jobs
import Mathlib.Algebra.Order.Group.Int
import Mathlib.Data.Set.Basic
import Mathlib.Order.Bounds.Defs

/-!
# Cron: staggered slots

A job of a cron expression runs at a fixed offset after the slots of the expression. The slots are those
that the library finds (`FindsSlots`): the least one after a time and the greatest one before it.

* `staggered_slots` — the next and the previous run of a job are the nearest slots shifted by its offset.
-/

namespace Foxclaw.Cron

/-- The first slot after a time, if there is one. -/
def FirstAfter (slots : Set ℤ) (t : ℤ) (r : Option ℤ) : Prop :=
  ∀ n, r = some n ↔ IsLeast {s ∈ slots | t < s} n

/-- The last slot before a time, if there is one. -/
def LastBefore (slots : Set ℤ) (t : ℤ) (r : Option ℤ) : Prop :=
  ∀ n, r = some n ↔ IsGreatest {s ∈ slots | s < t} n

/-- The library finds the slots of an expression; there are none for an empty one. -/
def FindsSlots (deps : CronDeps) (expr : String) (tz : Option String) (slots : Set ℤ) : Prop :=
  match resolveCronFromSchedule expr tz with
  | none => slots = ∅
  | some (expr, tz) => ∀ t,
    (∃ r, deps.nextRun expr tz t = .ok r ∧ FirstAfter slots t r) ∧
      ∃ r, deps.previousRun expr tz t = .ok r ∧ LastBefore slots t r

variable {deps : CronDeps} {expr : String} {tz : Option String} {staggerMs : Option ℤ} {slots : Set ℤ}
  {t d : ℤ} {r : Option ℤ}

/-! ### The base schedule -/

theorem computeNextRunAtMs_slots (h : FindsSlots deps expr tz slots) (t : ℤ) :
    ∃ r, computeNextRunAtMs deps (.cron expr tz staggerMs) t = .ok r ∧ FirstAfter slots t r := by
  unfold FindsSlots at h
  unfold computeNextRunAtMs
  split at h <;> rename_i hr <;> simp only [hr]
  · exact ⟨none, rfl, by simp [FirstAfter, IsLeast, h]⟩
  · obtain ⟨⟨r, hnext, hfirst⟩, -⟩ := h t
    refine ⟨r, ?_, hfirst⟩
    cases r with
    | none => rw [hnext]; rfl
    | some n =>
      have hlt : ¬ n ≤ t := not_le.mpr ((hfirst n).mp rfl).1.2
      rw [hnext]
      exact if_neg hlt

theorem computePreviousRunAtMs_slots (h : FindsSlots deps expr tz slots) (t : ℤ) :
    ∃ r, computePreviousRunAtMs deps (.cron expr tz staggerMs) t = .ok r ∧ LastBefore slots t r := by
  unfold FindsSlots at h
  unfold computePreviousRunAtMs
  split at h <;> rename_i hr <;> simp only [hr]
  · exact ⟨none, rfl, by simp [LastBefore, IsGreatest, h]⟩
  · obtain ⟨-, r, hprevious, hlast⟩ := h t
    refine ⟨r, ?_, hlast⟩
    rw [hprevious]
    cases r with
    | none => rfl
    | some n =>
      have hlt : n < t := ((hlast n).mp rfl).1.2
      exact congrArg Except.ok (if_pos (by simpa using hlt))

/-! ### The shift -/

theorem map_add_eq_some {n : ℤ} : r.map (· + d) = some n ↔ r = some (n - d) := by
  cases r with
  | none => simp
  | some m => simp only [Option.map_some, Option.some.injEq]; omega

/-- The slots, each so much later. -/
def shifted (slots : Set ℤ) (d : ℤ) : Set ℤ := {s | s - d ∈ slots}

theorem FirstAfter.shift (h : FirstAfter slots (t - d) r) :
    FirstAfter (shifted slots d) t (r.map (· + d)) := by
  intro n
  rw [map_add_eq_some, h]
  constructor
  · rintro ⟨⟨hn, hlt⟩, hle⟩
    refine ⟨⟨hn, by omega⟩, fun s ⟨hs, hlt'⟩ => ?_⟩
    have := hle ⟨hs, by omega⟩
    omega
  · rintro ⟨⟨hn, hlt⟩, hle⟩
    refine ⟨⟨hn, by omega⟩, fun s ⟨hs, hlt'⟩ => ?_⟩
    have := @hle (s + d) ⟨by simpa [shifted, Int.add_sub_cancel] using hs, by omega⟩
    omega

theorem LastBefore.shift (h : LastBefore slots (t - d) r) :
    LastBefore (shifted slots d) t (r.map (· + d)) := by
  intro n
  rw [map_add_eq_some, h]
  constructor
  · rintro ⟨⟨hn, hlt⟩, hle⟩
    refine ⟨⟨hn, by omega⟩, fun s ⟨hs, hlt'⟩ => ?_⟩
    have := hle ⟨hs, by omega⟩
    omega
  · rintro ⟨⟨hn, hlt⟩, hle⟩
    refine ⟨⟨hn, by omega⟩, fun s ⟨hs, hlt'⟩ => ?_⟩
    have := @hle (s + d) ⟨by simpa [shifted, Int.add_sub_cancel] using hs, by omega⟩
    omega

/-! ### Staggered runs -/

/-- The offset of a job with the expression. -/
def staggerOf (deps : CronDeps) (id expr : String) (staggerMs : Option ℤ) : ℤ :=
  resolveStableCronOffsetMs deps id (resolveCronStaggerMs expr staggerMs)

variable {job : CronJob} {now : ℤ}

/-- **The runs of a job are the slots shifted by its offset**: the first attempt finds the nearest, before
and after, so that none is skipped and the attempts do not run out. -/
theorem staggered_slots (hjob : job.schedule = .cron expr tz staggerMs)
    (h : FindsSlots deps expr tz slots) (hnow : staggerOf deps job.id expr staggerMs ≤ now) :
    (∃ r, computeStaggeredCronNextRunAtMs deps job now = .ok r ∧
      FirstAfter (shifted slots (staggerOf deps job.id expr staggerMs)) now r) ∧
    ∃ r, computeStaggeredCronPreviousRunAtMs deps job now = .ok r ∧
      LastBefore (shifted slots (staggerOf deps job.id expr staggerMs)) now r := by
  have hoffset : 0 ≤ staggerOf deps job.id expr staggerMs := by
    unfold staggerOf resolveStableCronOffsetMs
    split_ifs
    · exact le_rfl
    · exact Int.emod_nonneg _ (by omega)
  unfold computeStaggeredCronNextRunAtMs computeStaggeredCronPreviousRunAtMs
  rw [hjob]
  dsimp only
  generalize hd : staggerOf deps job.id expr staggerMs = d at *
  unfold staggerOf at hd
  rw [hd]
  obtain ⟨r, hr, hfirst⟩ := @computeNextRunAtMs_slots _ _ _ staggerMs _ h (now - d)
  obtain ⟨q, hq, hlast⟩ := @computePreviousRunAtMs_slots _ _ _ staggerMs _ h (now - d)
  have hcursor : max 0 (now - d) = now - d := max_eq_right (by omega)
  rw [hcursor]
  split_ifs with hzero
  · obtain rfl : d = 0 := by omega
    rw [Int.sub_zero] at hr hq
    exact ⟨⟨_, hr, by simpa [shifted] using hfirst⟩, _, hq, by simpa [shifted] using hlast⟩
  · refine ⟨⟨_, ?_, hfirst.shift⟩, _, ?_, hlast.shift⟩
    · rw [staggeredNext, hr]
      cases r with
      | none => rfl
      | some n => exact if_pos (by have := ((hfirst n).mp rfl).1.2; omega)
    · rw [staggeredPrevious, hq]
      cases q with
      | none => rfl
      | some n => exact if_pos (by have := ((hlast n).mp rfl).1.2; omega)

/-- A library that knows every minute; all jobs have the offset 5 ms. -/
def minutes : CronDeps where
  nextRun := fun _ _ t => .ok (some (t / 60000 * 60000 + 60000))
  previousRun := fun _ _ t => .ok (some ((t - 1) / 60000 * 60000))
  digest := fun _ => 5

/-- A job that runs every minute. -/
def minuteJob : CronJob where
  id := "job"
  enabled := true
  deleteAfterRun := none
  createdAtMs := some 0
  updatedAtMs := 0
  schedule := .cron "* * * * *" none (some 10)
  state := .empty

/-- At the offset itself the next run is a minute later; the previous one was a minute ago. -/
theorem staggered_slots_minutes :
    ∃ r, computeStaggeredCronNextRunAtMs minutes minuteJob 5 = .ok r ∧
      FirstAfter (shifted {s : ℤ | 60000 ∣ s} 5) 5 r := by
  have h : FindsSlots minutes "* * * * *" none {s : ℤ | 60000 ∣ s} := by
    intro t
    refine ⟨⟨_, rfl, fun n => ?_⟩, _, rfl, fun n => ?_⟩
    · rw [Option.some.injEq]
      constructor
      · rintro rfl
        refine ⟨⟨⟨t / 60000 + 1, by omega⟩, by omega⟩, fun s ⟨⟨k, hk⟩, hlt⟩ => by omega⟩
      · rintro ⟨⟨⟨k, rfl⟩, hlt⟩, hle⟩
        have := hle ⟨⟨t / 60000 + 1, rfl⟩, by omega⟩
        omega
    · rw [Option.some.injEq]
      constructor
      · rintro rfl
        refine ⟨⟨⟨(t - 1) / 60000, by omega⟩, by omega⟩, fun s ⟨⟨k, hk⟩, hlt⟩ => by omega⟩
      · rintro ⟨⟨⟨k, rfl⟩, hlt⟩, hle⟩
        have := hle ⟨⟨(t - 1) / 60000, rfl⟩, by omega⟩
        omega
  exact (@staggered_slots _ _ _ _ _ minuteJob _ rfl h (by decide +kernel)).1

end Foxclaw.Cron
