import Foxclaw.Lib.JsMap
import Mathlib.Data.Finset.Card
import Mathlib.Data.Finset.Option
import Mathlib.Algebra.Order.Floor.Ring
import Mathlib.Data.Rat.Floor

/-!
# The dedupe cache

Formalization of `src/infra/dedupe.ts`: a `Map` from keys to the times of their last recording. A key that is
recorded or hit goes to the end of the map, so that the oldest entries stand first.

## What is proved

* `Since.step` — what a call does to the entries that stand after one key.
* `dedupe_lru` — after any calls, the cache has seen the keys that the history remembers.
-/

namespace Foxclaw.Dedupe

open List JsMap

structure DedupeCacheOptions where
  ttlMs : ℚ
  maxSize : ℚ

/-- The entries of the `Map`, in order. -/
abbrev Cache := List (String × ℚ)

variable (o : DedupeCacheOptions) (cache : Cache) (key : String) (now : ℚ)

def DedupeCacheOptions.ttl : ℚ := max 0 o.ttlMs

/-- `Math.max(0, Math.floor(maxSize))`. -/
def DedupeCacheOptions.limit : ℕ := ⌊o.maxSize⌋₊

def remove : Cache := cache.filter fun e => e.1 ≠ key

def touch : Cache := setIn (remove cache key) key now

/-- The loop of `pruneMapToMaxSize`. -/
def evict (limit : ℕ) : Cache → Cache
  | [] => []
  | e :: rest => if limit < (e :: rest).length then evict limit rest else e :: rest

def pruneMapToMaxSize (limit : ℕ) : Cache := if limit = 0 then [] else evict limit cache

def prune : Cache :=
  let kept := if 0 < o.ttl then cache.filter fun e => ¬ e.2 < now - o.ttl else cache
  if o.limit = 0 then [] else pruneMapToMaxSize kept o.limit

def hasUnexpired (touchOnRead : Bool) : Bool × Cache :=
  match lookupIn cache key with
  | none => (false, cache)
  | some existing =>
    if 0 < o.ttl ∧ o.ttl ≤ now - existing then (false, remove cache key)
    else (true, if touchOnRead then touch cache key now else cache)

/-- The key, unless it is missing or empty. -/
def named (key : Option String) : Option String := key.filter (· ≠ "")

def check (key : Option String) : Bool × Cache :=
  match named key with
  | none => (false, cache)
  | some key =>
    let seen := hasUnexpired o cache key now true
    if seen.1 then seen else (false, prune o (touch seen.2 key now) now)

def peek (key : Option String) : Bool × Cache :=
  match named key with
  | none => (false, cache)
  | some key => hasUnexpired o cache key now false

/-- A call, other than of `size`. -/
inductive Op
  | check (key : Option String)
  | peek (key : Option String)
  | delete (key : Option String)
  | clear

def Op.step : Op → Cache
  | .check key => (Dedupe.check o cache now key).2
  | .peek key => (Dedupe.peek o cache now key).2
  | .delete key => (named key).elim cache (remove cache)
  | .clear => []

/-- The entries after some calls, the newest first. -/
def run : List (ℚ × Op) → Cache
  | [] => []
  | (now, op) :: h => op.step o (run h) now

/-! ### What a history remembers -/

/-- The keys that are present after a call. -/
def Op.present (s : Finset String) : Op → Finset String
  | .check key => s ∪ (named key).toFinset
  | .peek _ => s
  | .delete key => s \ (named key).toFinset
  | .clear => ∅

/-- The call neither records nor deletes the key. -/
def Op.Quiet : Op → Prop
  | .check k | .delete k => named k ≠ some key
  | .peek _ => True
  | .clear => False

/-- The key was last recorded or hit at `t`, and not deleted since. The keys `s` were recorded or hit later and are
present, and at no moment since were there `maxSize` of them. -/
inductive Recorded : List (ℚ × Op) → ℚ → Finset String → Prop
  | record {k h t} : named k = some key → 0 < o.limit → Recorded ((t, .check k) :: h) t ∅
  | quiet {now op h t s} : Recorded h t s → op.Quiet key → (op.present s).card < o.limit →
      Recorded ((now, op) :: h) t (op.present s)

/-- A key that was recorded at `t` is not too old. -/
def Fresh (t : ℚ) : Prop := o.ttl = 0 ∨ now - t < o.ttl

def Remembered (h : List (ℚ × Op)) : Prop := ∃ t s, Recorded o key h t s ∧ Fresh o now t

/-- The times of the calls do not decrease, and none is after `now`. -/
def Timed (h : List (ℚ × Op)) : Prop := (now :: h.map Prod.fst).Pairwise (· ≥ ·)

/-! ### The entries -/

variable {o cache key now} {t : ℚ} {op : Op} {s : Finset String} {h : List (ℚ × Op)}

theorem evict_eq (limit : ℕ) : evict limit cache = cache.drop (cache.length - limit) := by
  induction cache with
  | nil => exact drop_nil.symm
  | cons e rest ih =>
    rw [evict]
    split
    · rename_i hlt
      rw [ih, length_cons, Nat.succ_sub (Nat.le_of_lt_succ hlt), drop_succ_cons]
    · rename_i hle
      rw [Nat.sub_eq_zero_of_le (Nat.le_of_not_lt hle), drop_zero]

theorem touch_eq : touch cache key now = remove cache key ++ [(key, now)] :=
  setIn_of_not_mem (by simp [remove]) now

theorem nodup_touch (hn : (cache.map Prod.fst).Nodup) : ((touch cache key now).map Prod.fst).Nodup :=
  nodup_setIn (hn.sublist (filter_sublist.map _)) key now

theorem not_fresh_iff : 0 < o.ttl ∧ o.ttl ≤ now - t ↔ ¬ Fresh o now t := by
  have hpos : 0 < o.ttl ↔ o.ttl ≠ 0 := (le_max_left 0 o.ttlMs).lt_iff_ne.trans ne_comm
  rw [Fresh, not_or, not_lt, hpos]

/-- What is younger than a fresh entry is fresh, also at an earlier time. -/
theorem Fresh.mono {n u : ℚ} (h : Fresh o now t) (hn : n ≤ now) (hu : t ≤ u) : Fresh o n u :=
  h.imp_right fun h => (sub_le_sub hn hu).trans_lt h

variable (cache key now)

/-- The entries that `prune` keeps are the last ones of those that are young enough. -/
theorem prune_eq : ∃ p : String × ℚ → Bool, (∀ e, Fresh o now e.2 → p e = true) ∧
    prune o cache now = (cache.filter p).drop ((cache.filter p).length - o.limit) := by
  refine ⟨fun e => ¬ (0 < o.ttl ∧ e.2 < now - o.ttl), fun e he => ?_, ?_⟩
  · refine decide_eq_true fun hold => ?_
    rcases he with h0 | hlt
    · exact hold.1.ne' h0
    · exact lt_asymm hold.2 (sub_lt_comm.mp hlt)
  · rw [prune, pruneMapToMaxSize, evict_eq]
    by_cases hpos : 0 < o.ttl <;> by_cases h0 : o.limit = 0 <;> simp [hpos, h0]

section Call

variable {cache} (hn : (cache.map Prod.fst).Nodup)

include hn

/-- Either the key is found fresh, or it is not there afterwards. -/
theorem hasUnexpired_eq (b : Bool) :
    (∃ t, lookupIn cache key = some t ∧ Fresh o now t ∧
      hasUnexpired o cache key now b = (true, if b then touch cache key now else cache)) ∨
    (∀ t, lookupIn cache key = some t → ¬ Fresh o now t) ∧
      hasUnexpired o cache key now b = (false, remove cache key) := by
  rw [hasUnexpired]
  cases hat : lookupIn cache key with
  | none =>
    refine .inr ⟨fun _ h => (by cases h), congrArg (Prod.mk false) (filter_eq_self.mpr fun e he => ?_).symm⟩
    refine decide_eq_true fun hk => ?_
    cases hat.symm.trans (lookupIn_of_mem hn (hk ▸ he : (key, e.2) ∈ cache))
  | some t =>
    by_cases hf : Fresh o now t
    · exact .inl ⟨t, rfl, hf, if_neg fun h => not_fresh_iff.mp h hf⟩
    · exact .inr ⟨fun _ h => Option.some.inj h ▸ hf, if_pos (not_fresh_iff.mpr hf)⟩

/-- The key is found, and after a miss it is there, and old entries go. -/
theorem check_eq {k : Option String} (hk : named k = some key) :
    (∃ t, lookupIn cache key = some t ∧ Fresh o now t ∧ check o cache now k = (true, touch cache key now)) ∨
    (∀ t, lookupIn cache key = some t → ¬ Fresh o now t) ∧
      check o cache now k = (false, prune o (touch cache key now) now) := by
  rw [check, hk]
  rcases hasUnexpired_eq (o := o) key now hn true with ⟨t, hat, hf, h⟩ | ⟨hold, h⟩
  · exact .inl ⟨t, hat, hf, by simp [h]⟩
  · exact .inr ⟨hold, by simp [h, touch, remove]⟩

/-- What a call can do: nothing, a key goes, or a key is recorded. -/
theorem step_cases (op : Op) :
    (op.step o cache now = cache ∧ (∀ s, op.present s = s) ∧ ∀ key, op.Quiet key) ∨
    (∃ j, op.step o cache now = remove cache j ∧ ((∀ s, op.present s = s \ {j}) ∧ (∀ key, op.Quiet key ↔ key ≠ j) ∨
      (∀ s, op.present s = s) ∧ (∀ key, op.Quiet key) ∧ ∀ t, lookupIn cache j = some t → ¬ Fresh o now t)) ∨
    (∃ k j, op = .check k ∧ named k = some j ∧ (op.step o cache now = prune o (touch cache j now) now ∨
      op.step o cache now = touch cache j now ∧ ∃ t, lookupIn cache j = some t)) ∨ op = .clear := by
  cases op with
  | check k =>
    cases hk : named k with
    | none => exact .inl ⟨by simp [Op.step, check, hk], by simp [Op.present, hk], by simp [Op.Quiet, hk]⟩
    | some j =>
      refine .inr (.inr (.inl ⟨k, j, rfl, hk, ?_⟩))
      rcases check_eq (o := o) j now hn hk with ⟨t, hat, -, heq⟩ | ⟨-, heq⟩ <;> rw [Op.step, heq]
      · exact .inr ⟨rfl, t, hat⟩
      · exact .inl rfl
  | peek k =>
    rw [Op.step, peek]
    cases named k with
    | none => exact .inl ⟨rfl, fun _ => rfl, fun _ => trivial⟩
    | some j =>
      rcases hasUnexpired_eq (o := o) j now hn false with ⟨_, -, -, heq⟩ | ⟨hold, heq⟩
      · exact .inl ⟨congrArg Prod.snd heq, fun _ => rfl, fun _ => trivial⟩
      · exact .inr (.inl ⟨j, congrArg Prod.snd heq, .inr ⟨fun _ => rfl, fun _ => trivial, hold⟩⟩)
  | delete k =>
    cases hk : named k with
    | none => exact .inl ⟨by simp [Op.step, hk], by simp [Op.present, hk], by simp [Op.Quiet, hk]⟩
    | some j => exact .inr (.inl ⟨j, by simp [Op.step, hk], .inl ⟨by simp [Op.present, hk], by simp [Op.Quiet, hk, eq_comm]⟩⟩)
  | clear => exact .inr (.inr (.inr rfl))

variable {key now}

/-- No key is there twice, and there are not too many: after any calls. -/
theorem nodup_step (hs : cache.length ≤ o.limit) :
    ((op.step o cache now).map Prod.fst).Nodup ∧ (op.step o cache now).length ≤ o.limit := by
  have hsub : ∀ rest, rest <+ cache → (rest.map Prod.fst).Nodup ∧ rest.length ≤ o.limit := fun rest hrest =>
    ⟨hn.sublist (hrest.map _), hrest.length_le.trans hs⟩
  rcases step_cases (o := o) now hn op with
    ⟨h, -⟩ | ⟨j, h, -⟩ | ⟨k, j, rfl, -, h | ⟨h, t, hat⟩⟩ | rfl <;> try rw [h]
  · exact hsub _ (Sublist.refl _)
  · exact hsub _ filter_sublist
  · obtain ⟨p, -, hp⟩ := prune_eq (o := o) (touch cache j now) now
    refine ⟨(nodup_touch hn).sublist ((hp ▸ (drop_sublist _ _).trans filter_sublist).map _), ?_⟩
    rw [hp, length_drop]
    omega
  · have hlt : (remove cache j).length < cache.length :=
      length_filter_lt_length_iff_exists.mpr ⟨_, mem_of_lookupIn hat, by simp⟩
    exact ⟨nodup_touch hn, by simpa [touch_eq] using (Nat.succ_le_of_lt hlt).trans hs⟩
  · exact hsub _ (nil_sublist _)

/-- What is in the cache after a call was there, or was recorded by the call. -/
theorem mem_step (h : (key, t) ∈ op.step o cache now) :
    (op.Quiet key ∧ (key, t) ∈ cache) ∨ ∃ k, op = .check k ∧ named k = some key ∧ t = now := by
  have hne : ∀ j, (key, t) ∈ remove cache j → key ≠ j := fun j h => of_decide_eq_true (mem_filter.mp h).2
  rcases step_cases (o := o) now hn op with
    ⟨heq, -, hq⟩ | ⟨j, heq, ⟨-, hq⟩ | ⟨-, hq, -⟩⟩ | ⟨k, j, rfl, hk, hor⟩ | rfl
  · exact .inl ⟨hq _, heq ▸ h⟩
  · rw [heq] at h
    exact .inl ⟨(hq _).mpr (hne j h), mem_of_mem_filter h⟩
  · exact .inl ⟨hq _, mem_of_mem_filter (heq ▸ h)⟩
  · have hmem : (key, t) ∈ touch cache j now := by
      rcases hor with heq | ⟨heq, -⟩ <;> rw [heq] at h
      · obtain ⟨p, -, hp⟩ := prune_eq (o := o) (touch cache j now) now
        exact mem_of_mem_filter (mem_of_mem_drop (hp ▸ h))
      · exact h
    rcases mem_setIn hmem with heq | hmem
    · cases heq
      exact .inr ⟨k, rfl, hk, rfl⟩
    · exact .inl ⟨fun h => hne j hmem (Option.some.inj (h.symm.trans hk)), mem_of_mem_filter hmem⟩
  · cases h

end Call

variable {cache key now}

/-! ### A call and the entries after one key -/

/-- The keys of the entries after `key`, which was set at `t`, are the set. -/
def Since (cache : Cache) (key : String) (t : ℚ) (s : Finset String) : Prop :=
  ∃ l₁ l₂, cache = l₁ ++ (key, t) :: l₂ ∧ (l₂.map Prod.fst).toFinset = s ∧ ∀ e ∈ l₂, t ≤ e.2

theorem Since.mem (h : Since cache key t s) : (key, t) ∈ cache := by
  obtain ⟨l₁, l₂, rfl, -⟩ := h
  exact mem_append_right _ mem_cons_self

/-- The entries after the key are fewer than all. -/
theorem Since.card_lt (h : Since cache key t s) : s.card < cache.length := by
  obtain ⟨l₁, l₂, rfl, rfl, -⟩ := h
  have hcard := toFinset_card_le (l₂.map Prod.fst)
  simp only [length_append, length_cons, length_map] at hcard ⊢
  omega

theorem Since.remove {j : String} (h : Since cache key t s) (hk : key ≠ j) :
    Since (remove cache j) key t (s \ {j}) := by
  obtain ⟨l₁, l₂, rfl, rfl, hle⟩ := h
  refine ⟨Dedupe.remove l₁ j, Dedupe.remove l₂ j, by simp [Dedupe.remove, hk], ?_,
    fun e he => hle e (mem_of_mem_filter he)⟩
  ext i
  simp only [Dedupe.remove, mem_toFinset, mem_map, mem_filter, Finset.mem_sdiff, Finset.mem_singleton]
  aesop

theorem Since.touch {j : String} (h : Since cache key t s) (hk : key ≠ j) (ht : t ≤ now) :
    Since (touch cache j now) key t (s ∪ {j}) := by
  obtain ⟨l₁, l₂, hl, hs, hle⟩ := h.remove hk
  refine ⟨l₁, l₂ ++ [(j, now)], by simp [touch_eq, hl], by simp [hs], fun e he => ?_⟩
  rcases mem_append.mp he with he | he
  · exact hle e he
  · exact mem_singleton.mp he ▸ ht

/-- A key goes only when there are too many after it. -/
theorem Since.prune (h : Since cache key t s) (hn : (cache.map Prod.fst).Nodup) (hf : Fresh o now t)
    (hor : (key, t) ∈ prune o cache now ∨ s.card < o.limit) : Since (prune o cache now) key t s := by
  obtain ⟨p, hp, heq⟩ := prune_eq (o := o) cache now
  obtain ⟨l₁, l₂, rfl, rfl, hle⟩ := h
  rw [filter_append, filter_cons_of_pos (hp _ hf),
    filter_eq_self.mpr fun e he => hp e (hf.mono le_rfl (hle e he))] at heq
  rw [map_append, map_cons, nodup_append, nodup_cons] at hn
  rw [toFinset_card_of_nodup hn.2.1.2, length_map] at hor
  rw [heq, drop_append] at *
  generalize hm : (filter p l₁ ++ (key, t) :: l₂).length - o.limit - (filter p l₁).length = m at *
  cases m with
  | zero => exact ⟨_, l₂, rfl, rfl, hle⟩
  | succ m =>
    rw [length_append, length_cons] at *
    rw [drop_eq_nil_of_le (by omega), nil_append, drop_succ_cons] at hor
    rcases hor with hmem | hlt
    · exact absurd (mem_map_of_mem (f := Prod.fst) (mem_of_mem_drop hmem)) hn.2.1.1
    · omega

/-- The entries after a key that a call does not touch are those of the history. -/
theorem Since.step (h : Since cache key t s) (hn : (cache.map Prod.fst).Nodup) (ht : t ≤ now) (hf : Fresh o now t)
    (hq : op.Quiet key) (hor : (key, t) ∈ op.step o cache now ∨ (op.present s).card < o.limit) :
    Since (op.step o cache now) key t (op.present s) := by
  rcases step_cases (o := o) now hn op with
    ⟨heq, hp, -⟩ | ⟨j, heq, ⟨hp, hq'⟩ | ⟨hp, -, hold⟩⟩ | ⟨k, j, rfl, hk, hor'⟩ | rfl
  · rwa [heq, hp]
  · rw [heq, hp]
    exact h.remove ((hq' _).mp hq)
  · have hj : key ≠ j := fun hj => hold t (lookupIn_of_mem hn (hj ▸ h.mem)) hf
    have hs : j ∉ s := by
      obtain ⟨l₁, l₂, rfl, rfl, hle⟩ := h
      intro hmem
      obtain ⟨e, he, rfl⟩ := mem_map.mp (mem_toFinset.mp hmem)
      exact hold e.2 (lookupIn_of_mem hn (mem_append_right _ (mem_cons_of_mem _ he))) (hf.mono le_rfl (hle e he))
    rw [heq, hp, ← Finset.erase_eq_of_notMem hs, ← Finset.sdiff_singleton_eq_erase]
    exact h.remove hj
  · have hj := h.touch (fun hj => hq (hk.trans (congrArg some hj.symm)) : key ≠ j) ht
    rw [Op.present, hk] at hor ⊢
    rcases hor' with heq | ⟨heq, -⟩ <;> rw [heq] at hor ⊢
    · exact hj.prune (nodup_touch hn) hf hor
    · exact hj
  · exact hq.elim

theorem Since.record {k : Option String} (hk : named k = some key) (hn : (cache.map Prod.fst).Nodup)
    (hf : Fresh o now now) (hlim : 0 < o.limit) : Since (check o cache now k).2 key now ∅ := by
  have hlast : Since (Dedupe.touch cache key now) key now ∅ :=
    ⟨Dedupe.remove cache key, [], touch_eq, rfl, fun _ h => (by cases h)⟩
  rcases check_eq (o := o) key now hn hk with ⟨_, -, -, heq⟩ | ⟨-, heq⟩ <;> rw [heq]
  · exact hlast
  · exact hlast.prune (nodup_touch hn) hf (.inr hlim)

/-! ### Runs -/

theorem Timed.of_cons (h' : Timed now ((t, op) :: h)) : t ≤ now ∧ Timed t h :=
  (pairwise_cons.mp h').imp (fun h => h t mem_cons_self) id

theorem nodup_run (h : List (ℚ × Op)) : ((run o h).map Prod.fst).Nodup ∧ (run o h).length ≤ o.limit := by
  induction h with
  | nil => exact ⟨nodup_nil, Nat.zero_le _⟩
  | cons e h ih => exact nodup_step ih.1 ih.2

theorem Recorded.le (hr : Recorded o key h t s) (ht : Timed now h) : t ≤ now := by
  induction hr generalizing now with
  | record => exact ht.of_cons.1
  | quiet _ _ _ ih => exact (ih ht.of_cons.2).trans ht.of_cons.1

/-- A key that the history remembers is in the cache, with the keys after it. -/
theorem Recorded.since (hr : Recorded o key h t s) (ht : Timed now h) (hf : Fresh o now t) :
    Since (run o h) key t s := by
  induction hr generalizing now with
  | record hk hlim => exact .record hk (nodup_run _).1 (hf.mono ht.of_cons.1 le_rfl) hlim
  | quiet hr hq hlt ih =>
    obtain ⟨hle, ht⟩ := ht.of_cons
    have hf' := hf.mono hle le_rfl
    exact (ih ht hf').step (nodup_run _).1 (hr.le ht) hf' hq (.inr hlt)

/-- What is in the cache, and is not too old, is remembered. -/
theorem exists_recorded (ht : Timed now h) (hf : Fresh o now t) (hmem : (key, t) ∈ run o h) :
    ∃ s, Recorded o key h t s := by
  induction h generalizing now with
  | nil => cases hmem
  | cons e h ih =>
    obtain ⟨n, op⟩ := e
    obtain ⟨hle, ht⟩ := ht.of_cons
    have hf' := hf.mono hle le_rfl
    have hsize := (nodup_run (o := o) ((n, op) :: h)).2
    rcases mem_step (nodup_run h).1 hmem with ⟨hq, hmem'⟩ | ⟨k, rfl, hk, rfl⟩
    · obtain ⟨s, hr⟩ := ih ht hf' hmem'
      have hstep := (hr.since ht hf').step (nodup_run h).1 (hr.le ht) hf' hq (.inl hmem)
      exact ⟨_, hr.quiet hq (hstep.card_lt.trans_le hsize)⟩
    · exact ⟨∅, .record hk ((length_pos_of_mem hmem).trans_le hsize)⟩

theorem check_fst (key : Option String) : (check o cache now key).1 = (peek o cache now key).1 := by
  rw [check, peek]
  cases named key with
  | none => rfl
  | some key =>
    simp only [hasUnexpired]
    cases lookupIn cache key with
    | none => rfl
    | some t => dsimp only; split <;> rfl

/-- The cache is a set of the keys last seen, with expiry. -/
theorem dedupe_lru (o : DedupeCacheOptions) (ho : 0 < o.maxSize) (h : List (ℚ × Op)) (now : ℚ) (ht : Timed now h)
    (key : Option String) :
    ((check o (run o h) now key).1 = true ↔ ∃ k, named key = some k ∧ Remembered o k now h) ∧
    ((peek o (run o h) now key).1 = true ↔ ∃ k, named key = some k ∧ Remembered o k now h) ∧
    ((check o (run o h) now key).1 = false → ((check o (run o h) now key).2.length : ℚ) ≤ o.maxSize) := by
  rw [check_fst, ← and_assoc, and_self]
  refine ⟨?_, fun _ => (Nat.cast_le.mpr (nodup_run ((now, .check key) :: h)).2).trans (Nat.floor_le ho.le)⟩
  rw [peek]
  cases named key with
  | none => simp
  | some k =>
    have hn := (nodup_run (o := o) h).1
    simp only [Option.some.injEq, exists_eq_left']
    rcases hasUnexpired_eq (o := o) k now hn false with ⟨t, hat, hf, heq⟩ | ⟨hold, heq⟩ <;> rw [heq]
    · obtain ⟨s, hr⟩ := exists_recorded ht hf (mem_of_lookupIn hat)
      exact iff_of_true rfl ⟨t, s, hr, hf⟩
    · exact iff_of_false Bool.false_ne_true fun ⟨t, s, hr, hf⟩ => hold t (lookupIn_of_mem hn (hr.since ht hf).mem) hf

theorem dedupe_lru_once : (check ⟨1000, 2⟩ (run ⟨1000, 2⟩ [(0, .check (some "a"))]) 5 (some "a")).1 = true :=
  (dedupe_lru ⟨1000, 2⟩ (by decide) [(0, .check (some "a"))] 5 (by simp [Timed]) (some "a")).1.mpr
    ⟨"a", by decide, 0, ∅, .record (by decide) (by decide +kernel), .inr (by decide +kernel)⟩

end Foxclaw.Dedupe
