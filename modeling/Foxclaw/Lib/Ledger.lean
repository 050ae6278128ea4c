import Mathlib.Data.List.Sort
import Mathlib.Data.Multiset.UnionInter

/-!
# A ledger of queued work

What a keyed queue of numbered work items owes to those who hand work in: each item is
accepted into the queue of its key or refused; an accepted item is started from the head
of its queue or discarded with the whole queue; a started item is settled once.

A `Ledger` is the state of the books and a `Ledger.Step` one entry in them. `Ledger.Ok` is
the invariant; what it says of the books is stated after it: no item is settled twice or
started twice, an item handed in is refused or accepted, an accepted one is in exactly one
place, and items of one key are started in the order they were accepted.

A component is verified against the ledger by showing that each of its steps makes at most
one entry.
-/

namespace Foxclaw

open List

universe u v

/-- How an item was settled. -/
inductive Ledger.Fate (ω : Type v) where
  /-- It was started, and this came of it. -/
  | done (o : ω)
  /-- It was discarded while it waited. -/
  | cleared
  /-- It was refused when it was handed in. -/
  | refused
  deriving DecidableEq

/-- The books of a keyed queue. Items are numbered as they are handed in. -/
@[ext]
structure Ledger (κ : Type u) (ω : Type v) where
  /-- The items waiting under each key, first to start first. -/
  queue : κ → List ℕ
  /-- The items started and not settled. -/
  owed : Multiset ℕ
  next : ℕ
  accepted : List (κ × ℕ)
  started : List (κ × ℕ)
  /-- The items settled, in order, with what became of them. -/
  settled : List (ℕ × Ledger.Fate ω)

namespace Ledger

variable {κ : Type u} {ω : Type v} [DecidableEq κ]

def empty : Ledger κ ω := ⟨fun _ => [], 0, 0, [], [], []⟩

/-- The items of a key in a list, in the list's order. -/
def itemsOf (k : κ) (l : List (κ × ℕ)) : List ℕ := (l.filter (·.1 = k)).map (·.2)

variable (l : Ledger κ ω)

def refuse : Ledger κ ω :=
  { l with next := l.next + 1, settled := l.settled ++ [(l.next, .refused)] }

/-- An item is accepted under a key. -/
def accept (k : κ) : Ledger κ ω :=
  { l with
    queue := Function.update l.queue k (l.queue k ++ [l.next])
    next := l.next + 1
    accepted := l.accepted ++ [(k, l.next)] }

def start (k : κ) (e : ℕ) : Ledger κ ω :=
  { l with
    queue := Function.update l.queue k (l.queue k).tail
    owed := e ::ₘ l.owed
    started := l.started ++ [(k, e)] }

def settle (e : ℕ) (o : ω) : Ledger κ ω :=
  { l with owed := l.owed.erase e, settled := l.settled ++ [(e, .done o)] }

/-- The items waiting under a key are discarded. -/
def clear (k : κ) : Ledger κ ω :=
  { l with
    queue := Function.update l.queue k []
    settled := l.settled ++ (l.queue k).map (·, .cleared) }

/-- One entry in the books, or none. -/
inductive Step : Ledger κ ω → Ledger κ ω → Prop where
  /-- Nothing to enter. -/
  | none {l : Ledger κ ω} : Step l l
  | refuse {l : Ledger κ ω} : Step l l.refuse
  | accept {l : Ledger κ ω} (k : κ) : Step l (l.accept k)
  /-- The first item of a key is started. -/
  | start {l : Ledger κ ω} {k : κ} {e : ℕ} (he : (l.queue k).head? = some e) :
      Step l (l.start k e)
  | settle {l : Ledger κ ω} {e : ℕ} (he : e ∈ l.owed) (o : ω) : Step l (l.settle e o)
  /-- The items waiting under a key are discarded. -/
  | clear {l : Ledger κ ω} (k : κ) : Step l (l.clear k)

/-- The books are in order. -/
structure Ok (l : Ledger κ ω) : Prop where
  /-- An item handed in was accepted or refused. -/
  handed : ∀ e < l.next, (∃ k, (k, e) ∈ l.accepted) ∨ (e, .refused) ∈ l.settled
  /-- A refused item was not accepted. -/
  barred : ∀ p ∈ l.accepted, (p.2, .refused) ∉ l.settled
  /-- Items are numbered in the order they are accepted. -/
  sorted : (l.accepted.map (·.2)).Pairwise (· < ·)
  fresh : ∀ p ∈ l.accepted, p.2 < l.next
  /-- The next number is new to the settled and the owed items. -/
  freshDone : ∀ e, e ∈ l.settled.map (·.1) ∨ e ∈ l.owed → e < l.next
  /-- A waiting item was accepted under its key. -/
  queued : ∀ k, ∀ e ∈ l.queue k, (k, e) ∈ l.accepted
  /-- A started item was accepted under its key. -/
  begun : ∀ p ∈ l.started, p ∈ l.accepted
  /-- Under each key, the started items and then the waiting ones are in order. -/
  order : ∀ k, (itemsOf k l.started ++ l.queue k).Pairwise (· < ·)
  /-- An accepted item was started, waits, or was discarded. -/
  accounted : ∀ p ∈ l.accepted, p ∈ l.started ∨ p.2 ∈ l.queue p.1 ∨ (p.2, .cleared) ∈ l.settled
  /-- No item is settled twice, or settled and owed. -/
  once : ((l.settled.map (·.1) : Multiset ℕ) + l.owed).Nodup
  /-- A settled or owed item does not wait. -/
  gone : ∀ e, e ∈ l.settled.map (·.1) ∨ e ∈ l.owed → ∀ k, e ∉ l.queue k
  /-- A discarded item was not started. -/
  discarded : ∀ p ∈ l.started, (p.2, .cleared) ∉ l.settled

variable {l l' : Ledger κ ω}

theorem Ok.empty : Ok (empty : Ledger κ ω) := by
  constructor <;> simp [Ledger.empty, itemsOf]

variable {e : ℕ}

/-- An item is accepted under one key only. -/
theorem Ok.key_unique (h : Ok l) {k k' : κ} (h₁ : (k, e) ∈ l.accepted)
    (h₂ : (k', e) ∈ l.accepted) : k = k' := by
  have hnd : (l.accepted.map (·.2)).Nodup := h.sorted.imp fun hlt => Nat.ne_of_lt hlt
  exact congrArg Prod.fst (inj_on_of_nodup_map hnd h₁ h₂ rfl)

variable {k : κ}

theorem mem_itemsOf {ps : List (κ × ℕ)} : e ∈ itemsOf k ps ↔ (k, e) ∈ ps := by
  simp [itemsOf]

theorem itemsOf_append (k : κ) (ps qs : List (κ × ℕ)) :
    itemsOf k (ps ++ qs) = itemsOf k ps ++ itemsOf k qs := by simp [itemsOf]

theorem itemsOf_singleton (k k' : κ) (e : ℕ) : itemsOf k [(k', e)] = if k' = k then [e] else [] := by
  by_cases h : k' = k <;> simp [itemsOf, h]

variable (h : Ok l)
include h

/-- A started item does not wait. -/
theorem Ok.started_not_queued {k k' : κ} (hs : (k, e) ∈ l.started) (hq : e ∈ l.queue k') : False := by
  obtain rfl := h.key_unique (h.begun _ hs) (h.queued _ _ hq)
  exact Nat.lt_irrefl e ((pairwise_append.mp (h.order k)).2.2 e (mem_itemsOf.mpr hs) e hq)

/-! ### One entry keeps the books in order -/

theorem Ok.refuse : Ok l.refuse where
  handed := by
    intro e he
    simp only [Ledger.refuse, mem_append, mem_singleton]
    rcases Nat.lt_succ_iff_lt_or_eq.mp he with he | rfl
    · exact (h.handed e he).imp_right .inl
    · exact .inr (.inr rfl)
  barred := by
    intro p hp hm
    simp only [Ledger.refuse, mem_append, mem_singleton, Prod.mk.injEq, and_true] at hm
    exact hm.elim (h.barred p hp) fun hm => Nat.ne_of_lt (h.fresh p hp) hm
  sorted := h.sorted
  fresh := fun p hp => Nat.lt_succ_of_lt (h.fresh p hp)
  freshDone := by
    intro e he
    simp only [Ledger.refuse, map_append, map_cons, map_nil, mem_append, mem_singleton] at he ⊢
    obtain (he | rfl) | he := he
    · exact Nat.lt_succ_of_lt (h.freshDone e (.inl he))
    · exact Nat.lt_succ_self _
    · exact Nat.lt_succ_of_lt (h.freshDone e (.inr he))
  queued := h.queued
  begun := h.begun
  order := h.order
  accounted := fun p hp => (h.accounted p hp).imp_right (Or.imp_right (mem_append_left _))
  once := by
    have hn : l.next ∉ (l.settled.map (·.1) : Multiset ℕ) + l.owed := fun hm => by
      rw [Multiset.mem_add, Multiset.mem_coe] at hm
      exact Nat.lt_irrefl _ (h.freshDone _ hm)
    have := Multiset.nodup_cons.mpr ⟨hn, h.once⟩
    simpa only [Ledger.refuse, map_append, map_cons, map_nil, ← Multiset.coe_add,
      Multiset.coe_singleton, Multiset.add_assoc, Multiset.singleton_add, Multiset.add_cons] using this
  gone := by
    intro e he k hq
    simp only [Ledger.refuse, map_append, map_cons, map_nil, mem_append, mem_singleton] at he hq
    obtain (he | rfl) | he := he
    · exact h.gone e (.inl he) k hq
    · exact Nat.lt_irrefl _ (h.fresh _ (h.queued k _ hq))
    · exact h.gone e (.inr he) k hq
  discarded := by
    intro p hp hm
    simp only [Ledger.refuse, mem_append, mem_singleton, Prod.mk.injEq, reduceCtorEq,
      and_false, or_false] at hm
    exact h.discarded p hp hm

theorem Ok.accept (k : κ) : Ok (l.accept k) where
  handed := by
    intro e he
    simp only [Ledger.accept, mem_append, mem_singleton]
    rcases Nat.lt_succ_iff_lt_or_eq.mp he with he | rfl
    · exact (h.handed e he).imp_left fun ⟨k', hk⟩ => ⟨k', .inl hk⟩
    · exact .inl ⟨k, .inr rfl⟩
  barred := by
    intro p hp hm
    rcases mem_append.mp hp with hp | hp
    · exact h.barred p hp hm
    · rw [mem_singleton.mp hp] at hm
      exact Nat.lt_irrefl _ (h.freshDone _ (.inl (List.mem_map.mpr ⟨_, hm, rfl⟩)))
  sorted := by
    simp only [Ledger.accept, map_append, pairwise_append]
    refine ⟨h.sorted, pairwise_singleton _ _, fun a ha b hb => ?_⟩
    obtain ⟨p, hp, rfl⟩ := List.mem_map.mp ha
    obtain rfl := mem_singleton.mp hb
    exact h.fresh p hp
  fresh := by
    intro p hp
    rcases mem_append.mp hp with hp | hp
    · exact Nat.lt_succ_of_lt (h.fresh p hp)
    · rw [mem_singleton.mp hp]
      exact Nat.lt_succ_self _
  freshDone := fun e he => Nat.lt_succ_of_lt (h.freshDone e he)
  queued := by
    intro k' e he
    simp only [Ledger.accept, mem_append] at he ⊢
    by_cases hk : k' = k
    · subst hk
      simp only [Function.update_self, mem_append, mem_singleton] at he
      exact he.imp (h.queued _ e) fun he => by rw [he]; exact mem_singleton_self _
    · rw [Function.update_of_ne hk] at he
      exact .inl (h.queued _ e he)
  begun := fun p hp => mem_append_left _ (h.begun p hp)
  order := by
    intro k'
    simp only [Ledger.accept]
    by_cases hk : k' = k
    · subst hk
      rw [Function.update_self, ← append_assoc, pairwise_append]
      refine ⟨h.order k', pairwise_singleton _ _, fun a ha b hb => ?_⟩
      rw [mem_singleton.mp hb]
      rcases mem_append.mp ha with ha | ha
      · exact h.fresh _ (h.begun _ (mem_itemsOf.mp ha))
      · exact h.fresh _ (h.queued _ _ ha)
    · rw [Function.update_of_ne hk]
      exact h.order k'
  accounted := by
    intro p hp
    simp only [Ledger.accept] at hp ⊢
    rcases mem_append.mp hp with hp | hp
    · refine (h.accounted p hp).imp_right (Or.imp_left fun hq => ?_)
      by_cases hk : p.1 = k
      · rw [hk, Function.update_self]
        exact mem_append_left _ (hk ▸ hq)
      · rwa [Function.update_of_ne hk]
    · obtain rfl := mem_singleton.mp hp
      exact .inr (.inl (by simp))
  once := h.once
  gone := by
    intro e he k' hq
    simp only [Ledger.accept] at he hq
    by_cases hk : k' = k
    · subst hk
      rw [Function.update_self, mem_append, mem_singleton] at hq
      exact hq.elim (h.gone e he k') fun hq => Nat.lt_irrefl _ (hq ▸ h.freshDone e he)
    · rw [Function.update_of_ne hk] at hq
      exact h.gone e he k' hq
  discarded := h.discarded

theorem Ok.start (hq : (l.queue k).head? = some e) : Ok (l.start k e) := by
  obtain ⟨q, hq⟩ := head?_eq_some_iff.mp hq
  have he : (k, e) ∈ l.accepted := h.queued k e (hq ▸ mem_cons_self)
  have htail : (l.queue k).tail = q := by rw [hq, tail_cons]
  -- the queues of the new books are part of the old ones, and do not hold the item
  have hsub : ∀ k', ((l.start k e).queue k').Sublist (l.queue k') := fun k' => by
    simp only [Ledger.start]
    by_cases hk : k' = k
    · subst hk
      rw [Function.update_self]
      exact tail_sublist _
    · rw [Function.update_of_ne hk]
  have hout : ∀ k', e ∉ (l.start k e).queue k' := fun k' hm => by
    obtain rfl := h.key_unique he (h.queued k' e ((hsub k').subset hm))
    simp only [Ledger.start, Function.update_self, htail] at hm
    have := (pairwise_append.mp (h.order k)).2.1
    rw [hq, pairwise_cons] at this
    exact Nat.lt_irrefl _ (this.1 e hm)
  refine ⟨h.handed, h.barred, h.sorted, h.fresh, ?_, fun k' e' he' => h.queued k' e' ((hsub k').subset he'), ?_, ?_, ?_,
    ?_, ?_, ?_⟩
  · rintro e' (he' | he')
    · exact h.freshDone e' (.inl he')
    · rcases Multiset.mem_cons.mp he' with rfl | he'
      · exact h.fresh _ he
      · exact h.freshDone e' (.inr he')
  · intro p hp
    rcases mem_append.mp hp with hp | hp
    · exact h.begun p hp
    · exact mem_singleton.mp hp ▸ he
  · intro k'
    simp only [Ledger.start, itemsOf_append, itemsOf_singleton]
    by_cases hk : k = k'
    · -- the item moves from the head of the waiting ones to the end of the started ones
      subst hk
      have := h.order k
      rw [hq] at this
      simpa [htail] using this
    · rw [if_neg hk, append_nil, Function.update_of_ne (Ne.symm hk)]
      exact h.order k'
  · intro p hp
    simp only [Ledger.start, mem_append, mem_singleton]
    rcases h.accounted p hp with hs | hw | hd
    · exact .inl (.inl hs)
    · by_cases hk : p.1 = k
      · rw [hk, hq, mem_cons] at hw
        rcases hw with hw | hw
        · exact .inl (.inr (Prod.ext hk hw))
        · exact .inr (.inl (by rw [hk, Function.update_self, htail]; exact hw))
      · exact .inr (.inl (by rwa [Function.update_of_ne hk]))
    · exact .inr (.inr hd)
  · have hn : e ∉ (l.settled.map (·.1) : Multiset ℕ) + l.owed := fun hm => by
      rw [Multiset.mem_add, Multiset.mem_coe] at hm
      exact h.gone e hm k (hq ▸ mem_cons_self)
    simp only [Ledger.start, Multiset.add_cons]
    exact Multiset.nodup_cons.mpr ⟨hn, h.once⟩
  · rintro e' (he' | he') k' hm
    · exact h.gone e' (.inl he') k' ((hsub k').subset hm)
    · rcases Multiset.mem_cons.mp he' with rfl | he'
      · exact hout k' hm
      · exact h.gone e' (.inr he') k' ((hsub k').subset hm)
  · intro p hp hm
    rcases mem_append.mp hp with hp | hp
    · exact h.discarded p hp hm
    · obtain rfl := mem_singleton.mp hp
      exact h.gone e (.inl (List.mem_map.mpr ⟨_, hm, rfl⟩)) k (hq ▸ mem_cons_self)

theorem Ok.settle (he : e ∈ l.owed) (o : ω) : Ok (l.settle e o) := by
  -- the same items are settled or owed
  have hmem : ∀ e', e' ∈ (l.settle e o).settled.map (·.1) ∨ e' ∈ (l.settle e o).owed →
      e' ∈ l.settled.map (·.1) ∨ e' ∈ l.owed := by
    intro e' he'
    simp only [Ledger.settle, map_append, map_cons, map_nil, mem_append, mem_singleton] at he'
    obtain (he' | rfl) | he' := he'
    · exact .inl he'
    · exact .inr he
    · exact .inr (Multiset.mem_of_mem_erase he')
  refine ⟨fun e' he' => (h.handed e' he').imp_right (mem_append_left _), fun p hp hm => ?_,
    h.sorted, h.fresh, fun e' he' => h.freshDone e' (hmem e' he'), h.queued, h.begun, h.order,
    fun p hp => (h.accounted p hp).imp_right (Or.imp_right (mem_append_left _)), ?_,
    fun e' he' => h.gone e' (hmem e' he'), fun p hp hm => ?_⟩
  · simp only [Ledger.settle, mem_append, mem_singleton, Prod.mk.injEq, reduceCtorEq,
      and_false, or_false] at hm
    exact h.barred p hp hm
  · have := h.once
    rw [← Multiset.cons_erase he] at this
    simpa only [Ledger.settle, map_append, map_cons, map_nil, ← Multiset.coe_add,
      Multiset.coe_singleton, Multiset.add_assoc, Multiset.singleton_add, Multiset.add_cons] using this
  · simp only [Ledger.settle, mem_append, mem_singleton, Prod.mk.injEq, reduceCtorEq,
      and_false, or_false] at hm
    exact h.discarded p hp hm

theorem Ok.clear (k : κ) : Ok (l.clear k) := by
  have hq : ∀ k' e, e ∈ (l.clear k).queue k' → k' ≠ k ∧ e ∈ l.queue k' := by
    intro k' e he
    simp only [Ledger.clear] at he
    by_cases hk : k' = k
    · rw [hk, Function.update_self] at he
      cases he
    · rw [Function.update_of_ne hk] at he
      exact ⟨hk, he⟩
  have hdone : ∀ e, e ∈ (l.clear k).settled.map (·.1) ∨ e ∈ l.owed →
      (e ∈ l.settled.map (·.1) ∨ e ∈ l.owed) ∨ e ∈ l.queue k := by
    intro e he
    simp only [Ledger.clear, map_append, mem_append, List.map_map] at he
    obtain (he | he) | he := he
    · exact .inl (.inl he)
    · exact .inr (by simpa using he)
    · exact .inl (.inr he)
  refine ⟨fun e he => (h.handed e he).imp_right (mem_append_left _), fun p hp hm => ?_, h.sorted,
    h.fresh, fun e he => ?_, fun k' e he => h.queued k' e (hq k' e he).2, h.begun, fun k' => ?_,
    fun p hp => ?_, ?_, fun e he k' hm => ?_, fun p hp hm => ?_⟩
  · simp only [Ledger.clear, mem_append, List.mem_map, Prod.mk.injEq, reduceCtorEq, and_false,
      exists_false, or_false] at hm
    exact h.barred p hp hm
  · exact (hdone e he).elim (h.freshDone e) fun hw => h.fresh _ (h.queued k e hw)
  · simp only [Ledger.clear]
    by_cases hk : k' = k
    · rw [hk, Function.update_self, append_nil]
      exact (pairwise_append.mp (h.order k)).1
    · rw [Function.update_of_ne hk]
      exact h.order k'
  · simp only [Ledger.clear, mem_append]
    rcases h.accounted p hp with hs | hw | hd
    · exact .inl hs
    · by_cases hk : p.1 = k
      · exact .inr (.inr (.inr (List.mem_map.mpr ⟨p.2, hk ▸ hw, rfl⟩)))
      · exact .inr (.inl (by rwa [Function.update_of_ne hk]))
    · exact .inr (.inr (.inl hd))
  · have hw : (l.queue k : Multiset ℕ).Nodup := by
      rw [Multiset.coe_nodup]
      exact (pairwise_append.mp (h.order k)).2.1.imp fun hlt => Nat.ne_of_lt hlt
    have hdis : Disjoint ((l.settled.map (·.1) : Multiset ℕ) + l.owed) (l.queue k : Multiset ℕ) := by
      rw [Multiset.disjoint_left]
      intro e he hm
      rw [Multiset.mem_add, Multiset.mem_coe] at he
      exact h.gone e he k hm
    have := Multiset.nodup_add.mpr ⟨h.once, hw, hdis⟩
    simpa only [Ledger.clear, map_append, List.map_map, Function.comp_def, List.map_id',
      ← Multiset.coe_add, Multiset.add_assoc, Multiset.add_comm l.owed] using this
  · obtain ⟨hne, hm⟩ := hq k' e hm
    exact (hdone e he).elim (fun hd => h.gone e hd k' hm) fun hw =>
      hne (h.key_unique (h.queued k' e hm) (h.queued k e hw))
  · simp only [Ledger.clear, mem_append] at hm
    rcases hm with hm | hm
    · exact h.discarded p hp hm
    · obtain ⟨e, he, heq⟩ := List.mem_map.mp hm
      obtain rfl := (Prod.mk.inj heq).1
      exact h.started_not_queued hp he

theorem Ok.step (hs : Step l l') : Ok l' := by
  cases hs with
  | none => exact h
  | refuse => exact h.refuse
  | accept k => exact h.accept k
  | start he => exact h.start he
  | settle he o => exact h.settle he o
  | clear k => exact h.clear k

/-! ### What books in order say -/

/-- No item is settled twice. -/
theorem Ok.settled_once : (l.settled.map (·.1)).Nodup :=
  Multiset.coe_nodup.mp (Multiset.nodup_add.mp h.once).1

/-- Items of one key are started in the order they were accepted. -/
theorem Ok.started_sublist (k : κ) : (itemsOf k l.started).Sublist (itemsOf k l.accepted) := by
  have hs : (itemsOf k l.started).Pairwise (· < ·) := (pairwise_append.mp (h.order k)).1
  have ha : (itemsOf k l.accepted).Pairwise (· < ·) :=
    h.sorted.sublist (filter_sublist.map _)
  have hsub : itemsOf k l.started ⊆ itemsOf k l.accepted := fun e he =>
    mem_itemsOf.mpr (h.begun _ (mem_itemsOf.mp he))
  have hnd : (itemsOf k l.started).Nodup := hs.imp fun hlt => Nat.ne_of_lt hlt
  exact sublist_of_subperm_of_pairwise (subperm_of_subset hnd hsub) hs ha

/-- No item is started twice. -/
theorem Ok.started_once : (l.started.map (·.2)).Nodup := by
  rw [List.Nodup, pairwise_map, pairwise_iff_forall_sublist]
  rintro ⟨k, e⟩ ⟨k', e'⟩ hsub heq
  obtain rfl : e = e' := heq
  have hk : (k, e) ∈ l.started := hsub.subset mem_cons_self
  have hk' : (k', e) ∈ l.started := hsub.subset (mem_cons_of_mem _ mem_cons_self)
  -- both entries are under one key, where the started items increase
  obtain rfl := h.key_unique (h.begun _ hk) (h.begun _ hk')
  have htwo := (pairwise_append.mp (h.order k)).1.sublist ((hsub.filter _).map _)
  simp at htwo

/-- An item handed in was refused, or accepted under one key. -/
theorem Ok.handed_iff (he : e < l.next) : (e, .refused) ∈ l.settled ↔ ¬ ∃ k, (k, e) ∈ l.accepted :=
  ⟨fun hr ⟨_, hk⟩ => h.barred _ hk hr, (h.handed e he).resolve_left⟩

/-- An accepted item that was not started waits or was discarded, not both. -/
theorem Ok.accounted_iff (he : (k, e) ∈ l.accepted) :
    (k, e) ∉ l.started ↔ Xor (e ∈ l.queue k) ((e, .cleared) ∈ l.settled) := by
  constructor
  · intro hs
    have hnot : (e, .cleared) ∈ l.settled → e ∉ l.queue k := fun hd =>
      h.gone e (.inl (List.mem_map.mpr ⟨_, hd, rfl⟩)) k
    exact ((h.accounted _ he).resolve_left hs).imp (fun hq => ⟨hq, fun hd => hnot hd hq⟩)
      fun hd => ⟨hd, hnot hd⟩
  · rintro (⟨hq, -⟩ | ⟨hd, -⟩) hs
    · exact h.started_not_queued hs hq
    · exact h.discarded _ hs hd

/-- An item is not started while one accepted earlier under its key waits. -/
theorem Ok.no_overtaking {e e' : ℕ} (hs : (k, e') ∈ l.started) (hq : e ∈ l.queue k) : e' < e :=
  (pairwise_append.mp (h.order k)).2.2 e' (mem_itemsOf.mpr hs) e hq

end Ledger

end Foxclaw
