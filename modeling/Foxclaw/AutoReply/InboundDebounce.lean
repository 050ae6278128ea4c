import Mathlib.Data.Int.Notation
import Mathlib.Data.List.Perm.Basic
import Foxclaw.Lib.Runs

/-!
# Debouncing of inbound messages

This module models `createInboundDebouncer` of `auto-reply/inbound-debounce.ts`: items of one key are
collected in a buffer, which its timer passes to `onFlush`; an item that is not to be debounced flushes the
buffer, waits for that call, and is then passed alone.

A state counts its calls of `onFlush`, which end at any later time. The environment chooses what happens next:
an item arrives, a timer fires, a call ends, or the function that awaited it goes on.

## What is proved

* `next_moves` — what one step does to the items of one key.
* `accounted` — each item that arrived is buffered, or waits, or was passed to `onFlush`, once.
* `flushed_of_orderly` — the items of a key are passed in order in runs that start no call of a key while an
  item of that key waits for an earlier one.
* `overtaken` — a run in which a later item is passed before one that waits.
-/

namespace Foxclaw.AutoReply.InboundDebounce

open Function List Option Runs

variable {T : Type}

/-- What the debouncer is made with. A delay is given by its whole part, and is none if it is not finite. -/
structure CreateParams (T : Type) where
  debounceMs : ℤ
  buildKey : T → Option String
  shouldDebounce : T → Bool
  resolveDebounceMs : T → Option ℤ

structure State (T : Type) where
  /-- The items that arrived, in order. -/
  enqueued : List T
  buffers : String → List T
  /-- The items that wait, each with the call it waits for. -/
  waiting : List (T × ℕ)
  /-- The calls of `onFlush` that have not ended. -/
  active : List ℕ
  /-- What `onFlush` was called with, in order. -/
  flushed : List (List T)

def State.init : State T := ⟨[], fun _ => [], [], [], []⟩

inductive Event (T : Type)
  | enqueue (item : T)
  /-- The timer of the key's buffer fires, or `flushKey` is called. -/
  | fire (key : String)
  /-- The call is fulfilled or rejected: an error is caught. -/
  | settle (call : ℕ)
  /-- The `i`th item that waits goes on. -/
  | resume (i : ℕ)

/-- The call of `onFlush` begins. -/
def State.onFlush (s : State T) (items : List T) : State T :=
  { s with active := s.active ++ [s.flushed.length], flushed := s.flushed ++ [items] }

def State.flushBuffer (s : State T) (key : String) : State T :=
  { s.onFlush (s.buffers key) with buffers := Function.update s.buffers key [] }

section

variable (params : CreateParams T)

/-- The key of an item, empty if it has none. -/
def keyOf (item : T) : String := (params.buildKey item).getD ""

def resolveDebounceMs (item : T) : ℕ := ((params.resolveDebounceMs item).getD params.debounceMs).toNat

/-- Is the item debounced? -/
def canDebounce (item : T) : Bool :=
  0 < resolveDebounceMs params item && params.shouldDebounce item && keyOf params item ≠ ""

def enqueue (s : State T) (item : T) : State T :=
  let key := keyOf params item
  let s := { s with enqueued := s.enqueued ++ [item] }
  if canDebounce params item then
    { s with buffers := Function.update s.buffers key (s.buffers key ++ [item]) }
  else if key ≠ "" ∧ s.buffers key ≠ [] then
    { s.flushBuffer key with waiting := s.waiting ++ [(item, s.flushed.length)] }
  else s.onFlush [item]

def next (s : State T) : Event T → Option (State T)
  | .enqueue item => some (enqueue params s item)
  | .fire key => if s.buffers key = [] then none else some (s.flushBuffer key)
  | .settle call => if call ∈ s.active then some { s with active := s.active.erase call } else none
  | .resume i =>
    match s.waiting[i]? with
    | none => none
    | some (item, call) =>
      if call ∈ s.active then none
      else some { s.onFlush [item] with waiting := s.waiting.eraseIdx i }

/-! ### What is asked -/

def ofKey (key : String) (items : List T) : List T := items.filter fun item => keyOf params item = key

/-- The items of each key were passed to `onFlush` in the order in which they arrived. -/
def InOrder (s : State T) : Prop :=
  ∀ key, key ≠ "" → ofKey params key s.flushed.flatten <+: ofKey params key s.enqueued

/-- Nothing is buffered and no item waits. -/
def AtRest (s : State T) : Prop := (∀ key, s.buffers key = []) ∧ s.waiting = []

/-- The step starts a call of `onFlush` with items of the key that did not wait. -/
def Starts (key : String) : Event T → Prop
  | .enqueue item => keyOf params item = key ∧ canDebounce params item = false
  | .fire key' => key' = key
  | _ => False

/-- The step starts no call of `onFlush` with items of a key of which an item waits. -/
def Orderly (s : State T) (event : Event T) : Prop :=
  ∀ w ∈ s.waiting, keyOf params w.1 ≠ "" → ¬ Starts params (keyOf params w.1) event

/-! ### The items of one key -/

@[ext] structure Books (T : Type) where
  flushed : List T
  waiting : List T
  buffered : List T
  enqueued : List T

def booksOf (key : String) (s : State T) : Books T where
  flushed := ofKey params key s.flushed.flatten
  waiting := ofKey params key (s.waiting.map Prod.fst)
  buffered := s.buffers key
  enqueued := ofKey params key s.enqueued

/-- Each buffer has items of its own key, and there is none for the empty one. -/
def WellKeyed (s : State T) : Prop := ∀ key, ∀ item ∈ s.buffers key, keyOf params item = key ∧ key ≠ ""

end

/-- What a step can do to the items of a key. -/
inductive Moves (key : String) (starts : Prop) (b : Books T) : Books T → Prop
  | stay : Moves key starts b b
  | buffer (item : T) : Moves key starts b
      { b with buffered := b.buffered ++ [item], enqueued := b.enqueued ++ [item] }
  | flush (h : starts) : Moves key starts b { b with flushed := b.flushed ++ b.buffered, buffered := [] }
  | await (h : starts) (item : T) : Moves key starts b
      ⟨b.flushed ++ b.buffered, b.waiting ++ [item], [], b.enqueued ++ [item]⟩
  | direct (h : starts) (hb : key ≠ "" → b.buffered = []) (item : T) : Moves key starts b
      { b with flushed := b.flushed ++ [item], enqueued := b.enqueued ++ [item] }
  | resume (front rest : List T) (item : T) (h : b.waiting = front ++ item :: rest) : Moves key starts b
      { b with flushed := b.flushed ++ [item], waiting := front ++ rest }

variable {params : CreateParams T} {key : String} {s s' : State T} {event : Event T}

theorem ofKey_append (xs ys : List T) :
    ofKey params key (xs ++ ys) = ofKey params key xs ++ ofKey params key ys := filter_append ..

theorem ofKey_self {xs : List T} (h : ∀ x ∈ xs, keyOf params x = key) : ofKey params key xs = xs :=
  filter_eq_self.mpr fun x hx => decide_eq_true (h x hx)

theorem ofKey_other {xs : List T} (h : ∀ x ∈ xs, keyOf params x ≠ key) : ofKey params key xs = [] :=
  filter_eq_nil_iff.mpr fun x hx hk => h x hx (of_decide_eq_true hk)

theorem ofKey_singleton (item : T) : ofKey params key [item] = if keyOf params item = key then [item] else [] := by
  simp [ofKey, filter_singleton]

/-- The items of a key in another's buffer. -/
theorem ofKey_buffer (hs : WellKeyed params s) (key key' : String) :
    ofKey params key (s.buffers key') = if key' = key then s.buffers key else [] := by
  split
  · rename_i h
    subst h
    exact ofKey_self fun x hx => (hs _ x hx).1
  · rename_i h
    exact ofKey_other fun x hx hk => h ((hs _ x hx).1.symm.trans hk)

theorem booksOf_flushBuffer (hs : WellKeyed params s) (key' : String) :
    booksOf params key (s.flushBuffer key') = if key' = key then
      { booksOf params key s with flushed := (booksOf params key s).flushed ++ s.buffers key, buffered := [] }
      else booksOf params key s := by
  have hbuffer := ofKey_buffer hs key key'
  split
  · rename_i h
    subst h
    rw [if_pos rfl] at hbuffer
    simp [booksOf, State.flushBuffer, State.onFlush, ofKey_append, hbuffer]
  · rename_i h
    rw [if_neg h] at hbuffer
    simp [booksOf, State.flushBuffer, State.onFlush, ofKey_append, hbuffer, update_of_ne (Ne.symm h)]

theorem moves_enqueue (hs : WellKeyed params s) (item : T) :
    Moves key (Starts params key (.enqueue item)) (booksOf params key s)
      (booksOf params key (enqueue params s item)) := by
  by_cases hk : keyOf params item = key
  · subst hk
    dsimp only [enqueue]
    split
    · simpa [booksOf, ofKey_append, ofKey_singleton] using
        Moves.buffer (b := booksOf params (keyOf params item) s) item
    · rename_i hcan
      rw [Bool.not_eq_true] at hcan
      have hbuffer := ofKey_buffer hs (keyOf params item) (keyOf params item)
      rw [if_pos rfl] at hbuffer
      split
      · simpa [booksOf, State.flushBuffer, State.onFlush, ofKey_append, ofKey_singleton, hbuffer] using
          Moves.await (b := booksOf params (keyOf params item) s) ⟨rfl, hcan⟩ item
      · rename_i hbuffered
        have hb : keyOf params item ≠ "" → s.buffers (keyOf params item) = [] := by
          intro hkey
          by_contra hne
          exact hbuffered ⟨hkey, hne⟩
        simpa [booksOf, State.onFlush, ofKey_append, ofKey_singleton] using
          Moves.direct (b := booksOf params (keyOf params item) s) ⟨rfl, hcan⟩ hb item
  · have heq : booksOf params key (enqueue params s item) = booksOf params key s := by
      have hbuffer := ofKey_buffer hs key (keyOf params item)
      rw [if_neg hk] at hbuffer
      dsimp only [enqueue]
      split
      · simp [booksOf, ofKey_append, ofKey_singleton, hk, update_of_ne (Ne.symm hk)]
      · split <;> simp [booksOf, State.flushBuffer, State.onFlush, ofKey_append, ofKey_singleton, hk, hbuffer,
          update_of_ne (Ne.symm hk)]
    rw [heq]
    exact .stay

theorem moves_resume {starts : Prop} {i call : ℕ} {item : T} (h : s.waiting[i]? = some (item, call)) :
    Moves key starts (booksOf params key s)
      (booksOf params key { s.onFlush [item] with waiting := s.waiting.eraseIdx i }) := by
  obtain ⟨hi, hitem⟩ := List.getElem?_eq_some_iff.mp h
  have hwaiting : s.waiting = s.waiting.take i ++ (item, call) :: s.waiting.drop (i + 1) := by
    rw [← hitem, getElem_cons_drop, take_append_drop]
  have herase : s.waiting.eraseIdx i = s.waiting.take i ++ s.waiting.drop (i + 1) :=
    eraseIdx_eq_take_drop_succ ..
  by_cases hk : keyOf params item = key
  · subst hk
    have hsplit : (booksOf params (keyOf params item) s).waiting =
        ofKey params (keyOf params item) ((s.waiting.take i).map Prod.fst) ++
          item :: ofKey params (keyOf params item) ((s.waiting.drop (i + 1)).map Prod.fst) := by
      dsimp only [booksOf]
      conv_lhs => rw [hwaiting]
      simp [ofKey, -map_take, -map_drop]
    simpa [booksOf, State.onFlush, herase, ofKey_append, ofKey_singleton] using
      (Moves.resume _ _ item hsplit : Moves (keyOf params item) starts _ _)
  · have heq : booksOf params key { s.onFlush [item] with waiting := s.waiting.eraseIdx i } =
        booksOf params key s := by
      have hother : ofKey params key (s.waiting.map Prod.fst) =
          ofKey params key ((s.waiting.eraseIdx i).map Prod.fst) := by
        rw [herase]
        conv_lhs => rw [hwaiting]
        simp [ofKey, hk, -map_take, -map_drop]
      simp [booksOf, State.onFlush, ofKey_append, ofKey_singleton, hk, hother]
    rw [heq]
    exact .stay

theorem next_moves (hs : WellKeyed params s) (h : next params s event = some s') (key : String) :
    Moves key (Starts params key event) (booksOf params key s) (booksOf params key s') := by
  cases event with
  | enqueue item =>
    cases h
    exact moves_enqueue hs item
  | fire key' =>
    simp only [next, ite_none_left_eq_some, some.injEq] at h
    obtain ⟨-, rfl⟩ := h
    rw [booksOf_flushBuffer hs]
    split
    · exact .flush ‹_›
    · exact .stay
  | settle call =>
    simp only [next, ite_none_right_eq_some, some.injEq] at h
    obtain ⟨-, rfl⟩ := h
    exact .stay
  | resume i =>
    simp only [next] at h
    split at h
    · cases h
    · rename_i item call hi
      simp only [ite_none_left_eq_some, some.injEq] at h
      obtain ⟨-, rfl⟩ := h
      exact moves_resume hi

/-! ### What a run keeps -/

theorem wellKeyed_init : WellKeyed params State.init := fun _ _ h => absurd h not_mem_nil

theorem wellKeyed_of_update {items : List T} (hs : WellKeyed params s)
    (hitems : ∀ item ∈ items, keyOf params item = key ∧ key ≠ "")
    (h : s'.buffers = Function.update s.buffers key items) : WellKeyed params s' := by
  intro key' item hitem
  rw [h, update_apply] at hitem
  split at hitem
  · rename_i hkey
    exact hkey ▸ hitems item hitem
  · exact hs key' item hitem

theorem next_wellKeyed (hs : WellKeyed params s) (h : next params s event = some s') : WellKeyed params s' := by
  cases event with
  | enqueue item =>
    cases h
    dsimp only [enqueue]
    split
    · rename_i hcan
      refine wellKeyed_of_update hs (fun item' hitem' => ?_) rfl
      rcases mem_append.mp hitem' with hold | hnew
      · exact hs _ item' hold
      · rw [mem_singleton.mp hnew]
        exact ⟨rfl, of_decide_eq_true (Bool.and_eq_true_iff.mp hcan).2⟩
    · split
      · exact wellKeyed_of_update hs (fun _ hitem => absurd hitem not_mem_nil) rfl
      · exact hs
  | fire key' =>
    simp only [next, ite_none_left_eq_some, some.injEq] at h
    obtain ⟨-, rfl⟩ := h
    exact wellKeyed_of_update hs (fun _ hitem => absurd hitem not_mem_nil) rfl
  | settle call =>
    simp only [next, ite_none_right_eq_some, some.injEq] at h
    obtain ⟨-, rfl⟩ := h
    exact hs
  | resume i =>
    simp only [next] at h
    split at h
    · cases h
    · simp only [ite_none_left_eq_some, some.injEq] at h
      obtain ⟨-, rfl⟩ := h
      exact hs

/-- Each item is in one place. -/
def Books.Accounted (b : Books T) : Prop := b.enqueued.Perm (b.flushed ++ b.waiting ++ b.buffered)

/-- The items are passed, wait and are buffered in the order in which they arrived. -/
def Books.Ordered (b : Books T) : Prop :=
  b.enqueued = b.flushed ++ b.waiting ++ b.buffered ∧ b.waiting.length ≤ 1

section

variable {starts : Prop} {b b' : Books T}

theorem Moves.accounted (hb : b.Accounted) (h : Moves key starts b b') : b'.Accounted := by
  classical
  unfold Books.Accounted at *
  rw [perm_iff_count] at *
  intro x
  have hx := hb x
  cases h with
  | stay => exact hx
  | resume front rest item hwaiting =>
    simp only [hwaiting, count_append, count_cons, count_nil] at hx ⊢
    omega
  | _ =>
    simp only [count_append, count_nil] at hx ⊢
    omega

/-- The order is kept by a step that passes no item of the key while one waits. -/
theorem Moves.ordered (hkey : key ≠ "") (hstarts : starts → b.waiting = []) (hb : b.Ordered)
    (h : Moves key starts b b') : b'.Ordered := by
  obtain ⟨heq, hlength⟩ := hb
  cases h with
  | stay => exact ⟨heq, hlength⟩
  | buffer item => exact ⟨by rw [heq, append_assoc], hlength⟩
  | flush hs => exact ⟨by simp [heq, hstarts hs], hlength⟩
  | await hs item => exact ⟨by simp [heq, hstarts hs], by simp [hstarts hs]⟩
  | direct hs hbuffered item => exact ⟨by simp [heq, hstarts hs, hbuffered hkey], hlength⟩
  | resume front rest item hwaiting =>
    rw [hwaiting, length_append, length_cons] at hlength
    have hfront : front = [] := length_eq_zero_iff.mp (by omega)
    have hrest : rest = [] := length_eq_zero_iff.mp (by omega)
    exact ⟨by simp [heq, hwaiting, hfront, hrest], by simp [hfront, hrest]⟩

end

theorem accounted {as : List (Event T)} (h : exec (next params) State.init as = some s) :
    WellKeyed params s ∧ ∀ key, (booksOf params key s).Accounted :=
  exec_invariant (I := fun s => WellKeyed params s ∧ ∀ key, (booksOf params key s).Accounted)
    (fun _ _ _ hs h => ⟨next_wellKeyed hs.1 h, fun key => (next_moves hs.1 h key).accounted (hs.2 key)⟩)
    ⟨wellKeyed_init, fun _ => .refl _⟩ h

theorem flushed_perm (hs : ∀ key, (booksOf params key s).Accounted) (hrest : AtRest s) :
    s.flushed.flatten.Perm s.enqueued := by
  classical
  rw [perm_iff_count]
  intro x
  have hx := perm_iff_count.mp (hs (keyOf params x)) x
  simp only [booksOf, hrest.1, hrest.2, map_nil, ofKey, filter_nil, append_nil] at hx
  rw [count_filter (by simp), count_filter (by simp)] at hx
  exact hx.symm

/-- Until all is at rest something can happen that is not a new item. -/
theorem exists_next (h : ¬ AtRest s) :
    ∃ event, (∀ item, event ≠ .enqueue item) ∧ (next params s event).isSome := by
  by_cases hbuffers : ∃ key, s.buffers key ≠ []
  · obtain ⟨key, hkey⟩ := hbuffers
    exact ⟨.fire key, fun _ hne => (by cases hne), by rw [next, if_neg hkey]; rfl⟩
  · cases hwaiting : s.waiting with
    | nil => exact absurd ⟨fun key => by_contra fun hkey => hbuffers ⟨key, hkey⟩, hwaiting⟩ h
    | cons w rest =>
      by_cases hcall : w.2 ∈ s.active
      · exact ⟨.settle w.2, fun _ hne => (by cases hne), by rw [next, if_pos hcall]; rfl⟩
      · exact ⟨.resume 0, fun _ hne => (by cases hne), by simp [next, hwaiting, hcall]⟩

/-- What is still to be done: each item that was not passed starts a call, and calls end. -/
def pending (s : State T) : ℕ := 2 * (s.enqueued.length - s.flushed.flatten.length) + s.active.length

theorem length_flushed_le (hs : ∀ key, (booksOf params key s).Accounted) :
    s.flushed.flatten.length ≤ s.enqueued.length := by
  classical
  refine (subperm_ext_iff.mpr fun x _ => ?_).length_le
  have hx := perm_iff_count.mp (hs (keyOf params x)) x
  simp only [booksOf, ofKey, count_append] at hx
  rw [count_filter (by simp), count_filter (by simp)] at hx
  omega

/-- A step without a new item leaves less to be done. -/
theorem pending_lt (hs : ∀ key, (booksOf params key s').Accounted) (h : next params s event = some s')
    (hno : ∀ item, event ≠ .enqueue item) : pending s' < pending s := by
  have hle := length_flushed_le hs
  unfold pending
  cases event with
  | enqueue item => exact absurd rfl (hno item)
  | fire key =>
    simp only [next, ite_none_left_eq_some, some.injEq] at h
    obtain ⟨hne, rfl⟩ := h
    have hpos := length_pos_iff.mpr hne
    simp only [State.flushBuffer, State.onFlush, flatten_append, flatten_singleton, length_append,
      length_singleton] at hle ⊢
    omega
  | settle call =>
    simp only [next, ite_none_right_eq_some, some.injEq] at h
    obtain ⟨hmem, rfl⟩ := h
    have hpos := length_pos_of_mem hmem
    dsimp only
    rw [length_erase_of_mem hmem]
    omega
  | resume i =>
    simp only [next] at h
    split at h
    · cases h
    · simp only [ite_none_left_eq_some, some.injEq] at h
      obtain ⟨-, rfl⟩ := h
      simp only [State.onFlush, flatten_append, flatten_singleton, length_append, length_singleton] at hle ⊢
      omega

/-- Without new items a run is no longer than what was to be done. -/
theorem length_le_pending {as : List (Event T)} (hs : WellKeyed params s ∧ ∀ key, (booksOf params key s).Accounted)
    (h : exec (next params) s as = some s') (hno : ∀ event ∈ as, ∀ item, event ≠ .enqueue item) :
    as.length ≤ pending s := by
  induction as generalizing s with
  | nil => exact Nat.zero_le _
  | cons event as ih =>
    obtain ⟨t, hnext, hrest⟩ := (exec_cons_eq_some _).mp h
    rw [forall_mem_cons] at hno
    have ht : WellKeyed params t ∧ ∀ key, (booksOf params key t).Accounted :=
      ⟨next_wellKeyed hs.1 hnext, fun key => (next_moves hs.1 hnext key).accounted (hs.2 key)⟩
    have hlength := ih ht hrest hno.2
    have hless := pending_lt ht.2 hnext hno.1
    rw [length_cons]
    omega

/-- A step that starts no call with items of a key of which one waits keeps the order of each key. -/
theorem next_ordered {key : String} (hkey : key ≠ "") (hs : WellKeyed params s)
    (horderly : Orderly params s event) (h : next params s event = some s') (hb : (booksOf params key s).Ordered) :
    (booksOf params key s').Ordered := by
  refine Moves.ordered hkey (fun hstarts => ?_) hb (next_moves hs h key)
  refine ofKey_other fun item hitem hk => ?_
  obtain ⟨w, hw, rfl⟩ := List.mem_map.mp hitem
  exact horderly w hw (hk ▸ hkey) (hk ▸ hstarts)

theorem inOrder_of_ordered (h : ∀ key, key ≠ "" → (booksOf params key s).Ordered) : InOrder params s := by
  intro key hkey
  obtain ⟨heq, -⟩ := h key hkey
  exact ⟨_, by rw [← append_assoc]; exact heq.symm⟩

/-- **Each item is passed to `onFlush` once**, whatever the run, after a bounded number of steps without new
items; **and in order**, in every state of a run that starts no call with items of a key while an item of that
key waits for an earlier call. -/
theorem flushed_of_orderly (params : CreateParams T) (as : List (Event T)) :
    (∀ s, exec (next params) State.init as = some s →
      (∀ key, (booksOf params key s).Accounted) ∧ (AtRest s → s.flushed.flatten.Perm s.enqueued) ∧
        (¬ AtRest s → ∃ event, (∀ item, event ≠ .enqueue item) ∧ (next params s event).isSome) ∧
        ∀ bs s', exec (next params) s bs = some s' → (∀ event ∈ bs, ∀ item, event ≠ .enqueue item) →
          bs.length ≤ pending s) ∧
    (Meets (next params) (Orderly params) State.init as →
      Always (next params) (InOrder params) State.init as) := by
  constructor
  · intro s hs
    have hall := accounted hs
    exact ⟨hall.2, flushed_perm hall.2, exists_next, fun bs s' => length_le_pending hall⟩
  · intro hmeets bs hbs s hs
    have hordered := always_of_meets
      (I := fun s => WellKeyed params s ∧ ∀ key, key ≠ "" → (booksOf params key s).Ordered)
      (fun _ _ _ hI horderly hnext => ⟨next_wellKeyed hI.1 hnext, fun key hkey =>
        next_ordered hkey hI.1 horderly hnext (hI.2 key hkey)⟩)
      hmeets ⟨wellKeyed_init, fun _ _ => ⟨rfl, Nat.zero_le _⟩⟩ bs hbs s hs
    exact inOrder_of_ordered hordered.2

/-- Items of one key, each with a number and whether it is debounced. -/
def sampleParams : CreateParams (ℕ × Bool) where
  debounceMs := 50
  buildKey _ := some "a"
  shouldDebounce := Prod.snd
  resolveDebounceMs _ := none

instance : (event : Event T) → Decidable (Starts params key event)
  | .enqueue _ => inferInstanceAs (Decidable (_ ∧ _))
  | .fire _ => inferInstanceAs (Decidable (_ = _))
  | .settle _ | .resume _ => inferInstanceAs (Decidable False)

instance : Decidable (Orderly params s event) := inferInstanceAs (Decidable (∀ w ∈ s.waiting, _ → ¬ _))

/-- The item that is not debounced goes on before the buffer of the next one is flushed. -/
theorem flushed_of_orderly_waits : Always (next sampleParams) (InOrder sampleParams) State.init
    [.enqueue (0, true), .enqueue (1, false), .settle 0, .enqueue (2, true), .resume 0, .fire "a"] :=
  (flushed_of_orderly sampleParams _).2 (by decide +kernel)

/-- The item that is not debounced waits for the flush of the buffer, and the item after it, debounced anew, is
passed before it. -/
theorem overtaken : ¬ ∀ as, Always (next sampleParams) (InOrder sampleParams) State.init as := by
  intro h
  have hrun : (exec (next sampleParams) State.init
      [.enqueue (0, true), .enqueue (1, false), .enqueue (2, true), .fire "a", .settle 0, .resume 0]).map
        (fun s => (s.flushed, s.enqueued)) =
      some ([[(0, true)], [(2, true)], [(1, false)]], [(0, true), (1, false), (2, true)]) := by decide +kernel
  obtain ⟨s, hs, heq⟩ := map_eq_some_iff.mp hrun
  obtain ⟨hflushed, henqueued⟩ := Prod.mk.inj heq
  have hin := h _ _ prefix_rfl s hs "a" (by decide)
  rw [hflushed, henqueued] at hin
  exact absurd hin (by decide +kernel)

end Foxclaw.AutoReply.InboundDebounce
