import Foxclaw.Lib.JsMap
import Foxclaw.Lib.Prog
import Foxclaw.Lib.Runs

/-!
# Actors

A caller has jobs that it does one after the other. Each job is for one session and is queued there: the
jobs that are queued for one session run one at a time, in the order in which they were queued, and those of
different sessions interleave at their calls. Some calls are answered at once, and nothing else runs before
the next call is made. A session may also take a job directly, when it is to be queued.

## The rule

A job is right when, from any session in `Idle`, it makes only calls that a monitor allows and ends in `Q`
or `E`. The monitor knows the session itself, as the jobs of other sessions do not touch it.

## What is proved

* `Sound.next` — if all jobs are right, every running job is right at the session as it is, and the sessions
  without a running job are idle; one step keeps this.
* `Sound.ok` — so every call that is made is allowed.
* `Sound.forall_session` — what allowed calls keep of a session holds of all sessions.
-/

namespace Foxclaw.Actors

open List Option

variable {κ γ ε σ ω : Type} {ρ : γ → Type}

/-- A job. -/
structure Job (κ : Type) (ρ : γ → Type) (ε σ : Type) where
  key : κ
  /-- Whether the session takes it directly. -/
  direct : σ → Bool := fun _ => false
  prog : Prog γ ρ ε Unit

/-- A job that is queued. -/
structure Task (κ : Type) (ρ : γ → Type) (ε : Type) where
  caller : ℕ
  key : κ
  prog : Prog γ ρ ε Unit
  running : Bool := false

/-- What is under way. -/
structure State (κ : Type) (ρ : γ → Type) (ε σ : Type) where
  sessions : JsMap κ σ := .empty
  /-- The jobs that each caller has left. -/
  callers : List (List (Job κ ρ ε σ)) := []
  /-- The jobs that are queued, in order. -/
  tasks : List (Task κ ρ ε) := []

/-- What the calls do. -/
structure Machine (κ : Type) (ρ : γ → Type) (σ ω : Type) where
  /-- A session that nothing was done to. -/
  fresh : σ
  sync : γ → Bool
  /-- The reply to a call for a session, where the world has its say. -/
  reply : JsMap κ σ → κ → (c : γ) → ω → ρ c
  /-- The session after a call with its reply. -/
  after : σ → (c : γ) → ρ c → σ
  finish : σ → σ

/-- What can happen. -/
inductive Action (κ : Type) (ρ : γ → Type) (ε σ ω : Type) where
  | spawn (jobs : List (Job κ ρ ε σ))
  | enqueue (caller : ℕ)
  | start (i : ℕ)
  | step (i : ℕ) (w : ω)
  /-- A job has ended and leaves the queue. -/
  | finish (i : ℕ)

variable [DecidableEq κ] (m : Machine κ ρ σ ω)

variable (s : State κ ρ ε σ)

/-- A session. -/
def State.session (key : κ) : σ := (s.sessions.get? key).getD m.fresh

variable (t : Task κ ρ ε)

/-- The next call of a running job is answered at once. -/
def Task.midway : Bool :=
  match t.prog with
  | .step c _ => t.running && m.sync c
  | .pure _ | .throw _ => false

/-- No job is between two calls with nothing else to run. -/
def State.quiet : Bool := s.tasks.all fun t => !t.midway m

/-- The job has ended. -/
def Task.ended : Bool :=
  match t.prog with
  | .step _ _ => false
  | .pure _ | .throw _ => true

/-- The job has thrown. -/
def Task.failed : Bool :=
  match t.prog with
  | .throw _ => true
  | .pure _ | .step _ _ => false

/-- The state after a call. -/
def State.called (i : ℕ) (t : Task κ ρ ε) (c : γ) (k : ρ c → Prog γ ρ ε Unit) (r : ρ c) : State κ ρ ε σ :=
  { s with
    sessions := s.sessions.set t.key (m.after (s.session m t.key) c r)
    tasks := s.tasks.set i { t with prog := k r } }

/-- The state when a job is over; a caller whose job has thrown does no more. -/
def State.finished (i : ℕ) (t : Task κ ρ ε) : State κ ρ ε σ where
  sessions := s.sessions.set t.key (m.finish (s.session m t.key))
  callers := if t.failed then s.callers.set t.caller [] else s.callers
  tasks := s.tasks.eraseIdx i

def next : Action κ ρ ε σ ω → Option (State κ ρ ε σ)
  | .spawn jobs => if s.quiet m then some { s with callers := s.callers ++ [jobs] } else none
  | .enqueue caller =>
    match s.callers[caller]? with
    | some (job :: jobs) =>
      if s.quiet m ∧ ∀ t ∈ s.tasks, t.caller ≠ caller then
        if job.direct (s.session m job.key) then some { s with callers := s.callers.set caller jobs }
        else
          some { s with
            callers := s.callers.set caller jobs
            tasks := s.tasks ++ [{ caller, key := job.key, prog := job.prog }] }
      else none
    | _ => none
  | .start i =>
    match s.tasks[i]? with
    | none => none
    | some t =>
      if s.quiet m ∧ t.running = false ∧ ∀ u ∈ s.tasks.take i, u.key ≠ t.key then
        some { s with tasks := s.tasks.set i { t with running := true } }
      else none
  | .step i w =>
    match s.tasks[i]? with
    | none => none
    | some t =>
      match t.prog with
      | .pure _ | .throw _ => none
      | .step c k =>
        if t.running = true ∧ ((s.tasks.eraseIdx i).all fun u => !u.midway m) = true then
          some (s.called m i t c k (m.reply s.sessions t.key c w))
        else none
  | .finish i =>
    match s.tasks[i]? with
    | none => none
    | some t => if s.quiet m ∧ t.running = true ∧ t.ended = true then some (s.finished m i t) else none

/-! ### Right jobs -/

variable {m} (mon : Monitor γ ρ σ) (Idle Q : σ → Prop) (E : σ → ε → Prop)

/-- From an idle session the program makes only allowed calls and ends in `Q` or `E`. -/
def Right (prog : Prog γ ρ ε Unit) : Prop := ∀ x, Idle x → mon.wp prog (fun x _ => Q x) E x

variable (m) in
/-- All is right. -/
structure Sound (s : State κ ρ ε σ) : Prop where
  jobs : ∀ jobs ∈ s.callers, ∀ job ∈ jobs, Right mon Idle Q E job.prog
  /-- So are those that wait. -/
  waiting : ∀ t ∈ s.tasks, t.running = false → Right mon Idle Q E t.prog
  /-- A running job goes on as the monitor allows. -/
  running : ∀ t ∈ s.tasks, t.running = true → mon.wp t.prog (fun x _ => Q x) E (s.session m t.key)
  /-- A session without a running job is idle. -/
  idle : ∀ key, (∀ t ∈ s.tasks, t.running = true → t.key ≠ key) → Idle (s.session m key)
  /-- A running job is the first of its session. -/
  first : s.tasks.Pairwise fun u t => t.running = true → u.key ≠ t.key

variable (m) in
/-- New jobs are right, and the replies are among the expected ones. -/
def Expected (s : State κ ρ ε σ) : Action κ ρ ε σ ω → Prop
  | .spawn jobs => ∀ job ∈ jobs, Right mon Idle Q E job.prog
  | .step i w => ∀ t c k, s.tasks[i]? = some t → t.prog = .step c k → t.running = true →
      mon.valid (s.session m t.key) c (m.reply s.sessions t.key c w)
  | _ => True

variable {mon Idle Q E} {s s' : State κ ρ ε σ}

omit [DecidableEq κ] in
/-- Of a session at most one job runs. -/
theorem eq_of_running (hfirst : s.tasks.Pairwise fun u t => t.running = true → u.key ≠ t.key) {i j : ℕ}
    {t u : Task κ ρ ε} (ht : s.tasks[i]? = some t) (hu : s.tasks[j]? = some u) (htr : t.running = true)
    (hur : u.running = true) (hkey : t.key = u.key) : i = j := by
  obtain ⟨hi, rfl⟩ := List.getElem?_eq_some_iff.mp ht
  obtain ⟨hj, rfl⟩ := List.getElem?_eq_some_iff.mp hu
  rcases Nat.lt_trichotomy i j with hlt | heq | hlt
  · exact absurd hkey (pairwise_iff_getElem.mp hfirst i j hi hj hlt hur)
  · exact heq
  · exact absurd hkey.symm (pairwise_iff_getElem.mp hfirst j i hj hi hlt htr)

theorem session_set (s : State κ ρ ε σ) (sessions : JsMap κ σ) (key key' : κ) (x : σ)
    (h : sessions = s.sessions.set key x) :
    (sessions.get? key').getD m.fresh = if key = key' then x else s.session m key' := by
  rw [h, JsMap.get?_set]
  split <;> rfl

variable {t : Task κ ρ ε}

variable (h : Sound m mon Idle Q E s)
include h

theorem Sound.ok (ht : t ∈ s.tasks) (hrun : t.running = true)
    {c : γ} {k : ρ c → Prog γ ρ ε Unit} (hprog : t.prog = .step c k) : mon.ok (s.session m t.key) c := by
  have hwp := h.running t ht hrun
  rw [hprog] at hwp
  exact hwp.1

theorem Sound.start {i : ℕ} (ht : s.tasks[i]? = some t)
    (hrun : t.running = false) (hfirst : ∀ u ∈ s.tasks.take i, u.key ≠ t.key) :
    Sound m mon Idle Q E { s with tasks := s.tasks.set i { t with running := true } } := by
  have hmem : t ∈ s.tasks := mem_of_getElem? ht
  obtain ⟨hi, hget⟩ := List.getElem?_eq_some_iff.mp ht
  -- no later job of the session runs, as this one stands before it
  have hnone : ∀ u ∈ s.tasks, u.running = true → u.key ≠ t.key := by
    intro u hu hur heq
    obtain ⟨j, hj, rfl⟩ := mem_iff_getElem.mp hu
    rcases Nat.lt_trichotomy j i with hlt | rfl | hlt
    · refine hfirst _ (mem_take_iff_getElem.mpr ⟨j, by omega, rfl⟩) heq
    · rw [hget, hrun] at hur
      cases hur
    · have hne := pairwise_iff_getElem.mp h.first i j hi hj hlt hur
      rw [hget] at hne
      exact hne heq.symm
  constructor
  · exact h.jobs
  · intro u hu hur
    rcases mem_or_eq_of_mem_set hu with hu | rfl
    · exact h.waiting u hu hur
    · cases hur
  · intro u hu hur
    rcases mem_or_eq_of_mem_set hu with hu | rfl
    · exact h.running u hu hur
    · exact h.waiting t hmem hrun _ (h.idle t.key hnone)
  · intro key hkey
    refine h.idle key fun u hu hur => hkey u ?_ hur
    obtain ⟨j, hj, rfl⟩ := mem_iff_getElem.mp hu
    refine mem_iff_getElem?.mpr ⟨j, ?_⟩
    have hne : i ≠ j := by
      rintro rfl
      rw [hget, hrun] at hur
      cases hur
    rw [getElem?_set_ne hne, getElem?_eq_getElem hj]
  · refine pairwise_iff_getElem.mpr fun a b ha hb hab hur => ?_
    rw [length_set] at ha hb
    have hbase := pairwise_iff_getElem.mp h.first a b ha hb hab
    rw [getElem_set, getElem_set]
    rw [getElem_set] at hur
    split at hur
    · rename_i hib
      subst hib
      rw [if_neg (by omega), if_pos rfl]
      exact hfirst _ (mem_take_iff_getElem.mpr ⟨a, by omega, rfl⟩)
    · rename_i hib
      rw [if_neg hib]
      split
      · rename_i hia
        subst hia
        rw [hget] at hbase
        exact hbase hur
      · exact hbase hur

theorem Sound.called (hmon : mon.next = m.after) {i : ℕ} (ht : s.tasks[i]? = some t)
    (hrun : t.running = true) {c : γ} {k : ρ c → Prog γ ρ ε Unit} (hprog : t.prog = .step c k) {r : ρ c}
    (hr : mon.valid (s.session m t.key) c r) : Sound m mon Idle Q E (s.called m i t c k r) := by
  have hmem : t ∈ s.tasks := mem_of_getElem? ht
  obtain ⟨hi, hget⟩ := List.getElem?_eq_some_iff.mp ht
  have hwp := h.running t hmem hrun
  rw [hprog] at hwp
  have hsession (key : κ) : (s.called m i t c k r).session m key =
      if t.key = key then m.after (s.session m t.key) c r else s.session m key :=
    session_set s _ t.key key _ rfl
  constructor
  · exact h.jobs
  · intro u hu hur
    rcases mem_or_eq_of_mem_set hu with hu | rfl
    · exact h.waiting u hu hur
    · rw [hrun] at hur
      cases hur
  · intro u hu hur
    obtain ⟨j, hj⟩ := mem_iff_getElem?.mp hu
    change (s.tasks.set i _)[j]? = some u at hj
    rw [hsession]
    by_cases hij : i = j
    · subst hij
      rw [getElem?_set_self hi, some.injEq] at hj
      subst hj
      rw [if_pos rfl, ← hmon]
      exact hwp.2 r hr
    · rw [getElem?_set_ne hij] at hj
      rw [if_neg fun heq => hij (eq_of_running h.first ht hj hrun hur heq)]
      exact h.running u (mem_of_getElem? hj) hur
  · intro key hkey
    have hne : t.key ≠ key := by
      have hself : (s.called m i t c k r).tasks[i]? = some { t with prog := k r } := getElem?_set_self hi
      exact hkey { t with prog := k r } (mem_of_getElem? hself) hrun
    rw [hsession, if_neg hne]
    refine h.idle key fun u hu hur => ?_
    obtain ⟨j, hj⟩ := mem_iff_getElem?.mp hu
    by_cases hij : i = j
    · subst hij
      exact (some.inj (ht.symm.trans hj)) ▸ hne
    · exact hkey u (mem_iff_getElem?.mpr ⟨j, by rw [State.called, getElem?_set_ne hij, hj]⟩) hur
  · refine pairwise_iff_getElem.mpr fun a b ha hb hab hur => ?_
    change a < (s.tasks.set i _).length at ha
    change b < (s.tasks.set i _).length at hb
    rw [length_set] at ha hb
    have hbase := pairwise_iff_getElem.mp h.first a b ha hb hab
    have hsame (j : ℕ) (hj : j < s.tasks.length) (hj' : j < (s.tasks.set i { t with prog := k r }).length) :
        (s.tasks.set i { t with prog := k r })[j].key = s.tasks[j].key ∧
          (s.tasks.set i { t with prog := k r })[j].running = s.tasks[j].running := by
      rw [getElem_set]
      split
      · rename_i hij
        subst hij
        rw [hget]
        exact ⟨rfl, rfl⟩
      · exact ⟨rfl, rfl⟩
    have hkeyA := hsame a ha (by rwa [length_set])
    have hkeyB := hsame b hb (by rwa [length_set])
    exact fun heq => hbase (hkeyB.2 ▸ hur) (hkeyA.1 ▸ hkeyB.1 ▸ heq)

theorem Sound.finished (hQ : ∀ x, Q x → Idle (m.finish x))
    (hE : ∀ x e, E x e → Idle (m.finish x)) {i : ℕ} (ht : s.tasks[i]? = some t)
    (hrun : t.running = true) (hended : t.ended = true) : Sound m mon Idle Q E (s.finished m i t) := by
  have hmem : t ∈ s.tasks := mem_of_getElem? ht
  have hsession (key : κ) : (s.finished m i t).session m key =
      if t.key = key then m.finish (s.session m t.key) else s.session m key :=
    session_set s _ t.key key _ rfl
  have hsub : (s.finished m i t).tasks.Sublist s.tasks := eraseIdx_sublist _ _
  have hidle : Idle (m.finish (s.session m t.key)) := by
    have hwp := h.running t hmem hrun
    unfold Task.ended at hended
    split at hended
    · cases hended
    · rename_i hprog
      rw [hprog] at hwp
      exact hQ _ hwp
    · rename_i hprog
      rw [hprog] at hwp
      exact hE _ _ hwp
  -- no other running job is of this session
  have hother : ∀ u ∈ (s.finished m i t).tasks, u.running = true → u.key ≠ t.key := by
    intro u hu hur heq
    obtain ⟨j, hj, hne⟩ : ∃ j, s.tasks[j]? = some u ∧ i ≠ j := by
      obtain ⟨j, hj⟩ := mem_iff_getElem?.mp hu
      change (s.tasks.eraseIdx i)[j]? = some u at hj
      rw [getElem?_eraseIdx] at hj
      split at hj
      · exact ⟨j, hj, by omega⟩
      · exact ⟨j + 1, hj, by omega⟩
    exact hne (eq_of_running h.first ht hj hrun hur heq.symm)
  constructor
  · intro jobs hjobs job hjob
    change jobs ∈ (if t.failed then _ else _) at hjobs
    split at hjobs
    · rcases mem_or_eq_of_mem_set hjobs with hjobs | rfl
      · exact h.jobs jobs hjobs job hjob
      · cases hjob
    · exact h.jobs jobs hjobs job hjob
  · intro u hu hur
    exact h.waiting u (hsub.subset hu) hur
  · intro u hu hur
    rw [hsession, if_neg (hother u hu hur).symm]
    exact h.running u (hsub.subset hu) hur
  · intro key hkey
    rw [hsession]
    split
    · exact hidle
    · rename_i hne
      refine h.idle key fun u hu hur => ?_
      obtain ⟨j, hj⟩ := mem_iff_getElem?.mp hu
      by_cases hij : j = i
      · subst hij
        exact (some.inj (ht.symm.trans hj)) ▸ hne
      · refine hkey u (mem_iff_getElem?.mpr ?_) hur
        rcases Nat.lt_or_gt_of_ne hij with hlt | hlt
        · exact ⟨j, by rw [State.finished, getElem?_eraseIdx, if_pos hlt, hj]⟩
        · refine ⟨j - 1, ?_⟩
          rw [State.finished, getElem?_eraseIdx, if_neg (by omega), Nat.sub_add_cancel (by omega), hj]
  · exact h.first.sublist hsub

theorem Sound.next (hmon : mon.next = m.after)
    (hQ : ∀ x, Q x → Idle (m.finish x)) (hE : ∀ x e, E x e → Idle (m.finish x)) {a : Action κ ρ ε σ ω}
    (ha : Expected m mon Idle Q E s a) (hs : Actors.next m s a = some s') : Sound m mon Idle Q E s' := by
  cases a with
  | spawn jobs =>
    obtain ⟨-, ⟨⟩⟩ := ite_none_right_eq_some.mp hs
    refine ⟨fun js hjs job hjob => ?_, h.waiting, h.running, h.idle, h.first⟩
    rcases mem_append.mp hjs with hjs | hjs
    · exact h.jobs js hjs job hjob
    · exact ha job (mem_singleton.mp hjs ▸ hjob)
  | enqueue caller =>
    rw [Actors.next] at hs
    split at hs
    · rename_i job jobs hcaller
      have hright := h.jobs _ (mem_of_getElem? hcaller)
      have hjobs : ∀ js ∈ s.callers.set caller jobs, ∀ job ∈ js, Right mon Idle Q E job.prog := by
        intro js hjs j hj
        rcases mem_or_eq_of_mem_set hjs with hjs | rfl
        · exact h.jobs js hjs j hj
        · exact hright j (mem_cons_of_mem _ hj)
      obtain ⟨-, hs⟩ := ite_none_right_eq_some.mp hs
      split at hs
      · cases hs
        exact ⟨hjobs, h.waiting, h.running, h.idle, h.first⟩
      · cases hs
        constructor
        · exact hjobs
        · intro t ht hrun
          rcases mem_append.mp ht with ht | ht
          · exact h.waiting t ht hrun
          · obtain rfl := mem_singleton.mp ht
            exact hright job mem_cons_self
        · intro t ht hrun
          rcases mem_append.mp ht with ht | ht
          · exact h.running t ht hrun
          · obtain rfl := mem_singleton.mp ht
            cases hrun
        · intro key hkey
          exact h.idle key fun t ht hrun => hkey t (mem_append_left _ ht) hrun
        · refine pairwise_append.mpr ⟨h.first, pairwise_singleton _ _, fun u _ t ht hrun => ?_⟩
          obtain rfl := mem_singleton.mp ht
          cases hrun
    · cases hs
  | start i =>
    rw [Actors.next] at hs
    split at hs
    · cases hs
    · rename_i t ht
      obtain ⟨⟨-, hrun, hfirst⟩, ⟨⟩⟩ := ite_none_right_eq_some.mp hs
      exact h.start ht hrun hfirst
  | step i w =>
    rw [Actors.next] at hs
    split at hs
    · cases hs
    · rename_i t ht
      split at hs
      · cases hs
      · cases hs
      · rename_i c k hprog
        obtain ⟨⟨hrun, -⟩, ⟨⟩⟩ := ite_none_right_eq_some.mp hs
        exact h.called hmon ht hrun hprog (ha t c k ht hprog hrun)
  | finish i =>
    rw [Actors.next] at hs
    split at hs
    · cases hs
    · rename_i t ht
      obtain ⟨⟨-, hrun, hended⟩, ⟨⟩⟩ := ite_none_right_eq_some.mp hs
      exact h.finished hQ hE ht hrun hended

omit h in
/-- The sessions change when a job makes a call, or is over. -/
theorem next_cases {a : Action κ ρ ε σ ω} (hs : Actors.next m s a = some s') :
    ((∀ i w, a ≠ .step i w) ∧ s'.sessions = s.sessions) ∨
    (∃ i w t c k, a = .step i w ∧ s.tasks[i]? = some t ∧ t.prog = .step c k ∧ t.running = true ∧
      s' = s.called m i t c k (m.reply s.sessions t.key c w)) ∨
    ∃ i t, a = .finish i ∧ s.tasks[i]? = some t ∧ s' = s.finished m i t := by
  cases a with
  | spawn jobs =>
    obtain ⟨-, ⟨⟩⟩ := ite_none_right_eq_some.mp hs
    exact .inl ⟨fun _ _ h => (by cases h), rfl⟩
  | enqueue caller =>
    rw [Actors.next] at hs
    split at hs
    · obtain ⟨-, hs⟩ := ite_none_right_eq_some.mp hs
      split at hs <;> cases hs <;> exact .inl ⟨fun _ _ h => (by cases h), rfl⟩
    · cases hs
  | start i =>
    rw [Actors.next] at hs
    split at hs
    · cases hs
    · obtain ⟨-, ⟨⟩⟩ := ite_none_right_eq_some.mp hs
      exact .inl ⟨fun _ _ h => (by cases h), rfl⟩
  | step i w =>
    rw [Actors.next] at hs
    split at hs
    · cases hs
    · rename_i t ht
      split at hs
      · cases hs
      · cases hs
      · rename_i c k hprog
        obtain ⟨⟨hrun, -⟩, ⟨⟩⟩ := ite_none_right_eq_some.mp hs
        exact .inr (.inl ⟨i, w, t, c, k, rfl, ht, hprog, hrun, rfl⟩)
  | finish i =>
    rw [Actors.next] at hs
    split at hs
    · cases hs
    · rename_i t ht
      obtain ⟨-, ⟨⟩⟩ := ite_none_right_eq_some.mp hs
      exact .inr (.inr ⟨i, t, rfl, ht, rfl⟩)

/-- What allowed calls keep of a session, one step keeps of all sessions. -/
theorem Sound.forall_session {F : σ → Prop} (hafter : ∀ x c r, F x → mon.ok x c → F (m.after x c r))
    (hfinish : ∀ x, F x → F (m.finish x)) (hF : ∀ key, F (s.session m key)) {a : Action κ ρ ε σ ω}
    (hs : Actors.next m s a = some s') (key : κ) : F (s'.session m key) := by
  have hset (key' : κ) (x : σ) (hx : F x) : F (((s.sessions.set key' x).get? key).getD m.fresh) := by
    rw [session_set s _ key' key x rfl]
    split
    · exact hx
    · exact hF key
  rcases next_cases hs with ⟨-, heq⟩ | ⟨i, w, t, c, k, -, ht, hprog, hrun, rfl⟩ | ⟨i, t, -, -, rfl⟩
  · rw [State.session, heq]
    exact hF key
  · exact hset t.key _ (hafter _ c _ (hF t.key) (h.ok (mem_of_getElem? ht) hrun hprog))
  · exact hset t.key _ (hfinish _ (hF t.key))

end Foxclaw.Actors
