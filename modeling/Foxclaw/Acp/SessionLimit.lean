import Foxclaw.Acp.ManagerCalls

/-!
# The limit on concurrent sessions

An operation that needs a runtime handle checks the size of the cache, ensures the runtime session, and only
then caches the handle. In between other sessions' operations can pass the same check, and each of them adds
its handle. The limit holds as long as the check leaves room for those that have passed it.

## What is proved

* `job_safe` — an operation caches a handle only after it has passed the check.
* `cacheSize_le` — in a run of steps that meet `Steady` the limit holds.
* `limit_exceeded` — two sessions under a limit of one.
-/

namespace Foxclaw.Acp

open Bool List Option Monitor Prog

variable {d : Deps} {key : String}

/-- A handle is cached only by an operation that has passed the limit. -/
def limitMonitor : Monitor Command Reply Session where
  ok x
    | .setCached _ _ => x.admitted = true
    | _ => True
  valid _ _ _ := True
  next := Session.after

/-- A call that does not cache a handle. -/
def NoCache : Command → Prop
  | .setCached _ _ => False
  | _ => True

theorem plain_noCache : Plain NoCache :=
  ⟨trivial, trivial, trivial, fun _ => trivial, fun _ => trivial, trivial, fun _ => trivial, trivial,
    fun _ => trivial, fun _ => trivial, fun _ => trivial, fun _ _ => trivial⟩

/-- The program caches a handle only after it has passed the limit, from whatever session. -/
def Safe {α : Type} (p : Io α) : Prop := ∀ x, limitMonitor.wp p (fun _ _ => True) (fun _ _ => True) x

variable {α β : Type}

variable {p : Io α}

theorem Safe.of_uses (h : p.Uses NoCache) : Safe p := by
  intro x
  refine wp_of_uses (J := fun _ => True) (fun c hc s _ => ⟨?_, fun _ _ => trivial⟩) h trivial
  cases c <;> trivial

theorem Safe.pure (a : α) : Safe (Pure.pure a : Io α) := fun _ => trivial

theorem Safe.seq {f : α → Io β} (hp : Safe p) (hf : ∀ a, Safe (f a)) : Safe (p >>= f) := fun x =>
  wp_seq (wp_mono (fun y a _ => hf a y) (fun _ _ h => h) (hp x))

theorem Safe.tryCatch {h : Thrown → Io α} (hp : Safe p) (hh : ∀ e, Safe (h e)) :
    Safe (p.tryCatch h) := fun x =>
  (wp_tryCatch p h).mpr (wp_mono (fun _ _ h => h) (fun y e _ => hh e y) (hp x))

/-- From a session whose operation has passed the limit on. -/
theorem wp_admitted {x : Session} (hp : p.Uses NoCache) (hx : x.admitted = true) :
    limitMonitor.wp p (fun y _ => y.admitted = true) (fun _ _ => True) x := by
  have hkeep : ∀ c, NoCache c → ∀ y : Session, y.admitted = true →
      limitMonitor.ok y c ∧ ∀ r, limitMonitor.valid y c r → (limitMonitor.next y c r).admitted = true := by
    intro c hc y hy
    constructor
    · cases c <;> trivial
    · rintro r -
      change (y.after c r).admitted = true
      unfold Session.after
      split <;> first | exact hy | rfl | exact hc.elim | skip
      unfold Session.written
      split <;> exact hy
  exact wp_mono (fun _ _ h => h) (fun _ _ _ => trivial) (wp_of_uses hkeep hp hx)

theorem safe_admitted {f : Unit → Io α} (h : ∀ x : Session, x.admitted = true →
    limitMonitor.wp (f ()) (fun _ _ => True) (fun _ _ => True) x) :
    Safe (io .enforceConcurrentSessionLimit >>= f) := fun _ =>
  wp_seq (wp_io trivial (fun _ _ => h _ rfl) fun _ _ => trivial)

theorem wp_setCached {state : CachedRuntimeState} {x : Session} (hx : x.admitted = true) :
    limitMonitor.wp (setCachedRuntimeState state) (fun _ _ => True) (fun _ _ => True) x :=
  wp_seq (wp_io trivial (fun _ _ => wp_io hx (fun _ _ => trivial) fun _ _ => trivial) fun _ _ => trivial)

theorem ensureNewHandle_safe (m : SessionAcpMeta) (configuredBackend agent : String) (cwd : Option String) :
    Safe (ensureNewHandle m configuredBackend agent cwd) := by
  refine safe_admitted fun x hx => ?_
  have hbackend : (io (.requireRuntimeBackend (nonEmpty (some configuredBackend)))).Uses NoCache :=
    uses_io (c := .requireRuntimeBackend _) trivial
  refine wp_seq (wp_mono (fun y backend hy => ?_) (fun _ _ h => h) (wp_admitted hbackend hx))
  have hensure : (io (.ensureSession agent m.mode none cwd)).Uses NoCache :=
    uses_io (c := .ensureSession _ _ _ _) trivial
  refine wp_seq (wp_mono (fun y ensured hy => ?_) (fun _ _ h => h) (wp_admitted (uses_boundary _ _ hensure) hy))
  refine wp_seq (wp_mono (fun y now hy => ?_) (fun _ _ h => h) (wp_admitted (uses_io plain_noCache.now) hy))
  refine wp_seq (wp_mono (fun y _ hy => ?_) (fun _ _ h => h) (wp_admitted (uses_runIf ?_) hy))
  · exact wp_seq (wp_mono (fun _ _ _ => trivial) (fun _ _ h => h) (wp_setCached hy))
  · exact (uses_write (w := .ensured _) false trivial).seq fun _ => trivial

theorem ensureRuntimeHandle_safe (m : SessionAcpMeta) : Safe (ensureRuntimeHandle d key m) := by
  refine (Safe.of_uses plain_noCache.getCachedRuntimeState).seq fun cached => ?_
  cases cached with
  | none => exact ensureNewHandle_safe _ _ _ _
  | some cached =>
    dsimp only
    split
    · exact Safe.pure _
    · exact (Safe.of_uses (uses_io (c := .clearCached) trivial)).seq fun _ => ensureNewHandle_safe _ _ _ _

theorem safe_ensured {f : AcpRuntime × AcpRuntimeHandle × SessionAcpMeta → Io α} (hf : ∀ e, Safe (f e)) :
    Safe (requireReadySessionMeta d key >>= fun m => ensureRuntimeHandle d key m >>= f) :=
  (Safe.of_uses plain_noCache.requireReadySessionMeta).seq fun m => (ensureRuntimeHandle_safe m).seq hf

theorem changes_noCache : Changes NoCache :=
  ⟨fun _ _ => trivial, fun _ _ _ => trivial, fun _ _ => trivial, trivial, trivial, fun _ _ => trivial⟩

theorem follows_safe : Follows NoCache d key Safe :=
  ⟨plain_noCache, fun _ hp => .of_uses hp, fun hp hf => (Safe.of_uses hp).seq hf,
    fun hf => safe_ensured fun e => .of_uses (hf e)⟩

theorem initializeSession_safe (input : InitializeInput) : Safe (initializeSession d key input) := by
  refine (Safe.of_uses (uses_io (c := .requireRuntimeBackend _) trivial)).seq fun backend => ?_
  refine (Safe.of_uses (uses_ofExcept _)).seq fun options => safe_admitted fun x hx => ?_
  have hensure : (io (.ensureSession input.agent input.mode input.resumeSessionId options.cwd)).Uses NoCache :=
    uses_io (c := .ensureSession _ _ _ _) trivial
  refine wp_seq (wp_mono (fun y handle hy => ?_) (fun _ _ h => h) (wp_admitted (uses_boundary _ _ hensure) hx))
  refine wp_seq (wp_mono (fun y now hy => ?_) (fun _ _ h => h) (wp_admitted (uses_io plain_noCache.now) hy))
  refine wp_seq (wp_mono (fun y _ hy => wp_setCached hy) (fun _ _ h => h) (wp_admitted ?_ hy))
  refine Uses.tryCatch ?_ fun error => ?_
  · exact (uses_write (w := .init _) true trivial).seq fun _ => uses_runIf trivial
  · exact (uses_io (c := .close _ _) trivial).attempt.seq fun _ => by trivial

theorem runTurn_safe (hasOnEvent : Bool) : Safe (runTurn d key hasOnEvent) := by
  refine safe_ensured fun e => ?_
  refine (Safe.of_uses (plain_noCache.applyRuntimeControls _ _ _ (fun _ => trivial) (fun _ _ => trivial)
    fun _ => trivial)).seq fun _ => ?_
  refine (Safe.of_uses (plain_noCache.setSessionState _ _ _ fun _ => trivial)).seq fun _ => ?_
  refine (Safe.of_uses (uses_io (c := .setActiveTurn) trivial)).seq fun _ => ?_
  have hstream := plain_noCache.streamTurn e.2.1 hasOnEvent trivial (fun _ => trivial) (fun _ => trivial) trivial
    fun _ _ _ _ => trivial
  refine (Safe.of_uses hstream.attempt).seq fun outcome => ?_
  refine (Safe.of_uses (uses_io (c := .deleteActiveTurn) trivial)).seq fun _ => ?_
  exact (Safe.of_uses (plain_noCache.afterTurn _ _ _ trivial trivial)).seq fun _ => Safe.of_uses (uses_ofExcept _)

theorem closeSession_safe (input : CloseInput) : Safe (closeSession d key input) := by
  refine (Safe.of_uses (uses_io plain_noCache.readMeta)).seq fun m => ?_
  cases m with
  | none =>
    dsimp only
    split
    · exact Safe.of_uses trivial
    · exact Safe.pure _
  | some m =>
    refine Safe.seq (Safe.tryCatch ?_ fun error => ?_) fun _ => ?_
    · refine (ensureRuntimeHandle_safe m).seq fun e => ?_
      refine (Safe.of_uses (uses_boundary _ _ (uses_io (c := .close _ _) trivial))).seq fun _ => ?_
      exact Safe.of_uses (uses_io (c := .clearCached) trivial)
    · dsimp only
      split
      · exact Safe.of_uses (uses_io (c := .clearCached) trivial)
      · exact Safe.of_uses trivial
    · exact Safe.of_uses (uses_runIf ((uses_write (w := .clear) true trivial).seq fun _ => by trivial))

theorem job_safe {op : Op} {job : Job} (h : op.job d key = .ok job) : Safe job.prog :=
  have hC := changes_noCache
  job_prog h (fun input _ => initializeSession_safe input) follows_safe.getSessionStatus
    (fun _ mode _ => follows_safe.setSessionRuntimeMode hC mode)
    (fun _ _ pair _ => follows_safe.setSessionConfigOption hC pair.1 pair.2)
    (follows_safe.updateSessionRuntimeOptions hC) (follows_safe.resetSessionRuntimeOptions hC) runTurn_safe
    (follows_safe.cancelSession fun _ _ _ _ _ => trivial) closeSession_safe

theorem evictCandidate_safe (idleTtlMs now : ℚ) : Safe (evictCandidate idleTtlMs now) :=
  Safe.of_uses (plain_noCache.evictCandidate _ _ trivial fun _ => trivial)

/-! ### The bound -/

/-- The session has a cached handle, or its operation is about to cache one. -/
def Session.occupied (x : Session) : Bool := x.cached.isSome || x.admitted

/-- The sessions that have a cached handle or are about to. -/
def occupiedCount (sessions : JsMap String Session) : ℕ := sessions.values.countP Session.occupied

/-- The next call of the job is the check of the limit. -/
def checksLimit (t : Actors.Task String Reply Thrown) : Bool :=
  match t.prog with
  | .step .enforceConcurrentSessionLimit _ => true
  | _ => false

/-- The condition on a step: where the check passes for a session without a handle, there is room besides
the sessions that have passed it. -/
def Steady (d : Deps) (s : System) : Action → Prop
  | .step i _ => ∀ t ∈ s.tasks[i]?, checksLimit t = true →
      (s.session (machine d) t.key).cached = none → ∀ limit ∈ sessionLimit d,
        (cacheSize s.sessions : ℤ) < limit → (occupiedCount s.sessions : ℤ) < limit
  | _ => True

theorem cacheSize_le_occupiedCount (sessions : JsMap String Session) :
    cacheSize sessions ≤ occupiedCount sessions :=
  countP_mono_left fun x _ hx => by simp [Session.occupied, hx]

variable {sessions : JsMap String Session} {x y : Session}

theorem occupiedCount_set_le (hy : y.occupied = true → ((sessions.get? key).getD {}).occupied = true) :
    occupiedCount (sessions.set key y) ≤ occupiedCount sessions := by
  have hcount := JsMap.countP_set sessions key y Session.occupied
  cases hget : sessions.get? key with
  | none =>
    rw [hget] at hy hcount
    have hfresh : y.occupied = false := by
      cases h : y.occupied
      · rfl
      · exact absurd (hy h) (by decide)
    rw [hfresh] at hcount
    simp only [any_none, false_eq_true, if_false] at hcount
    unfold occupiedCount
    omega
  | some x =>
    rw [hget] at hy hcount
    simp only [any_some] at hcount
    unfold occupiedCount
    by_cases hyo : y.occupied = true
    · have hxo : x.occupied = true := hy hyo
      rw [if_pos hyo, if_pos hxo] at hcount
      omega
    · rw [if_neg hyo] at hcount
      omega

theorem occupiedCount_set_le_succ (y : Session) :
    occupiedCount (sessions.set key y) ≤ occupiedCount sessions + 1 := by
  have hcount := JsMap.countP_set sessions key y Session.occupied
  unfold occupiedCount
  split at hcount <;> split at hcount <;> omega

/-- A call other than the check makes no session occupied. -/
theorem occupied_after {c : Command} (hok : limitMonitor.ok x c) (hc : c ≠ .enforceConcurrentSessionLimit)
    (r : Reply c) (h : (x.after c r).occupied = true) : x.occupied = true := by
  unfold Session.after at h
  split at h
  · unfold Session.written at h
    split at h <;> exact h
  · exact absurd rfl hc
  · simpa [Session.occupied] using h
  · have hadmitted : x.admitted = true := hok
    simp [Session.occupied, hadmitted]
  · simp only [Session.occupied, isSome_none, Bool.false_or] at h
    simp [Session.occupied, h]
  · simpa [Session.occupied, Session.updateCached] using h
  · simpa [Session.occupied, Session.updateCached] using h
  all_goals exact h

/-- All jobs cache a handle only after the check. -/
abbrev Checked (d : Deps) (s : System) : Prop :=
  Actors.Sound (machine d) limitMonitor (fun _ => True) (fun _ => True) (fun _ _ => True) s

variable {s s' : System}

theorem checked_start (store : List (String × Option SessionAcpMeta)) : Checked d (.start store) :=
  ⟨fun _ h => absurd h not_mem_nil, fun _ h => absurd h not_mem_nil,
    fun _ h => absurd h not_mem_nil, fun _ _ => trivial, List.Pairwise.nil⟩

theorem Checked.next {a : Action} (h : Checked d s) (hs : next d s a = some s') : Checked d s' := by
  obtain ⟨-, hs⟩ := ite_none_right_eq_some.mp hs
  refine Actors.Sound.next h rfl (fun _ _ => trivial) (fun _ _ _ => trivial) ?_ hs
  cases a with
  | call key op now candidates =>
    intro job hjob x _
    exact spawned_prog (P := Safe) (fun _ => job_safe) evictCandidate_safe rfl job hjob x
  | step i w => exact fun _ _ _ _ _ _ => trivial
  | enqueue caller => trivial
  | start i => trivial
  | finish i => trivial

theorem occupiedCount_start (store : List (String × Option SessionAcpMeta)) :
    occupiedCount (System.start store).sessions = 0 := by
  refine countP_eq_zero.mpr fun x hx => ?_
  obtain ⟨key, hkey⟩ := JsMap.mem_values_iff.mp hx
  obtain ⟨m, -, rfl⟩ := eq_of_get?_start hkey
  exact Bool.false_ne_true

variable {limit : ℤ}

theorem reply_enforce (hlimit : sessionLimit d = some limit) (hx : x.cached = none)
    (h : enforceConcurrentSessionLimit d sessions x = .ok ()) : (cacheSize sessions : ℤ) < limit := by
  unfold enforceConcurrentSessionLimit at h
  rw [hlimit] at h
  simp only [hx, isSome_none, false_eq_true, if_false] at h
  split at h
  · cases h
  · omega

/-- The check leaves room. -/
theorem occupiedCount_step (hlimit : sessionLimit d = some limit) {i : ℕ} {w : World}
    (hsteady : Steady d s (.step i w)) (hcount : (occupiedCount s.sessions : ℤ) ≤ limit)
    {t : Actors.Task String Reply Thrown} {c : Command} {k : Reply c → Io Unit} (ht : s.tasks[i]? = some t)
    (hprog : t.prog = .step c k) (hok : limitMonitor.ok (s.session (machine d) t.key) c) :
    (occupiedCount (s.sessions.set t.key
      ((s.session (machine d) t.key).after c (reply d s.sessions t.key c w))) : ℤ) ≤ limit := by
  have hle (y : Session) (hy : y.occupied = true → (s.session (machine d) t.key).occupied = true) :
      (occupiedCount (s.sessions.set t.key y) : ℤ) ≤ limit := by
    have hset : occupiedCount (s.sessions.set t.key y) ≤ occupiedCount s.sessions := occupiedCount_set_le hy
    omega
  by_cases hc : c = .enforceConcurrentSessionLimit
  · subst hc
    cases hr : reply d s.sessions t.key .enforceConcurrentSessionLimit w with
    | error e => exact hle _ fun h => h
    | ok u =>
      cases hcached : (s.session (machine d) t.key).cached with
      | some entry => exact hle _ fun _ => by simp [Session.occupied, hcached]
      | none =>
        have hroom := reply_enforce hlimit hcached hr
        have hlt := hsteady t ht (by rw [checksLimit, hprog]) hcached limit hlimit hroom
        have hset : occupiedCount (s.sessions.set t.key
            ((s.session (machine d) t.key).after .enforceConcurrentSessionLimit (.ok u))) ≤
              occupiedCount s.sessions + 1 := occupiedCount_set_le_succ _
        omega
  · exact hle _ (occupied_after hok hc _)

/-- What a steady step keeps. -/
theorem occupiedCount_next (hlimit : sessionLimit d = some limit) {a : Action} (h : Checked d s)
    (hsteady : Steady d s a) (hcount : (occupiedCount s.sessions : ℤ) ≤ limit) (hs : next d s a = some s') :
    (occupiedCount s'.sessions : ℤ) ≤ limit := by
  obtain ⟨-, hs⟩ := ite_none_right_eq_some.mp hs
  rcases Actors.next_cases hs with ⟨-, heq⟩ | ⟨i, w, t, c, k, ha, ht, hprog, hrun, rfl⟩ | ⟨i, t, -, -, rfl⟩
  · exact heq ▸ hcount
  · cases a <;> cases ha
    exact occupiedCount_step hlimit hsteady hcount ht hprog (h.ok (mem_of_getElem? ht) hrun hprog)
  · have hset : occupiedCount (s.sessions.set t.key ((machine d).finish (s.session (machine d) t.key))) ≤
        occupiedCount s.sessions := occupiedCount_set_le fun h => by
      simp only [machine, Session.occupied, Bool.or_false] at h
      exact or_eq_true_iff.mpr (.inl h)
    change (occupiedCount (s.sessions.set t.key _) : ℤ) ≤ limit
    omega

/-- In a run of steady steps the cache keeps to the limit. -/
theorem cacheSize_le {q : ℚ} (hq : d.maxConcurrentSessions = some (.fin q))
    {store : List (String × Option SessionAcpMeta)} {as : List Action}
    (hsteady : Runs.Meets (next d) (Steady d) (.start store) as)
    (h : Runs.exec (next d) (.start store) as = some s) : (cacheSize s.sessions : ℤ) ≤ max 1 ⌊q⌋ := by
  have hlimit : sessionLimit d = some (max 1 ⌊q⌋) := by rw [sessionLimit, hq]
  have hstart : (occupiedCount (System.start store).sessions : ℤ) ≤ max 1 ⌊q⌋ := by
    rw [occupiedCount_start]
    exact le_max_of_le_left (by decide)
  obtain ⟨-, hcount⟩ := Runs.exec_invariant_of_meets
    (I := fun s => Checked d s ∧ (occupiedCount s.sessions : ℤ) ≤ max 1 ⌊q⌋)
    (fun s a s' hi hP hs => ⟨hi.1.next hs, occupiedCount_next hlimit hi.1 hP hi.2 hs⟩) hsteady
    ⟨checked_start store, hstart⟩ h
  have := cacheSize_le_occupiedCount s.sessions
  omega

/-- Whether a step is steady can be computed. -/
instance (s : System) : (a : Action) → Decidable (Steady d s a)
  | .call _ _ _ _ | .enqueue _ | .start _ | .finish _ => isTrue trivial
  | .step i _ =>
    inferInstanceAs (Decidable (∀ t ∈ s.tasks[i]?, checksLimit t = true →
      (s.session (machine d) t.key).cached = none → ∀ limit ∈ sessionLimit d,
        (cacheSize s.sessions : ℤ) < limit → (occupiedCount s.sessions : ℤ) < limit))

/-- A limit of one session. -/
def oneSession : Deps := { maxConcurrentSessions := some (.fin 1) }

/-- A new session is asked for, and its job begins. -/
def asking (key : String) (caller task : ℕ) : List Action :=
  [.call key (.initSession { agent := "main", mode := .persistent }) 0 [], .enqueue caller, .start task]

/-- A job makes some calls. -/
def calling (i n : ℕ) : List Action := List.replicate n (.step i {})

/-- One session is created; the other is refused. -/
def oneAfterAnother : List Action :=
  asking "a" 0 0 ++ calling 0 7 ++ [.finish 0] ++ asking "b" 1 0 ++ calling 0 2 ++ [.finish 0]

theorem cacheSize_le_one : ∃ s, Runs.exec (next oneSession) (.start []) oneAfterAnother = some s ∧
    (cacheSize s.sessions : ℤ) ≤ max 1 ⌊(1 : ℚ)⌋ := by
  have h : Runs.Meets (next oneSession) (Steady oneSession) (.start []) oneAfterAnother := by decide +kernel
  exact ⟨_, rfl, cacheSize_le rfl h rfl⟩

/-- Both pass the check before the first has cached its handle. -/
def bothAtOnce : List Action :=
  asking "a" 0 0 ++ calling 0 2 ++ asking "b" 1 1 ++ calling 1 2 ++ calling 0 5 ++ [.finish 0] ++ calling 0 5 ++
    [.finish 0]

/-- Two sessions under a limit of one. -/
theorem limit_exceeded : ∃ s, Runs.exec (next oneSession) (.start []) bothAtOnce = some s ∧
    ¬ (cacheSize s.sessions : ℤ) ≤ max 1 ⌊(1 : ℚ)⌋ := by
  refine ⟨_, rfl, ?_⟩
  decide +kernel

end Foxclaw.Acp
