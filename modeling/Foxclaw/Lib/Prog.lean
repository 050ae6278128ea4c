import Mathlib.Init

/-!
# Programs that call an environment

An asynchronous function between two of its calls to the outside does nothing another
function could see. So such a function is a tree: it is done (`pure`), it has thrown
(`throw`), or it makes a call `c` and goes on with the reply (`step`). The calls are the
points at which other functions run, the process dies, or the call itself fails.

## The logic

A `Monitor` watches the calls of a program: it says which calls are allowed (`ok`) and
which replies are to be expected (`valid`), and it remembers in a state what it needs to
know of the calls so far (`next`). `Monitor.wp` is the weakest precondition of a program:
all its calls are allowed, however the expected replies come, and it ends as the
postconditions say (`Q` where it returns, `E` where it throws).

## What is proved

`wp` of every combinator in terms of `wp` of its parts (`wp_bind`, `wp_tryCatch`,
`wp_attempt`, `wp_forM`), and that it is monotone (`wp_mono`). What each of a program's calls keeps, the
program keeps (`wp_of_uses`).
-/

namespace Foxclaw

universe u v w x y z

/-- A program with calls `c : κ` that have replies of type `ρ c`. -/
inductive Prog (κ : Type u) (ρ : κ → Type v) (ε : Type w) (α : Type x) where
  | pure (a : α)
  | throw (e : ε)
  | step (c : κ) (k : ρ c → Prog κ ρ ε α)

namespace Prog

variable {κ : Type u} {ρ : κ → Type v} {ε : Type w} {α : Type x} {β : Type y}

def bind : Prog κ ρ ε α → (α → Prog κ ρ ε β) → Prog κ ρ ε β
  | pure a, f => f a
  | throw e, _ => throw e
  | step c k, f => step c fun r => (k r).bind f

def tryCatch : Prog κ ρ ε α → (ε → Prog κ ρ ε α) → Prog κ ρ ε α
  | pure a, _ => pure a
  | throw e, h => h e
  | step c k, h => step c fun r => (k r).tryCatch h

/-- Run a program and return how it ended. -/
def attempt : Prog κ ρ ε α → Prog κ ρ ε (Except ε α)
  | pure a => pure (.ok a)
  | throw e => pure (.error e)
  | step c k => step c fun r => (k r).attempt

/-- Turn what is thrown into something else. -/
def mapError {ε' : Type z} (f : ε → ε') : Prog κ ρ ε α → Prog κ ρ ε' α
  | pure a => pure a
  | throw e => throw (f e)
  | step c k => step c fun r => (k r).mapError f

def call (c : κ) : Prog κ ρ ε (ρ c) := step c pure

/-- Return a value or throw an error. -/
def ofExcept : Except ε α → Prog κ ρ ε α
  | .ok a => pure a
  | .error e => throw e

/-- A program for each element of a list, in order. -/
def forM (f : α → Prog κ ρ ε Unit) : List α → Prog κ ρ ε Unit
  | [] => pure ()
  | a :: as => (f a).bind fun _ => forM f as

instance : Monad (Prog κ ρ ε) where
  pure := pure
  bind := bind

/-! ### Which calls a program makes -/

/-- All calls of the program, whatever the replies are, are in `C`. -/
def Uses (C : κ → Prop) : Prog κ ρ ε α → Prop
  | pure _ => True
  | throw _ => True
  | step c k => C c ∧ ∀ r, (k r).Uses C

variable {C C' : κ → Prop}

@[simp] theorem uses_call (c : κ) : (call c : Prog κ ρ ε (ρ c)).Uses C ↔ C c :=
  ⟨fun h => h.1, fun h => ⟨h, fun _ => trivial⟩⟩

theorem uses_ofExcept (x : Except ε α) : (ofExcept x : Prog κ ρ ε α).Uses C := by
  cases x <;> trivial

theorem Uses.bind {p : Prog κ ρ ε α} {f : α → Prog κ ρ ε β} (hp : p.Uses C) (hf : ∀ a, (f a).Uses C) :
    (p.bind f).Uses C := by
  induction p with
  | pure a => exact hf a
  | throw e => trivial
  | step c k ih => exact ⟨hp.1, fun r => ih r (hp.2 r)⟩

theorem Uses.seq {α β : Type x} {p : Prog κ ρ ε α} {f : α → Prog κ ρ ε β} (hp : p.Uses C)
    (hf : ∀ a, (f a).Uses C) : (p >>= f).Uses C := Uses.bind hp hf

theorem Uses.tryCatch {p : Prog κ ρ ε α} {h : ε → Prog κ ρ ε α} (hp : p.Uses C)
    (hh : ∀ e, (h e).Uses C) : (p.tryCatch h).Uses C := by
  induction p with
  | pure a => trivial
  | throw e => exact hh e
  | step c k ih => exact ⟨hp.1, fun r => ih r (hp.2 r)⟩

theorem Uses.attempt {p : Prog κ ρ ε α} (hp : p.Uses C) : p.attempt.Uses C := by
  induction p with
  | pure a => trivial
  | throw e => trivial
  | step c k ih => exact ⟨hp.1, fun r => ih r (hp.2 r)⟩

theorem Uses.mapError {ε' : Type z} {f : ε → ε'} {p : Prog κ ρ ε α} (hp : p.Uses C) :
    (p.mapError f).Uses C := by
  induction p with
  | pure a => trivial
  | throw e => trivial
  | step c k ih => exact ⟨hp.1, fun r => ih r (hp.2 r)⟩

theorem Uses.forM {f : α → Prog κ ρ ε Unit} {as : List α} (hf : ∀ a ∈ as, (f a).Uses C) :
    (Prog.forM f as).Uses C := by
  induction as with
  | nil => trivial
  | cons a as ih =>
    exact Uses.bind (hf a List.mem_cons_self) fun _ => ih fun b hb => hf b (List.mem_cons_of_mem a hb)

/-- A program that makes only calls in `C` makes only calls in what contains `C`. -/
theorem Uses.mono (h : ∀ c, C c → C' c) {p : Prog κ ρ ε α} (hp : p.Uses C) : p.Uses C' := by
  induction p with
  | pure a => trivial
  | throw e => trivial
  | step c k ih => exact ⟨h c hp.1, fun r => ih r (hp.2 r)⟩

/-! ### One run -/

/-- How a program ends when each call is answered by `answer`, and what becomes of the state. -/
def run {σ : Type z} (answer : σ → (c : κ) → ρ c) (next : σ → (c : κ) → ρ c → σ) :
    Prog κ ρ ε α → σ → Except ε α × σ
  | pure a, s => (.ok a, s)
  | throw e, s => (.error e, s)
  | step c k, s => (k (answer s c)).run answer next (next s c (answer s c))

end Prog

/-! ### Monitors -/

/-- What is allowed of the calls of a program, and what may be expected of the replies. -/
structure Monitor (κ : Type u) (ρ : κ → Type v) (σ : Type z) where
  ok : σ → κ → Prop
  valid : σ → (c : κ) → ρ c → Prop
  /-- What the monitor knows after the call. -/
  next : σ → (c : κ) → ρ c → σ

namespace Monitor

open Prog

variable {κ : Type u} {ρ : κ → Type v} {ε : Type w} {α : Type x} {β : Type y} {σ : Type z}
variable (m : Monitor κ ρ σ)

/-- The program makes only allowed calls and ends in `Q` or `E`. -/
def wp : Prog κ ρ ε α → (σ → α → Prop) → (σ → ε → Prop) → σ → Prop
  | .pure a, Q, _, s => Q s a
  | .throw e, _, E, s => E s e
  | .step c k, Q, E, s => m.ok s c ∧ ∀ r, m.valid s c r → wp (k r) Q E (m.next s c r)

variable {m} {Q Q' : σ → α → Prop} {E E' : σ → ε → Prop} {s : σ}

theorem wp_step (c : κ) (k : ρ c → Prog κ ρ ε α) :
    m.wp (.step c k) Q E s ↔ m.ok s c ∧ ∀ r, m.valid s c r → m.wp (k r) Q E (m.next s c r) :=
  Iff.rfl

@[simp] theorem wp_call (c : κ) {Q : σ → ρ c → Prop} :
    m.wp (.call c : Prog κ ρ ε (ρ c)) Q E s ↔
      m.ok s c ∧ ∀ r, m.valid s c r → Q (m.next s c r) r := Iff.rfl

/-- The precondition of `p; f`. -/
@[simp] theorem wp_bind (p : Prog κ ρ ε α) (f : α → Prog κ ρ ε β) {Q : σ → β → Prop} :
    m.wp (p.bind f) Q E s ↔ m.wp p (fun s a => m.wp (f a) Q E s) E s := by
  induction p generalizing s with
  | pure a => rfl
  | throw e => rfl
  | step c k ih => exact and_congr_right fun _ => forall₂_congr fun r _ => ih r

@[simp] theorem wp_bind' {α β : Type x} (p : Prog κ ρ ε α) (f : α → Prog κ ρ ε β)
    {Q : σ → β → Prop} :
    m.wp (p >>= f) Q E s ↔ m.wp p (fun s a => m.wp (f a) Q E s) E s := wp_bind p f

/-- The precondition of `try p catch h`. -/
@[simp] theorem wp_tryCatch (p : Prog κ ρ ε α) (h : ε → Prog κ ρ ε α) :
    m.wp (p.tryCatch h) Q E s ↔ m.wp p Q (fun s e => m.wp (h e) Q E s) s := by
  induction p generalizing s with
  | pure a => rfl
  | throw e => rfl
  | step c k ih => exact and_congr_right fun _ => forall₂_congr fun r _ => ih r

/-- The precondition of `attempt p`. -/
@[simp] theorem wp_attempt (p : Prog κ ρ ε α) {Q : σ → Except ε α → Prop} :
    m.wp p.attempt Q E s ↔ m.wp p (fun s a => Q s (.ok a)) (fun s e => Q s (.error e)) s := by
  induction p generalizing s with
  | pure a => rfl
  | throw e => rfl
  | step c k ih => exact and_congr_right fun _ => forall₂_congr fun r _ => ih r

/-- The precondition of a program whose errors are turned into others. -/
@[simp] theorem wp_mapError {ε' : Type y} {f : ε → ε'} (p : Prog κ ρ ε α) {E : σ → ε' → Prop} :
    m.wp (p.mapError f) Q E s ↔ m.wp p Q (fun s e => E s (f e)) s := by
  induction p generalizing s with
  | pure a => rfl
  | throw e => rfl
  | step c k ih => exact and_congr_right fun _ => forall₂_congr fun r _ => ih r

@[simp] theorem wp_ofExcept_ok (a : α) :
    m.wp (.ofExcept (.ok a) : Prog κ ρ ε α) Q E s ↔ Q s a := Iff.rfl

/-- The rule for `p >>= f`, to be applied to a goal. -/
theorem wp_seq {α β : Type x} {p : Prog κ ρ ε α} {f : α → Prog κ ρ ε β} {Q : σ → β → Prop}
    (h : m.wp p (fun s a => m.wp (f a) Q E s) E s) : m.wp (p >>= f) Q E s := (wp_bind' p f).mpr h

/-- The rule for `attempt p`, to be applied to a goal. -/
theorem wp_caught {p : Prog κ ρ ε α} {Q : σ → Except ε α → Prop}
    (h : m.wp p (fun s a => Q s (.ok a)) (fun s e => Q s (.error e)) s) : m.wp p.attempt Q E s :=
  (wp_attempt p).mpr h

/-- A run whose answers may be expected ends as the postconditions say. -/
theorem wp_run {answer : σ → (c : κ) → ρ c} (hanswer : ∀ s c, m.valid s c (answer s c))
    {p : Prog κ ρ ε α} (h : m.wp p Q E s) :
    (∀ a, (p.run answer m.next s).1 = .ok a → Q (p.run answer m.next s).2 a) ∧
      ∀ e, (p.run answer m.next s).1 = .error e → E (p.run answer m.next s).2 e := by
  induction p generalizing s with
  | pure a =>
    refine ⟨fun a' ha => ?_, fun e he => (by cases he)⟩
    obtain rfl : a = a' := Except.ok.inj ha
    exact h
  | throw e =>
    refine ⟨fun a ha => (by cases ha), fun e' he => ?_⟩
    obtain rfl : e = e' := Except.error.inj he
    exact h
  | step c k ih => exact ih _ (h.2 _ (hanswer s c))

/-- A program that meets its postconditions meets weaker ones. -/
theorem wp_mono {p : Prog κ ρ ε α} (hQ : ∀ s a, Q s a → Q' s a) (hE : ∀ s e, E s e → E' s e)
    (h : m.wp p Q E s) : m.wp p Q' E' s := by
  induction p generalizing s with
  | pure a => exact hQ s a h
  | throw e => exact hE s e h
  | step c k ih => exact ⟨h.1, fun r hr => ih r (h.2 r hr)⟩

/-- What each call in `C` keeps, a program that makes only such calls keeps. -/
theorem wp_of_uses {C : κ → Prop} {J : σ → Prop}
    (hC : ∀ c, C c → ∀ s, J s → m.ok s c ∧ ∀ r, m.valid s c r → J (m.next s c r))
    {p : Prog κ ρ ε α} (hp : p.Uses C) (hs : J s) : m.wp p (fun s _ => J s) (fun s _ => J s) s := by
  induction p generalizing s with
  | pure a => exact hs
  | throw e => exact hs
  | step c k ih =>
    obtain ⟨hok, hnext⟩ := hC c hp.1 s hs
    exact ⟨hok, fun r hr => ih r (hp.2 r) (hnext r hr)⟩

/-- A loop whose body keeps `I` and does not throw keeps `I`. -/
theorem wp_forM {f : α → Prog κ ρ ε Unit} {as : List α} {I : σ → Prop}
    (hf : ∀ a ∈ as, ∀ s, I s → m.wp (f a) (fun s _ => I s) E s) (hs : I s) :
    m.wp (Prog.forM f as) (fun s _ => I s) E s := by
  induction as generalizing s with
  | nil => exact hs
  | cons a as ih =>
    rw [Prog.forM, wp_bind]
    exact wp_mono (fun s _ h => ih (fun b hb => hf b (List.mem_cons_of_mem a hb)) h)
      (fun _ _ h => h) (hf a List.mem_cons_self s hs)

end Monitor

end Foxclaw
