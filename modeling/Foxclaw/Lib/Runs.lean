import Mathlib.Data.List.Basic

/-!
# Runs of a transition function

A component that takes one step at a time is a function `next : σ → ι → Option σ`:
in the state `s` the choice `a` of the environment (which call is made, which task
finishes, what the clock shows) leads to `next s a`, or is not possible there. A run
is a list of choices; `exec next s as` is where the run `as` leads from `s`.

## What is proved

* `exec_invariant` — what one step keeps, a run keeps.
* `exec_invariant_of_meets` — the same when the steps of the run are known to meet a
  condition on the state before the step and the choice taken there (`Meets`).
* `exists_quiet` — steps that bring a measure down come to an end.
* `always_iff_meets` — a property holds all along a run exactly when every step meets a condition,
  if that is so for one step.
-/

namespace Foxclaw.Runs

open List Option

universe u v

variable {σ : Type u} {ι : Type v} (next : σ → ι → Option σ)

/-- Where the run `as` leads from `s`, if every step of it is possible. -/
def exec : σ → List ι → Option σ
  | s, [] => some s
  | s, a :: as => (next s a).bind fun s' => exec s' as

@[simp] theorem exec_nil (s : σ) : exec next s [] = some s := rfl

theorem exec_cons (s : σ) (a : ι) (as : List ι) :
    exec next s (a :: as) = (next s a).bind fun s' => exec next s' as := rfl

variable {as : List ι}

theorem exec_cons_eq_some {s t : σ} {a : ι} :
    exec next s (a :: as) = some t ↔ ∃ s', next s a = some s' ∧ exec next s' as = some t := by
  rw [exec_cons, bind_eq_some_iff]

/-- Every step of the run `as` from `s` meets `P` in the state it is taken from. -/
def Meets (P : σ → ι → Prop) : σ → List ι → Prop
  | _, [] => True
  | s, a :: as => P s a ∧ ∀ s', next s a = some s' → Meets P s' as

/-- Whether a run meets a condition can be computed along the run. -/
instance decidableMeets {P : σ → ι → Prop} [∀ s a, Decidable (P s a)] :
    ∀ s as, Decidable (Meets next P s as)
  | _, [] => isTrue trivial
  | s, a :: as =>
    match h : next s a with
    | none => decidable_of_iff (P s a) ⟨fun hP => ⟨hP, fun s' hs' => by rw [h] at hs'; cases hs'⟩, And.left⟩
    | some s' =>
      have : Decidable (Meets next P s' as) := decidableMeets s' as
      decidable_of_iff (P s a ∧ Meets next P s' as)
        ⟨fun hP => ⟨hP.1, fun t ht => by rw [← some.inj (h.symm.trans ht)]; exact hP.2⟩,
          fun hP => ⟨hP.1, hP.2 s' h⟩⟩

variable {next}

variable {P : σ → ι → Prop}

/-- A run whose first step meets `P` and whose other steps do. -/
theorem Meets.cons {s s' : σ} {a : ι} (hP : P s a)
    (hs : next s a = some s') (h : Meets next P s' as) : Meets next P s (a :: as) :=
  ⟨hP, fun t ht => by rw [← some.inj (hs.symm.trans ht)]; exact h⟩

/-- A condition on the choices alone. -/
theorem Meets.and_of_forall {C : ι → Prop} {s : σ} (hC : ∀ a ∈ as, C a)
    (h : Meets next P s as) : Meets next (fun s a => C a ∧ P s a) s as := by
  induction as generalizing s with
  | nil => exact trivial
  | cons a as ih =>
    refine ⟨⟨hC a mem_cons_self, h.1⟩, fun s' hs' => ?_⟩
    exact ih (fun b hb => hC b (mem_cons_of_mem a hb)) (h.2 s' hs')

variable {I : σ → Prop}

/-- What a step that meets `P` keeps, a run of such steps keeps. -/
theorem exec_invariant_of_meets (hstep : ∀ s a s', I s → P s a → next s a = some s' → I s') {s t : σ}
    (hP : Meets next P s as) (hs : I s) (h : exec next s as = some t) : I t := by
  induction as generalizing s with
  | nil =>
    rw [exec_nil, some.injEq] at h
    exact h ▸ hs
  | cons a as ih =>
    obtain ⟨s', hs', h'⟩ := (exec_cons_eq_some next).mp h
    exact ih (hP.2 s' hs') (hstep s a s' hs hP.1 hs') h'

/-- What one step keeps, a run keeps. -/
theorem exec_invariant (hstep : ∀ s a s', I s → next s a = some s' → I s') {s t : σ} (hs : I s)
    (h : exec next s as = some t) : I t := by
  induction as generalizing s with
  | nil =>
    rw [exec_nil, some.injEq] at h
    exact h ▸ hs
  | cons a as ih =>
    obtain ⟨s', hs', h'⟩ := (exec_cons_eq_some next).mp h
    exact ih (hstep s a s' hs hs') h'

/-- Where every step of a kind brings a measure down, such steps come to an end. -/
theorem exists_quiet {β : Type*} {act : β → ι} (measure : σ → ℕ)
    (hstep : ∀ s b s', next s (act b) = some s' → measure s' < measure s) (s : σ) :
    ∃ (bs : List β) (t : σ), exec next s (bs.map act) = some t ∧ ∀ b, next t (act b) = none := by
  induction hm : measure s using Nat.strongRecOn generalizing s with
  | ind m ih =>
    by_cases hq : ∀ b, next s (act b) = none
    · exact ⟨[], s, rfl, hq⟩
    · obtain ⟨b, hb⟩ := not_forall.mp hq
      obtain ⟨s', hs'⟩ := ne_none_iff_exists'.mp hb
      obtain ⟨bs, t, ht, hquiet⟩ := ih _ (hm ▸ hstep s b s' hs') s' rfl
      exact ⟨b :: bs, t, (exec_cons_eq_some next).mpr ⟨s', hs', ht⟩, hquiet⟩

/-! ### Properties that hold all along a run -/

variable (next) in
/-- The property `I` holds at the start of the run `as` from `s` and after each of its steps. -/
def Always (I : σ → Prop) (s : σ) (as : List ι) : Prop :=
  ∀ bs, bs <+: as → ∀ t, exec next s bs = some t → I t

theorem always_nil {s : σ} : Always next I s [] ↔ I s := by
  constructor
  · intro h
    exact h [] prefix_rfl s rfl
  · intro h bs hbs t ht
    rw [prefix_nil.mp hbs, exec_nil, some.injEq] at ht
    exact ht ▸ h

theorem always_cons {s s' : σ} {a : ι} (hs : next s a = some s') :
    Always next I s (a :: as) ↔ I s ∧ Always next I s' as := by
  constructor
  · intro h
    refine ⟨h [] nil_prefix s rfl, fun bs hbs t ht => ?_⟩
    exact h (a :: bs) ((prefix_cons_inj a).mpr hbs) t ((exec_cons_eq_some next).mpr ⟨s', hs, ht⟩)
  · rintro ⟨h, hrest⟩ bs hbs t ht
    cases bs with
    | nil =>
      rw [exec_nil, some.injEq] at ht
      exact ht ▸ h
    | cons b bs =>
      obtain ⟨rfl, hbs'⟩ := cons_prefix_cons.mp hbs
      obtain ⟨u, hu, hu'⟩ := (exec_cons_eq_some next).mp ht
      rw [hs, some.injEq] at hu
      subst hu
      exact hrest bs hbs' t hu'

/-- What a step that meets `P` keeps holds all along a run of such steps. -/
theorem always_of_meets (hstep : ∀ s a s', I s → P s a → next s a = some s' → I s') {s : σ}
    (hP : Meets next P s as) (hs : I s) : Always next I s as := by
  intro bs hbs t ht
  refine exec_invariant_of_meets hstep ?_ hs ht
  clear ht
  induction bs generalizing s as with
  | nil => exact trivial
  | cons b bs ih =>
    cases as with
    | nil => cases prefix_nil.mp hbs
    | cons a as =>
      obtain ⟨rfl, hbs'⟩ := cons_prefix_cons.mp hbs
      exact ⟨hP.1, fun s' hs' => ih (hP.2 s' hs') (hstep s b s' hs hP.1 hs') hbs'⟩

theorem Always.imp {I J : σ → Prop} (hIJ : ∀ s, I s → J s) {s : σ}
    (h : Always next I s as) : Always next J s as :=
  fun bs hbs t ht => hIJ t (h bs hbs t ht)

/-- If, where `S` and `I` hold, a step leads to `I` exactly when it meets `P`, then `I` holds all along
a run exactly when all its steps meet `P`. -/
theorem always_iff_meets {S I : σ → Prop} (hS : ∀ s a s', S s → next s a = some s' → S s')
    (hI : ∀ s a s', S s → I s → next s a = some s' → (I s' ↔ P s a)) {s t : σ} (hs : S s) (hi : I s)
    (h : exec next s as = some t) : Always next I s as ↔ Meets next P s as := by
  induction as generalizing s with
  | nil => exact iff_of_true (always_nil.mpr hi) trivial
  | cons a as ih =>
    obtain ⟨s', hs', h'⟩ := (exec_cons_eq_some next).mp h
    rw [always_cons hs']
    constructor
    · rintro ⟨-, hrest⟩
      have hi' : I s' := hrest [] nil_prefix s' rfl
      exact Meets.cons ((hI s a s' hs hi hs').mp hi') hs' ((ih (hS s a s' hs hs') hi' h').mp hrest)
    · rintro ⟨hP, hrest⟩
      have hi' : I s' := (hI s a s' hs hi hs').mpr hP
      exact ⟨hi, (ih (hS s a s' hs hs') hi' h').mpr (hrest s' hs')⟩

end Foxclaw.Runs
