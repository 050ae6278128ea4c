import Foxclaw.Infra.ExecWrapperResolution
import Foxclaw.Lib.Getopt

/-!
# Layers of wrappers

What `resolveDispatchWrapperExecutionPlan` removes are layers of known wrappers, the last `argv` of
which is what is run. Whether a layer of `env` changes anything is for `env` to say: its arguments are
read as `getopt_long` reads them, and then its operands are `-`, assignments and the command.

## What is proved

* `sound_iff_meets` — an unblocked plan is that of a command that is no wrapper, from which only layers
  of `env` without an effect were removed, exactly when no layer of `env` begins with `-`, with an
  assignment that `isEnvAssignment` does not know, or with `--` before one of these; and `maxDepth` is
  a number.
* `cleared_environment` — `env - printenv` is unblocked.
-/

namespace Foxclaw.Infra.ExecWrapper

open Foxclaw.Text (trim isSpace)
open List Option Foxclaw.Getopt

variable {env : WrapperEnv}

/-! ### What `env` does -/

/-- The options of `env`. -/
def envTable : Table where
  long := [("ignore-environment".toList, .none), ("null".toList, .none), ("unset".toList, .required),
    ("chdir".toList, .required), ("split-string".toList, .required), ("argv0".toList, .required),
    ("block-signal".toList, .optional), ("default-signal".toList, .optional),
    ("ignore-signal".toList, .optional), ("list-signal-handling".toList, .none),
    ("debug".toList, .none), ("help".toList, .none), ("version".toList, .none)]
  short
    | 'i' => some .none
    | '0' => some .none
    | 'v' => some .none
    | 'u' => some .required
    | 'C' => some .required
    | 'S' => some .required
    | 'a' => some .required
    | _ => none

/-- What `env` changes before it runs the command. -/
inductive EnvEffect where
  | clear
  | set (assignment : Token)
  | unset (name : Token)
  /-- The working directory is changed. -/
  | chdir (dir : Token)
  /-- More arguments are taken out of a text; they may do anything. -/
  | split (text : Token)
  deriving DecidableEq

/-- What an option does. -/
def optionEffects : Item → List EnvEffect
  | .option (.short 'i') _ => [.clear]
  | .option (.short 'u') (some name) => [.unset name]
  | .option (.short 'C') (some dir) => [.chdir dir]
  | .option (.short 'S') (some text) => [.split text]
  | .option (.long name) value =>
    if name = "ignore-environment".toList then [.clear]
    else if name = "unset".toList then [.unset (value.getD [])]
    else if name = "chdir".toList then [.chdir (value.getD [])]
    else if name = "split-string".toList then [.split (value.getD [])]
    else []
  | _ => []

/-- The assignments before the command. -/
def assignments (operands : List Token) : List EnvEffect :=
  (operands.takeWhile fun operand => '=' ∈ operand).map .set

/-- What the operands do. -/
def operandEffects : List Token → List EnvEffect
  | ['-'] :: operands => .clear :: assignments operands
  | operands => assignments operands

/-- Is it refused? -/
def isRefused : Item → Bool
  | .refused _ => true
  | _ => false

/-- What `env` changes with these arguments; it changes nothing when it refuses one. -/
def envEffects (args : List Token) : List EnvEffect :=
  let items := parse envTable false args
  if items.any isRefused then []
  else items.flatMap optionEffects ++ operandEffects (operands items)

/-! ### Layers -/

/-- `argv` is layers of known wrappers around `rest`. -/
inductive Peels (env : WrapperEnv) : List Token → List (List Token) → List Token → Prop where
  | none (argv : List Token) : Peels env argv [] argv
  | layer {argv inner rest : List Token} {layers : List (List Token)} {wrapper : Token} :
    unwrapKnownDispatchWrapperInvocation env argv = .unwrapped wrapper inner →
    Peels env inner layers rest → Peels env argv (argv :: layers) rest

/-- The wrapper of a layer. -/
def wrapperOf (env : WrapperEnv) (layer : List Token) : Token := normalizeExecutableToken env (token0 layer)

variable {onToken : Token → WrapperScanDirective} {separators : List Token}

theorem scanFrom_suffix {expectsOptionValue : Bool} {args rest : List Token}
    (h : scanFrom separators onToken expectsOptionValue args = some rest) : rest <:+ args := by
  induction args generalizing expectsOptionValue with
  | nil =>
    unfold scanFrom at h
    cases expectsOptionValue with
    | true => simp at h
    | false =>
      obtain rfl : [] = rest := by simpa using h
      exact suffix_rfl
  | cons arg args ih =>
    have hcons {expects : Bool} (h : scanFrom separators onToken expects args = some rest) :
        rest <:+ arg :: args := (ih h).trans (suffix_cons arg args)
    simp only [scanFrom] at h
    split at h
    · exact hcons h
    · split at h
      · exact hcons h
      · split at h
        · obtain rfl := some.inj h
          exact suffix_cons arg args
        · split at h
          · obtain rfl := some.inj h
            exact suffix_rfl
          · cases h
          · exact hcons h
          · exact hcons h

/-- What an invocation runs stands in it, behind the wrapper. -/
theorem scanWrapperInvocation_suffix {skip : ℕ} {argv inner : List Token}
    (h : scanWrapperInvocation separators onToken skip argv = some inner) :
    inner <:+ argv.drop 1 ∧ inner ≠ [] := by
  unfold scanWrapperInvocation at h
  cases hscan : scanFrom separators onToken false (argv.drop 1) with
  | none =>
    rw [hscan] at h
    cases h
  | some rest =>
    rw [hscan] at h
    dsimp only at h
    split at h
    · cases h
    · rename_i hne
      obtain rfl := some.inj h
      exact ⟨(drop_suffix skip rest).trans (scanFrom_suffix hscan), hne⟩

/-- What is unwrapped: an invocation of `env`, or of a wrapper without effects of its own. -/
theorem unwrapped_cases {argv inner : List Token} {wrapper : Token}
    (h : unwrapKnownDispatchWrapperInvocation env argv = .unwrapped wrapper inner) :
    wrapper = wrapperOf env argv ∧ wrapper ∈ DISPATCH_WRAPPER_NAMES ∧
      (wrapper = "env".toList → unwrapEnvInvocation env argv = some inner) ∧
      ∃ separators onToken skip, scanWrapperInvocation separators onToken skip argv = some inner := by
  have hname {name : Token} {unwrapped : Option (List Token)}
      (hunwrap : unwrapDispatchWrapper name unwrapped = .unwrapped wrapper inner) :
      name = wrapper ∧ unwrapped = some inner := by
    cases unwrapped with
    | none => cases hunwrap
    | some argv' =>
      cases hunwrap
      exact ⟨rfl, rfl⟩
  unfold unwrapKnownDispatchWrapperInvocation at h
  dsimp only at h
  split at h
  · cases h
  · split at h
    · rename_i hwrapper
      obtain ⟨rfl, hunwrapped⟩ := hname h
      exact ⟨rfl, by rw [hwrapper]; decide, fun _ => hunwrapped, _, _, _, hunwrapped⟩
    · rename_i henv
      split at h
      · rename_i hwrapper
        obtain ⟨rfl, hunwrapped⟩ := hname h
        exact ⟨rfl, by rw [hwrapper]; decide, fun h => absurd h henv, _, _, _, hunwrapped⟩
      · split at h
        · rename_i hwrapper
          obtain ⟨rfl, hunwrapped⟩ := hname h
          exact ⟨rfl, by rw [hwrapper]; decide, fun h => absurd h henv, _, _, _, hunwrapped⟩
        · split at h
          · rename_i hwrapper
            obtain ⟨rfl, hunwrapped⟩ := hname h
            exact ⟨rfl, by rw [hwrapper]; decide, fun h => absurd h henv, _, _, _, hunwrapped⟩
          · split at h
            · rename_i hwrapper
              obtain ⟨rfl, hunwrapped⟩ := hname h
              exact ⟨rfl, by rw [hwrapper]; decide, fun h => absurd h henv, _, _, _, hunwrapped⟩
            · split at h <;> cases h

/-- What is unwrapped stands in the invocation, behind the wrapper. -/
theorem unwrapped_suffix {argv inner : List Token} {wrapper : Token}
    (h : unwrapKnownDispatchWrapperInvocation env argv = .unwrapped wrapper inner) :
    inner <:+ argv ∧ inner.length < argv.length ∧ inner ≠ [] := by
  obtain ⟨-, -, -, separators, onToken, skip, hscan⟩ := unwrapped_cases h
  obtain ⟨hsuffix, hne⟩ := scanWrapperInvocation_suffix hscan
  have hlength := hsuffix.length_le
  have hpos := length_pos_of_ne_nil hne
  rw [length_drop] at hlength
  exact ⟨hsuffix.trans (drop_suffix 1 argv), by omega, hne⟩

theorem isDispatchWrapperExecutable_nil : isDispatchWrapperExecutable env [] = false := by
  have hname : normalizeExecutableToken env [] = [] := by
    have hlower : basenameLower env [] = [] := env.toLowerCase_nil
    rw [normalizeExecutableToken, hlower]
    rfl
  rw [isDispatchWrapperExecutable, hname]
  decide

/-- What is no wrapper for the loop is none by its name. -/
theorem notWrapper_iff {argv : List Token} :
    unwrapKnownDispatchWrapperInvocation env argv = .notWrapper ↔
      isDispatchWrapperExecutable env (token0 argv) = false := by
  have hunwrap (name : Token) (unwrapped : Option (List Token)) :
      unwrapDispatchWrapper name unwrapped ≠ .notWrapper := by
    cases unwrapped <;> simp [unwrapDispatchWrapper]
  unfold unwrapKnownDispatchWrapperInvocation
  by_cases hempty : token0 argv = []
  · rw [if_pos hempty, hempty]
    exact iff_of_true rfl isDispatchWrapperExecutable_nil
  · rw [if_neg hempty]
    unfold isDispatchWrapperExecutable
    generalize normalizeExecutableToken env (token0 argv) = wrapper
    dsimp only
    have hnames : wrapper ∈ DISPATCH_WRAPPER_NAMES ↔ wrapper = "env".toList ∨ wrapper = "nice".toList ∨
        wrapper = "nohup".toList ∨ wrapper = "stdbuf".toList ∨ wrapper = "timeout".toList ∨
        wrapper ∈ tokens ["chrt", "doas", "ionice", "setsid", "sudo", "taskset"] := by
      have hperm : DISPATCH_WRAPPER_NAMES.Perm ("env".toList :: "nice".toList :: "nohup".toList ::
          "stdbuf".toList :: "timeout".toList ::
            tokens ["chrt", "doas", "ionice", "setsid", "sudo", "taskset"]) := by decide
      simp only [hperm.mem_iff, mem_cons]
    rw [decide_eq_false_iff_not, hnames]
    by_cases henv : wrapper = "env".toList
    · rw [if_pos henv]
      exact iff_of_false (hunwrap _ _) fun h => h (.inl henv)
    · rw [if_neg henv]
      by_cases hnice : wrapper = "nice".toList
      · rw [if_pos hnice]
        exact iff_of_false (hunwrap _ _) fun h => h (.inr (.inl hnice))
      · rw [if_neg hnice]
        by_cases hnohup : wrapper = "nohup".toList
        · rw [if_pos hnohup]
          exact iff_of_false (hunwrap _ _) fun h => h (.inr (.inr (.inl hnohup)))
        · rw [if_neg hnohup]
          by_cases hstdbuf : wrapper = "stdbuf".toList
          · rw [if_pos hstdbuf]
            exact iff_of_false (hunwrap _ _) fun h => h (.inr (.inr (.inr (.inl hstdbuf))))
          · rw [if_neg hstdbuf]
            by_cases htimeout : wrapper = "timeout".toList
            · rw [if_pos htimeout]
              exact iff_of_false (hunwrap _ _) fun h => h (.inr (.inr (.inr (.inr (.inl htimeout)))))
            · rw [if_neg htimeout]
              split
              · rename_i hblocked
                exact iff_of_false (by simp) fun h => h (.inr (.inr (.inr (.inr (.inr hblocked)))))
              · rename_i hother
                refine iff_of_true rfl ?_
                rintro (h | h | h | h | h | h) <;> contradiction

/-! ### The loop -/

variable {layers : List (List Token)} {argv rest : List Token}

theorem Peels.suffix (h : Peels env argv layers rest) : rest <:+ argv := by
  induction h with
  | none argv => exact suffix_rfl
  | layer hunwrap hrest ih => exact ih.trans (unwrapped_suffix hunwrap).1

/-- The same layers stand between the same two. -/
theorem Peels.unique {layers layers' : List (List Token)}
    (h : Peels env argv layers rest) (h' : Peels env argv layers' rest) : layers = layers' := by
  have hshorter {argv inner rest : List Token} {wrapper : Token} {layers : List (List Token)}
      (hunwrap : unwrapKnownDispatchWrapperInvocation env argv = .unwrapped wrapper inner)
      (hrest : Peels env inner layers rest) : rest ≠ argv := by
    rintro rfl
    have hlength := hrest.suffix.length_le
    have hinner := (unwrapped_suffix hunwrap).2.1
    omega
  induction h generalizing layers' with
  | none argv =>
    cases h' with
    | none => rfl
    | layer hunwrap hrest => exact absurd rfl (hshorter hunwrap hrest)
  | layer hunwrap hrest ih =>
    cases h' with
    | none => exact absurd rfl (hshorter hunwrap hrest)
    | layer hunwrap' hrest' =>
      rw [hunwrap] at hunwrap'
      cases hunwrap'
      rw [ih hrest']

/-- No layer is one that the policy blocks. -/
def AllTransparent (env : WrapperEnv) (layers : List (List Token)) : Prop :=
  ∀ layer ∈ layers, isSemanticDispatchWrapperUsage env (wrapperOf env layer) layer = false

/-- The loop takes so many turns when it has taken `taken`. -/
def Allows (maxDepth : JsNumber) (taken turns : ℕ) : Prop :=
  ∀ i < turns, (JsNumber.ofNat (taken + i)).lt maxDepth = true

theorem afterLoop_spec (env : WrapperEnv) (maxDepth : JsNumber) (current wrappers : List Token) :
    (afterLoop env maxDepth current wrappers).argv = current ∧
    ((afterLoop env maxDepth current wrappers).policyBlocked = false →
      unwrapKnownDispatchWrapperInvocation env current = .notWrapper ∨
        (JsNumber.ofNat wrappers.length).ge maxDepth = false) := by
  unfold afterLoop
  split
  · split
    · exact ⟨rfl, fun h => by cases h⟩
    · exact ⟨rfl, fun h => by cases h⟩
    · rename_i hcore
      exact ⟨rfl, fun _ => .inl hcore⟩
  · rename_i hge
    exact ⟨rfl, fun _ => .inr (by simpa using hge)⟩

variable {args current inner layer : List Token}

theorem afterLoop_of_notWrapper
    (h : unwrapKnownDispatchWrapperInvocation env current = .notWrapper) (maxDepth : JsNumber)
    (wrappers : List Token) : afterLoop env maxDepth current wrappers = ⟨current, wrappers, false, none⟩ := by
  unfold afterLoop
  rw [h]
  split <;> rfl

/-- Where the loop ends: behind layers that the policy does not block, at a command that is no
wrapper, or else the plan is blocked; only `NaN` is passed by. -/
theorem resolveFrom_spec (env : WrapperEnv) (maxDepth : JsNumber) (turns : ℕ)
    (current wrappers : List Token) (hturns : current.length < turns) :
    let plan := resolveFrom env maxDepth turns current wrappers
    ∃ layers, Peels env current layers plan.argv ∧
      (plan.policyBlocked = false → AllTransparent env layers ∧
        Allows maxDepth wrappers.length layers.length ∧
        (unwrapKnownDispatchWrapperInvocation env plan.argv = .notWrapper ∨
          maxDepth = .nan ∧ layers = [])) := by
  induction turns generalizing current wrappers with
  | zero => omega
  | succ turns ih =>
    dsimp only
    unfold resolveFrom
    by_cases hlt : (JsNumber.ofNat wrappers.length).lt maxDepth = true
    · rw [if_pos hlt]
      cases hunwrap : unwrapKnownDispatchWrapperInvocation env current with
      | notWrapper =>
        dsimp only
        rw [afterLoop_of_notWrapper hunwrap]
        refine ⟨[], .none current, fun _ => ⟨?_, ?_, .inl hunwrap⟩⟩
        · intro layer hlayer
          cases hlayer
        · intro i hi
          cases hi
      | blocked wrapper => exact ⟨[], .none current, fun h => by cases h⟩
      | unwrapped wrapper argv =>
        obtain ⟨hsuffix, hlength, hne⟩ := unwrapped_suffix hunwrap
        obtain ⟨hwrapper, -⟩ := unwrapped_cases hunwrap
        dsimp only
        rw [if_neg hne]
        cases hsemantic : isSemanticDispatchWrapperUsage env wrapper current with
        | true =>
          rw [if_pos rfl]
          exact ⟨[], .none current, fun h => by cases h⟩
        | false =>
          rw [if_neg (by simp)]
          obtain ⟨layers, hpeels, hunblocked⟩ := ih argv (wrappers ++ [wrapper]) (by omega)
          refine ⟨current :: layers, .layer hunwrap hpeels, fun h => ?_⟩
          obtain ⟨htransparent, hallows, hcore⟩ := hunblocked h
          refine ⟨?_, ?_, ?_⟩
          · intro layer hlayer
            rcases mem_cons.mp hlayer with rfl | hlayer
            · exact hwrapper ▸ hsemantic
            · exact htransparent layer hlayer
          · intro i hi
            cases i with
            | zero => exact hlt
            | succ i =>
              have hnext := hallows i (by simpa using hi)
              rw [length_append, length_singleton, Nat.add_assoc, Nat.add_comm 1 i] at hnext
              exact hnext
          · refine hcore.imp_right fun hnan => ?_
            rw [hnan.1] at hlt
            cases hlt
    · rw [if_neg hlt]
      obtain ⟨hargv, hcore⟩ := afterLoop_spec env maxDepth current wrappers
      refine ⟨[], by rw [hargv]; exact .none current, fun h => ⟨?_, ?_, ?_⟩⟩
      · intro layer hlayer
        cases hlayer
      · intro i hi
        cases hi
      · rw [hargv]
        refine (hcore h).imp_right fun hge => ⟨?_, rfl⟩
        by_contra hnan
        rw [JsNumber.ge_eq_not_lt (JsNumber.ofNat_ne_nan _) hnan] at hge
        simp [hlt] at hge

/-- The loop takes all layers off, if the policy blocks none and there are not too many. -/
theorem resolveFrom_of_peels {maxDepth : JsNumber} {current core : List Token}
    (h : Peels env current layers core)
    (hcore : unwrapKnownDispatchWrapperInvocation env core = .notWrapper)
    (htransparent : AllTransparent env layers) {turns : ℕ} (hturns : current.length < turns)
    {wrappers : List Token} (hallows : Allows maxDepth wrappers.length layers.length) :
    (resolveFrom env maxDepth turns current wrappers).argv = core ∧
      (resolveFrom env maxDepth turns current wrappers).policyBlocked = false := by
  induction h generalizing turns wrappers with
  | none argv =>
    cases turns with
    | zero => omega
    | succ turns =>
      unfold resolveFrom
      rw [hcore, afterLoop_of_notWrapper hcore]
      split <;> exact ⟨rfl, rfl⟩
  | @layer argv inner rest layers wrapper hunwrap hrest ih =>
    cases turns with
    | zero => omega
    | succ turns =>
      obtain ⟨hsuffix, hlength, hne⟩ := unwrapped_suffix hunwrap
      obtain ⟨hwrapper, -⟩ := unwrapped_cases hunwrap
      have hsemantic : isSemanticDispatchWrapperUsage env wrapper argv = false :=
        hwrapper ▸ htransparent argv mem_cons_self
      have hlt : (JsNumber.ofNat wrappers.length).lt maxDepth = true := hallows 0 (by simp)
      unfold resolveFrom
      rw [if_pos hlt, hunwrap]
      dsimp only
      rw [if_neg hne, hsemantic, if_neg (by simp)]
      refine ih hcore (fun layer hlayer => htransparent layer (mem_cons_of_mem _ hlayer)) (by omega) ?_
      intro i hi
      have hnext := hallows (i + 1) (by simpa using hi)
      rw [length_append, length_singleton, Nat.add_assoc, Nat.add_comm 1 i]
      exact hnext

/-! ### A layer of `env` -/

/-- Does the first argument of a layer of `env` do something that is passed by? -/
def slips : List Token → Bool
  | _ :: ['-'] :: _ => true
  | _ :: ['-', '-'] :: operand :: _ => operand = ['-'] || '=' ∈ operand
  | _ :: arg :: _ => arg.head? ≠ some '-' && '=' ∈ arg
  | _ => false

variable {operand : Token}

theorem assignments_eq_nil_iff {operands : List Token} :
    assignments (operand :: operands) = [] ↔ '=' ∉ operand := by
  unfold assignments
  by_cases h : '=' ∈ operand <;> simp [h]

theorem operandEffects_eq_nil_iff {operands : List Token} :
    operandEffects (operand :: operands) = [] ↔ operand ≠ ['-'] ∧ '=' ∉ operand := by
  by_cases h : operand = ['-']
  · subst h
    simp [operandEffects]
  · have heffects : operandEffects (operand :: operands) = assignments (operand :: operands) := by
      unfold operandEffects
      split
      · rename_i heq
        exact absurd (List.cons.inj heq).1 h
      · rfl
    rw [heffects, assignments_eq_nil_iff]
    exact (and_iff_right h).symm

theorem envEffects_operands {args operands : List Token}
    (h : parse envTable false args = operands.map .operand) : envEffects args = operandEffects operands := by
  have hrefused : (operands.map Item.operand).any isRefused = false := by
    rw [List.any_eq_false]
    intro item hitem
    obtain ⟨operand, -, rfl⟩ := List.mem_map.mp hitem
    simp [isRefused]
  have hoptions : (operands.map Item.operand).flatMap optionEffects = [] := by
    rw [flatMap_eq_nil_iff]
    intro item hitem
    obtain ⟨operand, -, rfl⟩ := List.mem_map.mp hitem
    rfl
  unfold envEffects
  dsimp only
  rw [h, hrefused, hoptions, operands_map]
  rfl

/-- An argument that is refused. -/
theorem envEffects_refused {arg : Token} (harg : isOperand arg = false) (hne : arg ≠ ['-', '-'])
    (h : (readOption envTable arg).1.any isRefused = true) (args : List Token) :
    envEffects (arg :: args) = [] := by
  unfold envEffects
  dsimp only
  rw [if_pos]
  rw [parse, readArgs, if_neg hne, if_neg (by simp [harg])]
  dsimp only
  rw [any_append, h]
  rfl

variable {c : Char}

/-- What is trimmed away. -/
theorem append_spaces_of_trim {cs token : Token} (hc : isSpace c = false) (h : trim (c :: cs) = token) :
    ∃ spaces, c :: cs = token ++ spaces ∧ ∀ d ∈ spaces, isSpace d = true := by
  have hstart : Text.trimStart (c :: cs) = c :: cs := Text.trimStart_cons_eq_self_iff.mpr hc
  rw [trim, hstart] at h
  refine ⟨((c :: cs).reverse.takeWhile isSpace).reverse, ?_, ?_⟩
  · rw [← h]
    conv_lhs => rw [← reverse_reverse (c :: cs),
      ← takeWhile_append_dropWhile (p := isSpace) (l := (c :: cs).reverse), reverse_append]
    rfl
  · intro d hd
    exact mem_takeWhile_imp (mem_reverse.mp hd)

/-- No long option of `env` begins with a space. -/
theorem resolve_space (hc : isSpace c = true) (cs : Token) : envTable.resolve (c :: cs) = none := by
  have hletter : ∀ option ∈ envTable.long, ∃ d ds, option.1 = d :: ds ∧ isSpace d = false := by
    intro option hoption
    have hheads : envTable.long.all (fun option => (option.1.head?.map isSpace) = some false) = true := by
      decide
    have hhead := of_decide_eq_true (List.all_eq_true.mp hheads option hoption)
    obtain ⟨d, hd, hspace⟩ := map_eq_some_iff.mp hhead
    obtain ⟨ds, hds⟩ := head?_eq_some_iff.mp hd
    exact ⟨d, ds, hds, hspace⟩
  have hno : ∀ option ∈ envTable.long, ¬ (c :: cs).isPrefixOf option.1 = true := by
    intro option hoption hstarts
    obtain ⟨d, ds, heq, hd⟩ := hletter option hoption
    rw [heq, isPrefixOf_iff_prefix, cons_prefix_cons] at hstarts
    exact Bool.false_ne_true (hd.symm.trans (hstarts.1 ▸ hc))
  unfold Table.resolve
  have hfind : envTable.long.find? (·.1 = c :: cs) = none := by
    rw [List.find?_eq_none]
    intro option hoption hname
    exact hno option hoption (by simp [of_decide_eq_true hname])
  have hfilter : envTable.long.filter (fun option => (c :: cs).isPrefixOf option.1) = [] := by
    rw [filter_eq_nil_iff]
    exact hno
  rw [hfind, hfilter]

/-- An option that still waits for its value. -/
theorem scanFrom_of_blank (h : usesModifiersFrom env true args = false) :
    scanFrom separators onToken true args = none := by
  induction args with
  | nil => rfl
  | cons arg args ih =>
    rw [usesModifiersFrom] at h
    rw [scanFrom]
    by_cases hblank : trim arg = []
    · rw [if_pos hblank] at h ⊢
      exact ih h
    · rw [if_neg hblank, if_pos rfl] at h
      cases h

variable {wrapper arg : Token}

/-- An option of a layer that is passed by is `-` or `--`. -/
theorem option_of_plain
    (hplain : usesModifiersFrom env false (arg :: args) = false)
    (hscan : unwrapEnvInvocation env (wrapper :: arg :: args) = some inner)
    (hdash : (trim arg).head? = some '-') : trim arg ∈ tokens ["--", "-"] := by
  by_contra hseparator
  have hne : trim arg ≠ [] := by
    intro hnil
    rw [hnil] at hdash
    cases hdash
  have hoption : isNoOption (trim arg) = false := by
    have hstdin : trim arg ≠ ['-'] := by
      intro heq
      exact hseparator (by rw [heq]; decide)
    simp [isNoOption, hdash, hstdin]
  have hassignment : isEnvAssignment (trim arg) = false := by
    obtain ⟨cs, hcs⟩ := head?_eq_some_iff.mp hdash
    rw [hcs]
    rfl
  simp only [usesModifiersFrom, if_neg hne, if_neg hseparator, hassignment, hoption,
    Bool.false_eq_true, if_false] at hplain
  unfold unwrapEnvInvocation scanWrapperInvocation at hscan
  simp only [drop_succ_cons, drop_zero, scanFrom, if_neg hne, if_neg hseparator,
    hassignment, hoption, Bool.false_eq_true, if_false] at hscan
  split at hplain
  · cases hplain
  · rename_i hflag
    split at hplain
    · rename_i hvalue
      split at hplain
      · cases hplain
      · rename_i hinline
        simp only [if_neg hflag, if_pos hvalue, if_neg hinline, scanFrom_of_blank hplain] at hscan
        cases hscan
    · split at hplain <;> cases hplain

theorem slips_of_ne (hstdin : arg ≠ ['-']) (hterminator : arg ≠ ['-', '-']) :
    slips (wrapper :: arg :: args) = (arg.head? ≠ some '-' && '=' ∈ arg) := by
  unfold slips
  split
  · rename_i heq
    obtain ⟨-, ⟨⟩, -⟩ := heq
    exact absurd rfl hstdin
  · rename_i heq
    obtain ⟨-, ⟨⟩, -⟩ := heq
    exact absurd rfl hterminator
  · rename_i heq
    obtain ⟨-, rfl, rfl⟩ := heq
    rfl
  · rename_i h
    exact (h _ _ _ rfl).elim

/-- No short option of `env` is a space. -/
theorem short_space (hc : isSpace c = true) : envTable.short c = none := by
  unfold envTable
  dsimp only
  split <;> first | rfl | exact absurd hc (by decide)

/-- An argument that is an option, and was trimmed to `-` or `--`, is refused. -/
theorem refused_of_spaces {arg : Token} (hoption : isOperand arg = false) (hterminator : arg ≠ ['-', '-'])
    (htrim : trim arg ∈ tokens ["--", "-"]) : (readOption envTable arg).1.any isRefused = true := by
  obtain ⟨c, cs, rfl⟩ : ∃ c cs, arg = '-' :: c :: cs := by
    unfold isOperand at hoption
    split at hoption
    · exact ⟨_, _, rfl⟩
    · cases hoption
  obtain ⟨spaces, harg, hspaces⟩ := append_spaces_of_trim (c := '-') (by decide) rfl
  have htoken : trim ('-' :: c :: cs) = ['-', '-'] ∨ trim ('-' :: c :: cs) = ['-'] := by
    simpa [tokens] using htrim
  rcases htoken with htoken | htoken
  · rw [htoken] at harg
    obtain ⟨-, rfl, rfl⟩ : '-' = '-' ∧ c = '-' ∧ cs = spaces := by simpa using harg
    cases hcs : cs with
    | nil => exact absurd (by rw [hcs]) hterminator
    | cons d ds =>
      have hspace : isSpace d = true := hspaces d (by simp [hcs])
      have hname : (d :: ds).takeWhile (· ≠ '=') = d :: ds.takeWhile (· ≠ '=') := by
        refine takeWhile_cons_of_pos ?_
        rw [decide_eq_true_eq]
        rintro rfl
        exact absurd hspace (by decide)
      change (readLong envTable (d :: ds)).1.any isRefused = true
      unfold readLong
      dsimp only
      rw [hname, resolve_space hspace]
      rfl
  · rw [htoken] at harg
    obtain ⟨-, hcs⟩ : '-' = '-' ∧ c :: cs = spaces := by simpa using harg
    have hspace : isSpace c = true := hspaces c (by simp [← hcs])
    have hcluster : readOption envTable ('-' :: c :: cs) = readCluster envTable (c :: cs) := by
      unfold readOption
      split
      · rename_i heq
        obtain ⟨-, rfl, -⟩ := heq
        exact absurd hspace (by decide)
      · rename_i heq
        obtain ⟨-, rfl⟩ := heq
        rfl
      · rename_i h
        exact (h _ rfl).elim
    rw [hcluster, readCluster, short_space hspace]
    rfl

/-- A layer of `env` that is passed by has no effect, unless it slips. -/
theorem envEffects_eq_nil_iff (hscan : unwrapEnvInvocation env layer = some inner)
    (hplain : envInvocationUsesModifiers env layer = false) :
    envEffects (layer.drop 1) = [] ↔ slips layer = false := by
  obtain ⟨hsuffix, hne⟩ := scanWrapperInvocation_suffix hscan
  cases layer with
  | nil => exact absurd (suffix_nil.mp hsuffix) hne
  | cons wrapper args =>
    cases args with
    | nil => exact absurd (suffix_nil.mp hsuffix) hne
    | cons arg args =>
      change envEffects (arg :: args) = [] ↔ _
      by_cases hterminator : arg = ['-', '-']
      · subst hterminator
        rw [envEffects_operands (parse_terminator envTable false args)]
        cases args with
        | nil => exact iff_of_true rfl rfl
        | cons operand operands =>
          rw [operandEffects_eq_nil_iff]
          simp [slips]
      · cases hoperand : isOperand arg with
        | true =>
          have hparse : parse envTable false (arg :: args) = (arg :: args).map .operand :=
            parse_operand envTable false hoperand args
          rw [envEffects_operands hparse, operandEffects_eq_nil_iff]
          by_cases hstdin : arg = ['-']
          · subst hstdin
            simp [slips]
          · have hhead : arg.head? ≠ some '-' := by
              intro hdash
              obtain ⟨cs, rfl⟩ := head?_eq_some_iff.mp hdash
              cases cs with
              | nil => exact hstdin rfl
              | cons c cs => cases hoperand
            rw [slips_of_ne hstdin hterminator]
            simp [hstdin, hhead]
        | false =>
          have hdash : arg.head? = some '-' := by
            unfold isOperand at hoperand
            split at hoperand
            · rfl
            · cases hoperand
          have htrim : (trim arg).head? = some '-' := by
            obtain ⟨cs, rfl⟩ := head?_eq_some_iff.mp hdash
            obtain ⟨spaces, harg, hspaces⟩ := append_spaces_of_trim (c := '-') (by decide) rfl
            cases htoken : trim ('-' :: cs) with
            | nil =>
              rw [htoken] at harg
              exact absurd (hspaces '-' (by simp [← show _ = spaces from harg])) (by decide)
            | cons d ds =>
              rw [htoken] at harg
              rw [(List.cons.inj harg).1]
              rfl
          have hstdin : arg ≠ ['-'] := by
            rintro rfl
            cases hoperand
          rw [slips_of_ne hstdin hterminator]
          refine iff_of_true (envEffects_refused hoperand hterminator ?_ args) (by simp [hdash])
          exact refused_of_spaces hoperand hterminator (option_of_plain hplain hscan htrim)

/-! ### Sound plans -/

/-- What is asked of the plan. -/
structure Sound (env : WrapperEnv) (argv : List Token) (maxDepth : JsNumber) : Prop where
  /-- What is run is the end of `argv`. -/
  suffix : (resolveDispatchWrapperExecutionPlan env argv maxDepth).argv <:+ argv
  head : (resolveDispatchWrapperExecutionPlan env argv maxDepth).policyBlocked = false →
    isDispatchWrapperExecutable env
      (token0 (resolveDispatchWrapperExecutionPlan env argv maxDepth).argv) = false
  /-- Around it are layers, of which those of `env` have no effect. -/
  layers : (resolveDispatchWrapperExecutionPlan env argv maxDepth).policyBlocked = false →
    ∃ layers, Peels env argv layers (resolveDispatchWrapperExecutionPlan env argv maxDepth).argv ∧
      ∀ layer ∈ layers, wrapperOf env layer = "env".toList → envEffects (layer.drop 1) = []

/-- When the plan is sound. -/
structure Meets (env : WrapperEnv) (argv : List Token) (maxDepth : JsNumber) : Prop where
  /-- If `maxDepth` is `NaN`, there is no wrapper. -/
  number : maxDepth = .nan → isDispatchWrapperExecutable env (token0 argv) = false
  /-- Of layers that the policy does not block, and that are not too many, around a command that is no
  wrapper, those of `env` do not slip. -/
  layers : ∀ layers core, Peels env argv layers core →
    isDispatchWrapperExecutable env (token0 core) = false → AllTransparent env layers →
    Allows maxDepth 0 layers.length →
    ∀ layer ∈ layers, wrapperOf env layer = "env".toList → slips layer = false

/-- A layer is an invocation of its wrapper. -/
theorem Peels.unwraps (h : Peels env argv layers rest) : ∀ layer ∈ layers, ∃ inner,
      unwrapKnownDispatchWrapperInvocation env layer = .unwrapped (wrapperOf env layer) inner := by
  induction h with
  | none argv => simp
  | layer hunwrap hrest ih =>
    intro layer hlayer
    rcases mem_cons.mp hlayer with rfl | hlayer
    · obtain ⟨hwrapper, -⟩ := unwrapped_cases hunwrap
      exact ⟨_, hwrapper ▸ hunwrap⟩
    · exact ih layer hlayer

/-- A layer of `env` that the policy does not block has no effect, unless it slips. -/
theorem effects_of_layer
    (h : Peels env argv layers rest) (htransparent : AllTransparent env layers)
    (hlayer : layer ∈ layers) (hwrapper : wrapperOf env layer = "env".toList) :
    envEffects (layer.drop 1) = [] ↔ slips layer = false := by
  obtain ⟨inner, hunwrap⟩ := h.unwraps layer hlayer
  have hscan := (unwrapped_cases hunwrap).2.2.1 hwrapper
  have hplain := htransparent layer hlayer
  rw [isSemanticDispatchWrapperUsage, if_pos hwrapper] at hplain
  exact envEffects_eq_nil_iff hscan hplain

/-- The plan is sound exactly when no layer of `env` slips, and `maxDepth` is a number or there is no
wrapper. -/
theorem sound_iff_meets (env : WrapperEnv) (argv : List Token) (maxDepth : JsNumber) :
    Sound env argv maxDepth ↔ Meets env argv maxDepth := by
  have hspec := resolveFrom_spec env maxDepth (argv.length + 1) argv [] (by omega)
  constructor
  · intro h
    refine ⟨fun hnan => ?_, fun layers core hpeels hcore htransparent hallows layer hlayer hwrapper => ?_⟩
    · subst hnan
      exact h.head rfl
    · have hturns : argv.length < argv.length + 1 := Nat.lt_succ_self _
      obtain ⟨hargv, hunblocked⟩ :
          (resolveDispatchWrapperExecutionPlan env argv maxDepth).argv = core ∧
            (resolveDispatchWrapperExecutionPlan env argv maxDepth).policyBlocked = false :=
        resolveFrom_of_peels hpeels (notWrapper_iff.mpr hcore) htransparent hturns hallows
      obtain ⟨layers', hpeels', heffects⟩ := h.layers hunblocked
      obtain rfl : layers = layers' := hpeels.unique (hargv ▸ hpeels')
      exact (effects_of_layer hpeels htransparent hlayer hwrapper).mp (heffects layer hlayer hwrapper)
  · intro h
    obtain ⟨layers, hpeels, hunblocked⟩ := hspec
    refine ⟨hpeels.suffix, fun hplan => ?_, fun hplan => ⟨layers, hpeels, ?_⟩⟩
    · obtain ⟨-, -, hcore | ⟨hnan, rfl⟩⟩ := hunblocked hplan
      · exact notWrapper_iff.mp hcore
      · subst hnan
        exact h.number rfl
    · intro layer hlayer hwrapper
      obtain ⟨htransparent, hallows, hcore | ⟨-, rfl⟩⟩ := hunblocked hplan
      · refine (effects_of_layer hpeels htransparent hlayer hwrapper).mpr ?_
        exact h.layers layers _ hpeels (notWrapper_iff.mp hcore) htransparent hallows layer hlayer hwrapper
      · cases hlayer

/-! ### An environment that is emptied -/

/-- Letters are those of ASCII. -/
def asciiEnv : WrapperEnv := ⟨fun token => token.map Char.toLower, rfl⟩

/-- `env - printenv`. -/
def clearedArgv : List Token := tokens ["env", "-", "printenv"]

/-- `env - printenv` is unblocked, though it empties the environment. -/
theorem cleared_environment : ¬ Sound asciiEnv clearedArgv MAX_DISPATCH_WRAPPER_DEPTH := by
  intro h
  have hpeels : Peels asciiEnv clearedArgv [clearedArgv]
      (resolveDispatchWrapperExecutionPlan asciiEnv clearedArgv MAX_DISPATCH_WRAPPER_DEPTH).argv := by
    have hrest : (resolveDispatchWrapperExecutionPlan asciiEnv clearedArgv
        MAX_DISPATCH_WRAPPER_DEPTH).argv = tokens ["printenv"] := by decide +kernel
    have hunwrap : unwrapKnownDispatchWrapperInvocation asciiEnv clearedArgv =
        .unwrapped "env".toList (tokens ["printenv"]) := by decide +kernel
    rw [hrest]
    exact .layer hunwrap (.none _)
  obtain ⟨layers, hpeels', heffects⟩ := h.layers (by decide +kernel)
  obtain rfl := hpeels.unique hpeels'
  exact absurd (heffects clearedArgv (by simp) (by decide +kernel)) (by decide +kernel)

end Foxclaw.Infra.ExecWrapper
