import Mathlib.Data.List.Nodup

/-!
# Reading arguments as `getopt_long` does

A program takes options and operands. A long option is `--name`, with its value behind `=` or in the
next argument; its name may be shortened as long as it is the beginning of one name only. Short
options stand together behind one `-`, and the first that takes a value has the rest of the argument,
or the next argument, as its value. `--` ends the options, and `-` is an operand. Options may follow
operands, unless the program reads them up to the first operand only.
-/

namespace Foxclaw.Getopt

/-! ### Options -/

/-- Does an option take a value? -/
inductive ArgKind where
  /-- `no_argument`. -/
  | none
  /-- `required_argument`. -/
  | required
  /-- `optional_argument`: only in the same argument. -/
  | optional
  deriving DecidableEq

/-- The options of a program. -/
structure Table where
  /-- The long options, without `--`. -/
  long : List (List Char × ArgKind)
  short : Char → Option ArgKind

/-- The option that a name stands for: the one of that name, or the only one it is a beginning of. -/
def Table.resolve (t : Table) (name : List Char) : Option (List Char × ArgKind) :=
  match t.long.find? (·.1 = name) with
  | some option => some option
  | Option.none =>
    match t.long.filter fun option => name.isPrefixOf option.1 with
    | [option] => some option
    | _ => Option.none

/-- An option. -/
inductive Flag where
  /-- `--name`. -/
  | long (name : List Char)
  /-- `-c`. -/
  | short (c : Char)
  deriving DecidableEq

/-- What is read. -/
inductive Item where
  | option (flag : Flag) (value : Option (List Char))
  | operand (arg : List Char)
  /-- What is refused: an unknown or ambiguous option, one whose value is missing, or one that takes
  no value and has one. -/
  | refused (arg : List Char)
  deriving DecidableEq

/-! ### Reading -/

/-- What an argument of options is read as, and the option that takes the next argument as its
value. -/
abbrev Read := List Item × Option Flag

/-- A long option; `body` is what follows `--`. -/
def readLong (t : Table) (body : List Char) : Read :=
  let name := body.takeWhile (· ≠ '=')
  let value := if '=' ∈ body then some ((body.dropWhile (· ≠ '=')).drop 1) else Option.none
  match t.resolve name, value with
  | Option.none, _ => ([.refused body], Option.none)
  | some (full, .none), Option.none => ([.option (.long full) Option.none], Option.none)
  | some (_, .none), some _ => ([.refused body], Option.none)
  | some (full, .required), Option.none => ([], some (.long full))
  | some (full, .required), some v => ([.option (.long full) (some v)], Option.none)
  | some (full, .optional), v => ([.option (.long full) v], Option.none)

/-- Short options that stand together. -/
def readCluster (t : Table) : List Char → Read
  | [] => ([], Option.none)
  | c :: cs =>
    match t.short c with
    | Option.none => (.refused [c] :: (readCluster t cs).1, (readCluster t cs).2)
    | some .none => (.option (.short c) Option.none :: (readCluster t cs).1, (readCluster t cs).2)
    | some .required =>
      if cs = [] then ([], some (.short c)) else ([.option (.short c) (some cs)], Option.none)
    | some .optional =>
      ([.option (.short c) (if cs = [] then Option.none else some cs)], Option.none)

/-- Is the argument an operand? -/
def isOperand (arg : List Char) : Bool :=
  match arg with
  | '-' :: _ :: _ => false
  | _ => true

/-- An argument of options. -/
def readOption (t : Table) : List Char → Read
  | '-' :: '-' :: body => readLong t body
  | '-' :: cs => readCluster t cs
  | _ => ([], Option.none)

/-- The arguments, when `pending` is an option that takes the first as its value. -/
def readArgs (t : Table) (permute : Bool) : Option Flag → List (List Char) → List Item
  | Option.none, [] => []
  | some (.long name), [] => [.refused name]
  | some (.short c), [] => [.refused [c]]
  | some flag, arg :: args => .option flag (some arg) :: readArgs t permute Option.none args
  | Option.none, arg :: args =>
    if arg = ['-', '-'] then args.map .operand
    else if isOperand arg then
      .operand arg :: if permute then readArgs t permute Option.none args else args.map .operand
    else
      let (items, pending) := readOption t arg
      items ++ readArgs t permute pending args

def parse (t : Table) (permute : Bool) (args : List (List Char)) : List Item :=
  readArgs t permute Option.none args

/-- The operands of what is read. -/
def operands (items : List Item) : List (List Char) :=
  items.filterMap fun
    | .operand arg => some arg
    | _ => Option.none

variable (t : Table) (permute : Bool)

@[simp] theorem operands_operand (arg : List Char) (items : List Item) :
    operands (.operand arg :: items) = arg :: operands items := rfl

theorem operands_append (items items' : List Item) :
    operands (items ++ items') = operands items ++ operands items' := List.filterMap_append

@[simp] theorem operands_map (args : List (List Char)) : operands (args.map .operand) = args := by
  induction args with
  | nil => rfl
  | cons arg args ih => rw [List.map_cons, operands_operand, ih]

/-- An option that waits takes any argument as its value. -/
@[simp] theorem readArgs_pending (flag : Flag) (arg : List Char) (args : List (List Char)) :
    readArgs t permute (some flag) (arg :: args) =
      .option flag (some arg) :: readArgs t permute Option.none args := by
  cases flag <;> rfl

@[simp] theorem parse_nil : parse t permute [] = [] := rfl

/-- `--` makes all that follows operands. -/
@[simp] theorem parse_terminator (args : List (List Char)) :
    parse t permute (['-', '-'] :: args) = args.map .operand := rfl

/-- An operand is read as such. -/
theorem parse_operand {arg : List Char} (h : isOperand arg = true) (args : List (List Char)) :
    parse t permute (arg :: args) =
      .operand arg :: if permute then parse t permute args else args.map .operand := by
  have hne : arg ≠ ['-', '-'] := by
    rintro rfl
    cases h
  rw [parse, readArgs, if_neg hne, if_pos h]
  rfl

end Foxclaw.Getopt
