import Foxclaw.Lib.CodeUnits

/-!
# Anchored regular expressions

The regular expressions of the source language that have neither groups nor alternatives: between
`^` and `$` stands a row of terms, each a class of code units, taken once or, with `*`, any number
of times. `parse` reads the text of such an expression as the language's grammar does, without
flags; a text that is not of this form has no meaning here.

## What is proved

* `parse_source` — the text that writes a row of terms is read as that row.
* `test_one`, `test_many_iff` — what a text must be for a row of terms to match it.
-/

namespace Foxclaw.RegExp

open List Option CodeUnits

/-- The code unit of a character of the first plane. -/
def unit (c : Char) : UInt16 := c.toNat.toUInt16

/-- `SyntaxCharacter`. -/
def isSyntaxCharacter (c : UInt16) : Bool :=
  c ∈ ['^', '$', '\\', '.', '*', '+', '?', '(', ')', '[', ']', '{', '}', '|'].map unit

/-- `LineTerminator`. -/
def isLineTerminator (c : UInt16) : Bool := c = 0xA || c = 0xD || c = 0x2028 || c = 0x2029

/-- A class of code units. -/
inductive Atom where
  /-- `.`. -/
  | dot
  /-- `[^c]`. -/
  | notUnit (c : UInt16)
  /-- The unit itself, escaped where it has to be. -/
  | unit (c : UInt16)
  deriving DecidableEq

/-- The units of a class. -/
def Atom.accepts : Atom → UInt16 → Bool
  | .dot, c => !isLineTerminator c
  | .notUnit d, c => c ≠ d
  | .unit d, c => c = d

/-- A class, taken once or any number of times. -/
inductive Term where
  /-- Once. -/
  | one (a : Atom)
  /-- With `*`. -/
  | many (a : Atom)
  deriving DecidableEq

/-! ### Matching -/

/-- What `a*` followed by `rest` matches. -/
def testMany (a : Atom) (rest : CodeUnits → Bool) : CodeUnits → Bool
  | [] => rest []
  | c :: text => rest (c :: text) || (a.accepts c && testMany a rest text)

/-- `test` of the row of terms between `^` and `$`. -/
def test : List Term → CodeUnits → Bool
  | [], text => text.isEmpty
  | .one _ :: _, [] => false
  | .one a :: ts, c :: text => a.accepts c && test ts text
  | .many a :: ts, text => testMany a (test ts) text

@[simp] theorem test_nil (text : CodeUnits) : test [] text = true ↔ text = [] := by
  rw [test, List.isEmpty_iff]

variable {ts : List Term}

variable {a : Atom}

theorem test_one {text : CodeUnits} :
    test (.one a :: ts) text = true ↔ ∃ c rest, text = c :: rest ∧ a.accepts c = true ∧ test ts rest = true := by
  cases text with
  | nil => simp [test]
  | cons c rest => simp [test]

theorem testMany_iff {rest : CodeUnits → Bool} {text : CodeUnits} :
    testMany a rest text = true ↔
      ∃ s t, text = s ++ t ∧ (∀ c ∈ s, a.accepts c = true) ∧ rest t = true := by
  induction text with
  | nil =>
    rw [testMany]
    constructor
    · intro h
      exact ⟨[], [], rfl, List.forall_mem_nil _, h⟩
    · rintro ⟨s, t, hst, -, ht⟩
      obtain ⟨-, rfl⟩ := append_eq_nil_iff.mp hst.symm
      exact ht
  | cons c text ih =>
    rw [testMany, Bool.or_eq_true, Bool.and_eq_true, ih]
    constructor
    · rintro (h | ⟨hc, s, t, rfl, hs, ht⟩)
      · exact ⟨[], c :: text, rfl, List.forall_mem_nil _, h⟩
      · exact ⟨c :: s, t, rfl, forall_mem_cons.mpr ⟨hc, hs⟩, ht⟩
    · rintro ⟨s, t, hst, hs, ht⟩
      cases s with
      | nil =>
        rw [nil_append] at hst
        exact .inl (hst ▸ ht)
      | cons d s =>
        obtain ⟨rfl, rfl⟩ := List.cons.inj hst
        obtain ⟨hc, hs⟩ := forall_mem_cons.mp hs
        exact .inr ⟨hc, s, t, rfl, hs, ht⟩

theorem test_many_iff {text : CodeUnits} :
    test (.many a :: ts) text = true ↔
      ∃ s t, text = s ++ t ∧ (∀ c ∈ s, a.accepts c = true) ∧ test ts t = true := by
  rw [test, testMany_iff]

/-! ### Reading -/

/-- What the text of an expression is made of. -/
inductive Token where
  | atom (a : Atom)
  /-- `*`. -/
  | star
  /-- `^`. -/
  | start
  /-- `$`. -/
  | stop
  deriving DecidableEq

/-- The tokens of a text. -/
def lex : CodeUnits → Option (List Token)
  | [] => some []
  | c :: rest =>
    if c = unit '^' then (lex rest).map (Token.start :: ·)
    else if c = unit '$' then (lex rest).map (Token.stop :: ·)
    else if c = unit '*' then (lex rest).map (Token.star :: ·)
    else if c = unit '.' then (lex rest).map (Token.atom .dot :: ·)
    else if c = unit '\\' then
      match rest with
      | d :: rest =>
        if isSyntaxCharacter d then (lex rest).map (Token.atom (.unit d) :: ·) else none
      | [] => none
    else if c = unit '[' then
      match rest with
      | caret :: d :: close :: rest =>
        if caret = unit '^' ∧ close = unit ']' ∧ d ≠ unit '\\' ∧ d ≠ unit ']' then
          (lex rest).map (Token.atom (.notUnit d) :: ·)
        else none
      | _ => none
    else if isSyntaxCharacter c then none
    else (lex rest).map (Token.atom (.unit c) :: ·)

/-- The terms of a row of tokens. -/
def readTerms : List Token → Option (List Term)
  | [] => some []
  | .atom a :: tokens =>
    match tokens with
    | .star :: tokens => (readTerms tokens).map (Term.many a :: ·)
    | tokens => (readTerms tokens).map (Term.one a :: ·)
  | _ => none

/-- `new RegExp(text)`, of a text that is anchored at both ends. -/
def parse (text : CodeUnits) : Option (List Term) :=
  match lex text with
  | some (.start :: tokens) => if tokens.getLast? = some .stop then readTerms tokens.dropLast else none
  | _ => none

/-! ### Writing -/

/-- The text of a class. -/
def Atom.source : Atom → CodeUnits
  | .dot => [RegExp.unit '.']
  | .notUnit d => [RegExp.unit '[', RegExp.unit '^', d, RegExp.unit ']']
  | .unit d => if isSyntaxCharacter d then [RegExp.unit '\\', d] else [d]

/-- A class that can be written: of `[^c]`, the unit stands for itself there. -/
def Atom.Writable : Atom → Prop
  | .notUnit d => d ≠ RegExp.unit '\\' ∧ d ≠ RegExp.unit ']'
  | _ => True

/-- The class of a term. -/
def Term.atom : Term → Atom
  | .one a => a
  | .many a => a

/-- The text of a term. -/
def Term.source : Term → CodeUnits
  | .one a => a.source
  | .many a => a.source ++ [unit '*']

/-- The tokens of a term. -/
def Term.tokens : Term → List Token
  | .one a => [.atom a]
  | .many a => [.atom a, .star]

/-- The text of a row of terms. -/
def source (ts : List Term) : CodeUnits := unit '^' :: (ts.flatMap Term.source ++ [unit '$'])

theorem lex_start (rest : CodeUnits) : lex (unit '^' :: rest) = (lex rest).map (Token.start :: ·) := by
  conv_lhs => rw [lex.eq_def]
  exact if_pos rfl

theorem lex_star (rest : CodeUnits) : lex (unit '*' :: rest) = (lex rest).map (Token.star :: ·) := by
  conv_lhs => rw [lex.eq_def]
  dsimp only
  rw [if_neg (by decide), if_neg (by decide), if_pos rfl]

theorem lex_escape (d : UInt16) (hd : isSyntaxCharacter d = true) (rest : CodeUnits) :
    lex (unit '\\' :: d :: rest) = (lex rest).map (Token.atom (.unit d) :: ·) := by
  conv_lhs => rw [lex.eq_def]
  dsimp only
  rw [if_neg (by decide), if_neg (by decide), if_neg (by decide), if_neg (by decide), if_pos rfl]
  exact if_pos hd

/-- A unit that is no syntax character stands for itself. -/
theorem lex_plain (d : UInt16) (hd : isSyntaxCharacter d = false) (rest : CodeUnits) :
    lex (d :: rest) = (lex rest).map (Token.atom (.unit d) :: ·) := by
  have hne : ∀ c : UInt16, isSyntaxCharacter c = true → d ≠ c := by
    rintro c hc rfl
    rw [hc] at hd
    cases hd
  conv_lhs => rw [lex.eq_def]
  dsimp only
  rw [if_neg (hne _ (by decide)), if_neg (hne _ (by decide)), if_neg (hne _ (by decide)),
    if_neg (hne _ (by decide)), if_neg (hne _ (by decide)), if_neg (hne _ (by decide)),
    if_neg (by rw [hd]; exact Bool.false_ne_true)]

theorem lex_source_atom (ha : a.Writable) (rest : CodeUnits) :
    lex (a.source ++ rest) = (lex rest).map (Token.atom a :: ·) := by
  cases a with
  | dot =>
    show lex (unit '.' :: rest) = _
    conv_lhs => rw [lex.eq_def]
    dsimp only
    rw [if_neg (by decide), if_neg (by decide), if_neg (by decide), if_pos rfl]
  | notUnit d =>
    show lex (unit '[' :: unit '^' :: d :: unit ']' :: rest) = _
    conv_lhs => rw [lex.eq_def]
    dsimp only
    rw [if_neg (by decide), if_neg (by decide), if_neg (by decide), if_neg (by decide),
      if_neg (by decide), if_pos rfl]
    exact if_pos ⟨rfl, rfl, ha⟩
  | unit d =>
    rw [Atom.source]
    cases hd : isSyntaxCharacter d with
    | true => exact lex_escape d hd rest
    | false => exact lex_plain d hd rest

theorem lex_source_term {t : Term} (ht : t.atom.Writable) (rest : CodeUnits) :
    lex (t.source ++ rest) = (lex rest).map (t.tokens ++ ·) := by
  cases t with
  | one a => exact lex_source_atom ht rest
  | many a =>
    have ha : a.Writable := ht
    rw [Term.source, append_assoc, lex_source_atom ha, singleton_append, lex_star, Option.map_map]
    rfl

theorem lex_source (hts : ∀ t ∈ ts, t.atom.Writable) :
    lex (source ts) = some (.start :: (ts.flatMap Term.tokens ++ [.stop])) := by
  have key : lex (ts.flatMap Term.source ++ [unit '$']) = some (ts.flatMap Term.tokens ++ [.stop]) := by
    induction ts with
    | nil => decide
    | cons t ts ih =>
      obtain ⟨ht, hts⟩ := forall_mem_cons.mp hts
      rw [flatMap_cons, append_assoc, lex_source_term ht, ih hts, map_some, flatMap_cons, append_assoc]
  rw [source, lex_start, key, map_some]

theorem readTerms_tokens (ts : List Term) : readTerms (ts.flatMap Term.tokens) = some ts := by
  induction ts with
  | nil => rfl
  | cons t ts ih =>
    cases t with
    | many a =>
      show (readTerms (ts.flatMap Term.tokens)).map (Term.many a :: ·) = _
      rw [ih, map_some]
    | one a =>
      -- what follows begins with a class, if anything does
      have hnext : readTerms (Token.atom a :: ts.flatMap Term.tokens) =
          (readTerms (ts.flatMap Term.tokens)).map (Term.one a :: ·) := by
        cases ts with
        | nil => rfl
        | cons t' ts => cases t' <;> rfl
      show readTerms (Token.atom a :: ts.flatMap Term.tokens) = _
      rw [hnext, ih, map_some]

/-- The text that writes a row of terms is read as that row. -/
theorem parse_source (hts : ∀ t ∈ ts, t.atom.Writable) : parse (source ts) = some ts := by
  rw [parse, lex_source hts]
  dsimp only
  rw [if_pos getLast?_concat, dropLast_concat, readTerms_tokens]

end Foxclaw.RegExp
