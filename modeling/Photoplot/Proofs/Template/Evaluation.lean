import Photoplot.Scalar.Binary64
import Photoplot.Template.Expr

/-! # Values of expressions

Evaluation checks every value on its way, where plain arithmetic checks none. They agree
on the expressions that plain arithmetic gives a finite value in every part and that
divide by zero nowhere; every other expression has no value, even if plain arithmetic
comes back to a finite one, as in `1 / (x * x)` for a large `x`. -/

namespace Photoplot

namespace Expr

/-! ## Parts -/

section

variable {K : Type}

def indices : Expr K → List Nat
  | literal _ => []
  | var index => [index]
  | neg operand => operand.indices
  | add left right => left.indices ++ right.indices
  | sub left right => left.indices ++ right.indices
  | mul left right => left.indices ++ right.indices
  | div left right => left.indices ++ right.indices

def operands : Expr K → List (Expr K)
  | literal _ => []
  | var _ => []
  | neg operand => [operand]
  | add left right => [left, right]
  | sub left right => [left, right]
  | mul left right => [left, right]
  | div left right => [left, right]

def parts : Expr K → List (Expr K)
  | literal value => [literal value]
  | var index => [var index]
  | neg operand => neg operand :: operand.parts
  | add left right => add left right :: (left.parts ++ right.parts)
  | sub left right => sub left right :: (left.parts ++ right.parts)
  | mul left right => mul left right :: (left.parts ++ right.parts)
  | div left right => div left right :: (left.parts ++ right.parts)

theorem parts_eq (expression : Expr K) :
    expression.parts = expression :: expression.operands.flatMap parts := by
  cases expression <;> simp [parts, operands]

theorem self_mem_parts (expression : Expr K) : expression ∈ expression.parts := by
  rw [parts_eq]
  exact List.mem_cons_self

theorem mem_parts_of_operand {part operand expression : Expr K}
    (member : operand ∈ expression.operands) (inOperand : part ∈ operand.parts) :
    part ∈ expression.parts := by
  rw [parts_eq]
  exact List.mem_cons_of_mem _ (List.mem_flatMap.mpr ⟨operand, member, inOperand⟩)

theorem mem_indices_iff {index : Nat} {expression : Expr K} :
    index ∈ expression.indices ↔ var index ∈ expression.parts := by
  induction expression <;> simp_all [indices, parts]

/-- What holds of an expression if it holds of the operands holds of all expressions. -/
@[elab_as_elim]
theorem operands_induction {motive : Expr K → Prop}
    (step : ∀ expression : Expr K, (∀ operand ∈ expression.operands, motive operand) →
      motive expression)
    (expression : Expr K) : motive expression := by
  induction expression with
  | literal value => exact step _ (by simp [operands])
  | var index => exact step _ (by simp [operands])
  | neg operand holds => exact step _ (by simpa [operands] using holds)
  | add left right inLeft inRight | sub left right inLeft inRight
  | mul left right inLeft inRight | div left right inLeft inRight =>
      exact step _ (by simp [operands, inLeft, inRight])

theorem mem_parts_trans {inner part expression : Expr K} (inPart : inner ∈ part.parts)
    (member : part ∈ expression.parts) : inner ∈ expression.parts := by
  induction expression using operands_induction with
  | step expression induction =>
      rw [parts_eq, List.mem_cons, List.mem_flatMap] at member
      rcases member with rfl | ⟨operand, isOperand, inOperand⟩
      · exact inPart
      · exact mem_parts_of_operand isOperand (induction operand isOperand inOperand)

end

variable {K : Type} [Scalar K] {bindings : Bindings K}

/-! ## Plain arithmetic -/

/-- The value by arithmetic that checks nothing, finite or not. There is none only if a
variable is not bound. -/
def plain? (bindings : Bindings K) : Expr K → Option K
  | literal value => some value
  | var index => bindings index
  | neg operand => do return -(← operand.plain? bindings)
  | add left right => do return (← left.plain? bindings) + (← right.plain? bindings)
  | sub left right => do return (← left.plain? bindings) - (← right.plain? bindings)
  | mul left right => do return (← left.plain? bindings) * (← right.plain? bindings)
  | div left right => do return (← left.plain? bindings) / (← right.plain? bindings)

def dividesByZero (bindings : Bindings K) : Expr K → Bool
  | div _ right => (right.plain? bindings).any fun divisor =>
      decide (Scalar.Same divisor 0.0)
  | _ => false

structure IsRegular (bindings : Bindings K) (expression : Expr K) : Prop where
  finite : ∃ value, expression.plain? bindings = some value ∧ Scalar.isFinite value = true
  divided : expression.dividesByZero bindings = false

/-! ## Evaluation, one operation at a time -/

theorem eval_eq_none_of_operand {expression operand : Expr K}
    (member : operand ∈ expression.operands) (without : operand.eval bindings = none) :
    expression.eval bindings = none := by
  cases expression with
  | literal value | var index => cases member
  | neg inner =>
      cases List.mem_singleton.mp member
      simp [eval, without]
  | add left right | sub left right | mul left right | div left right =>
      simp only [operands, List.mem_cons, List.not_mem_nil, or_false] at member
      rcases member with rfl | rfl <;> simp [eval, without]

/-- If the operands have their plain values, the expression has it too, unless it divides
by zero or the value is not finite. -/
theorem eval_eq_of_operands {expression : Expr K}
    (agree : ∀ operand ∈ expression.operands,
      operand.eval bindings = operand.plain? bindings) :
    expression.eval bindings =
      if expression.dividesByZero bindings then none
      else (expression.plain? bindings).bind finite? := by
  cases expression with
  | literal value | var index => rfl
  | neg operand =>
      simp only [operands, List.mem_singleton, forall_eq] at agree
      cases value : operand.plain? bindings <;>
        simp [eval, plain?, dividesByZero, agree, value]
  | add left right | sub left right | mul left right | div left right =>
      simp only [operands, List.mem_cons, List.not_mem_nil, or_false, forall_eq_or_imp,
        forall_eq] at agree
      cases first : left.plain? bindings <;> cases second : right.plain? bindings <;>
        simp [eval, plain?, dividesByZero, agree, first, second]

theorem IsRegular.of_isSome {expression : Expr K}
    (evaluated : Option.isSome
      (if expression.dividesByZero bindings then none
      else (expression.plain? bindings).bind finite?)) :
    expression.IsRegular bindings := by
  cases divided : expression.dividesByZero bindings with
  | true => simp [divided] at evaluated
  | false =>
      cases isPlain : expression.plain? bindings with
      | none => simp [divided, isPlain] at evaluated
      | some value =>
          simp only [divided, isPlain, finite?, Bool.false_eq_true, if_false,
            Option.bind_some, Option.isSome_ite] at evaluated
          exact ⟨⟨value, isPlain, evaluated⟩, divided⟩

/-! ## Evaluation of the whole -/

/-- A variable that does not occur is never read. -/
theorem eval_congr {other : Bindings K} {expression : Expr K}
    (agree : ∀ index ∈ expression.indices, bindings index = other index) :
    expression.eval bindings = expression.eval other := by
  induction expression with
  | literal value => rfl
  | var index => rw [eval, eval, agree index (List.mem_singleton_self index)]
  | neg operand same => rw [eval, eval, same agree]
  | add left right inLeft inRight | sub left right inLeft inRight
  | mul left right inLeft inRight | div left right inLeft inRight =>
      rw [eval, eval, inLeft fun index used => agree index (List.mem_append_left _ used),
        inRight fun index used => agree index (List.mem_append_right _ used)]

theorem eval_eq_plain {expression : Expr K}
    (regular : ∀ part ∈ expression.parts, part.IsRegular bindings) :
    expression.eval bindings = expression.plain? bindings := by
  induction expression using operands_induction with
  | step expression induction =>
      rw [eval_eq_of_operands fun operand member =>
        induction operand member fun part inOperand =>
        regular part (mem_parts_of_operand member inOperand)]
      rcases regular expression expression.self_mem_parts with
          ⟨⟨value, isPlain, finite⟩, divided⟩
      simp [divided, isPlain, finite?, finite]

/-- Nothing that has a value has an irregular part. -/
theorem isRegular_of_eval {expression : Expr K}
    (evaluated : (expression.eval bindings).isSome) :
    ∀ part ∈ expression.parts, part.IsRegular bindings := by
  induction expression using operands_induction with
  | step expression induction =>
      -- The operands have values, so that all their parts are regular; hence the values
      -- are the plain ones.
      have inside (operand) (member : operand ∈ expression.operands) :
          ∀ part ∈ operand.parts, part.IsRegular bindings := by
        refine induction operand member (Option.isSome_iff_ne_none.mpr fun without => ?_)
        simp [eval_eq_none_of_operand member without] at evaluated
      rw [eval_eq_of_operands fun operand member => eval_eq_plain (inside operand member)]
        at evaluated
      intro part member
      rw [parts_eq, List.mem_cons, List.mem_flatMap] at member
      rcases member with rfl | ⟨operand, isOperand, inOperand⟩
      · exact .of_isSome evaluated
      · exact inside operand isOperand part inOperand

theorem isFinite_of_eval {expression : Expr K} {value : K}
    (isValue : expression.eval bindings = some value) : Scalar.isFinite value = true := by
  have regular := isRegular_of_eval (Option.isSome_of_eq_some isValue)
  rcases (regular expression expression.self_mem_parts).finite with
      ⟨plain, isPlain, finite⟩
  rw [eval_eq_plain regular, isPlain] at isValue
  rwa [← Option.some.inj isValue]

/-- Nothing makes up for a variable that is not bound. -/
theorem eval_eq_none_of_unbound {index : Nat} (unbound : bindings index = none)
    {expression : Expr K} (used : index ∈ expression.indices) :
    expression.eval bindings = none := by
  refine Option.not_isSome_iff_eq_none.mp fun evaluated => ?_
  rcases (isRegular_of_eval evaluated _ (mem_indices_iff.mp used)).finite with
      ⟨value, bound, -⟩
  rw [plain?, unbound] at bound
  cases bound

/-- Further bindings do not take a value away. -/
theorem eval_mono {other : Bindings K} {expression : Expr K} {value : K}
    (further : ∀ index value, bindings index = some value → other index = some value)
    (isValue : expression.eval bindings = some value) :
    expression.eval other = some value := by
  rw [← isValue]
  apply Eq.symm
  apply eval_congr
  intro index used
  cases bound : bindings index with
  | none => simp [eval_eq_none_of_unbound bound used] at isValue
  | some given => rw [further index given bound]

/-- An expression has a value exactly if all its variables are bound, plain arithmetic has
a finite value for every part, and nothing is divided by zero; it is then the plain value,
and so is that of every part. The value depends on the variables that occur, and further
bindings do not take it away. -/
theorem eval_strict (expression : Expr K) (first second : Bindings K) :
    ((∀ index ∈ expression.indices, first index = second index) →
      expression.eval first = expression.eval second) ∧
    ((∀ index value, first index = some value → second index = some value) →
      ∀ value, expression.eval first = some value → expression.eval second = some value) ∧
    ((expression.eval first).isSome ↔
      (∀ index ∈ expression.indices, (first index).isSome) ∧
      (∀ part ∈ expression.parts, ∃ value,
        part.plain? first = some value ∧ Scalar.isFinite value = true) ∧
      ∀ part ∈ expression.parts, part.dividesByZero first = false) ∧
    ∀ value, expression.eval first = some value →
      expression.plain? first = some value ∧
      ∀ part ∈ expression.parts, ∃ inner,
        part.eval first = some inner ∧ part.plain? first = some inner := by
  refine ⟨eval_congr, fun further value => eval_mono further, ?defined, ?inside⟩
  case defined =>
    constructor
    · intro evaluated
      have regular := isRegular_of_eval evaluated
      refine ⟨fun index used => ?_, fun part member => (regular part member).finite,
        fun part member => (regular part member).divided⟩
      refine Option.isSome_iff_ne_none.mpr fun unbound => ?_
      simp [eval_eq_none_of_unbound unbound used] at evaluated
    · rintro ⟨-, finite, divided⟩
      rw [eval_eq_plain fun part member => ⟨finite part member, divided part member⟩]
      rcases finite expression expression.self_mem_parts with ⟨value, isPlain, -⟩
      exact Option.isSome_of_eq_some isPlain
  case inside =>
    intro value isValue
    have regular := isRegular_of_eval (Option.isSome_of_eq_some isValue)
    refine ⟨(eval_eq_plain regular).symm.trans isValue, fun part member => ?_⟩
    rcases (regular part member).finite with ⟨inner, isPlain, -⟩
    refine ⟨inner, ?_, isPlain⟩
    rw [eval_eq_plain fun deeper inPart => regular deeper (mem_parts_trans inPart member),
      isPlain]

/-- The square of a large value is not finite. Plain arithmetic divides by it and has
zero. -/
theorem eval_strict_reciprocal :
    let square : Expr Float := .mul (.var 1) (.var 1)
    let reciprocal : Expr Float := .div (.literal 1.0) square
    let small : Bindings Float := .ofList [4.0]
    let more : Bindings Float := .ofList [4.0, 7.0]
    let large : Bindings Float := .ofList [1e200]
    (∀ index ∈ reciprocal.indices, small index = more index) ∧
      (∀ index value, small index = some value → more index = some value) ∧
      reciprocal.eval small = reciprocal.eval more ∧ reciprocal.eval more = some 0.0625 ∧
      reciprocal.plain? large = some 0.0 ∧ square ∈ reciprocal.parts ∧
      reciprocal.eval large = none := by
  intro square reciprocal small more large
  have agree : ∀ index ∈ reciprocal.indices, small index = more index := by decide +kernel
  have further : ∀ index value, small index = some value → more index = some value := by
    rintro (_ | _ | index) value given
    · cases given
    · exact given
    · cases given
  have isSmall : reciprocal.eval small = some 0.0625 := by decide +kernel
  have inside : square ∈ reciprocal.parts := by decide +kernel
  have infinite : (square.plain? large).any Scalar.isFinite = false := by decide +kernel
  rcases eval_strict reciprocal small more with ⟨congruent, extended, -⟩
  refine ⟨agree, further, congruent agree, extended further _ isSmall,
    by decide +kernel, inside, Option.not_isSome_iff_eq_none.mp fun evaluated => ?_⟩
  rcases ((eval_strict reciprocal large more).2.2.1.mp evaluated).2.1 square inside with
    ⟨value, isPlain, finite⟩
  simp [isPlain, finite] at infinite

end Expr

end Photoplot
