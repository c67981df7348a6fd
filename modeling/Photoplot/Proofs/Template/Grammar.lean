import Photoplot.Proofs.Scalar.Finite
import Photoplot.Template.ExprReader

/-! # The grammar of expressions

    sum     = product (('+' | '-') product)*
    product = signed (('x' | '/') signed)*
    signed  = '-' signed | '+' signed | operand
    operand = number | variable | '(' sum ')'

A derivation is a tree of this grammar. It spells a list of tokens, it stands for
an expression, where operators of one level group to the left, and it has a
value. No list of tokens has two derivations. -/

namespace Photoplot.Expr.Grammar

/-! ## Derivations -/

inductive Sign
  | plus
  | minus
  deriving DecidableEq, Repr

inductive Scaling
  | times
  | slash
  deriving DecidableEq, Repr

mutual
inductive Sum (K : Type)
  | row (first : Product K) (rest : SumTail K)

inductive SumTail (K : Type)
  | done
  | more (sign : Sign) (term : Product K) (rest : SumTail K)

inductive Product (K : Type)
  | row (first : Signed K) (rest : ProductTail K)

inductive ProductTail (K : Type)
  | done
  | more (scaling : Scaling) (factor : Signed K) (rest : ProductTail K)

inductive Signed (K : Type)
  | sign (sign : Sign) (inner : Signed K)
  | unsigned (inner : Operand K)

inductive Operand (K : Type)
  | number (value : K)
  | var (index : Nat)
  | parentheses (inner : Sum K)
end

variable {K : Type}

/-! ## Tokens -/

def Sign.token : Sign → Token K
  | .plus => .plus
  | .minus => .minus

def Scaling.token : Scaling → Token K
  | .times => .times
  | .slash => .slash

mutual
def Sum.tokens : Sum K → List (Token K)
  | .row first rest => first.tokens ++ rest.tokens

def SumTail.tokens : SumTail K → List (Token K)
  | .done => []
  | .more sign term rest => sign.token :: (term.tokens ++ rest.tokens)

def Product.tokens : Product K → List (Token K)
  | .row first rest => first.tokens ++ rest.tokens

def ProductTail.tokens : ProductTail K → List (Token K)
  | .done => []
  | .more scaling factor rest => scaling.token :: (factor.tokens ++ rest.tokens)

def Signed.tokens : Signed K → List (Token K)
  | .sign sign inner => sign.token :: inner.tokens
  | .unsigned inner => inner.tokens

def Operand.tokens : Operand K → List (Token K)
  | .number value => [.number value]
  | .var index => [.var index]
  | .parentheses inner => .opening :: (inner.tokens ++ [.closing])
end

/-! ## Trees

A tail is given the tree of all that stands in front of it, which is how
operators of one level group to the left. Parentheses leave no trace. -/

def Sign.join : Sign → Expr K → Expr K → Expr K
  | .plus => .add
  | .minus => .sub

/-- A plus sign leaves no trace, and a minus sign becomes part of a literal. -/
def Sign.apply [Neg K] : Sign → Expr K → Expr K
  | .plus, tree => tree
  | .minus, .literal value => .literal (-value)
  | .minus, tree => .neg tree

def Scaling.join : Scaling → Expr K → Expr K → Expr K
  | .times => .mul
  | .slash => .div

mutual
def Sum.tree [Neg K] : Sum K → Expr K
  | .row first rest => rest.tree first.tree

def SumTail.tree [Neg K] : SumTail K → Expr K → Expr K
  | .done, left => left
  | .more sign term rest, left => rest.tree (sign.join left term.tree)

def Product.tree [Neg K] : Product K → Expr K
  | .row first rest => rest.tree first.tree

def ProductTail.tree [Neg K] : ProductTail K → Expr K → Expr K
  | .done, left => left
  | .more scaling factor rest, left => rest.tree (scaling.join left factor.tree)

def Signed.tree [Neg K] : Signed K → Expr K
  | .sign sign inner => sign.apply inner.tree
  | .unsigned inner => inner.tree

def Operand.tree [Neg K] : Operand K → Expr K
  | .number value => .literal value
  | .var index => .var index
  | .parentheses inner => inner.tree
end

/-! ## Values

An operation has a value if both of its sides have one and the result is finite;
a division also needs a divisor other than zero. -/

section Values

variable [Scalar K]

def Sign.combine (sign : Sign) (left right : Option K) : Option K := do
  let left ← left
  let right ← right
  match sign with
  | .plus => finite? (left + right)
  | .minus => finite? (left - right)

def Sign.applyValue (sign : Sign) (value : Option K) : Option K := do
  let value ← value
  match sign with
  | .plus => some value
  | .minus => finite? (-value)

def Scaling.combine (scaling : Scaling) (left right : Option K) : Option K := do
  let left ← left
  let right ← right
  match scaling with
  | .times => finite? (left * right)
  | .slash => if Scalar.Same right 0.0 then none else finite? (left / right)

mutual
def Sum.value (bindings : Bindings K) : Sum K → Option K
  | .row first rest => rest.value bindings (first.value bindings)

def SumTail.value (bindings : Bindings K) : SumTail K → Option K → Option K
  | .done, left => left
  | .more sign term rest, left =>
      rest.value bindings (sign.combine left (term.value bindings))

def Product.value (bindings : Bindings K) : Product K → Option K
  | .row first rest => rest.value bindings (first.value bindings)

def ProductTail.value (bindings : Bindings K) : ProductTail K → Option K → Option K
  | .done, left => left
  | .more scaling factor rest, left =>
      rest.value bindings (scaling.combine left (factor.value bindings))

def Signed.value (bindings : Bindings K) : Signed K → Option K
  | .sign sign inner => sign.applyValue (inner.value bindings)
  | .unsigned inner => inner.value bindings

def Operand.value (bindings : Bindings K) : Operand K → Option K
  | .number value => finite? value
  | .var index => (bindings index).bind finite?
  | .parentheses inner => inner.value bindings
end

end Values

/-! ### Trees have the values of derivations -/

section EvalTree

variable [Scalar K]

theorem Sign.eval_join (sign : Sign) (bindings : Bindings K) (left right : Expr K) :
    (sign.join left right).eval bindings =
      sign.combine (left.eval bindings) (right.eval bindings) := by
  cases sign <;> rfl

/-- The divisor is looked at first, which does not matter for the value. -/
theorem Scaling.eval_join (scaling : Scaling) (bindings : Bindings K)
    (left right : Expr K) :
    (scaling.join left right).eval bindings =
      scaling.combine (left.eval bindings) (right.eval bindings) := by
  cases scaling with
  | times => rfl
  | slash =>
      simp only [join, eval, combine]
      cases left.eval bindings <;> cases right.eval bindings <;> simp

/-- A literal is finite if and only if its negation is. -/
theorem Sign.eval_apply [Scalar.SignFree K] (sign : Sign) (bindings : Bindings K)
    (tree : Expr K) :
    (sign.apply tree).eval bindings = sign.applyValue (tree.eval bindings) := by
  cases sign with
  | plus => cases value : tree.eval bindings <;> simp [apply, applyValue, value]
  | minus =>
      cases tree with
      | literal value =>
          simp only [apply, applyValue, eval, finite?, Scalar.SignFree.isFinite_neg]
          cases finite : Scalar.isFinite value <;> simp [finite]
      | _ => rfl

mutual
theorem Sum.eval_tree [Scalar.SignFree K] (bindings : Bindings K) :
    (sum : Sum K) → sum.tree.eval bindings = sum.value bindings
  | .row first rest => by
      rw [Sum.tree, SumTail.eval_tree bindings rest, Product.eval_tree bindings first,
        Sum.value]

theorem SumTail.eval_tree [Scalar.SignFree K] (bindings : Bindings K) :
    (tail : SumTail K) → {left : Expr K} →
      (tail.tree left).eval bindings = tail.value bindings (left.eval bindings)
  | .done, left => rfl
  | .more sign term rest, left => by
      rw [SumTail.tree, SumTail.eval_tree bindings rest, sign.eval_join,
        Product.eval_tree bindings term, SumTail.value]

theorem Product.eval_tree [Scalar.SignFree K] (bindings : Bindings K) :
    (product : Product K) → product.tree.eval bindings = product.value bindings
  | .row first rest => by
      rw [Product.tree, ProductTail.eval_tree bindings rest,
        Signed.eval_tree bindings first, Product.value]

theorem ProductTail.eval_tree [Scalar.SignFree K] (bindings : Bindings K) :
    (tail : ProductTail K) → {left : Expr K} →
      (tail.tree left).eval bindings = tail.value bindings (left.eval bindings)
  | .done, left => rfl
  | .more scaling factor rest, left => by
      rw [ProductTail.tree, ProductTail.eval_tree bindings rest, scaling.eval_join,
        Signed.eval_tree bindings factor, ProductTail.value]

theorem Signed.eval_tree [Scalar.SignFree K] (bindings : Bindings K) :
    (signed : Signed K) → signed.tree.eval bindings = signed.value bindings
  | .sign sign inner => by
      rw [Signed.tree, sign.eval_apply, Signed.eval_tree bindings inner, Signed.value]
  | .unsigned inner => Operand.eval_tree bindings inner

theorem Operand.eval_tree [Scalar.SignFree K] (bindings : Bindings K) :
    (operand : Operand K) → operand.tree.eval bindings = operand.value bindings
  | .number _ => rfl
  | .var _ => rfl
  | .parentheses inner => Sum.eval_tree bindings inner
end

end EvalTree

/-! ## No two derivations

A row goes on as long as there is an operator of its level. What follows a sum
therefore begins with none, and what follows a product may only begin with one of
a sum. -/

def EndsProduct (rest : List (Token K)) : Prop :=
  ∀ scaling : Scaling, rest.head? ≠ some scaling.token

def EndsSum (rest : List (Token K)) : Prop :=
  EndsProduct rest ∧ ∀ sign : Sign, rest.head? ≠ some sign.token

theorem endsSum_nil : EndsSum ([] : List (Token K)) := ⟨nofun, nofun⟩

theorem endsSum_closing (rest : List (Token K)) : EndsSum (.closing :: rest) := by
  constructor
  · intro scaling
    cases scaling <;> simp [Scaling.token]
  · intro sign
    cases sign <;> simp [Sign.token]

theorem endsProduct_sign (sign : Sign) (rest : List (Token K)) :
    EndsProduct (sign.token :: rest) := by
  intro scaling
  cases sign <;> cases scaling <;> simp [Sign.token, Scaling.token]

theorem SumTail.endsProduct (tail : SumTail K) {rest : List (Token K)}
    (ends : EndsSum rest) :
    EndsProduct (tail.tokens ++ rest) := by
  cases tail with
  | done => exact ends.1
  | more sign term tail => exact endsProduct_sign sign _

theorem Sign.token_inj {sign other : Sign} (same : sign.token (K := K) = other.token) :
    sign = other := by
  cases sign <;> cases other <;> cases same <;> rfl

theorem Scaling.token_inj {scaling other : Scaling}
    (same : scaling.token (K := K) = other.token) : scaling = other := by
  cases scaling <;> cases other <;> cases same <;> rfl

/-- No operand begins with a sign. -/
theorem Operand.head_ne (operand : Operand K) (rest : List (Token K)) (sign : Sign) :
    (operand.tokens ++ rest).head? ≠ some sign.token := by
  cases operand <;> cases sign <;> simp [Operand.tokens, Sign.token]

mutual
theorem Sum.unique : (sum other : Sum K) → {rest rest' : List (Token K)} →
    sum.tokens ++ rest = other.tokens ++ rest' → EndsSum rest → EndsSum rest' →
      sum = other ∧ rest = rest'
  | .row first tail, .row first' tail', _, _, same, ends, ends' => by
      simp only [Sum.tokens, List.append_assoc] at same
      rcases Product.unique first first' same (tail.endsProduct ends)
        (tail'.endsProduct ends') with ⟨rfl, later⟩
      rcases SumTail.unique tail tail' later ends ends' with ⟨rfl, rfl⟩
      exact ⟨rfl, rfl⟩

theorem SumTail.unique : (tail other : SumTail K) → {rest rest' : List (Token K)} →
    tail.tokens ++ rest = other.tokens ++ rest' → EndsSum rest → EndsSum rest' →
      tail = other ∧ rest = rest'
  | .done, .done, _, _, same, _, _ => ⟨rfl, same⟩
  | .done, .more sign _ _, _, _, same, ends, _ =>
      absurd (congrArg List.head? same) (ends.2 sign)
  | .more sign _ _, .done, _, _, same, _, ends' =>
      absurd (congrArg List.head? same.symm) (ends'.2 sign)
  | .more sign term tail, .more sign' term' tail', _, _, same, ends, ends' => by
      simp only [SumTail.tokens, List.cons_append, List.append_assoc,
        List.cons.injEq] at same
      rcases Sign.token_inj same.1 with rfl
      rcases Product.unique term term' same.2 (tail.endsProduct ends)
        (tail'.endsProduct ends') with ⟨rfl, later⟩
      rcases SumTail.unique tail tail' later ends ends' with ⟨rfl, rfl⟩
      exact ⟨rfl, rfl⟩

theorem Product.unique : (product other : Product K) → {rest rest' : List (Token K)} →
    product.tokens ++ rest = other.tokens ++ rest' → EndsProduct rest →
    EndsProduct rest' →
      product = other ∧ rest = rest'
  | .row first tail, .row first' tail', _, _, same, ends, ends' => by
      simp only [Product.tokens, List.append_assoc] at same
      rcases Signed.unique first first' same with ⟨rfl, later⟩
      rcases ProductTail.unique tail tail' later ends ends' with ⟨rfl, rfl⟩
      exact ⟨rfl, rfl⟩

theorem ProductTail.unique :
    (tail other : ProductTail K) → {rest rest' : List (Token K)} →
    tail.tokens ++ rest = other.tokens ++ rest' → EndsProduct rest → EndsProduct rest' →
      tail = other ∧ rest = rest'
  | .done, .done, _, _, same, _, _ => ⟨rfl, same⟩
  | .done, .more scaling _ _, _, _, same, ends, _ =>
      absurd (congrArg List.head? same) (ends scaling)
  | .more scaling _ _, .done, _, _, same, _, ends' =>
      absurd (congrArg List.head? same.symm) (ends' scaling)
  | .more scaling factor tail, .more scaling' factor' tail', _, _, same, ends, ends' => by
      simp only [ProductTail.tokens, List.cons_append, List.append_assoc,
        List.cons.injEq] at same
      rcases Scaling.token_inj same.1 with rfl
      rcases Signed.unique factor factor' same.2 with ⟨rfl, later⟩
      rcases ProductTail.unique tail tail' later ends ends' with ⟨rfl, rfl⟩
      exact ⟨rfl, rfl⟩

theorem Signed.unique : (signed other : Signed K) → {rest rest' : List (Token K)} →
    signed.tokens ++ rest = other.tokens ++ rest' → signed = other ∧ rest = rest'
  | .sign sign inner, .sign sign' inner', _, _, same => by
      simp only [Signed.tokens, List.cons_append, List.cons.injEq] at same
      rcases Sign.token_inj same.1 with rfl
      rcases Signed.unique inner inner' same.2 with ⟨rfl, rfl⟩
      exact ⟨rfl, rfl⟩
  | .unsigned inner, .unsigned inner', _, _, same => by
      rcases Operand.unique inner inner' same with ⟨rfl, rfl⟩
      exact ⟨rfl, rfl⟩
  | .sign sign _, .unsigned inner, _, _, same =>
      absurd (congrArg List.head? same.symm) (inner.head_ne _ sign)
  | .unsigned inner, .sign sign _, _, _, same =>
      absurd (congrArg List.head? same) (inner.head_ne _ sign)

theorem Operand.unique : (operand other : Operand K) → {rest rest' : List (Token K)} →
    operand.tokens ++ rest = other.tokens ++ rest' → operand = other ∧ rest = rest'
  | .parentheses inner, .parentheses inner', _, _, same => by
      simp only [Operand.tokens, List.cons_append, List.append_assoc, List.nil_append,
        List.cons.injEq, true_and] at same
      rcases Sum.unique inner inner' same (endsSum_closing _) (endsSum_closing _) with
        ⟨rfl, later⟩
      exact ⟨rfl, (List.cons.inj later).2⟩
  | .number _, .number _, _, _, same => by simpa [Operand.tokens] using same
  | .var _, .var _, _, _, same => by simpa [Operand.tokens] using same
  | .number _, .var _, _, _, same => by simp [Operand.tokens] at same
  | .number _, .parentheses _, _, _, same => by simp [Operand.tokens] at same
  | .var _, .number _, _, _, same => by simp [Operand.tokens] at same
  | .var _, .parentheses _, _, _, same => by simp [Operand.tokens] at same
  | .parentheses _, .number _, _, _, same => by simp [Operand.tokens] at same
  | .parentheses _, .var _, _, _, same => by simp [Operand.tokens] at same
end

end Photoplot.Expr.Grammar
