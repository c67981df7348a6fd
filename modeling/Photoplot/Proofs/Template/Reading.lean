import Photoplot.Proofs.Template.Grammar

/-! # Reading by the grammar

The reader of expressions takes exactly the derivations of the grammar: each
level of precedence reads one derivation from the head of the tokens, as long a
one as there is, and returns its tree. -/

namespace Photoplot.Expr

open Grammar
  (Sign Scaling Sum SumTail Product ProductTail Signed Operand EndsSum EndsProduct)

variable {K : Type}

/-! ## One step of each level -/

def Parsed.result {count : ℕ} : Parsed K count → Option (Expr K × List (Token K))
  | .error _ => none
  | .ok (tree, ⟨rest, _⟩) => some (tree, rest)

theorem Parsed.length_lt {count : ℕ} {parsed : Parsed K count} {tree : Expr K}
    {rest : List (Token K)} (read : parsed.result = some (tree, rest)) :
    rest.length < count := by
  cases parsed with
  | error _ => cases read
  | ok found =>
      rcases found with ⟨_, _, shorter⟩
      cases read
      exact shorter

theorem Parsed.result_eq_some_iff {count : ℕ} {parsed : Parsed K count} {tree : Expr K}
    {rest : List (Token K)} :
    parsed.result = some (tree, rest) ↔
      ∃ shorter, parsed = .ok (tree, ⟨rest, shorter⟩) := by
  constructor
  · intro read
    refine ⟨length_lt read, ?_⟩
    cases parsed with
    | error _ => cases read
    | ok found =>
        cases read
        rfl
  · rintro ⟨_, rfl⟩
    rfl

section Levels

variable [Neg K]

theorem result_sum (tokens : List (Token K)) :
    (sum tokens).result =
      (product tokens).result.bind fun read => (sumTail read.1 read.2).result := by
  rw [sum]
  cases product tokens with
  | error _ => rfl
  | ok read =>
      rcases read with ⟨left, rest, _⟩
      cases tail : sumTail left rest <;> simp [Parsed.result, tail]

theorem result_sumTail_sign (sign : Sign) (left : Expr K) (tokens : List (Token K)) :
    (sumTail left (sign.token :: tokens)).result =
      (product tokens).result.bind fun read =>
        (sumTail (sign.join left read.1) read.2).result := by
  cases sign with
  | plus =>
      rw [Sign.token, sumTail]
      cases product tokens with
      | error _ => rfl
      | ok read =>
          rcases read with ⟨right, rest, _⟩
          cases tail : sumTail (.add left right) rest <;>
            simp [Parsed.result, Sign.join, tail]
  | minus =>
      rw [Sign.token, sumTail]
      cases product tokens with
      | error _ => rfl
      | ok read =>
          rcases read with ⟨right, rest, _⟩
          cases tail : sumTail (.sub left right) rest <;>
            simp [Parsed.result, Sign.join, tail]

theorem result_sumTail_done (left : Expr K) {tokens : List (Token K)}
    (ends : ∀ sign : Sign, tokens.head? ≠ some sign.token) :
    (sumTail left tokens).result = some (left, tokens) := by
  unfold sumTail
  split
  · exact absurd rfl (ends .plus)
  · exact absurd rfl (ends .minus)
  · rfl

theorem result_product (tokens : List (Token K)) :
    (product tokens).result =
      (signed tokens).result.bind fun read => (productTail read.1 read.2).result := by
  rw [product]
  cases signed tokens with
  | error _ => rfl
  | ok read =>
      rcases read with ⟨left, rest, _⟩
      cases tail : productTail left rest <;> simp [Parsed.result, tail]

theorem result_productTail_scaling (scaling : Scaling) (left : Expr K)
    (tokens : List (Token K)) :
    (productTail left (scaling.token :: tokens)).result =
      (signed tokens).result.bind fun read =>
        (productTail (scaling.join left read.1) read.2).result := by
  cases scaling with
  | times =>
      rw [Scaling.token, productTail]
      cases signed tokens with
      | error _ => rfl
      | ok read =>
          rcases read with ⟨right, rest, _⟩
          cases tail : productTail (.mul left right) rest <;>
            simp [Parsed.result, Scaling.join, tail]
  | slash =>
      rw [Scaling.token, productTail]
      cases signed tokens with
      | error _ => rfl
      | ok read =>
          rcases read with ⟨right, rest, _⟩
          cases tail : productTail (.div left right) rest <;>
            simp [Parsed.result, Scaling.join, tail]

theorem result_productTail_done (left : Expr K) {tokens : List (Token K)}
    (ends : EndsProduct tokens) :
    (productTail left tokens).result = some (left, tokens) := by
  unfold productTail
  split
  · exact absurd rfl (ends .times)
  · exact absurd rfl (ends .slash)
  · rfl

theorem negate_eq (tree : Expr K) : negate tree = Sign.minus.apply tree := by
  cases tree <;> rfl

theorem result_signed_sign (sign : Sign) (tokens : List (Token K)) :
    (signed (sign.token :: tokens)).result =
      (signed tokens).result.map fun read => (sign.apply read.1, read.2) := by
  cases sign with
  | plus =>
      rw [Sign.token, signed]
      cases signed tokens <;> rfl
  | minus =>
      rw [Sign.token, signed]
      cases signed tokens with
      | error _ => rfl
      | ok read => simp [Parsed.result, negate_eq]

theorem result_signed_unsigned {tokens : List (Token K)}
    (ends : ∀ sign : Sign, tokens.head? ≠ some sign.token) :
    (signed tokens).result = (operand tokens).result := by
  unfold signed
  split
  · exact absurd rfl (ends .minus)
  · exact absurd rfl (ends .plus)
  · rfl

theorem result_operand_opening (tokens : List (Token K)) :
    (operand (.opening :: tokens)).result =
      (sum tokens).result.bind fun read =>
        match read.2 with
        | .closing :: rest => some (read.1, rest)
        | _ => none := by
  rw [operand]
  cases sum tokens with
  | error _ => rfl
  | ok read =>
      rcases read with ⟨inner, rest, shorter⟩
      simp only [Parsed.result, Option.bind_some]
      split <;> split <;> simp_all

/-! ## Every derivation is read -/

mutual
theorem Grammar.Sum.result_tokens : (derivation : Sum K) → {rest : List (Token K)} →
    EndsSum rest → (sum (derivation.tokens ++ rest)).result = some (derivation.tree, rest)
  | .row first tail, rest, ends => by
      rw [Sum.tokens, List.append_assoc, result_sum,
        Product.result_tokens first (tail.endsProduct ends)]
      exact SumTail.result_tokens tail ends

theorem Grammar.SumTail.result_tokens : (derivation : SumTail K) → {left : Expr K} →
    {rest : List (Token K)} → EndsSum rest →
      (sumTail left (derivation.tokens ++ rest)).result =
      some (derivation.tree left, rest)
  | .done, left, rest, ends => result_sumTail_done left ends.2
  | .more sign term tail, left, rest, ends => by
      rw [SumTail.tokens, List.cons_append, List.append_assoc, result_sumTail_sign,
        Product.result_tokens term (tail.endsProduct ends)]
      exact SumTail.result_tokens tail ends

theorem Grammar.Product.result_tokens :
    (derivation : Product K) → {rest : List (Token K)} →
    EndsProduct rest →
      (product (derivation.tokens ++ rest)).result = some (derivation.tree, rest)
  | .row first tail, rest, ends => by
      rw [Product.tokens, List.append_assoc, result_product, Signed.result_tokens first]
      exact ProductTail.result_tokens tail ends

theorem Grammar.ProductTail.result_tokens :
    (derivation : ProductTail K) → {left : Expr K} →
    {rest : List (Token K)} → EndsProduct rest →
      (productTail left (derivation.tokens ++ rest)).result =
        some (derivation.tree left, rest)
  | .done, left, rest, ends => result_productTail_done left ends
  | .more scaling factor tail, left, rest, ends => by
      rw [ProductTail.tokens, List.cons_append, List.append_assoc,
        result_productTail_scaling, Signed.result_tokens factor]
      exact ProductTail.result_tokens tail ends

theorem Grammar.Signed.result_tokens : (derivation : Signed K) → {rest : List (Token K)} →
    (signed (derivation.tokens ++ rest)).result = some (derivation.tree, rest)
  | .sign sign inner, rest => by
      rw [Signed.tokens, List.cons_append, result_signed_sign, Signed.result_tokens inner]
      rfl
  | .unsigned inner, rest => by
      rw [Signed.tokens, result_signed_unsigned (inner.head_ne rest)]
      exact Operand.result_tokens inner

theorem Grammar.Operand.result_tokens :
    (derivation : Operand K) → {rest : List (Token K)} →
    (operand (derivation.tokens ++ rest)).result = some (derivation.tree, rest)
  | .number value, rest => by
      simp [Operand.tokens, operand, Parsed.result, Operand.tree]
  | .var index, rest => by
      simp [Operand.tokens, operand, Parsed.result, Operand.tree]
  | .parentheses inner, rest => by
      rw [Operand.tokens, List.cons_append, List.append_assoc, List.singleton_append,
        result_operand_opening, Sum.result_tokens inner (Grammar.endsSum_closing _)]
      rfl
end

/-! ## Only derivations are read

The recursion is that of the reader itself. -/

mutual
theorem exists_sum (tokens : List (Token K)) {tree : Expr K} {rest : List (Token K)}
    (read : (sum tokens).result = some (tree, rest)) :
    ∃ derivation : Sum K,
      derivation.tokens ++ rest = tokens ∧ derivation.tree = tree := by
  rw [result_sum] at read
  rcases Option.bind_eq_some_iff.mp read with ⟨⟨left, middle⟩, isFirst, isTail⟩
  have shorter := Parsed.length_lt isFirst
  rcases exists_product tokens isFirst with ⟨first, spelled, rfl⟩
  rcases exists_sumTail middle isTail with ⟨tail, rfl, rfl⟩
  exact ⟨.row first tail, by rw [Sum.tokens, List.append_assoc, spelled], rfl⟩
termination_by (tokens.length, 4)

theorem exists_sumTail (tokens : List (Token K)) {left tree : Expr K}
    {rest : List (Token K)} (read : (sumTail left tokens).result = some (tree, rest)) :
    ∃ derivation : SumTail K,
      derivation.tokens ++ rest = tokens ∧ derivation.tree left = tree := by
  by_cases more : ∃ sign : Sign, tokens.head? = some sign.token
  · rcases more with ⟨sign, isSign⟩
    rcases List.head?_eq_some_iff.mp isSign with ⟨later, isTokens⟩
    rw [isTokens, result_sumTail_sign] at read
    rcases Option.bind_eq_some_iff.mp read with ⟨⟨right, middle⟩, isTerm, isTail⟩
    have shorter := Parsed.length_lt isTerm
    have longer := congrArg List.length isTokens
    rcases exists_product later isTerm with ⟨term, spelled, rfl⟩
    rcases exists_sumTail middle isTail with ⟨tail, rfl, rfl⟩
    refine ⟨.more sign term tail, ?_, rfl⟩
    rw [isTokens, SumTail.tokens, List.cons_append, List.append_assoc, spelled]
  · rw [result_sumTail_done left (not_exists.mp more)] at read
    cases read
    exact ⟨.done, rfl, rfl⟩
termination_by (tokens.length, 0)

theorem exists_product (tokens : List (Token K)) {tree : Expr K} {rest : List (Token K)}
    (read : (product tokens).result = some (tree, rest)) :
    ∃ derivation : Product K,
      derivation.tokens ++ rest = tokens ∧ derivation.tree = tree := by
  rw [result_product] at read
  rcases Option.bind_eq_some_iff.mp read with ⟨⟨left, middle⟩, isFirst, isTail⟩
  have shorter := Parsed.length_lt isFirst
  rcases exists_signed tokens isFirst with ⟨first, spelled, rfl⟩
  rcases exists_productTail middle isTail with ⟨tail, rfl, rfl⟩
  exact ⟨.row first tail, by rw [Product.tokens, List.append_assoc, spelled], rfl⟩
termination_by (tokens.length, 3)

theorem exists_productTail (tokens : List (Token K)) {left tree : Expr K}
    {rest : List (Token K)}
    (read : (productTail left tokens).result = some (tree, rest)) :
    ∃ derivation : ProductTail K,
      derivation.tokens ++ rest = tokens ∧ derivation.tree left = tree := by
  by_cases more : ∃ scaling : Scaling, tokens.head? = some scaling.token
  · rcases more with ⟨scaling, isScaling⟩
    rcases List.head?_eq_some_iff.mp isScaling with ⟨later, isTokens⟩
    rw [isTokens, result_productTail_scaling] at read
    rcases Option.bind_eq_some_iff.mp read with ⟨⟨right, middle⟩, isFactor, isTail⟩
    have shorter := Parsed.length_lt isFactor
    have longer := congrArg List.length isTokens
    rcases exists_signed later isFactor with ⟨factor, spelled, rfl⟩
    rcases exists_productTail middle isTail with ⟨tail, rfl, rfl⟩
    refine ⟨.more scaling factor tail, ?_, rfl⟩
    rw [isTokens, ProductTail.tokens, List.cons_append, List.append_assoc, spelled]
  · rw [result_productTail_done left (not_exists.mp more)] at read
    cases read
    exact ⟨.done, rfl, rfl⟩
termination_by (tokens.length, 0)

theorem exists_signed (tokens : List (Token K)) {tree : Expr K} {rest : List (Token K)}
    (read : (signed tokens).result = some (tree, rest)) :
    ∃ derivation : Signed K,
      derivation.tokens ++ rest = tokens ∧ derivation.tree = tree := by
  by_cases more : ∃ sign : Sign, tokens.head? = some sign.token
  · rcases more with ⟨sign, isSign⟩
    rcases List.head?_eq_some_iff.mp isSign with ⟨later, isTokens⟩
    have longer := congrArg List.length isTokens
    rw [isTokens, result_signed_sign] at read
    rcases Option.map_eq_some_iff.mp read with ⟨⟨inner, left⟩, isInner, same⟩
    cases same
    rcases exists_signed later isInner with ⟨signed, spelled, rfl⟩
    refine ⟨.sign sign signed, ?_, rfl⟩
    rw [isTokens, Signed.tokens, List.cons_append, spelled]
  · rw [result_signed_unsigned (not_exists.mp more)] at read
    rcases exists_operand tokens read with ⟨operand, spelled, rfl⟩
    exact ⟨.unsigned operand, spelled, rfl⟩
termination_by (tokens.length, 2)

theorem exists_operand (tokens : List (Token K)) {tree : Expr K} {rest : List (Token K)}
    (read : (operand tokens).result = some (tree, rest)) :
    ∃ derivation : Operand K,
      derivation.tokens ++ rest = tokens ∧ derivation.tree = tree := by
  match tokens with
  | .number value :: later =>
      rw [operand] at read
      cases read
      exact ⟨.number value, rfl, rfl⟩
  | .var index :: later =>
      rw [operand] at read
      cases read
      exact ⟨.var index, rfl, rfl⟩
  | .opening :: later =>
      rw [result_operand_opening] at read
      rcases Option.bind_eq_some_iff.mp read with ⟨⟨inner, middle⟩, isInner, closed⟩
      simp only at closed
      split at closed
      · cases closed
        rcases exists_sum later isInner with ⟨sum, rfl, rfl⟩
        exact ⟨.parentheses sum, by simp [Operand.tokens], rfl⟩
      · cases closed
  | [] | .plus :: _ | .minus :: _ | .times :: _ | .slash :: _ | .closing :: _ =>
      rw [operand] at read
      cases read
      all_goals nofun
termination_by (tokens.length, 1)
end

/-! ## Whole expressions -/

inductive Level
  | sum
  | product
  | signed
  | operand
  deriving DecidableEq, Repr

def Level.read : Level → (tokens : List (Token K)) → Parsed K tokens.length
  | .sum => Expr.sum
  | .product => Expr.product
  | .signed => Expr.signed
  | .operand => Expr.operand

theorem Level.suffix_of_read (level : Level) {tokens rest : List (Token K)}
    {tree : Expr K} (read : (level.read tokens).result = some (tree, rest)) :
    rest <:+ tokens ∧ rest ≠ tokens := by
  have proper : rest ≠ tokens := by
    rintro rfl
    exact lt_irrefl _ (Parsed.length_lt read)
  refine ⟨?_, proper⟩
  cases level with
  | sum =>
      rcases exists_sum tokens read with ⟨derivation, spelled, -⟩
      exact ⟨_, spelled⟩
  | product =>
      rcases exists_product tokens read with ⟨derivation, spelled, -⟩
      exact ⟨_, spelled⟩
  | signed =>
      rcases exists_signed tokens read with ⟨derivation, spelled, -⟩
      exact ⟨_, spelled⟩
  | operand =>
      rcases exists_operand tokens read with ⟨derivation, spelled, -⟩
      exact ⟨_, spelled⟩

theorem sum_eq_ok_iff (list : List (Token K)) (tree : Expr K) :
    (∃ shorter, sum list = .ok (tree, ⟨[], shorter⟩)) ↔
      ∃ derivation : Sum K, derivation.tokens = list ∧ derivation.tree = tree := by
  rw [← Parsed.result_eq_some_iff]
  constructor
  · intro read
    rcases exists_sum list read with ⟨derivation, spelled, isTree⟩
    exact ⟨derivation, by rwa [List.append_nil] at spelled, isTree⟩
  · rintro ⟨derivation, rfl, rfl⟩
    have read := derivation.result_tokens Grammar.endsSum_nil
    rwa [List.append_nil] at read

end Levels

variable [Scalar K]

/-- The reader of texts is the one of sums, on the tokens of the text. -/
theorem read_eq_ok_iff {text : Text} {list : List (Token K)}
    (isCut : tokens text.trim text.trim = .ok list) (tree : Expr K) :
    read text = .ok tree ↔ ∃ shorter, sum list = .ok (tree, ⟨[], shorter⟩) := by
  unfold read
  by_cases empty : text.trim.isEmpty = true
  · have nothing : list = [] := by
      rw [List.isEmpty_iff.mp empty, tokens] at isCut
      exact (Except.ok.inj isCut).symm
    subst nothing
    simp [empty]
  · rw [if_neg empty, isCut]
    cases found : sum list with
    | error _ => simp [found, bind, Except.bind]
    | ok read =>
        rcases read with ⟨whole, rest, shorter⟩
        cases rest with
        | nil =>
            have some : 0 < list.length := shorter
            simp [found, some, bind, Except.bind, pure, Except.pure]
        | cons _ _ => simp [found, bind, Except.bind]

/-- Exactly the tokens of derivations are read as a whole, and to the tree of
their only derivation, which has its value; each level hands on a proper suffix
of its tokens. -/
theorem reads_unique_derivation [Scalar.SignFree K] (list : List (Token K)) :
    ((∃ tree shorter, sum list = .ok (tree, ⟨[], shorter⟩)) ↔
        ∃ derivation : Sum K, derivation.tokens = list) ∧
      (∀ derivation : Sum K, derivation.tokens = list →
        (∀ other : Sum K, other.tokens = list → other = derivation) ∧
          (∃ shorter, sum list = .ok (derivation.tree, ⟨[], shorter⟩)) ∧
          ∀ bindings, derivation.tree.eval bindings = derivation.value bindings) ∧
      (∀ (level : Level) (tree : Expr K) (rest : List (Token K)) (shorter),
        level.read list = .ok (tree, ⟨rest, shorter⟩) → rest <:+ list ∧ rest ≠ list) ∧
      ∀ text, tokens text.trim text.trim = .ok list → ∀ tree,
        read text = .ok tree ↔ ∃ shorter, sum list = .ok (tree, ⟨[], shorter⟩) := by
  refine ⟨?language, ?derivation, ?handedOn, fun text isCut => read_eq_ok_iff isCut⟩
  case language =>
    constructor
    · rintro ⟨tree, read⟩
      rcases (sum_eq_ok_iff list tree).mp read with ⟨derivation, spelled, -⟩
      exact ⟨derivation, spelled⟩
    · rintro ⟨derivation, spelled⟩
      exact ⟨derivation.tree, (sum_eq_ok_iff list _).mpr ⟨derivation, spelled, rfl⟩⟩
  case derivation =>
    intro derivation spelled
    refine ⟨?_, (sum_eq_ok_iff list _).mpr ⟨derivation, spelled, rfl⟩,
      fun bindings => derivation.eval_tree bindings⟩
    intro other otherSpelled
    have same : other.tokens ++ [] = derivation.tokens ++ [] := by
      rw [otherSpelled, spelled]
    exact (other.unique derivation same Grammar.endsSum_nil Grammar.endsSum_nil).1
  case handedOn =>
    intro level tree rest shorter read
    exact level.suffix_of_read (Parsed.result_eq_some_iff.mpr ⟨shorter, read⟩)

def Grammar.sampleProduct : Sum Float :=
  let difference : Sum Float :=
    .row (.row (.unsigned (.number 1.0)) .done)
      (.more .minus (.row (.unsigned (.number 2.0)) .done)
        (.more .minus (.row (.unsigned (.var 1)) .done) .done))
  .row (.row (.sign .minus (.unsigned (.parentheses difference)))
    (.more .times (.sign .minus (.unsigned (.number 5.0))) .done)) .done

/-- Differences group to the left; the last sign belongs to its literal. -/
theorem reads_sampleProduct :
    Grammar.sampleProduct.tokens =
        [.minus, .opening, .number 1.0, .minus, .number 2.0, .minus, .var 1, .closing,
          .times, .minus, .number 5.0] ∧
      (∃ shorter, sum Grammar.sampleProduct.tokens =
        .ok (.mul (.neg (.sub (.sub (.literal 1.0) (.literal 2.0)) (.var 1)))
          (.literal (-5.0)), ⟨[], shorter⟩)) ∧
      ∀ other : Sum Float, other.tokens = Grammar.sampleProduct.tokens →
        other = Grammar.sampleProduct := by
  have read := (reads_unique_derivation Grammar.sampleProduct.tokens).2.1
    Grammar.sampleProduct rfl
  exact ⟨rfl, read.2.1, read.1⟩

end Photoplot.Expr
