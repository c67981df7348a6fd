import Photoplot.Error
import Photoplot.Template.Expr

/-! # Reading expressions

A text is first cut into tokens; then one function for each level of precedence
reads from the head of the token list. Each of them returns the tokens that it
left, which are fewer than it was given. -/

namespace Photoplot.Expr

inductive Token (K : Type)
  | number (value : K)
  | var (index : Nat)
  | plus
  | minus
  | times
  | slash
  | opening
  | closing
  deriving DecidableEq, Repr

variable {K : Type}

/-! ## Tokens -/

def symbol? : Char → Option (Token K)
  | '+' => some .plus
  | '-' => some .minus
  | 'x' => some .times
  | 'X' => some .times
  | '/' => some .slash
  | '(' => some .opening
  | ')' => some .closing
  | _ => none

def isNumberCharacter (c : Char) : Bool := c.isDigit || c = '.'

/-- The tokens of a text, which is a part at the end of the whole expression. -/
def tokens [Scalar K] (expression : Text) (text : Text) :
    Except ReadError (List (Token K)) :=
  match text with
  | [] => .ok []
  | c :: rest =>
      if c = ' ' || c = '\t' then tokens expression rest
      else
        match symbol? c with
        | some symbol => (tokens expression rest).map (symbol :: ·)
        | none =>
            if c = '$' then
              match Digits.readCode (rest.takeWhile Char.isDigit) with
              | none => .error (.variableNumber expression)
              | some index =>
                  (tokens expression (rest.dropWhile Char.isDigit)).map (.var index :: ·)
            else if isNumberCharacter c then
              let digits := c :: rest.takeWhile isNumberCharacter
              match Scalar.read? digits with
              | none => .error (.number digits)
              | some value =>
                  (tokens expression (rest.dropWhile isNumberCharacter)).map
                    (.number value :: ·)
            else .error (.unexpectedCharacter c expression)
termination_by text.length
decreasing_by
  · simp
  · simp
  · have := (List.dropWhile_suffix Char.isDigit (l := rest)).length_le
    simp only [List.length_cons]
    omega
  · have := (List.dropWhile_suffix isNumberCharacter (l := rest)).length_le
    simp only [List.length_cons]
    omega

/-! ## Levels of precedence -/

abbrev Parsed (K : Type) (count : Nat) :=
  Except ReadError (Expr K × { rest : List (Token K) // rest.length < count })

def negate [Neg K] : Expr K → Expr K
  | literal value => literal (-value)
  | other => neg other

section Levels

variable [Neg K]

/-! A sum is a product with further products behind `+` or `-`; a product is a
signed operand with further ones behind `x` or `/`; an operand is a number, a
variable or a sum in parentheses. -/

mutual

def sum (tokens : List (Token K)) : Parsed K tokens.length :=
  match product tokens with
  | .error error => .error error
  | .ok (left, ⟨rest, shorter⟩) =>
      match sumTail left rest with
      | .error error => .error error
      | .ok (whole, ⟨rest, atMost⟩) => .ok (whole, ⟨rest, by omega⟩)
termination_by (tokens.length, 4)

def sumTail (left : Expr K) (tokens : List (Token K)) : Parsed K (tokens.length + 1) :=
  match tokens with
  | .plus :: rest =>
      match product rest with
      | .error error => .error error
      | .ok (right, ⟨rest, shorter⟩) =>
          match sumTail (.add left right) rest with
          | .error error => .error error
          | .ok (whole, ⟨rest, atMost⟩) =>
              .ok (whole, ⟨rest, by simp only [List.length_cons]; omega⟩)
  | .minus :: rest =>
      match product rest with
      | .error error => .error error
      | .ok (right, ⟨rest, shorter⟩) =>
          match sumTail (.sub left right) rest with
          | .error error => .error error
          | .ok (whole, ⟨rest, atMost⟩) =>
              .ok (whole, ⟨rest, by simp only [List.length_cons]; omega⟩)
  | rest => .ok (left, ⟨rest, by omega⟩)
termination_by (tokens.length, 0)

def product (tokens : List (Token K)) : Parsed K tokens.length :=
  match signed tokens with
  | .error error => .error error
  | .ok (left, ⟨rest, shorter⟩) =>
      match productTail left rest with
      | .error error => .error error
      | .ok (whole, ⟨rest, atMost⟩) => .ok (whole, ⟨rest, by omega⟩)
termination_by (tokens.length, 3)

def productTail (left : Expr K) (tokens : List (Token K)) :
    Parsed K (tokens.length + 1) :=
  match tokens with
  | .times :: rest =>
      match signed rest with
      | .error error => .error error
      | .ok (right, ⟨rest, shorter⟩) =>
          match productTail (.mul left right) rest with
          | .error error => .error error
          | .ok (whole, ⟨rest, atMost⟩) =>
              .ok (whole, ⟨rest, by simp only [List.length_cons]; omega⟩)
  | .slash :: rest =>
      match signed rest with
      | .error error => .error error
      | .ok (right, ⟨rest, shorter⟩) =>
          match productTail (.div left right) rest with
          | .error error => .error error
          | .ok (whole, ⟨rest, atMost⟩) =>
              .ok (whole, ⟨rest, by simp only [List.length_cons]; omega⟩)
  | rest => .ok (left, ⟨rest, by omega⟩)
termination_by (tokens.length, 0)

def signed (tokens : List (Token K)) : Parsed K tokens.length :=
  match tokens with
  | .minus :: rest =>
      match signed rest with
      | .error error => .error error
      | .ok (operand, ⟨rest, shorter⟩) =>
          .ok (negate operand, ⟨rest, by simp only [List.length_cons]; omega⟩)
  | .plus :: rest =>
      match signed rest with
      | .error error => .error error
      | .ok (operand, ⟨rest, shorter⟩) =>
          .ok (operand, ⟨rest, by simp only [List.length_cons]; omega⟩)
  | other => operand other
termination_by (tokens.length, 2)

def operand (tokens : List (Token K)) : Parsed K tokens.length :=
  match tokens with
  | .number value :: rest => .ok (literal value, ⟨rest, by simp⟩)
  | .var index :: rest => .ok (.var index, ⟨rest, by simp⟩)
  | .opening :: rest =>
      match sum rest with
      | .error error => .error error
      | .ok (inner, ⟨.closing :: rest, shorter⟩) =>
          .ok (inner, ⟨rest, by simp only [List.length_cons] at shorter ⊢; omega⟩)
      | .ok _ => .error .missingParenthesis
  | _ => .error .unexpectedEnd
termination_by (tokens.length, 1)

end

end Levels

def read [Scalar K] (text : Text) : Except ReadError (Expr K) := do
  let text := text.trim
  if text.isEmpty then .error .emptyExpression
  else
    match sum (← tokens text text) with
    | .error error => .error error
    | .ok (expression, ⟨[], _⟩) => return expression
    | .ok _ => .error (.unexpectedTokens text)

end Photoplot.Expr
