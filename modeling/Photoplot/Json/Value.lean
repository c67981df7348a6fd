import Photoplot.Json.Token

/-! # Values of JSON documents

The grammar of values over tokens. Members of an object stay in their order,
also if a key occurs twice. -/

namespace Photoplot.Json

/-- A key is missing if it is no text. -/
inductive Value
  | null
  | bool (value : Bool)
  | numeric (value : Numeric)
  | string (contents : Option (List UInt8))
  | array (elements : List Value)
  | object (members : List (Option (List UInt8) × Value))
  deriving Repr

abbrev Parsed (α : Type) (count : Nat) :=
    Option (α × { rest : List Token // rest.length < count })

mutual

def value (tokens : List Token) : Parsed Value tokens.length :=
  match tokens with
  | .null :: rest => some (.null, ⟨rest, by simp⟩)
  | .bool value :: rest => some (.bool value, ⟨rest, by simp⟩)
  | .numeric value :: rest => some (.numeric value, ⟨rest, by simp⟩)
  | .string contents :: rest => some (.string contents, ⟨rest, by simp⟩)
  | .openArray :: .closeArray :: rest =>
      some (.array [], ⟨rest, by simp only [List.length_cons]; omega⟩)
  | .openArray :: rest =>
      match elements rest with
      | some (elements, ⟨rest, shorter⟩) =>
          some (.array elements, ⟨rest, by simp only [List.length_cons]; omega⟩)
      | none => none
  | .openObject :: .closeObject :: rest =>
      some (.object [], ⟨rest, by simp only [List.length_cons]; omega⟩)
  | .openObject :: rest =>
      match members rest with
      | some (members, ⟨rest, shorter⟩) =>
          some (.object members, ⟨rest, by simp only [List.length_cons]; omega⟩)
      | none => none
  | _ => none
termination_by (tokens.length, 0)

def elements (tokens : List Token) : Parsed (List Value) tokens.length :=
  match value tokens with
  | some (first, ⟨.comma :: rest, shorter⟩) =>
      match elements rest with
      | some (others, ⟨rest, rests⟩) =>
          some (first :: others,
            ⟨rest, by simp only [List.length_cons] at shorter; omega⟩)
      | none => none
  | some (first, ⟨.closeArray :: rest, shorter⟩) =>
      some ([first], ⟨rest, by simp only [List.length_cons] at shorter; omega⟩)
  | _ => none
termination_by (tokens.length, 1)
decreasing_by
  · exact Prod.Lex.right _ (by omega)
  · exact Prod.Lex.left _ _ (by simp only [List.length_cons] at shorter; omega)

def members (tokens : List Token) :
    Parsed (List (Option (List UInt8) × Value)) tokens.length :=
  match tokens with
  | .string key :: .colon :: rest =>
      match value rest with
      | some (first, ⟨.comma :: rest, shorter⟩) =>
          match members rest with
          | some (others, ⟨rest, rests⟩) =>
              some ((key, first) :: others,
                ⟨rest, by simp only [List.length_cons] at shorter ⊢; omega⟩)
          | none => none
      | some (first, ⟨.closeObject :: rest, shorter⟩) =>
          some ([(key, first)],
            ⟨rest, by simp only [List.length_cons] at shorter ⊢; omega⟩)
      | _ => none
  | _ => none
termination_by (tokens.length, 1)
decreasing_by
  · exact Prod.Lex.left _ _ (by simp only [List.length_cons]; omega)
  · exact Prod.Lex.left _ _ (by simp only [List.length_cons] at shorter ⊢; omega)

end

def read (document : List UInt8) : Option Value := do
  match value (← tokens document) with
  | some (value, ⟨[], _⟩) => return value
  | _ => none

end Photoplot.Json
