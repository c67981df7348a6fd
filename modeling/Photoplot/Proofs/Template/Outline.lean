import Photoplot.Proofs.Binary64.Whole
import Photoplot.Proofs.Template.Evaluation
import Photoplot.Template.Reader

/-! # Fields of outlines

The fields of an outline are its exposure, a number of vertices that does not count the
last one, which closes the outline, the coordinates of all vertices in pairs, and a
rotation. Where the number is constant, it tells how many pairs there are; where it is
not, the number of fields does. Either way each field has its place, and none of them is
missing. -/

namespace Photoplot

namespace Template

section

variable {K : Type}

/-! ## Pairs -/

theorem length_pairUp : ∀ fields :
    List (Expr K), (pairUp fields).length = fields.length / 2
  | [] => by simp [pairUp]
  | [_] => by simp [pairUp]
  | _ :: _ :: rest => by
      rw [pairUp, List.length_cons, length_pairUp rest, List.length_cons,
        List.length_cons]
      omega

theorem getElem?_pairUp : ∀ (fields : List (Expr K)) (index : ℕ),
    (pairUp fields)[index]? =
      fields[2 * index]?.bind fun x => fields[2 * index + 1]?.map fun y => (x, y)
  | [], _ => rfl
  | [_], 0 => rfl
  | [_], _ + 1 => by
      rw [pairUp]
      · simp
      · simp
  | _ :: _ :: _, 0 => rfl
  | _ :: _ :: rest, index + 1 => getElem?_pairUp rest index

/-! ## Places of the fields -/

def HasRoles (fields : List (Expr K)) (pairs : ℕ) : Statement K → Prop
  | .draw exposure (.outline vertices rotation) =>
      fields[0]? = some exposure ∧ vertices.length = pairs ∧
        (∀ index < pairs, ∃ x y, vertices[index]? = some (x, y) ∧
          fields[2 + 2 * index]? = some x ∧ fields[3 + 2 * index]? = some y) ∧
        fields[2 + 2 * pairs]? = some rotation ∧ 2 + 2 * pairs < fields.length
  | _ => False

variable (exposure declared : Expr K) {coordinates : List (Expr K)} {pairs : ℕ}

theorem hasRoles_outline {rotation : Expr K}
    (isRotation : coordinates[pairs * 2]? = some rotation) :
    HasRoles (exposure :: declared :: coordinates) pairs
      (.draw exposure (.outline (pairUp (coordinates.take (pairs * 2))) rotation)) := by
  have inside : pairs * 2 < coordinates.length :=
      (List.getElem?_eq_some_iff.mp isRotation).1
  have behind (index : ℕ) :
      (exposure :: declared :: coordinates)[2 + index]? = coordinates[index]? := by
    rw [Nat.add_comm]
    rfl
  refine ⟨rfl, ?_, fun index less => ?_, ?_, ?_⟩
  · rw [length_pairUp, List.length_take]
    omega
  · have first : 2 * index < coordinates.length := by omega
    have second : 2 * index + 1 < coordinates.length := by omega
    refine ⟨coordinates[2 * index], coordinates[2 * index + 1], ?_, ?_, ?_⟩
    · rw [getElem?_pairUp, List.getElem?_take_of_lt (by omega),
        List.getElem?_take_of_lt (by omega), List.getElem?_eq_getElem first,
        List.getElem?_eq_getElem second]
      rfl
    · rw [behind, List.getElem?_eq_getElem first]
    · have place : 3 + 2 * index = 2 + (2 * index + 1) := by omega
      rw [place, behind, List.getElem?_eq_getElem second]
  · rw [behind, Nat.mul_comm, isRotation]
  · simp only [List.length_cons]
    omega

variable [Scalar K]

/-- Fields that are enough for the pairs are all read. -/
theorem exists_readOutline (isCount : pairCount declared coordinates.length = .ok pairs)
    (enough : 3 ≤ pairs) (inside : 2 * pairs < coordinates.length) :
    ∃ statement, readOutline (exposure :: declared :: coordinates) = .ok statement := by
  have some : pairs * 2 < coordinates.length := by omega
  refine ⟨.draw exposure (.outline (pairUp (coordinates.take (pairs * 2)))
    coordinates[pairs * 2]), ?_⟩
  rw [readOutline, isCount]
  change (if _ then _ else _) = _
  rw [if_neg (not_lt.mpr enough), List.drop_eq_getElem_cons some]
  rfl

theorem pairCount_of_readOutline {statement : Statement K}
    (isRead : readOutline (exposure :: declared :: coordinates) = .ok statement) :
    ∃ pairs, pairCount declared coordinates.length = .ok pairs ∧
      (3 ≤ pairs ∧ 2 * pairs < coordinates.length) ∧
      HasRoles (exposure :: declared :: coordinates) pairs statement := by
  cases isCount : pairCount declared coordinates.length with
  | error error =>
      rw [readOutline, isCount] at isRead
      cases isRead
  | ok pairs =>
      rw [readOutline, isCount] at isRead
      change (if _ then _ else _) = _ at isRead
      split at isRead
      · cases isRead
      · rename_i enough
        split at isRead
        · rename_i rotation rest isRest
          have isRotation : coordinates[pairs * 2]? = some rotation := by
            rw [← List.head?_drop, isRest]
            rfl
          have inside := (List.getElem?_eq_some_iff.mp isRotation).1
          cases isRead
          exact ⟨pairs, rfl, ⟨not_lt.mp enough, by omega⟩,
            hasRoles_outline exposure declared isRotation⟩
        · cases isRead

/-- If nothing else counts the pairs, and this does where the fields suffice for them,
then that decides whether the outline is read. -/
theorem readOutline_iff
    (only : ∀ other, pairCount declared coordinates.length = .ok other → other = pairs)
    (taken : 2 * pairs < coordinates.length →
      pairCount declared coordinates.length = .ok pairs) :
    ((∃ statement, readOutline (exposure :: declared :: coordinates) = .ok statement) ↔
        3 ≤ pairs ∧ 2 * pairs + 1 ≤ coordinates.length) ∧
      ∀ statement, readOutline (exposure :: declared :: coordinates) = .ok statement →
        HasRoles (exposure :: declared :: coordinates) pairs statement := by
  refine ⟨⟨?_, ?_⟩, fun statement isRead => ?_⟩
  · rintro ⟨statement, isRead⟩
    obtain ⟨other, isCount, enough, -⟩ :=
        pairCount_of_readOutline exposure declared isRead
    rcases only other isCount with rfl
    exact enough
  · rintro ⟨enough, inside⟩
    exact exists_readOutline exposure declared (taken inside) enough inside
  · obtain ⟨other, isCount, -, hasRoles⟩ :=
        pairCount_of_readOutline exposure declared isRead
    rcases only other isCount with rfl
    exact hasRoles

end

/-! ## Counting the pairs -/

section

variable {declared : Expr Float} {count : Float} {value : ℚ}
  (isCount : declared.eval .none = some count) (stands : Binary64.HasValue count value)
  (nonneg : 0 ≤ value)

include isCount stands nonneg

/-- A constant count is taken if it does not exceed, as a float, what is there. -/
theorem pairCount_eq_ok_iff {present pairs : ℕ} :
    pairCount declared present = .ok pairs ↔
      pairs = ⌊value + 1 / 2⌋₊ + 1 ∧
        Binary64.round count + 1.0 ≤ Float.ofNat ((present - 1) / 2) := by
  have rounded := stands.round nonneg
  have counted : Scalar.ceilNat (Scalar.round count) = ⌊value + 1 / 2⌋₊ :=
    rounded.ceilNat_eq.trans (Nat.ceil_natCast _)
  have number := (Binary64.isFloatOf_succ rounded).comparable
  have available := Binary64.comparable_ofNat ((present - 1) / 2)
  unfold pairCount
  simp only [isCount, if_pos (stands.nonneg_iff.mpr nonneg), counted]
  by_cases fewer : Scalar.ofNat ((present - 1) / 2) < Scalar.round count + 1.0
  · rw [if_pos fewer]
    exact iff_of_false nofun fun taken => Binary64.not_lt_of_le taken.2 fewer
  · rw [if_neg fewer, Except.ok.injEq, eq_comm]
    exact (and_iff_left (Scalar.Ordered.le_of_not_lt available number fewer)).symm

end

theorem pairCount_of_not_constant {declared : Expr Float}
    (unknown : ∀ count, declared.eval .none = some count → ¬0.0 ≤ count) (present : ℕ) :
    pairCount declared present = .ok ((present - 1) / 2) := by
  unfold pairCount
  cases isCount : declared.eval .none with
  | none => rfl
  | some count => exact if_neg (unknown count isCount)

/-- However large the declared count is, there are not more pairs than fields; and of no
more fields than a memory holds, the pairs leave one for the rotation. -/
theorem pairCount_le {declared : Expr Float} {present pairs : ℕ}
    (isPairs : pairCount declared present = .ok pairs) :
    pairs ≤ present ∧ (present ≤ 2 ^ 54 → 3 ≤ pairs → 2 * pairs < present) := by
  by_cases constant : ∃ count, declared.eval .none = some count ∧ 0.0 ≤ count
  · obtain ⟨count, isCount, atLeast⟩ := constant
    obtain ⟨value, stands⟩ :=
        Binary64.isFinite_iff_hasValue.mp (Expr.isFinite_of_eval isCount)
    have nonneg := stands.nonneg_iff.mp atLeast
    obtain ⟨rfl, ordered⟩ := (pairCount_eq_ok_iff isCount stands nonneg).mp isPairs
    have rounded := stands.round nonneg
    have twice := Binary64.le_two_mul_of_add_one_le rounded ordered
    have inside (few : (present - 1) / 2 < 2 ^ 53) :=
      Binary64.add_one_le_of_le_ofNat rounded few ordered
    omega
  · have unknown : ∀ count, declared.eval .none = some count → ¬0.0 ≤ count :=
      fun count isCount atLeast => constant ⟨count, isCount, atLeast⟩
    rw [pairCount_of_not_constant unknown] at isPairs
    rcases Except.ok.inj isPairs with rfl
    omega

/-- With more fields than that, a pair too many can pass the comparison of floats. -/
example : pairCount (.literal 9007199254740996.0) (2 ^ 54 + 7) = .ok (2 ^ 53 + 5) := by
  decide +kernel

/-! ## Reading outlines -/

/-- A constant count is rounded, and there is one pair more than that, for the last
vertex; then the outline is read exactly if the fields suffice for the pairs and the
rotation. Without one there are as many pairs as fit. Either way every field is in its
place. No count is too large: the pairs that are taken from it are not more than the
fields, and up to `2 ^ 54` fields, more than a memory holds, every index is in range
before a field is looked at. -/
theorem readOutline_roles (exposure declared : Expr Float)
    (coordinates : List (Expr Float)) :
    let fields := exposure :: declared :: coordinates
    let present := coordinates.length
    (∀ count, declared.eval .none = some count → 0.0 ≤ count →
      ∃ value pairs, Binary64.HasValue count value ∧ pairs = ⌊value + 1 / 2⌋₊ + 1 ∧
        ((∃ statement, readOutline fields = .ok statement) ↔
          3 ≤ pairs ∧ 2 * pairs + 1 ≤ present) ∧
        ∀ statement,
          readOutline fields = .ok statement → HasRoles fields pairs statement) ∧
    ((∀ count, declared.eval .none = some count → ¬0.0 ≤ count) →
      ∃ pairs, pairs = (present - 1) / 2 ∧
        ((∃ statement, readOutline fields = .ok statement) ↔ 3 ≤ pairs) ∧
        ∀ statement,
          readOutline fields = .ok statement → HasRoles fields pairs statement) ∧
    ∀ pairs, pairCount declared present = .ok pairs →
      pairs ≤ present ∧ (present ≤ 2 ^ 54 → 3 ≤ pairs → 2 * pairs < present) := by
  intro fields present
  refine ⟨fun count isCount atLeast => ?_, fun unknown => ?_, fun pairs => pairCount_le⟩
  · obtain ⟨value, stands⟩ :=
        Binary64.isFinite_iff_hasValue.mp (Expr.isFinite_of_eval isCount)
    have nonneg := stands.nonneg_iff.mp atLeast
    refine ⟨value, _, stands, rfl, readOutline_iff exposure declared ?_ ?_⟩
    · intro other isPairs
      exact ((pairCount_eq_ok_iff isCount stands nonneg).mp isPairs).1
    · intro inside
      have available : ⌊value + 1 / 2⌋₊ + 1 ≤ (present - 1) / 2 := by omega
      have ordered := Binary64.add_one_le_ofNat (stands.round nonneg) available
      exact (pairCount_eq_ok_iff isCount stands nonneg).mpr ⟨rfl, ordered⟩
  · have isPairs := pairCount_of_not_constant unknown present
    have only : ∀ other, pairCount declared present = .ok other →
        other = (present - 1) / 2 :=
      fun other isOther => Except.ok.inj (isOther.symm.trans isPairs)
    obtain ⟨reads, roles⟩ := readOutline_iff exposure declared only fun _ => isPairs
    have fits : 3 ≤ (present - 1) / 2 → 2 * ((present - 1) / 2) + 1 ≤ present := by omega
    exact ⟨_, rfl, reads.trans (and_iff_left_of_imp fits), roles⟩

def squareFields : List (Expr Float) :=
  [0.0, 0.0, 1.0, 0.0, 1.0, 1.0, 0.0, 1.0, 0.0, 0.0, 0.0].map .literal

theorem readOutline_roles_square :
    ∃ statement,
    readOutline (.literal 1.0 :: .literal 4.0 :: squareFields) = .ok statement ∧
      HasRoles (.literal 1.0 :: .literal 4.0 :: squareFields) 5 statement := by
  have constant : (Expr.literal 4.0).eval .none = some (4.0 : Float) := rfl
  obtain ⟨value, pairs, stands, rfl, reads, roles⟩ :=
    (readOutline_roles (.literal 1.0) (.literal 4.0) squareFields).1
      4.0 constant (by decide)
  rcases Option.mem_unique stands Binary64.hasValue_four with rfl
  have five : ⌊(4 : ℚ) + 1 / 2⌋₊ + 1 = 5 := by norm_num
  rw [five] at reads roles
  obtain ⟨statement, isRead⟩ := reads.mpr ⟨by decide, by decide⟩
  exact ⟨statement, isRead, roles statement isRead⟩

end Template

end Photoplot
