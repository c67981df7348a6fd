import Photoplot.Proofs.Scalar.Order
import Photoplot.Geometry.Box

/-! # What a box holds

A box holds the points between its bounds. Covering a point or joining another
box never loses a point that was held before, whether or not the new values are
comparable. -/

namespace Photoplot

/-! ## Spans -/

namespace Span

variable {K : Type} [Scalar K]

def Holds : Span K → K → Prop
  | .none, _ => False
  | .between low high, value => low ≤ value ∧ value ≤ high

def Within (span other : Span K) : Prop := ∀ value, span.Holds value → other.Holds value

variable {span : Span K} {value : K}

theorem Holds.low_le (holds : span.Holds value) : span.low ≤ value := by
  cases span with
  | none => exact holds.elim
  | between low high => exact holds.1

theorem Holds.le_high (holds : span.Holds value) : value ≤ span.high := by
  cases span with
  | none => exact holds.elim
  | between low high => exact holds.2

theorem within_refl (span : Span K) : span.Within span := fun _ holds => holds

variable [Scalar.Ordered K]

theorem Holds.between {low high : K} (holdsLow : span.Holds low)
    (holdsHigh : span.Holds high)
    (below : low ≤ value) (above : value ≤ high) : span.Holds value := by
  cases span with
  | none => exact holdsLow.elim
  | between first last =>
      exact ⟨Scalar.Ordered.le_trans holdsLow.1 below,
        Scalar.Ordered.le_trans above holdsHigh.2⟩

theorem Holds.nonempty (holds : span.Holds value) : span.isEmpty = false := by
  cases span with
  | none => exact holds.elim
  | between low high => simpa [isEmpty] using Scalar.Ordered.le_trans holds.1 holds.2

theorem within_cover (span : Span K) (added : K) : span.Within (span.cover added) := by
  intro value holds
  cases span with
  | none => exact holds.elim
  | between low high =>
      have lower : Scalar.lesser low added ≤ low :=
        Scalar.lesser_le_left (Scalar.Ordered.comparable_left holds.1)
      have upper : high ≤ Scalar.greater high added :=
        Scalar.left_le_greater (Scalar.Ordered.comparable_right holds.2)
      exact ⟨Scalar.Ordered.le_trans lower holds.1, Scalar.Ordered.le_trans holds.2 upper⟩

theorem holds_cover (span : Span K) (comparable : value ≤ value) :
    (span.cover value).Holds value := by
  cases span with
  | none =>
      rw [cover, if_pos comparable]
      exact ⟨comparable, comparable⟩
  | between low high =>
      exact ⟨Scalar.lesser_le_right comparable, Scalar.right_le_greater comparable⟩

theorem within_cover_bounds (span other : Span K) :
    other.Within ((span.cover other.low).cover other.high) := by
  intro value holds
  have lowHeld : ((span.cover other.low).cover other.high).Holds other.low :=
    within_cover _ _ _ (holds_cover _ (Scalar.Ordered.comparable_left holds.low_le))
  have highHeld : ((span.cover other.low).cover other.high).Holds other.high :=
    holds_cover _ (Scalar.Ordered.comparable_right holds.le_high)
  exact lowHeld.between highHeld holds.low_le holds.le_high

end Span

/-! ## Boxes -/

namespace Box

variable {K : Type} [Scalar K]

def Holds (box : Box K) (point : Point K) : Prop :=
    box.x.Holds point.x ∧ box.y.Holds point.y

def Within (box other : Box K) : Prop := box.x.Within other.x ∧ box.y.Within other.y

variable {box other : Box K} {point : Point K}

theorem Within.holds (within : box.Within other) (holds : box.Holds point) :
    other.Holds point :=
  ⟨within.1 _ holds.1, within.2 _ holds.2⟩

theorem within_refl (box : Box K) : box.Within box :=
  ⟨box.x.within_refl, box.y.within_refl⟩

theorem Within.trans {third : Box K} (first : box.Within other)
    (second : other.Within third) :
    box.Within third :=
  ⟨fun value holds => second.1 value (first.1 value holds),
   fun value holds => second.2 value (first.2 value holds)⟩

variable [Scalar.Ordered K]

theorem Holds.nonempty (holds : box.Holds point) : box.isEmpty = false := by
  simp [isEmpty, holds.1.nonempty, holds.2.nonempty]

theorem within_cover (box : Box K) (point : Point K) : box.Within (box.cover point) :=
  ⟨box.x.within_cover point.x, box.y.within_cover point.y⟩

theorem within_coverAll (box : Box K) (points : List (Point K)) :
    box.Within (box.coverAll points) := by
  induction points generalizing box with
  | nil => exact box.within_refl
  | cons first rest induction =>
      exact (box.within_cover first).trans (induction (box.cover first))

theorem within_join (box other : Box K) : box.Within (box.join other) := by
  unfold join
  split
  · exact box.within_refl
  · exact (box.within_cover _).trans (within_cover _ _)

end Box

/-! ## Least boxes -/

def Point.IsComparable {K : Type} [Scalar K] (point : Point K) : Prop :=
  point.x ≤ point.x ∧ point.y ≤ point.y

instance {K : Type} [Scalar K] (point : Point K) : Decidable point.IsComparable :=
  instDecidableAnd

namespace Span

variable {K : Type} [Scalar K] [Scalar.Ordered K]

/-- The span holds the comparable values, and lies within any other that does. -/
structure IsLeast (span : Span K) (values : List K) : Prop where
  holds : ∀ value ∈ values, value ≤ value → span.Holds value
  within : ∀ other : Span K, (∀ value ∈ values, value ≤ value → other.Holds value) →
    span.Within other

def Bounded (span other : Span K) : Prop :=
  span = .none ∨ other.Holds span.low ∧ other.Holds span.high

theorem Bounded.within {span other : Span K} (bounded : span.Bounded other) :
    span.Within other := by
  intro value holds
  rcases bounded with rfl | ⟨low, high⟩
  · exact holds.elim
  · exact low.between high holds.low_le holds.le_high

theorem Holds.comparable {span : Span K} {value : K} (holds : span.Holds value) :
    value ≤ value := Scalar.Ordered.comparable_right holds.low_le

theorem Bounded.cover {span other : Span K} (bounded : span.Bounded other) {value : K}
    (held : value ≤ value → other.Holds value) : (span.cover value).Bounded other := by
  cases span with
  | none =>
      rw [Span.cover]
      split
      · rename_i comparable
        exact .inr ⟨held comparable, held comparable⟩
      · exact .inl rfl
  | between low high =>
      rcases bounded with impossible | ⟨lowHeld, highHeld⟩
      · cases impossible
      right
      have lowComparable : low ≤ low := lowHeld.comparable
      have highComparable : high ≤ high := highHeld.comparable
      rw [Span.cover, Span.low, Span.high, Scalar.lesser, Scalar.greater,
        if_pos lowComparable, if_pos highComparable]
      constructor
      · split
        · rename_i less
          exact held (Scalar.Ordered.comparable_left (Scalar.Ordered.le_of_lt less))
        · exact lowHeld
      · split
        · rename_i less
          exact held (Scalar.Ordered.comparable_right (Scalar.Ordered.le_of_lt less))
        · exact highHeld

structure Frames (span : Span K) (values : List K) : Prop where
  holds : ∀ value ∈ values, value ≤ value → span.Holds value
  bounded : ∀ other : Span K, (∀ value ∈ values, value ≤ value → other.Holds value) →
    span.Bounded other

omit [Scalar.Ordered K] in
theorem frames_none : (none : Span K).Frames [] :=
  ⟨by simp, fun _ _ => .inl rfl⟩

theorem Frames.isLeast {span : Span K} {values : List K} (frames : span.Frames values) :
    span.IsLeast values :=
  ⟨frames.holds, fun other held => (frames.bounded other held).within⟩

theorem Frames.cover {span : Span K} {values : List K} (frames : span.Frames values)
    (added : K) : (span.cover added).Frames (values ++ [added]) := by
  constructor
  · intro value member comparable
    rcases List.mem_append.mp member with before | isAdded
    · exact within_cover span added value (frames.holds value before comparable)
    · rcases List.mem_singleton.mp isAdded with rfl
      exact holds_cover span comparable
  · intro other held
    have before : span.Bounded other :=
      frames.bounded other fun value member => held value (List.mem_append_left _ member)
    exact before.cover (held added (by simp))

theorem Frames.foldl_cover {span : Span K} {values : List K} (frames : span.Frames values)
    (added : List K) :
    (added.foldl (fun span value => span.cover value) span).Frames (values ++ added) := by
  induction added generalizing span values with
  | nil => simpa using frames
  | cons first rest induction =>
      have later := induction (frames.cover first)
      rw [List.append_assoc] at later
      exact later

/-- Covering the bounds of a span that holds something covers all that the span was
drawn around. -/
theorem Frames.join {span other : Span K} {values added : List K}
    (frames : span.Frames values)
    (otherFrames : other.Frames added) (some : other.isEmpty = false) :
    ((span.cover other.low).cover other.high).Frames (values ++ added) := by
  constructor
  · intro value member comparable
    rcases List.mem_append.mp member with before | isAdded
    · exact within_cover _ _ _ (within_cover _ _ _ (frames.holds value before comparable))
    · exact within_cover_bounds span other value
        (otherFrames.holds value isAdded comparable)
  · intro third held
    have before : span.Bounded third :=
      frames.bounded third fun value member => held value (List.mem_append_left _ member)
    have added : other.Bounded third :=
      otherFrames.bounded third fun value member =>
        held value (List.mem_append_right _ member)
    rcases added with rfl | ⟨low, high⟩
    · cases some
    · exact (before.cover fun _ => low).cover fun _ => high

end Span

namespace Box

variable {K : Type} [Scalar K] [Scalar.Ordered K]

structure IsLeast (box : Box K) (shapes : List (Shape K)) : Prop where
  x : box.x.IsLeast (shapes.flatten.flatten.map Point.x)
  y : box.y.IsLeast (shapes.flatten.flatten.map Point.y)

omit [Scalar.Ordered K] in
/-- Covering points covers their coordinates on either axis. -/
theorem coverAll_eq (box : Box K) (points : List (Point K)) :
    box.coverAll points =
      ⟨(points.map Point.x).foldl (fun span value => span.cover value) box.x,
        (points.map Point.y).foldl (fun span value => span.cover value) box.y⟩ := by
  induction points generalizing box with
  | nil => rfl
  | cons first rest induction => exact induction (box.cover first)

theorem isLeast_ofShapes (shapes : List (Shape K)) :
    (ofShapes shapes).IsLeast shapes := by
  rw [ofShapes, coverAll_eq]
  exact ⟨(Span.frames_none.foldl_cover _).isLeast,
    (Span.frames_none.foldl_cover _).isLeast⟩

/-- The least box around the points: on either axis it holds those that are comparable,
and any other span that does holds its bounds. Around no points it is the empty box. -/
structure Frames (box : Box K) (points : List (Point K)) : Prop where
  x : box.x.Frames (points.map Point.x)
  y : box.y.Frames (points.map Point.y)
  nothing : points = [] → box = .empty

omit [Scalar.Ordered K] in
theorem frames_empty : (empty : Box K).Frames [] :=
  ⟨Span.frames_none, Span.frames_none, fun _ => rfl⟩

theorem Frames.coverAll {box : Box K} {points : List (Point K)}
    (frames : box.Frames points)
    (added : List (Point K)) : (box.coverAll added).Frames (points ++ added) := by
  rw [coverAll_eq]
  constructor
  · rw [List.map_append]
    exact frames.x.foldl_cover _
  · rw [List.map_append]
    exact frames.y.foldl_cover _
  · intro none
    rcases List.append_eq_nil_iff.mp none with ⟨nothing, rfl⟩
    exact frames.nothing nothing

/-- A box around points that can be compared is not empty, so that joining it loses
none. -/
theorem Frames.join {box other : Box K} {points added : List (Point K)}
    (frames : box.Frames points) (otherFrames : other.Frames added)
    (comparable : ∀ point ∈ added, point.IsComparable) :
    (box.join other).Frames (points ++ added) := by
  cases added with
  | nil =>
      rw [otherFrames.nothing rfl, List.append_nil]
      exact frames
  | cons first rest =>
      rcases comparable first List.mem_cons_self with ⟨comparableX, comparableY⟩
      have x := (otherFrames.x.holds first.x (by simp) comparableX).nonempty
      have y := (otherFrames.y.holds first.y (by simp) comparableY).nonempty
      have some : other.isEmpty = false := by simp [isEmpty, x, y]
      simp only [Box.join, some, Bool.false_eq_true, if_false]
      constructor
      · rw [List.map_append]
        exact frames.x.join otherFrames.x x
      · rw [List.map_append]
        exact frames.y.join otherFrames.y y
      · intro none
        exact absurd (List.append_eq_nil_iff.mp none).2 (List.cons_ne_nil _ _)

end Box

end Photoplot
