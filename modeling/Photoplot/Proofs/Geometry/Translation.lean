import Photoplot.Proofs.Scalar.Exact
import Photoplot.Path.Primitive
import Photoplot.Plot.Machine

/-! # Moving the plane

A figure that is moved keeps its form: whatever is measured or constructed from
points depends on the differences of their coordinates only. Radii, angles and
sweeps stay as they are. -/

namespace Photoplot

/-! ## Points -/

namespace Point

def translate (offset point : Point ℝ) : Point ℝ :=
    ⟨point.x + offset.x, point.y + offset.y⟩

@[simp] theorem translate_x (offset point : Point ℝ) :
    (translate offset point).x = point.x + offset.x := rfl

@[simp] theorem translate_y (offset point : Point ℝ) :
    (translate offset point).y = point.y + offset.y := rfl

@[ext] theorem ext {point other : Point ℝ} (x : point.x = other.x)
    (y : point.y = other.y) :
    point = other := by
  cases point
  cases other
  simp_all

@[simp] theorem distance_translate (offset point other : Point ℝ) :
    (translate offset point).distance (translate offset other) =
      point.distance other := by
  simp [distance]

@[simp] theorem polar_translate (offset center : Point ℝ) (radius angle : ℝ) :
    (translate offset center).polar radius angle =
      translate offset (center.polar radius angle) := by
  ext <;> simp only [polar, translate_x, translate_y] <;> ring

end Point

/-! ## Boxes -/

namespace Span

def translate (offset : ℝ) : Span ℝ → Span ℝ
  | .none => .none
  | .between low high => .between (low + offset) (high + offset)

@[simp] theorem isEmpty_translate (offset : ℝ) (span : Span ℝ) :
    (span.translate offset).isEmpty = span.isEmpty := by
  cases span <;> simp [translate, isEmpty]

theorem cover_translate (offset : ℝ) (span : Span ℝ) (value : ℝ) :
    (span.translate offset).cover (value + offset) =
      (span.cover value).translate offset := by
  cases span with
  | none => simp [translate, cover]
  | between low high =>
      simp only [translate, cover, Scalar.lesser, Scalar.greater, le_refl, if_true,
        add_lt_add_iff_right, between.injEq]
      constructor <;> split <;> rfl

end Span

namespace Box

def translate (offset : Point ℝ) (box : Box ℝ) : Box ℝ :=
  ⟨box.x.translate offset.x, box.y.translate offset.y⟩

@[simp] theorem translate_empty (offset : Point ℝ) :
    translate offset (.empty : Box ℝ) = .empty := rfl

@[simp] theorem isEmpty_translate (offset : Point ℝ) (box : Box ℝ) :
    (translate offset box).isEmpty = box.isEmpty := by
  simp [isEmpty, translate]

theorem cover_translate (offset : Point ℝ) (box : Box ℝ) (point : Point ℝ) :
    (translate offset box).cover (.translate offset point) =
      translate offset (box.cover point) := by
  simp [translate, cover, Span.cover_translate]

theorem coverAll_translate (offset : Point ℝ) (box : Box ℝ) (points : List (Point ℝ)) :
    (translate offset box).coverAll (points.map (.translate offset)) =
      translate offset (box.coverAll points) := by
  induction points generalizing box with
  | nil => rfl
  | cons first rest induction =>
      simp only [coverAll, List.map_cons, List.foldl_cons, cover_translate]
      exact induction (box.cover first)

/-- The bounds of an empty box do not move, but nothing joins an empty box. -/
theorem join_translate (offset : Point ℝ) (box other : Box ℝ) :
    (translate offset box).join (translate offset other) =
      translate offset (box.join other) := by
  rcases other with ⟨_ | ⟨left, right⟩, _ | ⟨bottom, top⟩⟩
  · rfl
  · rfl
  · simp [join, translate, isEmpty, Span.isEmpty, Span.translate]
  · simp only [join, isEmpty_translate]
    split
    · rfl
    · simp only [← cover_translate]
      rfl

end Box

/-! ## Contours -/

namespace Contour

variable (offset : Point ℝ)

theorem stroke?_translate (start finish : Point ℝ) (width : ℝ) :
    stroke? (.translate offset start) (.translate offset finish) width =
      (stroke? start finish width).map (List.map (.translate offset)) := by
  simp only [stroke?, Point.translate_x, Point.translate_y, add_sub_add_right_eq_sub]
  split
  · rfl
  · generalize width / 2.0 = half
    simp only [Option.map_some, List.map_cons, List.map_nil, Option.some.injEq,
      List.cons.injEq, Point.ext_iff, Point.translate_x, Point.translate_y, and_true]
    refine ⟨⟨?_, ?_⟩, ⟨?_, ?_⟩, ⟨?_, ?_⟩, ?_, ?_⟩ <;> ring

theorem rectangle_translate (center : Point ℝ) (width height : ℝ) :
    rectangle (.translate offset center) width height =
      (rectangle center width height).map (.translate offset) := by
  unfold rectangle
  generalize width / 2.0 = halfWidth, height / 2.0 = halfHeight
  simp only [List.map_cons, List.map_nil, List.cons.injEq, Point.ext_iff,
    Point.translate_x, Point.translate_y, and_true]
  refine ⟨⟨?_, ?_⟩, ⟨?_, ?_⟩, ⟨?_, ?_⟩, ?_, ?_⟩ <;> ring

theorem cap_translate (base : ℝ) {place moved : ℝ → ℝ → Point ℝ}
    (along : ∀ cosine sine, moved cosine sine = .translate offset (place cosine sine)) :
    cap base moved = (cap base place).map (.translate offset) := by
  simp [cap, along]

theorem obround_translate (center : Point ℝ) (width height : ℝ) :
    obround (.translate offset center) width height =
      (obround center width height).map (.translate offset) := by
  simp only [obround]
  generalize width / 2.0 = halfWidth, height / 2.0 = halfHeight
  split
  all_goals
    rw [List.map_append]
    congr 1
    all_goals
      apply cap_translate
      intro cosine sine
      ext <;> simp only [Point.translate_x, Point.translate_y] <;> ring

theorem regular_translate (center : Point ℝ) (diameter : ℝ)
    (vertices : ℕ) (rotation : ℝ) :
    regular (.translate offset center) diameter vertices rotation =
      (regular center diameter vertices rotation).map (.translate offset) := by
  simp [regular]

end Contour

/-! ## Arcs -/

namespace Arc

variable (offset : Point ℝ)

def translate (arc : Arc ℝ) : Arc ℝ := { arc with center := .translate offset arc.center }

theorem pointAt_translate (arc : Arc ℝ) (angle radius : ℝ) :
    (arc.translate offset).pointAt angle radius =
      .translate offset (arc.pointAt angle radius) :=
  Point.polar_translate offset arc.center radius angle

theorem points_translate (arc : Arc ℝ) :
    (arc.translate offset).points = arc.points.map (.translate offset) := by
  simp [points, translate]

theorem circle_translate (center : Point ℝ) (radius : ℝ) :
    Contour.circle (.translate offset center) radius =
      (Contour.circle center radius).map (.translate offset) := by
  rw [Contour.circle, Contour.circle, List.map_dropLast, ← points_translate]
  rfl

theorem extremes_translate (arc : Arc ℝ) :
    (arc.translate offset).extremes = arc.extremes.map (.translate offset) := by
  simp only [extremes, List.map_map]
  refine List.map_congr_left fun angle _ => ?_
  exact Point.polar_translate offset arc.center arc.radius angle

theorem band_translate (arc : Arc ℝ) (width : ℝ) :
    (arc.translate offset).band width =
      (arc.band width).map (List.map (.translate offset)) := by
  have edge : ∀ radius,
      points ⟨.translate offset arc.center, radius, arc.start, arc.sweep⟩ =
      (points ⟨arc.center, radius, arc.start, arc.sweep⟩).map (.translate offset) :=
    fun radius => points_translate offset ⟨arc.center, radius, arc.start, arc.sweep⟩
  change (if arc.isFullCircle then _ else _) = _
  rw [band]
  split
  · have inner : (arc.translate offset).innerRadius width = arc.innerRadius width := rfl
    have outer : (arc.translate offset).outerRadius width = arc.outerRadius width := rfl
    rw [inner, outer]
    by_cases hole : degenerateLength < arc.innerRadius width
    · simp [hole, translate, circle_translate]
    · simp [hole, translate, circle_translate]
  · simp only [translate, outerRadius, innerRadius, edge, List.map_cons, List.map_nil]
    split <;> simp

theorem angleFrom_translate (center point : Point ℝ) :
    angleFrom (.translate offset center) (.translate offset point) =
      angleFrom center point := by
  simp [angleFrom]

/-! A resolved arc moves along with the ends of its draw, since the offsets of its
centre are counted from the start. -/

theorem quadrantCandidate?_translate (start finish : Point ℝ) (i j : ℝ) (clockwise : Bool)
    (sign : ℝ × ℝ) :
    quadrantCandidate? (.translate offset start)
      (.translate offset finish) i j clockwise sign =
      (quadrantCandidate? start finish i j clockwise sign).map
        (Prod.map (.translate offset) id) := by
  have center :
      (⟨start.x + offset.x + sign.1 * i, start.y + offset.y + sign.2 * j⟩ : Point ℝ) =
      .translate offset ⟨start.x + sign.1 * i, start.y + sign.2 * j⟩ := by
    ext <;> simp only [Point.translate_x, Point.translate_y] <;> ring
  simp only [quadrantCandidate?, Point.translate_x, Point.translate_y, center,
    angleFrom_translate, Point.distance_translate]
  split <;> rfl

theorem betterCandidate_translate (best : Option (Point ℝ × ℝ))
    (candidate : Point ℝ × ℝ) :
    betterCandidate (best.map (Prod.map (.translate offset) id))
        (Prod.map (.translate offset) id candidate) =
      (betterCandidate best candidate).map (Prod.map (.translate offset) id) := by
  cases best with
  | none => rfl
  | some held =>
      simp only [Option.map_some, betterCandidate, Prod.map_fst, Prod.map_snd, id]
      split <;> rfl

theorem quadrantCenter?_translate (start finish : Point ℝ) (i j : ℝ) (clockwise : Bool) :
    quadrantCenter? (.translate offset start) (.translate offset finish) i j clockwise =
      (quadrantCenter? start finish i j clockwise).map (.translate offset) := by
  have folded : ∀ (candidates : List (Point ℝ × ℝ)) (best : Option (Point ℝ × ℝ)),
      (candidates.map (Prod.map (.translate offset) id)).foldl betterCandidate
          (best.map (Prod.map (.translate offset) id)) =
        (candidates.foldl betterCandidate best).map
          (Prod.map (.translate offset) id) := by
    intro candidates
    induction candidates with
    | nil => exact fun _ => rfl
    | cons first rest induction =>
        intro best
        rw [List.map_cons, List.foldl_cons, betterCandidate_translate, induction,
          List.foldl_cons]
  have candidates : signs.filterMap
      (quadrantCandidate? (.translate offset start)
        (.translate offset finish) i j clockwise) =
        (signs.filterMap (quadrantCandidate? start finish i j clockwise)).map
          (Prod.map (.translate offset) id) := by
    rw [List.map_filterMap]
    congr 1
    funext sign
    exact quadrantCandidate?_translate offset start finish i j clockwise sign
  have chosen :=
      folded (signs.filterMap (quadrantCandidate? start finish i j clockwise)) none
  rw [Option.map_none] at chosen
  simp only [quadrantCenter?, candidates, chosen, Option.map_map]
  rfl

theorem resolve?_translate (quadrants : Quadrants) (clockwise : Bool)
    (start finish distance : Point ℝ) :
    resolve? quadrants clockwise (.translate offset start)
      (.translate offset finish) distance =
      (resolve? quadrants clockwise start finish distance).map (translate offset) := by
  have center :
      (⟨start.x + offset.x + distance.x, start.y + offset.y + distance.y⟩ : Point ℝ) =
      .translate offset ⟨start.x + distance.x, start.y + distance.y⟩ := by
    ext <;> simp only [Point.translate_x, Point.translate_y] <;> ring
  cases quadrants with
  | multi =>
      simp only [resolve?, Point.translate_x, Point.translate_y, add_sub_add_right_eq_sub,
        center, Option.bind_eq_bind, Option.bind_some, Point.distance_translate,
        angleFrom_translate]
      split <;> rfl
  | single =>
      simp only [resolve?, Point.translate_x, Point.translate_y, add_sub_add_right_eq_sub,
        quadrantCenter?_translate, Option.bind_eq_bind]
      split
      · rfl
      · cases quadrantCenter? start finish (Scalar.abs distance.x) (Scalar.abs distance.y)
            clockwise with
        | none => rfl
        | some center =>
            simp only [Option.map_some, Option.bind_some, Point.distance_translate,
              angleFrom_translate]
            split <;> rfl

end Arc

end Photoplot
