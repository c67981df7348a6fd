import Photoplot.Proofs.Overlay.Winding

/-! # What is left of a plate

Which points a cut leaves covered, for a kernel that overlays polygons exactly.
Shapes with one contour enter the kernel counter-clockwise, while those that the
kernel itself has resolved come clockwise. Their windings have opposite signs, so
that traces of the two kinds cancel where they overlap. -/

namespace Photoplot

namespace Shape

def usable (shape : Shape ℝ) : Shape ℝ :=
  shape.filter fun contour => decide (3 ≤ contour.length)

def IsSingle (shape : Shape ℝ) : Prop := shape.usable.length = 1

instance (shape : Shape ℝ) : Decidable shape.IsSingle :=
    inferInstanceAs (Decidable (_ = _))

def singles (shapes : List (Shape ℝ)) : List (Shape ℝ) :=
  shapes.filter fun shape => decide shape.IsSingle

def severals (shapes : List (Shape ℝ)) : List (Shape ℝ) :=
  shapes.filter fun shape => !decide shape.IsSingle

end Shape

namespace Point

open Classical in
/-- How often a shape goes around a point: counter-clockwise around its only
contour, or once if the shape has several contours and holds the point. -/
noncomputable def turns (point : Point ℝ) (shape : Shape ℝ) : ℤ :=
  if shape.IsSingle then point.windingShape (Shape.orient shape.usable)
  else if Odd (point.crossings shape) then 1 else 0

noncomputable def turnsAll (point : Point ℝ) (shapes : List (Shape ℝ)) : ℤ :=
  (shapes.map point.turns).sum

noncomputable def holders (point : Point ℝ) (shapes : List (Shape ℝ)) : ℕ :=
  shapes.countP fun shape => decide (Odd (point.crossings shape))

end Point

namespace Overlayer

/-- What the kernel is relied on for, in the calls that a cut makes. Resolving
covers the points of odd parity, with outer contours clockwise and holes
counter-clockwise; the difference covers what winds around the first shapes and
not around the second ones. -/
structure FaithfulOn (overlayer : Overlayer ℝ) (plate : Shape ℝ)
    (traces : List (Shape ℝ)) :
    Prop where
  resolve_covered : ∀ shape ∈ plate :: traces, 2 ≤ shape.usable.length →
    ∀ point : Point ℝ, point.OffEdges shape.usable →
      (point.Covered (overlayer.resolve shape.usable) ↔
        Odd (point.crossings shape.usable))
  resolve_clockwise : ∀ shape ∈ plate :: traces, 2 ≤ shape.usable.length →
    ∀ point : Point ℝ, point.OffEdges shape.usable →
      point.windingAll (overlayer.resolve shape.usable) = 0 ∨
        point.windingAll (overlayer.resolve shape.usable) = -1
  difference_covered :
    ∀ point : Point ℝ, (∀ shape ∈ plate :: traces, point.OffEdges shape) →
      (point.Covered
          (overlayer.difference (overlayer.normalize plate)
            (traces.flatMap overlayer.normalize)) ↔
        point.windingAll (overlayer.normalize plate) ≠ 0 ∧
          point.windingAll (traces.flatMap overlayer.normalize) = 0)

def Leaves (overlayer : Overlayer ℝ) (plate : Shape ℝ) (traces : List (Shape ℝ))
    (point : Point ℝ) : Prop :=
  ∃ shapes, overlayer.cut [plate] traces = .ok shapes ∧ point.Covered shapes

end Overlayer

/-! ## Contours without extent -/

namespace Point

theorem crossing_level (point : Point ℝ) (edge : Point ℝ × Point ℝ)
    (level : edge.1.y = edge.2.y) : point.crossing edge = 0 := by
  have notUp : ¬(edge.1.y ≤ point.y ∧ point.y < edge.2.y ∧ 0 < point.side edge) :=
    fun up => absurd (level ▸ up.2.1) (not_lt.mpr up.1)
  have notDown : ¬(edge.2.y ≤ point.y ∧ point.y < edge.1.y ∧ point.side edge < 0) :=
    fun down => absurd (level ▸ down.2.1) (not_lt.mpr down.1)
  rw [crossing, if_neg notUp, if_neg notDown]

theorem winding_short (point : Point ℝ) (contour : Contour ℝ)
    (short : contour.length < 3) :
    point.winding contour = 0 := by
  match contour, short with
  | [], _ => rfl
  | [only], _ =>
      simp [winding, Contour.edges, point.crossing_level (only, only) rfl]
  | [first, second], _ =>
      have back := point.crossing_swap (first, second)
      simp only [Prod.swap_prod_mk] at back
      simp [winding, Contour.edges, back]

theorem windingShape_usable (point : Point ℝ) (shape : Shape ℝ) :
    point.windingShape shape.usable = point.windingShape shape := by
  induction shape with
  | nil => rfl
  | cons contour rest induction =>
      simp only [windingShape, Shape.usable] at induction ⊢
      by_cases long : 3 ≤ contour.length
      · rw [List.filter_cons_of_pos (by simpa using long), List.map_cons, List.sum_cons,
          List.map_cons, List.sum_cons, induction]
      · rw [List.filter_cons_of_neg (by simpa using long), induction, List.map_cons,
          List.sum_cons, point.winding_short contour (by omega), zero_add]

theorem odd_crossings_usable_iff (point : Point ℝ) (shape : Shape ℝ) :
    Odd (point.crossings shape.usable) ↔ Odd (point.crossings shape) := by
  rw [← odd_windingShape_iff, ← odd_windingShape_iff, windingShape_usable]

theorem OffEdges.usable {point : Point ℝ} {shape : Shape ℝ} (off : point.OffEdges shape) :
    point.OffEdges shape.usable :=
  fun contour member => off contour (List.mem_of_mem_filter member)

theorem odd_turns_iff (point : Point ℝ) (shape : Shape ℝ) :
    Odd (point.turns shape) ↔ Odd (point.crossings shape) := by
  unfold turns
  split
  · rename_i single
    rcases List.length_eq_one_iff.mp single with ⟨contour, only⟩
    rw [← odd_windingShape_iff, ← point.windingShape_usable shape, only]
    rcases point.winding_orientContour true contour with same | opposite
    · simp [Shape.orient, windingShape, same]
    · simp [Shape.orient, windingShape, opposite]
  · split <;> simp [*]

end Point

/-! ## Normalized shapes -/

namespace Overlayer

variable {overlayer : Overlayer ℝ} {plate : Shape ℝ} {traces : List (Shape ℝ)}

/-- A normalized shape winds around a point as often as the shape turns around
it, but the other way if the kernel has resolved it. -/
theorem FaithfulOn.windingAll_normalize (faithful : overlayer.FaithfulOn plate traces)
    {shape : Shape ℝ} (member : shape ∈ plate :: traces) {point : Point ℝ}
    (off : point.OffEdges shape) :
    point.windingAll (overlayer.normalize shape) =
      if shape.IsSingle then point.turns shape else -point.turns shape := by
  have parity := point.odd_crossings_usable_iff shape
  cases contours : shape.usable with
  | nil =>
      have notSingle : ¬shape.IsSingle := by simp [Shape.IsSingle, contours]
      have even : ¬Odd (point.crossings shape) := by
        rw [← parity, contours]
        simp [Point.crossings]
      have nothing : overlayer.normalize shape = [] := by
        unfold normalize
        rw [show shape.filter _ = [] from contours]
      simp [nothing, notSingle, Point.turns, even, Point.windingAll]
  | cons first rest =>
      cases rest with
      | nil =>
          have single : shape.IsSingle := by simp [Shape.IsSingle, contours]
          have oriented : overlayer.normalize shape = [Shape.orient [first]] := by
            unfold normalize
            rw [show shape.filter _ = [first] from contours]
          simp [oriented, single, Point.turns, contours, Point.windingAll]
      | cons second others =>
          have several : 2 ≤ shape.usable.length := by simp [contours]
          have notSingle : ¬shape.IsSingle := by simp [Shape.IsSingle, contours]
          have resolved : overlayer.normalize shape = overlayer.resolve shape.usable := by
            unfold normalize
            rw [contours, show shape.filter _ = first :: second :: others from contours]
          have covered := faithful.resolve_covered shape member several point off.usable
          rw [parity] at covered
          rw [resolved, if_neg notSingle, Point.turns, if_neg notSingle]
          rcases faithful.resolve_clockwise shape member several point off.usable
            with none | once
          · have even : ¬Odd (point.crossings shape) := fun odd => covered.mpr odd none
            simp [none, even]
          · have odd : Odd (point.crossings shape) :=
              covered.mp (by rw [Point.Covered, once]; decide)
            simp [once, odd]

/-- The windings of all normalized traces: the turns of those with one contour
against the turns of the others. -/
theorem FaithfulOn.windingAll_traces (faithful : overlayer.FaithfulOn plate traces)
    {point : Point ℝ} (off : ∀ trace ∈ traces, point.OffEdges trace) :
    point.windingAll (traces.flatMap overlayer.normalize) =
      point.turnsAll (Shape.singles traces) - point.turnsAll (Shape.severals traces) := by
  have summed : ∀ part : List (Shape ℝ), (∀ trace ∈ part, trace ∈ traces) →
      point.windingAll (part.flatMap overlayer.normalize) =
        point.turnsAll (Shape.singles part) - point.turnsAll (Shape.severals part) := by
    intro part
    induction part with
    | nil => simp [Point.windingAll, Point.turnsAll, Shape.singles, Shape.severals]
    | cons trace rest induction =>
        intro included
        have member : trace ∈ traces := included trace (by simp)
        have one := faithful.windingAll_normalize (List.mem_cons_of_mem plate member)
          (off trace member)
        have others := induction fun other isOther => included other (by simp [isOther])
        have split : point.windingAll ((trace :: rest).flatMap overlayer.normalize) =
            point.windingAll (overlayer.normalize trace) +
              point.windingAll (rest.flatMap overlayer.normalize) := by
          simp [Point.windingAll]
        rw [split, one, others]
        by_cases single : trace.IsSingle <;>
          simp [single, Point.turnsAll, Shape.singles, Shape.severals] <;> ring
  exact summed traces fun _ member => member

/-- A cut leaves what the kernel's difference covers; a plate without a usable
contour winds around nothing. -/
theorem leaves_iff_covered (overlayer : Overlayer ℝ) (plate : Shape ℝ)
    (traces : List (Shape ℝ)) (point : Point ℝ) :
    overlayer.Leaves plate traces point ↔ overlayer.normalize plate ≠ [] ∧
      point.Covered (overlayer.difference (overlayer.normalize plate)
        (traces.flatMap overlayer.normalize)) := by
  unfold Leaves cut
  by_cases unusable : overlayer.normalize plate = [] <;> simp [unusable]

end Overlayer

/-! ## Simple contours -/

theorem Point.turnsAll_eq_holders (point : Point ℝ) (shapes : List (Shape ℝ))
    (simple : ∀ shape ∈ shapes, point.turns shape = 0 ∨ point.turns shape = 1) :
    point.turnsAll shapes = point.holders shapes := by
  induction shapes with
  | nil => rfl
  | cons shape rest induction =>
      have parity := point.odd_turns_iff shape
      have others := induction fun other member => simple other (by simp [member])
      simp only [turnsAll, holders, List.map_cons, List.sum_cons,
        List.countP_cons] at others ⊢
      rw [others]
      rcases simple shape (by simp) with none | once
      · have even : ¬Odd (point.crossings shape) := by simpa [none] using parity
        simp [none, even]
      · have odd : Odd (point.crossings shape) := parity.mp (by simp [once])
        simp only [once, odd, decide_true, if_true, Nat.cast_add, Nat.cast_one]
        ring

theorem Point.holders_eq_zero {point : Point ℝ} {shapes : List (Shape ℝ)}
    (even : ∀ shape ∈ shapes, Even (point.crossings shape)) :
    point.holders shapes = 0 := by
  apply List.countP_eq_zero.mpr
  intro shape member
  simpa using even shape member

/-! ## A pad on copper with a hole

The traces are a plane with a hole in it and a pad that lies on the plane. -/

namespace Contour

def square (low high : ℝ) : Contour ℝ :=
    [⟨low, low⟩, ⟨high, low⟩, ⟨high, high⟩, ⟨low, high⟩]

end Contour

namespace Point

def Within (point : Point ℝ) (low high : ℝ) : Prop :=
  (low ≤ point.x ∧ point.x < high) ∧ low ≤ point.y ∧ point.y < high

open Classical in
theorem winding_square (point : Point ℝ) {low high : ℝ} (ordered : low < high) :
    point.winding (Contour.square low high) = if point.Within low high then 1 else 0 := by
  have bottom := point.crossing_level (⟨low, low⟩, ⟨high, low⟩) rfl
  have top := point.crossing_level (⟨high, high⟩, ⟨low, high⟩) rfl
  have right : point.side (⟨high, low⟩, ⟨high, high⟩) =
      (high - point.x) * (high - low) := by
    simp only [side]
    ring
  have left : point.side (⟨low, high⟩, ⟨low, low⟩) = (point.x - low) * (high - low) := by
    simp only [side]
    ring
  have extent : 0 < high - low := sub_pos.mpr ordered
  have up : point.crossing (⟨high, low⟩, ⟨high, high⟩) =
      if (low ≤ point.y ∧ point.y < high) ∧ point.x < high then 1 else 0 := by
    simp only [crossing, right, mul_pos_iff_of_pos_right extent, sub_pos, and_assoc]
    split
    · rfl
    · rw [if_neg fun down => absurd ordered (not_lt.mpr (down.1.trans down.2.1.le))]
  have down : point.crossing (⟨low, high⟩, ⟨low, low⟩) =
      if (low ≤ point.y ∧ point.y < high) ∧ point.x < low then -1 else 0 := by
    have before : (point.x - low) * (high - low) < 0 ↔ point.x < low := by
      rw [← sub_neg (a := point.x)]
      exact ⟨fun negative => neg_of_mul_neg_left negative extent.le,
        fun negative => mul_neg_of_neg_of_pos negative extent⟩
    simp only [crossing, left, before, and_assoc]
    rw [if_neg fun up => absurd ordered (not_lt.mpr (up.1.trans up.2.1.le))]
  simp only [winding, Contour.square, Contour.edges, List.tail_cons, List.head?_cons,
    Option.toList_some, List.cons_append, List.nil_append, List.zip_cons_cons,
    List.zip_nil_left, List.map_cons, List.map_nil, List.sum_cons, List.sum_nil, bottom,
    top, up, down, Within]
  by_cases height : low ≤ point.y ∧ point.y < high
  · by_cases before : point.x < low
    · have inside : point.x < high := before.trans ordered
      simp [height, before, inside, not_le.mpr before]
    · simp [height, before, not_lt.mp before]
  · simp [height]

theorem offEdges_square {point : Point ℝ} {low high : ℝ}
    (x : point.x ≠ low ∧ point.x ≠ high)
    (y : point.y ≠ low ∧ point.y ≠ high) : point.OffEdges [Contour.square low high] := by
  intro contour member edge isEdge
  rcases List.mem_singleton.mp member with rfl
  simp only [Contour.square, Contour.edges, List.tail_cons, List.head?_cons,
    Option.toList_some, List.cons_append, List.nil_append, List.zip_cons_cons,
    List.zip_nil_left, List.mem_cons, List.not_mem_nil, or_false] at isEdge
  rintro ⟨ratio, -, -, horizontal, vertical⟩
  rcases isEdge with rfl | rfl | rfl | rfl
  · exact y.1 (by simpa using vertical)
  · exact x.2 (by simpa using horizontal)
  · exact y.2 (by simpa using vertical)
  · exact x.1 (by simpa using horizontal)

end Point

namespace Overlayer

def padKernel : Overlayer ℝ where
  difference _ _ :=
    [[(Contour.square 0 12).reverse, Contour.square 1 11], [(Contour.square 7 9).reverse],
      [(Contour.square 3 5).reverse]]
  resolve _ := [[(Contour.square 1 11).reverse, Contour.square 7 9]]

def padPlate : Shape ℝ := [Contour.square 0 12]

def padTraces : List (Shape ℝ) :=
  [[Contour.square 1 11, Contour.square 7 9], [Contour.square 3 5]]

theorem usable_square (low high : ℝ) :
    Shape.usable [Contour.square low high] = [Contour.square low high] := by
  simp [Shape.usable, Contour.square]

theorem usable_plane : Shape.usable [Contour.square 1 11, Contour.square 7 9] =
    [Contour.square 1 11, Contour.square 7 9] := by
  simp [Shape.usable, Contour.square]

theorem orient_square {low high : ℝ} (ordered : low < high) :
    Shape.orient [Contour.square low high] = [Contour.square low high] := by
  have area : Contour.area (Contour.square low high) = (high - low) ^ 2 := by
    norm_num [Contour.area, Contour.square, Contour.edges, Contour.cross]
    ring
  have positive : (0.0 : ℝ) < Contour.area (Contour.square low high) := by
    rw [area]
    norm_num
    nlinarith [sub_pos.mpr ordered]
  simp only [Shape.orient, Shape.orientContour, positive, decide_true, if_true,
    List.map_nil]

theorem padKernel_normalize_plate :
    padKernel.normalize padPlate = [[Contour.square 0 12]] := by
  unfold normalize
  rw [show padPlate.filter _ = [Contour.square 0 12] from usable_square 0 12]
  simp only [orient_square (show (0 : ℝ) < 12 by norm_num)]

theorem padKernel_normalize_traces : padTraces.flatMap padKernel.normalize =
    [[(Contour.square 1 11).reverse, Contour.square 7 9], [Contour.square 3 5]] := by
  have plane : padKernel.normalize [Contour.square 1 11, Contour.square 7 9] =
      [[(Contour.square 1 11).reverse, Contour.square 7 9]] := by
    unfold normalize
    rw [show List.filter _ [Contour.square 1 11, Contour.square 7 9] = _
      from usable_plane]
    rfl
  have pad : padKernel.normalize [Contour.square 3 5] = [[Contour.square 3 5]] := by
    unfold normalize
    rw [show List.filter _ [Contour.square 3 5] = _ from usable_square 3 5]
    simp only [orient_square (show (3 : ℝ) < 5 by norm_num)]
  rw [padTraces, List.flatMap_cons, List.flatMap_cons, plane, pad]
  rfl

theorem padKernel_faithful : padKernel.FaithfulOn padPlate padTraces := by
  have plate := fun point : Point ℝ =>
      point.winding_square (show (0 : ℝ) < 12 by norm_num)
  have outer := fun point : Point ℝ =>
      point.winding_square (show (1 : ℝ) < 11 by norm_num)
  have hole := fun point : Point ℝ => point.winding_square (show (7 : ℝ) < 9 by norm_num)
  have pad := fun point : Point ℝ => point.winding_square (show (3 : ℝ) < 5 by norm_num)
  have holeInside : ∀ point : Point ℝ, point.Within 7 9 → point.Within 1 11 := by
    rintro point ⟨⟨left, right⟩, bottom, top⟩
    exact ⟨⟨by linarith, by linarith⟩, by linarith, by linarith⟩
  have onlyPlane : ∀ shape ∈ padPlate :: padTraces, 2 ≤ shape.usable.length →
      shape = [Contour.square 1 11, Contour.square 7 9] := by
    intro shape member several
    simp only [padPlate, padTraces, List.mem_cons, List.not_mem_nil, or_false] at member
    rcases member with rfl | rfl | rfl
    · simp [usable_square] at several
    · rfl
    · simp [usable_square] at several
  constructor
  · intro shape member several point off
    rcases onlyPlane shape member several with rfl
    rw [usable_plane, ← Point.odd_windingShape_iff]
    by_cases inOuter : point.Within 1 11 <;> by_cases inHole : point.Within 7 9 <;>
      simp_all [Point.Covered, padKernel, Point.windingAll, Point.windingShape,
        Point.winding_reverse]
  · intro shape member several point off
    by_cases inOuter : point.Within 1 11 <;> by_cases inHole : point.Within 7 9 <;>
      simp_all [padKernel, Point.windingAll, Point.windingShape, Point.winding_reverse]
  · intro point off
    have outerInside : point.Within 1 11 → point.Within 0 12 := by
      rintro ⟨⟨left, right⟩, bottom, top⟩
      exact ⟨⟨by linarith, by linarith⟩, by linarith, by linarith⟩
    have padInside : point.Within 3 5 → point.Within 1 11 := by
      rintro ⟨⟨left, right⟩, bottom, top⟩
      exact ⟨⟨by linarith, by linarith⟩, by linarith, by linarith⟩
    have apart : point.Within 3 5 → ¬point.Within 7 9 := by
      rintro ⟨⟨left, right⟩, bottom, top⟩ ⟨⟨left', right'⟩, bottom', top'⟩
      linarith
    have inside := holeInside point
    rw [padKernel_normalize_plate, padKernel_normalize_traces]
    simp only [Point.Covered, padKernel, Point.windingAll, Point.windingShape,
      List.map_cons, List.map_nil, List.sum_cons, List.sum_nil, Point.winding_reverse,
      plate, outer, hole, pad]
    by_cases inPlate : point.Within 0 12 <;> by_cases inOuter : point.Within 1 11 <;>
      by_cases inHole : point.Within 7 9 <;>
        by_cases inPad : point.Within 3 5 <;> simp_all

theorem pad_offEdges : ∀ shape ∈ padPlate :: padTraces,
    (⟨4, 4⟩ : Point ℝ).OffEdges shape := by
  have plate : (⟨4, 4⟩ : Point ℝ).OffEdges [Contour.square 0 12] :=
    Point.offEdges_square (by norm_num) (by norm_num)
  have outer : (⟨4, 4⟩ : Point ℝ).OffEdges [Contour.square 1 11] :=
    Point.offEdges_square (by norm_num) (by norm_num)
  have hole : (⟨4, 4⟩ : Point ℝ).OffEdges [Contour.square 7 9] :=
    Point.offEdges_square (by norm_num) (by norm_num)
  have pad : (⟨4, 4⟩ : Point ℝ).OffEdges [Contour.square 3 5] :=
    Point.offEdges_square (by norm_num) (by norm_num)
  intro shape member
  simp only [padPlate, padTraces, List.mem_cons, List.not_mem_nil, or_false] at member
  rcases member with rfl | rfl | rfl
  · exact plate
  · intro contour isContour
    rcases List.mem_cons.mp isContour with rfl | isHole
    · exact outer _ (by simp)
    · exact hole contour isHole
  · exact pad

theorem pad_turns : ∀ shape ∈ padPlate :: padTraces,
    (⟨4, 4⟩ : Point ℝ).turns shape = 1 := by
  have around : ∀ {low high : ℝ}, low < high → (⟨4, 4⟩ : Point ℝ).Within low high →
      (⟨4, 4⟩ : Point ℝ).turns [Contour.square low high] = 1 := by
    intro low high ordered within
    have single : Shape.IsSingle [Contour.square low high] := by
      simp [Shape.IsSingle, usable_square]
    rw [Point.turns, if_pos single, usable_square, orient_square ordered]
    simp [Point.windingShape, Point.winding_square _ ordered, within]
  have several : ¬Shape.IsSingle [Contour.square 1 11, Contour.square 7 9] := by
    simp [Shape.IsSingle, usable_plane]
  have odd :
      Odd ((⟨4, 4⟩ : Point ℝ).crossings [Contour.square 1 11, Contour.square 7 9]) := by
    have outer : (⟨4, 4⟩ : Point ℝ).Within 1 11 := by norm_num [Point.Within]
    have hole : ¬(⟨4, 4⟩ : Point ℝ).Within 7 9 := by norm_num [Point.Within]
    rw [← Point.odd_windingShape_iff, Point.windingShape, List.map_cons, List.map_cons,
      Point.winding_square _ (by norm_num), Point.winding_square _ (by norm_num),
      if_pos outer, if_neg hole]
    simp
  intro shape member
  simp only [padPlate, padTraces, List.mem_cons, List.not_mem_nil, or_false] at member
  rcases member with rfl | rfl | rfl
  · exact around (by norm_num) (by norm_num [Point.Within])
  · rw [Point.turns, if_neg several, if_pos odd]
  · exact around (by norm_num) (by norm_num [Point.Within])

end Overlayer

namespace Overlayer

/-- A cut leaves the points around which the plate turns and around which the
traces with one contour turn as often as the traces with several contours do. If
all contours are simple, this differs from parity, shape by shape, exactly at the
points of the plate that as many traces of the one kind hold as of the other. -/
theorem leaves_iff_turns_balance (overlayer : Overlayer ℝ) (plate : Shape ℝ)
    (traces : List (Shape ℝ)) (faithful : overlayer.FaithfulOn plate traces)
    (point : Point ℝ) (off : ∀ shape ∈ plate :: traces, point.OffEdges shape) :
    (overlayer.Leaves plate traces point ↔
      point.turns plate ≠ 0 ∧
        point.turnsAll (Shape.singles traces) = point.turnsAll (Shape.severals traces)) ∧
    ((∀ shape ∈ plate :: traces, point.turns shape = 0 ∨ point.turns shape = 1) →
      ((overlayer.Leaves plate traces point ↔
          Odd (point.crossings plate) ∧ ∀ trace ∈ traces, Even (point.crossings trace)) ↔
        (Odd (point.crossings plate) → (∃ trace ∈ traces, Odd (point.crossings trace)) →
          point.holders (Shape.singles traces) ≠
          point.holders (Shape.severals traces)))) := by
  have plateOff : point.OffEdges plate := off plate (by simp)
  have tracesOff : ∀ trace ∈ traces, point.OffEdges trace :=
    fun trace member => off trace (by simp [member])
  have general : overlayer.Leaves plate traces point ↔
      point.turns plate ≠ 0 ∧
        point.turnsAll (Shape.singles traces) =
        point.turnsAll (Shape.severals traces) := by
    have around : point.windingAll (overlayer.normalize plate) ≠ 0 ↔
        point.turns plate ≠ 0 := by
      rw [faithful.windingAll_normalize (by simp) plateOff]
      split <;> simp
    have usable : point.turns plate ≠ 0 → overlayer.normalize plate ≠ [] := by
      intro turning empty
      exact around.mpr turning (by simp [empty, Point.windingAll])
    rw [leaves_iff_covered, faithful.difference_covered point off,
      faithful.windingAll_traces tracesOff, sub_eq_zero, around]
    exact ⟨fun covered => covered.2, fun covered => ⟨usable covered.1, covered⟩⟩
  refine ⟨general, fun simple => ?_⟩
  have singlesSimple : ∀ shape ∈ Shape.singles traces,
      point.turns shape = 0 ∨ point.turns shape = 1 :=
    fun shape member => simple shape (by simp [List.mem_of_mem_filter member])
  have severalsSimple : ∀ shape ∈ Shape.severals traces,
      point.turns shape = 0 ∨ point.turns shape = 1 :=
    fun shape member => simple shape (by simp [List.mem_of_mem_filter member])
  have plateTurns : point.turns plate ≠ 0 ↔ Odd (point.crossings plate) := by
    rw [← point.odd_turns_iff]
    rcases simple plate (by simp) with none | once <;> simp [*]
  rw [general, plateTurns, point.turnsAll_eq_holders _ singlesSimple,
    point.turnsAll_eq_holders _ severalsSimple, Nat.cast_inj]
  by_cases held : ∃ trace ∈ traces, Odd (point.crossings trace)
  · have notAllEven : ¬∀ trace ∈ traces, Even (point.crossings trace) := by
      rcases held with ⟨trace, member, odd⟩
      exact fun even => Nat.not_even_iff_odd.mpr odd (even trace member)
    simp [held, notAllEven]
  · have allEven : ∀ trace ∈ traces, Even (point.crossings trace) := fun trace member =>
      Nat.not_odd_iff_even.mp fun odd => held ⟨trace, member, odd⟩
    have noSingles : point.holders (Shape.singles traces) = 0 :=
      Point.holders_eq_zero fun shape member =>
        allEven shape (List.mem_of_mem_filter member)
    have noSeverals : point.holders (Shape.severals traces) = 0 :=
      Point.holders_eq_zero fun shape member =>
        allEven shape (List.mem_of_mem_filter member)
    simp only [held, noSingles, noSeverals, and_true, false_implies, implies_true,
      iff_true]
    exact ⟨fun odd => ⟨odd, allEven⟩, And.left⟩

theorem leaves_pad : padKernel.FaithfulOn padPlate padTraces ∧
    (∀ shape ∈ padPlate :: padTraces, (⟨4, 4⟩ : Point ℝ).OffEdges shape) ∧
    padKernel.Leaves padPlate padTraces ⟨4, 4⟩ := by
  have balance := leaves_iff_turns_balance padKernel padPlate padTraces padKernel_faithful
    ⟨4, 4⟩ pad_offEdges
  have plane := pad_turns [Contour.square 1 11, Contour.square 7 9] (by simp [padTraces])
  have pad := pad_turns [Contour.square 3 5] (by simp [padTraces])
  refine ⟨padKernel_faithful, pad_offEdges, balance.1.mpr ⟨?_, ?_⟩⟩
  · rw [pad_turns padPlate (by simp)]
    exact one_ne_zero
  · simp [padTraces, Shape.singles, Shape.severals, Shape.IsSingle, usable_square,
      usable_plane, Point.turnsAll, plane, pad]

/-- Parity, shape by shape, does not tell what is left: the pad lies inside of the
plane and is left all the same. -/
theorem not_leaves_iff_parity :
    ¬∀ (overlayer : Overlayer ℝ) (plate : Shape ℝ) (traces : List (Shape ℝ)),
      overlayer.FaithfulOn plate traces → ∀ point : Point ℝ,
        (∀ shape ∈ plate :: traces, point.OffEdges shape) →
          (overlayer.Leaves plate traces point ↔ Odd (point.crossings plate) ∧
            ∀ trace ∈ traces, Even (point.crossings trace)) := by
  intro parity
  have rule := parity padKernel padPlate padTraces padKernel_faithful ⟨4, 4⟩ pad_offEdges
  have left : padKernel.Leaves padPlate padTraces ⟨4, 4⟩ := by
    rw [leaves_iff_covered, padKernel_faithful.difference_covered _ pad_offEdges,
      padKernel_normalize_plate, padKernel_normalize_traces]
    simp only [Point.windingAll, Point.windingShape, List.map_cons, List.map_nil,
      List.sum_cons, List.sum_nil, Point.winding_reverse]
    rw [Point.winding_square _ (by norm_num), Point.winding_square _ (by norm_num),
      Point.winding_square _ (by norm_num), Point.winding_square _ (by norm_num)]
    norm_num [Point.Within]
  have pad : [Contour.square 3 5] ∈ padTraces := by simp [padTraces]
  have odd : Odd ((⟨4, 4⟩ : Point ℝ).crossings [Contour.square 3 5]) := by
    rw [← Point.odd_turns_iff, pad_turns _ (List.mem_cons_of_mem _ pad)]
    exact odd_one
  exact Nat.not_even_iff_odd.mpr odd ((rule.mp left).2 _ pad)

end Overlayer

end Photoplot
