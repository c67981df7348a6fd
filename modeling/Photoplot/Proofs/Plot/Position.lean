import Photoplot.Proofs.Path.Words
import Photoplot.Proofs.Plot.Width
import Photoplot.Proofs.Source.Range

/-! # Finite positions

A position in millimetres is as finite as the coordinate that it was given by. Nothing
asks whether a coordinate is finite when it is read: one with a point and enough digits is
infinite, and so is the current point behind it. -/

namespace Photoplot

/-! ## Decoded coordinates -/

namespace Decoder

theorem isPower_power : ∀ exponent : Fin 19,
    Binary64.IsPower exponent (Scalar.power (10.0 : Float) exponent).toModel.unpack := by
  decide +kernel

theorem two_mul_ten_pow_lt : (2 * 2 ^ 63 * 10 ^ 18 : ℚ) < Binary64.overflowThreshold := by
  have small : (2 * 2 ^ 63 * 10 ^ 18 : ℚ) < 2 ^ (124 : ℤ) := by norm_num
  have large : (2 : ℚ) ^ (124 : ℤ) ≤ 2 ^ (1023 : ℤ) :=
      Binary64.two_zpow_le.mpr (by norm_num)
  exact small.trans_le (large.trans Binary64.two_zpow_le_overflowThreshold)

section

variable {decoder : Decoder} (narrow : decoder.format.IsNarrow)

include narrow

/-- The zeros that a narrow format puts back do not lead out of the range. -/
theorem isFinite_value_integer (axis : Axis) {number : ℤ} (digits : ℕ)
    (small : number.natAbs ≤ 2 ^ 63) :
    (decoder.value axis (.integer number digits) : Float).isFinite = true := by
  obtain ⟨size, isSize, few⟩ := @Binary64.exists_size_ofInt number (by omega)
  obtain ⟨integer, decimal⟩ := narrow axis
  have fraction : (decoder.format.counts axis).decimal < 19 := by omega
  rw [value, Binary64.isFinite_div_power_iff (isPower_power ⟨_, fraction⟩)]
  split
  · have most : (decoder.format.counts axis).total - digits < 19 := by
      rw [DigitCounts.total]
      omega
    refine (Binary64.isFinite_mul_power_iff (isPower_power ⟨_, most⟩)).mpr
      ⟨size, isSize, ?_⟩
    have bound : (number.natAbs : ℚ) ≤ 2 ^ 63 := by exact_mod_cast small
    have power : (10 : ℚ) ^ ((decoder.format.counts axis).total - digits) ≤ 10 ^ 18 :=
      pow_le_pow_right₀ (by norm_num) (by omega)
    exact (mul_le_mul (few.trans (by linarith)) power (by positivity)
      (by positivity)).trans_lt two_mul_ten_pow_lt
  · exact Binary64.isFinite_iff_size.mpr (Option.isSome_of_mem isSize)

variable {written : Text} {raw : RawCoordinate Float}
  (metric : decoder.units = .millimeters)
  (isRead : RawCoordinate.read? written = some raw)

include metric isRead

/-- A coordinate that was read is as finite in millimetres as it is written, and never
undefined. -/
theorem isFinite_decode (axis : Axis) :
    (decoder.decode axis raw).isFinite = raw.IsFinite ∧
      decoder.decode axis raw ≤ decoder.decode axis raw := by
  have scale : decoder.decode axis raw = decoder.value axis raw * 1.0 := by
    rw [decode, toMillimeters, metric]
    rfl
  rw [scale, Binary64.isFinite_mul_one]
  cases raw with
  | integer value digits =>
      have finite := isFinite_value_integer narrow axis digits
        (RawCoordinate.natAbs_le_of_read? isRead).1
      refine ⟨finite, Binary64.comparable_of_isFinite ?_⟩
      rwa [Binary64.isFinite_mul_one]
  | decimal value =>
      obtain ⟨-, negative, digits, exponent, -, rfl⟩ :=
        RawCoordinate.exists_decimal_of_read? isRead
      have one : Binary64.IsPower 0 (1.0 : Float).toModel.unpack := by decide
      obtain ⟨mantissa, place, positive, unpacked, -⟩ := one.exists_finite
      exact ⟨rfl, Binary64.comparable_mul (Binary64.comparable_ofDecimal _ _ _) unpacked⟩

end

/-! ## Headers -/

/-- What a decoder is like behind commands that were read. As long as there is no header,
the standard holds. -/
structure IsDeclared (decoder : Decoder) : Prop where
  narrow : decoder.format.IsNarrow
  format : decoder.formatFixed = false → decoder.format = .standard
  units : decoder.unitsFixed = false → decoder.units = .millimeters

theorem isDeclared_start : start.IsDeclared where
  narrow axis := by cases axis <;> decide
  format _ := rfl
  units _ := rfl

variable {decoder : Decoder}

theorem IsDeclared.setFormat (declared : decoder.IsDeclared) {format : CoordinateFormat}
    (narrow : format.IsNarrow) : (decoder.setFormat format).value.IsDeclared := by
  rw [value_setFormat]
  split
  · exact declared
  · exact ⟨narrow, fun unfixed => absurd unfixed.symm Bool.false_ne_true, declared.units⟩

theorem IsDeclared.setUnits (declared : decoder.IsDeclared) (units : Units) :
    (decoder.setUnits units).value.IsDeclared := by
  rw [value_setUnits]
  split
  · exact declared
  · exact ⟨declared.narrow, declared.format, fun unfixed =>
      absurd unfixed.symm Bool.false_ne_true⟩

structure IsPlain (decoder : Decoder) : Prop where
  absolute : decoder.format.addressing = .absolute
  metric : decoder.units = .millimeters

/-- If a header leaves coordinates plain, they were plain before. -/
theorem IsDeclared.isPlain_of_setFormat (declared : decoder.IsDeclared)
    {format : CoordinateFormat} (plain : (decoder.setFormat format).value.IsPlain) :
    decoder.IsPlain := by
  rw [value_setFormat] at plain
  split at plain
  · exact plain
  · rename_i unfixed
    have standard := declared.format (eq_false_of_ne_true unfixed)
    exact ⟨congrArg CoordinateFormat.addressing standard, plain.metric⟩

theorem IsDeclared.isPlain_of_setUnits (declared : decoder.IsDeclared) {units : Units}
    (plain : (decoder.setUnits units).value.IsPlain) : decoder.IsPlain := by
  rw [value_setUnits] at plain
  split at plain
  · exact plain
  · rename_i unfixed
    exact ⟨plain.absolute, declared.units (eq_false_of_ne_true unfixed)⟩

end Decoder

/-! ## The current point -/

def Point.on {K : Type} (point : Point K) : Axis → K
  | .x => point.x
  | .y => point.y

def CoordinateFields.on {K : Type} (fields : CoordinateFields K) :
    Axis → Option (RawCoordinate K)
  | .x => fields.x
  | .y => fields.y

theorem CoordinateFields.mem_given_of_on {K : Type}
    {fields : CoordinateFields K} {axis : Axis}
    {raw : RawCoordinate K} (isField : fields.on axis = some raw) :
    raw ∈ fields.given := by
  cases axis with
  | x =>
      have isX : fields.x = some raw := isField
      simp [given, isX]
  | y =>
      have isY : fields.y = some raw := isField
      simp [given, isY]

def Command.coordinate? {K : Type} (axis : Axis) : Command K → Option (RawCoordinate K)
  | .operation fields _ => fields.on axis
  | _ => none

theorem Modes.exists_position_advance {K : Type} [Scalar K] (modes : Modes K)
    (fields : CoordinateFields K) (axis : Axis) :
    ∃ seen, (modes.advance fields).position.on axis =
      target modes.decoder axis (modes.position.on axis) seen (fields.on axis) := by
  cases axis with
  | x => exact ⟨modes.xSeen, rfl⟩
  | y => exact ⟨modes.ySeen, rfl⟩

/-- A coordinate of the current point is a number, and it is finite unless the one that
was given last is not. -/
def RawCoordinate.Places (last : Option (RawCoordinate Float)) (current : Float) : Prop :=
  current ≤ current ∧ (current.isFinite = true ↔ ∀ raw ∈ last, raw.IsFinite = true)

/-- A plain field puts the current point where it says, without one it stays. -/
theorem Modes.places_target {decoder : Decoder} (declared : decoder.IsDeclared)
    (plain : decoder.IsPlain) (axis : Axis) {last field : Option (RawCoordinate Float)}
    {current : Float} {seen : Bool}
    (isRead : ∀ raw ∈ field, ∃ written, RawCoordinate.read? written = some raw)
    (places : RawCoordinate.Places last current) :
    RawCoordinate.Places (field.or last) (target decoder axis current seen field) := by
  cases field with
  | none => exact places
  | some raw =>
      obtain ⟨written, isRead⟩ := isRead raw rfl
      obtain ⟨finite, comparable⟩ :=
        Decoder.isFinite_decode declared.narrow plain.metric isRead axis
      have reached : target decoder axis current seen (some raw) =
          decoder.decode axis raw := by
        rw [target, if_neg (by simp [plain.absolute])]
      rw [reached]
      refine ⟨comparable, ?_⟩
      rw [finite]
      simp

namespace Machine

open Program

structure IsPlaced (machine : Machine Float)
    (commands : List (Command Float)) : Prop where
  declared : machine.modes.decoder.IsDeclared
  places (plain : machine.modes.decoder.IsPlain) (axis : Axis) :
    RawCoordinate.Places (latest? (Command.coordinate? axis) commands)
      (machine.modes.position.on axis)

theorem isPlaced_start : start.IsPlaced [] where
  declared := Decoder.isDeclared_start
  places _ axis := by
    cases axis with
    | x => exact ⟨by decide, by decide⟩
    | y => exact ⟨by decide, by decide⟩

/-- Operations move the current point, headers make coordinates plain at most if they
were. -/
theorem IsPlaced.step {machine : Machine Float} {commands : List (Command Float)}
    (placed : machine.IsPlaced commands) (running : machine.modes.ended = false)
    {command : Command Float} (isWritten : ∃ text, command.IsWritten text) :
    (machine.step command).value.IsPlaced (commands ++ [command]) := by
  obtain ⟨text, isWritten⟩ := isWritten
  have modes : (machine.step command).value.modes = machine.modes.after command := by
    rw [modes_step, Modes.step, running]
    rfl
  constructor
  case declared =>
    rw [modes]
    cases command with
    | format header => exact placed.declared.setFormat isWritten
    | units units => exact placed.declared.setUnits units
    | _ => exact placed.declared
  case places =>
    rw [modes]
    intro plain axis
    rw [latest?_concat]
    cases command with
    | format header =>
        exact placed.places (placed.declared.isPlain_of_setFormat plain) axis
    | units units => exact placed.places (placed.declared.isPlain_of_setUnits plain) axis
    | operation fields action =>
        obtain ⟨seen, reached⟩ := machine.modes.exists_position_advance fields axis
        change RawCoordinate.Places _ ((machine.modes.advance fields).position.on axis)
        rw [reached]
        refine Modes.places_target placed.declared plain axis ?_
          (placed.places plain axis)
        intro raw isField
        obtain ⟨written, -, isRead⟩ :=
            isWritten raw (CoordinateFields.mem_given_of_on isField)
        exact ⟨written, isRead⟩
    | _ => exact placed.places plain axis

theorem isPlaced_run {commands : List (Command Float)}
    (areWritten : ∀ command ∈ commands, ∃ text, command.IsWritten text) :
    (start.run commands).value.IsPlaced (throughEnd commands) :=
  @holds_run Float _ IsPlaced (fun command => ∃ text, command.IsWritten text)
    (fun placed running _ => placed.step running) start
      [] commands isPlaced_start rfl areWritten

/-! ## Layers -/

/-- Every coordinate of a word is read from a part of it, and it is finite unless that
part has a point and more digits than a float has room for. Plain coordinates never leave
the current point undefined, and it is infinite exactly if the last one is. A path has a
word for a value without digits exactly if a number leaves no room for its six places. -/
theorem isFinite_coordinate_iff (text : Text) :
    let commands := (ofBlocks (K := Float) (Block.scan text)).value
    (∀ (word : Text) (accepted : List (Command Float)),
      (Word.read word).value = .ok accepted →
      ∀ fields action, .operation fields action ∈ accepted →
        ∀ raw ∈ fields.given, ∃ written, written <:+: word ∧
          RawCoordinate.read? written = some raw ∧
          (raw.IsFinite = true ↔ RawCoordinate.IsInRange written)) ∧
      (∀ part, part <+: commands →
        let modes := (start.run part).value.modes
        modes.decoder.IsPlain → ∀ axis,
          RawCoordinate.Places (latest? (Command.coordinate? axis) (throughEnd part))
            (modes.position.on axis)) ∧
      (Path.IsFinite (plot commands).value.path ↔
        ∀ step ∈ (plot commands).value.primitives.flatMap Path.Primitive.steps,
          ∀ number ∈ step.numbers, Binary64.HasRoom number) := by
  intro commands
  refine ⟨?_, ?_, isFinite_path_plot_iff commands⟩
  · intro word accepted isRead fields action member raw given
    have isWritten :=
        ((Word.value_read_eq_ok_iff word accepted).mp isRead).isWritten _ member
    obtain ⟨written, inside, isRaw⟩ := isWritten raw given
    exact ⟨written, inside, isRaw, RawCoordinate.isFinite_iff isRaw⟩
  · intro part isPart modes plain axis
    exact (isPlaced_run fun command member =>
      exists_isWritten (isPart.subset member)).places plain axis

def wedge : Text :=
  "%FSLAX24Y24*%%MOMM*%G36*X0Y0D02*X1.5Y0D01*X0Y20000D01*G37*M02*".toList

theorem isFinite_coordinate_iff_wedge :
    let commands := (ofBlocks (K := Float) (Block.scan wedge)).value
    let position := (start.run commands).value.modes.position
    (∃ written, written <:+: "X1.5Y0D01".toList ∧
      RawCoordinate.read? (K := Float) written = some (.decimal 1.5) ∧
        RawCoordinate.IsInRange written) ∧
      (position.x.isFinite = true ∧ position.y.isFinite = true) ∧
      ∀ step ∈ (plot commands).value.primitives.flatMap Path.Primitive.steps,
        ∀ number ∈ step.numbers, Binary64.HasRoom number := by
  intro commands position
  obtain ⟨words, places, path⟩ := isFinite_coordinate_iff wedge
  have accepted : (Word.read (K := Float) "X1.5Y0D01".toList).value =
      .ok [.operation ⟨some (.decimal 1.5), some (.integer 0 1), none,
        none⟩ (some .draw)] := by
    decide +kernel
  have plain : (start.run commands).value.modes.decoder.IsPlain :=
    ⟨by decide +kernel, by decide +kernel⟩
  refine ⟨?_, ⟨?_, ?_⟩, path.mp (by decide +kernel)⟩
  · obtain ⟨written, inside, isRead, finite⟩ :=
      words _ _ accepted _ _ List.mem_cons_self (.decimal 1.5) (by decide)
    exact ⟨written, inside, isRead, finite.mp (by decide)⟩
  · exact (places commands (List.prefix_refl _) plain .x).2.mpr (by decide +kernel)
  · exact (places commands (List.prefix_refl _) plain .y).2.mpr (by decide +kernel)

def farWord : Text := 'X' :: '1' :: List.replicate 309 '0' ++ ".D02".toList

theorem not_forall_isFinite_coordinate :
    ¬∀ (word : Text) (accepted : List (Command Float)),
    (Word.read word).value = .ok accepted →
      ∀ fields action, .operation fields action ∈ accepted →
        ∀ raw ∈ fields.given, raw.IsFinite = true := by
  intro finite
  have accepted : (Word.read farWord).value =
      .ok [.operation ⟨some (.decimal Binary64.infinity), none, none,
        none⟩ (some .move)] := by
    decide +kernel
  exact absurd (finite farWord _ accepted _ _ List.mem_cons_self _ List.mem_cons_self)
    (by decide)

end Machine

end Photoplot
