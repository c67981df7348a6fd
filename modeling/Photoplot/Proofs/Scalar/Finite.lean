import Photoplot.Proofs.Binary64.Packing
import Photoplot.Proofs.Scalar.Exact
import Photoplot.Scalar.Binary64

/-! # Finite scalars

Whether a value is finite does not depend on its sign. -/

namespace Photoplot

class Scalar.SignFree (K : Type) [Scalar K] : Prop where
  isFinite_neg (value : K) : Scalar.isFinite (-value) = Scalar.isFinite value

instance : Scalar.SignFree ℝ where
  isFinite_neg _ := rfl

namespace Binary64

open Float.Model (UnpackedFloat)

/-- A float with the other sign is packed without loss. -/
theorem isFinite_unpack_neg (float : Float.Model) :
    (Float.Model.pack float.unpack.neg).unpack.isFinite = float.unpack.isFinite := by
  cases unpacked : float.unpack with
  | notANumber => rfl
  | infinity sign =>
      rw [UnpackedFloat.neg, unpack_pack_infinity]
      rfl
  | zero sign =>
      rw [UnpackedFloat.neg, unpack_pack_zero]
      rfl
  | finite sign mantissa place positive =>
      rcases canonical_of_unpack unpacked with ⟨canonical, inRange⟩
      rw [UnpackedFloat.neg, unpack_pack_finite _ canonical inRange]
      rfl

end Binary64

instance : Scalar.SignFree Float where
  isFinite_neg value := Binary64.isFinite_unpack_neg value.toModel

end Photoplot
