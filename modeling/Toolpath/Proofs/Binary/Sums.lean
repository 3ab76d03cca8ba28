import Mathlib
import Toolpath.Binary.Single

/-!
# Sums of squares

A sum of numbers depends on the order in which they are added, and adding zero may turn a negative zero
positive. Neither matters to three squares of which one comes from a difference of equal numbers: it is zero
or not a number, and the others have no sign that could be lost.
-/

namespace Toolpath.Single

open Float.Model (Format UnpackedFloat)
open Float.Model.UnpackedFloat (Sign unpackSign unpackSign_packComponents)

/-! ### Signs -/

/-- Not a number, or one with the positive sign. -/
def UnsignedModel : UnpackedFloat → Prop
  | .notANumber => True
  | .infinity s => s = .positive
  | .zero s => s = .positive
  | .finite s _ _ _ => s = .positive

section Model

variable {spec : Format} {u v : UnpackedFloat}

theorem unpackSign_pack (unsigned : UnsignedModel u) : unpackSign (u.pack spec) = 0#1 := by
  cases u with
  | notANumber => exact unpackSign_packComponents _ _ _
  | infinity s =>
    obtain rfl : s = .positive := unsigned
    exact unpackSign_packComponents _ _ _
  | zero s =>
    obtain rfl : s = .positive := unsigned
    exact unpackSign_packComponents _ _ _
  | finite s m e pos =>
    obtain rfl : s = .positive := unsigned
    unfold UnpackedFloat.pack
    dsimp only
    split
    · exact unpackSign_packComponents _ _ _
    · split
      · exact unpackSign_packComponents _ _ _
      · exact unpackSign_packComponents _ _ _

theorem unsignedModel_unpack {b : BitVec spec.numBits} (sign : unpackSign b = 0#1) :
    UnsignedModel (UnpackedFloat.unpack spec b) := by
  have positive : Sign.ofBitVec (unpackSign b) = .positive := by rw [sign]; rfl
  unfold UnpackedFloat.unpack
  dsimp only
  split
  · split
    · exact positive
    · trivial
  · split
    · split
      · exact positive
      · exact positive
    · exact positive

theorem unsignedModel_rounded (m : Nat) (e : Int) (accuracy : UnpackedFloat.Accuracy) :
    UnsignedModel (UnpackedFloat.roundWithAccuracy spec .positive m e accuracy) := by
  unfold UnpackedFloat.roundWithAccuracy
  dsimp only
  split
  · rfl
  · rfl

theorem unsignedModel_mul_self (spec : Format) (u : UnpackedFloat) : UnsignedModel (UnpackedFloat.mul spec u u) := by
  cases u with
  | notANumber => trivial
  | infinity s => cases s <;> rfl
  | zero s => cases s <;> rfl
  | finite s m e pos =>
    have square : s * s = .positive := by cases s <;> rfl
    unfold UnpackedFloat.mul
    dsimp only
    rw [square]
    exact unsignedModel_rounded _ _ _

theorem unsignedModel_add (left : UnsignedModel u) (right : UnsignedModel v) :
    UnsignedModel (UnpackedFloat.add spec u v) := by
  cases u with
  | notANumber => trivial
  | infinity s =>
    obtain rfl : s = .positive := left
    cases v with
    | notANumber => trivial
    | infinity t =>
      obtain rfl : t = .positive := right
      rfl
    | zero t => rfl
    | finite t m e pos => rfl
  | zero s =>
    obtain rfl : s = .positive := left
    cases v with
    | notANumber => trivial
    | infinity t => exact right
    | zero t =>
      obtain rfl : t = .positive := right
      rfl
    | finite t m e pos => exact right
  | finite s m e pos =>
    obtain rfl : s = .positive := left
    cases v with
    | notANumber => trivial
    | infinity t => exact right
    | zero t => rfl
    | finite t n f pos' =>
      obtain rfl : t = .positive := right
      unfold UnpackedFloat.add UnpackedFloat.normalize
      dsimp only [Sign.apply]
      -- Mantissas of one sign do not cancel.
      split
      · next below =>
        have negative := Int.compare_eq_lt.mp below
        omega
      · rfl
      · exact unsignedModel_rounded _ _ _

theorem add_zero_model (unsigned : UnsignedModel u) : UnpackedFloat.add spec u (.zero .positive) = u := by
  cases u with
  | zero s =>
    obtain rfl : s = .positive := unsigned
    rfl
  | _ => rfl

theorem add_comm_model (spec : Format) (u v : UnpackedFloat) :
    UnpackedFloat.add spec u v = UnpackedFloat.add spec v u := by
  cases u with
  | notANumber => cases v <;> rfl
  | infinity s =>
    cases v with
    | infinity t => cases s <;> cases t <;> rfl
    | _ => rfl
  | zero s =>
    cases v with
    | zero t => cases s <;> cases t <;> rfl
    | _ => rfl
  | finite s m e pos =>
    cases v with
    | finite t n f pos' =>
      simp only [UnpackedFloat.add, Int.min_comm e f]
      rw [Int.add_comm]
    | _ => rfl

theorem sub_self_model (spec : Format) (u : UnpackedFloat) :
    UnpackedFloat.sub spec u u = .zero .positive ∨ UnpackedFloat.sub spec u u = .notANumber := by
  cases u with
  | notANumber => exact Or.inr rfl
  | infinity s => exact Or.inr (by cases s <;> rfl)
  | zero s => exact Or.inl (by cases s <;> rfl)
  | finite s m e pos =>
    refine Or.inl ?_
    simp only [UnpackedFloat.sub, Int.sub_self, UnpackedFloat.normalize]
    rfl

end Model

/-! ### Single precision -/

def ofModel (u : UnpackedFloat) : Float32 := .ofModel (.pack u)

theorem ofModel_unpack (x : Float32) : ofModel x.toModel.unpack = x := by
  obtain ⟨⟨bits, valid⟩⟩ := x
  have packed := UnpackedFloat.pack_unpack_of_valid valid
  unfold ofModel
  simp only [Float32.Model.pack, Float32.Model.unpack, Float32.ofModel.injEq, Float32.Model.mk.injEq]
  exact congrArg UInt32.ofBitVec packed

/-- Not a number, or one with the positive sign. -/
def Unsigned (x : Float32) : Prop := UnsignedModel x.toModel.unpack

theorem unsigned_ofModel {u : UnpackedFloat} (unsigned : UnsignedModel u) : Unsigned (ofModel u) :=
  unsignedModel_unpack (unpackSign_pack unsigned)

variable {a b : Float32}

theorem unsigned_mul_self (a : Float32) : Unsigned (a * a) :=
  unsigned_ofModel (unsignedModel_mul_self Format.binary32 a.toModel.unpack)

theorem unsigned_add (left : Unsigned a) (right : Unsigned b) : Unsigned (a + b) :=
  unsigned_ofModel (unsignedModel_add left right)

protected theorem add_comm (a b : Float32) : a + b = b + a :=
  congrArg ofModel (add_comm_model Format.binary32 a.toModel.unpack b.toModel.unpack)

protected theorem add_zero (unsigned : Unsigned a) : a + 0 = a := by
  have added : UnpackedFloat.add Format.binary32 a.toModel.unpack (0 : Float32).toModel.unpack =
      a.toModel.unpack := add_zero_model unsigned
  have packed : a + 0 = ofModel a.toModel.unpack := congrArg ofModel added
  rw [packed, ofModel_unpack]

/-- Numbers that are equal as numbers are the same, or zeros of either sign. -/
theorem eq_or_zeros_of_beq (same : (a == b) = true) :
    a = b ∨ (a = 0 ∨ a = -0) ∧ (b = 0 ∨ b = -0) := by
  obtain ⟨-, -, equal⟩ := Float32.beq_iff_ne_nan_and_eq.mp same
  rcases equal with equal | ⟨left, right⟩ | ⟨left, right⟩
  · exact Or.inl equal
  · exact Or.inr ⟨Or.inl left, Or.inr right⟩
  · exact Or.inr ⟨Or.inr left, Or.inl right⟩

/-- Zero, or not a number: what is left of a difference of equal numbers. -/
def Level (n : Float32) : Prop := n = 0 ∨ n = notANumber

theorem level_sub_self (a : Float32) : Level (a - a) := by
  rcases sub_self_model Format.binary32 a.toModel.unpack with nothing | none
  · exact Or.inl (congrArg ofModel nothing)
  · exact Or.inr (congrArg ofModel none)

theorem add_notANumber (a : Float32) : a + notANumber = notANumber := by
  have absorbed : UnpackedFloat.add Format.binary32 a.toModel.unpack notANumber.toModel.unpack = .notANumber := by
    cases a.toModel.unpack <;> rfl
  exact congrArg ofModel absorbed

/-! ### Three summands -/

theorem level_mul_self {n : Float32} (level : Level n) : Level (n * n) := by
  rcases level with rfl | rfl
  · exact Or.inl (by decide)
  · exact Or.inr (by decide)

variable {n : Float32}

/-- A level summand has the same effect in every place. -/
theorem add_level_first (level : Level n) (left : Unsigned a) (right : Unsigned b) : n + a + b = a + b + n := by
  rcases level with rfl | rfl
  · rw [Single.add_comm 0 a, Single.add_zero left, Single.add_zero (unsigned_add left right)]
  · rw [Single.add_comm notANumber a, add_notANumber, Single.add_comm notANumber b, add_notANumber,
      add_notANumber]

theorem add_level_middle (level : Level n) (left : Unsigned a) (right : Unsigned b) : a + n + b = a + b + n := by
  rw [Single.add_comm a n]
  exact add_level_first level left right

end Toolpath.Single
