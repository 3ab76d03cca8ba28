import Mathlib
import Toolpath.Proofs.Geometry.Extents
import Toolpath.View.Viewer

/-!
# Fitting the contents to a canvas

Fitting divides what the margins leave of the canvas by the extents of the contents. Two roundings and the limits of
the zoom come in between, and still the contents then fit, unless they do not even at the least zoom. Contents without
a width or a height are shown at one pixel a unit instead.
-/

namespace Toolpath

namespace Viewer

open Bounds (Extent)
open Single (beq_zero_iff exact_two_zpow exact_value extended extended_div extended_eq infinity
  isFinite_iff_extended le_iff leastNormal lt_iff lt_iff_extended rounded rounded_le rounded_le_add
  rounded_le_of_subnormal rounded_nonneg rounds_mul value)

variable {a canvas extent height width zoom : Float32} {b : Bounds}

/-! ### One axis -/

/-- An extent does not exceed the canvas at a zoom: in single precision, and exactly unless the canvas is smaller than
any normal number. -/
structure Shown (zoom extent canvas : Float32) : Prop where
  computed : zoom * extent ≤ canvas
  exact : leastNormal ≤ canvas → value zoom * value extent ≤ value canvas

/-- What the margins leave of a canvas. -/
def share : Float32 := 1 - fitMargin * 2

theorem finite_share : share.isFinite = true ∧ value share = 15099494 / 2 ^ 24 := by decide +kernel

theorem finite_minZoom : minZoom.isFinite = true ∧ 1 / 2 ^ 7 < value minZoom := by decide +kernel

theorem finite_maxZoom : maxZoom.isFinite = true ∧ value maxZoom = 50 := by decide +kernel

theorem finite_leastNormal : leastNormal.isFinite = true ∧ value leastNormal = 2 ^ (-126 : ℤ) := by decide +kernel

theorem isFinite_available (finite : canvas.isFinite = true) : (canvas * share).isFinite = true := by
  refine (rounds_mul finite finite_share.1).finite_iff.mpr ?_
  refine Single.inRange_of_abs_le ?_ (Single.inRange_value canvas)
  rw [abs_mul, finite_share.2]
  exact mul_le_of_le_one_right (abs_nonneg _) (by norm_num)

theorem available (finite : canvas.isFinite = true) (pos : 0 < value canvas) :
    (canvas * share).isFinite = true ∧ value (canvas * share) = rounded (value canvas * value share) ∧
      0 ≤ value (canvas * share) := by
  have rounds := rounds_mul finite finite_share.1
  have less := isFinite_available finite
  refine ⟨less, rounds.value less, ?_⟩
  rw [rounds.value less, finite_share.2]
  exact rounded_nonneg (by positivity)

/-- The margin outweighs both roundings. -/
theorem shown_of_le (zoomFinite : zoom.isFinite = true) (least : value minZoom ≤ value zoom)
    (extentFinite : extent.isFinite = true) (some : 0 < value extent) (canvasFinite : canvas.isFinite = true)
    (pos : 0 < value canvas) (le : value zoom ≤ rounded (value (canvas * share) / value extent)) :
    Shown zoom extent canvas := by
  have zoomPos : 0 < value zoom := lt_of_lt_of_le (lt_trans (by norm_num) finite_minZoom.2) least
  obtain ⟨-, left, nonneg⟩ := available canvasFinite pos
  rw [left] at le nonneg
  have normal : (2 : ℚ) ^ (-126 : ℤ) ≤ rounded (value canvas * value share) / value extent := by
    by_contra small
    have := rounded_le (exact_two_zpow (by norm_num)) (not_le.mp small).le
    have large := finite_minZoom.2
    norm_num at this large
    linarith
  have product : value zoom * value extent ≤
      rounded (value canvas * value share) + rounded (value canvas * value share) / 2 ^ 24 := by
    have := mul_le_mul_of_nonneg_right (le.trans (rounded_le_add (by positivity) le_rfl normal)) some.le
    rwa [add_mul, div_right_comm, div_mul_cancel₀ _ some.ne', div_mul_cancel₀ _ some.ne'] at this
  have exact (large : leastNormal ≤ canvas) : value zoom * value extent ≤ value canvas := by
    rw [le_iff finite_leastNormal.1 canvasFinite, finite_leastNormal.2] at large
    have part := rounded_le_add (v := value canvas * value share) (w := value canvas)
      (by rw [finite_share.2]; positivity) (by rw [finite_share.2]; linarith) large
    rw [finite_share.2] at part product
    linarith
  have rounding : rounded (value zoom * value extent) ≤ value canvas := by
    by_cases large : leastNormal ≤ canvas
    · exact rounded_le (exact_value canvas) (exact large)
    · rw [le_iff finite_leastNormal.1 canvasFinite, finite_leastNormal.2, not_le] at large
      refine rounded_le_of_subnormal pos (exact_value canvas) large (product.trans ?_)
      have part : rounded (value canvas * value share) ≤ value canvas := by
        refine rounded_le (exact_value canvas) ?_
        rw [finite_share.2]
        linarith
      linarith
  have rounds := rounds_mul zoomFinite extentFinite
  have finite : (zoom * extent).isFinite = true := by
    refine rounds.finite_iff.mpr (Single.abs_rounded_lt_iff.mp ?_)
    rw [abs_of_nonneg (rounded_nonneg (by positivity))]
    exact rounding.trans_lt ((le_abs_self _).trans_lt (Single.abs_value_lt canvas))
  exact ⟨(le_iff finite canvasFinite).mpr ((rounds.value finite).trans_le rounding), exact⟩

/-- The zoom of an axis is a number, and what is above the least zoom comes from a finite extent. -/
theorem quotient_number (aFinite : a.isFinite = true) (nonneg : 0 ≤ value a) (length : Extent extent)
    (some : ¬ extent == 0) : (a / extent).isNaN = false ∧ (value minZoom ≤ extended (a / extent) →
      extent.isFinite = true ∧ 0 < value extent ∧ extended (a / extent) ≤ rounded (value a / value extent)) := by
  rcases length.finite_or_infinity with ⟨finite, extentNonneg⟩ | rfl
  · rw [beq_zero_iff finite] at some
    have pos := lt_of_le_of_ne extentNonneg (Ne.symm some)
    obtain ⟨number, compares⟩ := extended_div aFinite finite some
    refine ⟨number, fun _ => ⟨finite, pos, ?_⟩⟩
    rw [compares]
    exact Single.clipped_le (div_nonneg nonneg pos.le)
  · obtain ⟨finite, nothing⟩ := Single.div_infinity aFinite
    refine ⟨Single.isNaN_of_isFinite finite, fun least => ?_⟩
    rw [extended_eq finite, nothing] at least
    linarith [finite_minZoom.2]

/-! ### Both axes -/

theorem clamp_of_not_less {q : Float32} (number : q.isNaN = false) (notLess : ¬ q < minZoom) :
    (Single.clamp minZoom maxZoom q).isFinite = true ∧ value minZoom ≤ value (Single.clamp minZoom maxZoom q) ∧
      value (Single.clamp minZoom maxZoom q) ≤ extended q := by
  have minNumber := Single.isNaN_of_isFinite finite_minZoom.1
  have maxNumber := Single.isNaN_of_isFinite finite_maxZoom.1
  have order : value minZoom ≤ 50 := by decide +kernel
  rw [lt_iff_extended number minNumber, not_lt, extended_eq finite_minZoom.1] at notLess
  obtain ⟨zoomNumber, zoomEq⟩ := Single.clamp_number minNumber maxNumber number
  rw [extended_eq finite_minZoom.1, extended_eq finite_maxZoom.1, max_eq_right notLess, finite_maxZoom.2] at zoomEq
  have low : value minZoom ≤ extended (Single.clamp minZoom maxZoom q) := zoomEq ▸ le_min order notLess
  have finite : (Single.clamp minZoom maxZoom q).isFinite = true := by
    rw [isFinite_iff_extended zoomNumber, abs_of_nonneg (by linarith [finite_minZoom.2]), zoomEq]
    exact (min_le_left _ _).trans_lt (by norm_num)
  rw [← extended_eq finite]
  exact ⟨finite, low, zoomEq.trans_le (min_le_right _ _)⟩

theorem fitZoom_shown (valid : b.isValid = true) (deep : ¬ b.Flat) (widthFinite : width.isFinite = true)
    (widthPos : 0 < width) (heightFinite : height.isFinite = true) (heightPos : 0 < height) :
    fitZoom b width height = minZoom ∨
      Shown (fitZoom b width height) b.width width ∧ Shown (fitZoom b width height) b.height height := by
  have zero : (0 : Float32).isFinite = true ∧ value 0 = 0 := by decide +kernel
  rw [lt_iff zero.1 widthFinite, zero.2] at widthPos
  rw [lt_iff zero.1 heightFinite, zero.2] at heightPos
  obtain ⟨someWidth, someHeight⟩ := not_or.mp deep
  obtain ⟨acrossFinite, -, acrossNonneg⟩ := available widthFinite widthPos
  obtain ⟨alongFinite, -, alongNonneg⟩ := available heightFinite heightPos
  obtain ⟨number, across⟩ := quotient_number acrossFinite acrossNonneg (Bounds.extent_width valid) someWidth
  obtain ⟨number', along⟩ := quotient_number alongFinite alongNonneg (Bounds.extent_height valid) someHeight
  obtain ⟨lesserNumber, lesserEq⟩ := Single.lesser_number number number'
  have fitted : fitZoom b width height = Single.clamp minZoom maxZoom
      (Single.lesser (width * share / b.width) (height * share / b.height)) := rfl
  rw [fitted]
  generalize Single.lesser (width * share / b.width) (height * share / b.height) = q at *
  by_cases less : q < minZoom
  · left
    unfold Single.clamp
    rw [if_pos less]
    decide +kernel
  · right
    obtain ⟨zoomFinite, low, high⟩ := clamp_of_not_less lesserNumber less
    rw [lt_iff_extended lesserNumber (Single.isNaN_of_isFinite finite_minZoom.1), not_lt,
      extended_eq finite_minZoom.1] at less
    rw [lesserEq] at less high
    obtain ⟨leftLess, rightLess⟩ := le_min_iff.mp less
    obtain ⟨leftHigh, rightHigh⟩ := le_min_iff.mp high
    obtain ⟨finite, pos, le⟩ := across leftLess
    obtain ⟨finite', pos', le'⟩ := along rightLess
    exact ⟨shown_of_le zoomFinite low finite pos widthFinite widthPos (leftHigh.trans le),
      shown_of_le zoomFinite low finite' pos' heightFinite heightPos (rightHigh.trans le')⟩

theorem shown_one_iff (length : Extent extent) (finite : canvas.isFinite = true) :
    Shown 1 extent canvas ↔ extent ≤ canvas := by
  have one : (1 : Float32).isFinite = true ∧ value 1 = 1 := by decide +kernel
  rcases length.finite_or_infinity with ⟨extentFinite, -⟩ | rfl
  · have rounds := rounds_mul one.1 extentFinite
    rw [one.2, one_mul] at rounds
    have whole : (1 * extent).isFinite = true := rounds.finite_iff.mpr (Single.inRange_value extent)
    have same : value (1 * extent) = value extent := by
      rw [rounds.value whole, Single.rounded_exact (exact_value extent)]
    rw [le_iff extentFinite finite]
    constructor
    · intro shown
      have computed := shown.computed
      rwa [le_iff whole finite, same] at computed
    · intro le
      refine ⟨?_, fun _ => ?_⟩
      · rwa [le_iff whole finite, same]
      · rwa [one.2, one_mul]
  · have unchanged : 1 * infinity = infinity := by decide +kernel
    have beyond : ¬ infinity ≤ canvas := by
      have top : infinity.isNaN = false ∧ extended infinity = 2 ^ 128 := by decide +kernel
      rw [Single.le_iff_extended top.1 (Single.isNaN_of_isFinite finite), top.2, extended_eq finite, not_le]
      exact (le_abs_self _).trans_lt (Single.abs_value_lt canvas)
    refine iff_of_false (fun shown => beyond ?_) beyond
    rw [← unchanged]
    exact shown.computed

theorem fit_zoom (v : Viewer) (contents : v.document.cuttingBounds? = some b) (width height : Float32) :
    (v.fit width height).camera.zoom = if b.width == 0 || b.height == 0 then 1 else fitZoom b width height := by
  unfold fit
  rw [contents]
  dsimp only
  split <;> rfl

/-- After fitting, the contents are inside the canvas or the zoom is the least one, unless the contents are flat and
do not fit at one pixel a unit. -/
theorem fit_shows_iff (v : Viewer) (contents : v.document.cuttingBounds? = some b) (widthFinite : width.isFinite = true)
    (widthPos : 0 < width) (heightFinite : height.isFinite = true) (heightPos : 0 < height) :
    let zoom := (v.fit width height).camera.zoom
    (zoom = minZoom ∨ Shown zoom b.width width ∧ Shown zoom b.height height) ↔
      ¬ b.Flat ∨ b.width ≤ width ∧ b.height ≤ height := by
  intro zoom
  have valid := Bounds.valid_of_ofList? contents
  have fitted : zoom = _ := fit_zoom v contents width height
  rw [fitted]
  by_cases flat : b.Flat
  · rw [if_pos (by simpa [Bounds.Flat] using flat), shown_one_iff (Bounds.extent_width valid) widthFinite,
      shown_one_iff (Bounds.extent_height valid) heightFinite]
    have other : (1 : Float32) ≠ minZoom := by decide +kernel
    simp only [other, flat, not_true_eq_false, false_or]
  · rw [if_neg (by simpa [Bounds.Flat] using flat)]
    exact iff_of_true (fitZoom_shown valid flat widthFinite widthPos heightFinite heightPos) (Or.inl flat)

/-- A wide plate is shrunk until it fits. -/
theorem plate_fits :
    let v := ((ofConfig {}).load "G1 X1\nX1001 Y100").2
    ∃ b, v.document.cuttingBounds? = some b ∧ (800 : Float32).isFinite = true ∧ (0 : Float32) < 800 ∧
      (600 : Float32).isFinite = true ∧ (0 : Float32) < 600 ∧ ¬ b.Flat ∧ (v.fit 800 600).camera.zoom ≠ minZoom ∧
      Shown (v.fit 800 600).camera.zoom b.width 800 ∧ Shown (v.fit 800 600).camera.zoom b.height 600 := by
  intro v
  have contents : v.document.cuttingBounds? = some ⟨1, 1001, 0, 100, 0, 0⟩ := by decide +kernel
  have deep : ¬ Bounds.Flat ⟨1, 1001, 0, 100, 0, 0⟩ := by
    unfold Bounds.Flat
    decide +kernel
  have more : (v.fit 800 600).camera.zoom ≠ minZoom := by decide +kernel
  have wide : (800 : Float32).isFinite = true ∧ (0 : Float32) < 800 := by decide +kernel
  have high : (600 : Float32).isFinite = true ∧ (0 : Float32) < 600 := by decide +kernel
  have fits := (fit_shows_iff v contents wide.1 wide.2 high.1 high.2).mpr (Or.inl deep)
  exact ⟨_, contents, wide.1, wide.2, high.1, high.2, deep, more, fits.resolve_left more⟩

/-- A straight cut longer than the canvas stays so, at one pixel a unit. -/
theorem long_cut_not_shown :
    let v := ((ofConfig {}).load "G1 X1\nX5001").2
    v.document.cuttingBounds? = some ⟨1, 5001, 0, 0, 0, 0⟩ ∧ (v.fit 800 600).camera.zoom = 1 ∧
      (1 : Float32) ≠ minZoom ∧ ¬ 1 * Bounds.width ⟨1, 5001, 0, 0, 0, 0⟩ ≤ 800 := by
  decide +kernel

end Viewer

end Toolpath
