import Mathlib
import Toolpath.Proofs.View.Fitting
import Toolpath.Proofs.View.Session

/-!
# The zoom stays in its range

Zooming in looks at the upper limit only and zooming out at the lower one, and fitting divides by extents that may be
tiny or beyond the range. Still the zoom is a number between its limits after every call, unless the camera is set
outright.
-/

namespace Toolpath

open Single (clipped clipped_mono clipped_value extended extended_div extended_eq extended_mul greater_number
  isFinite_of_between isNaN_of_isFinite le_iff le_iff_extended lesser_number value)

/-- A call of a viewer's own, and with it a canvas of a finite size, whatever its sign is. Setting the camera outright
is none. -/
def Action.IsCall : Action → Prop
  | .move (.fit width height) => width.isFinite = true ∧ height.isFinite = true
  | .place _ => False
  | _ => True

namespace Viewer

variable {v : Viewer} {a : Action} {b : Bounds} {zoom height width : Float32}

structure InZoomRange (zoom : Float32) : Prop where
  number : zoom.isNaN = false
  least : minZoom ≤ zoom
  most : zoom ≤ maxZoom

theorem inZoomRange_iff (number : zoom.isNaN = false) :
    InZoomRange zoom ↔ value minZoom ≤ extended zoom ∧ extended zoom ≤ value maxZoom := by
  have low := le_iff_extended (isNaN_of_isFinite finite_minZoom.1) number
  have high := le_iff_extended number (isNaN_of_isFinite finite_maxZoom.1)
  rw [extended_eq finite_minZoom.1] at low
  rw [extended_eq finite_maxZoom.1] at high
  exact ⟨fun range => ⟨low.mp range.least, high.mp range.most⟩, fun ⟨least, most⟩ =>
    ⟨number, low.mpr least, high.mpr most⟩⟩

theorem finite_zoomStep : zoomStep.isFinite = true ∧ 1 ≤ value zoomStep := by decide +kernel

theorem zoom_limits : 0 ≤ value minZoom ∧ value minZoom ≤ value maxZoom := by decide +kernel

theorem inZoomRange_one : InZoomRange 1 :=
  (inZoomRange_iff (by decide +kernel)).mpr (by decide +kernel)

/-! ### One call -/

theorem InZoomRange.values (range : InZoomRange zoom) :
    zoom.isFinite = true ∧ value minZoom ≤ value zoom ∧ value zoom ≤ value maxZoom := by
  have finite := isFinite_of_between range.least range.most finite_minZoom.1 finite_maxZoom.1
  exact ⟨finite, (le_iff finite_minZoom.1 finite).mp range.least, (le_iff finite finite_maxZoom.1).mp range.most⟩

/-- Rounding cannot bring a zoom that has grown below the least one. -/
theorem inZoomRange_zoomIn (range : InZoomRange v.camera.zoom) : InZoomRange v.zoomIn.camera.zoom := by
  obtain ⟨finite, least, -⟩ := range.values
  obtain ⟨number, grown⟩ := extended_mul finite finite_zoomStep.1
  obtain ⟨result, lesser⟩ := lesser_number number (isNaN_of_isFinite finite_maxZoom.1)
  rw [grown, extended_eq finite_maxZoom.1] at lesser
  refine (inZoomRange_iff result).mpr ?_
  rw [lesser]
  refine ⟨le_min ?_ zoom_limits.2, min_le_right _ _⟩
  rw [← clipped_value minZoom]
  refine clipped_mono (least.trans ?_)
  exact le_mul_of_one_le_right (zoom_limits.1.trans least) finite_zoomStep.2

theorem inZoomRange_zoomOut (range : InZoomRange v.camera.zoom) : InZoomRange v.zoomOut.camera.zoom := by
  obtain ⟨finite, least, most⟩ := range.values
  have some : value zoomStep ≠ 0 := (zero_lt_one.trans_le finite_zoomStep.2).ne'
  obtain ⟨number, shrunk⟩ := extended_div finite finite_zoomStep.1 some
  obtain ⟨result, greater⟩ := greater_number number (isNaN_of_isFinite finite_minZoom.1)
  rw [shrunk, extended_eq finite_minZoom.1] at greater
  refine (inZoomRange_iff result).mpr ?_
  rw [greater]
  refine ⟨le_max_right _ _, max_le ?_ zoom_limits.2⟩
  rw [← clipped_value maxZoom]
  refine clipped_mono (le_trans ?_ most)
  exact div_le_self (zoom_limits.1.trans least) finite_zoomStep.2

/-- A finite canvas has a number for its share of an extent, be that infinite or as small as numbers are. -/
theorem isNaN_quotient {canvas extent : Float32} (finite : canvas.isFinite = true) (length : Bounds.Extent extent)
    (some : ¬ extent == 0) : (canvas * share / extent).isNaN = false := by
  have less := isFinite_available finite
  rcases length.finite_or_infinity with ⟨extentFinite, -⟩ | rfl
  · rw [Single.beq_zero_iff extentFinite] at some
    exact (extended_div less extentFinite some).1
  · exact isNaN_of_isFinite (Single.div_infinity less).1

theorem inZoomRange_fitZoom (valid : b.isValid = true) (deep : ¬ b.Flat) (widthFinite : width.isFinite = true)
    (heightFinite : height.isFinite = true) : InZoomRange (fitZoom b width height) := by
  obtain ⟨someWidth, someHeight⟩ := not_or.mp deep
  have across := isNaN_quotient widthFinite (Bounds.extent_width valid) someWidth
  have along := isNaN_quotient heightFinite (Bounds.extent_height valid) someHeight
  obtain ⟨number, clamped⟩ := Single.clamp_number (isNaN_of_isFinite finite_minZoom.1)
    (isNaN_of_isFinite finite_maxZoom.1) (lesser_number across along).1
  rw [extended_eq finite_minZoom.1, extended_eq finite_maxZoom.1] at clamped
  refine (inZoomRange_iff number).mpr ?_
  rw [clamped]
  exact ⟨le_min zoom_limits.2 (le_max_left _ _), min_le_left _ _⟩

theorem inZoomRange_fit (v : Viewer) (widthFinite : width.isFinite = true) (heightFinite : height.isFinite = true) :
    InZoomRange (v.fit width height).camera.zoom := by
  cases contents : v.document.cuttingBounds? with
  | none =>
    unfold fit
    rw [contents]
    exact inZoomRange_one
  | some b =>
    rw [fit_zoom v contents]
    split
    · exact inZoomRange_one
    · next deep =>
      refine inZoomRange_fitZoom (Bounds.valid_of_ofList? contents) ?_ widthFinite heightFinite
      simpa [Bounds.Flat] using deep

/-! ### A session -/

/-- Every call keeps the range: those that do not move the zoom, those that step it, and those that set it anew. -/
theorem inZoomRange_act (range : InZoomRange v.camera.zoom) (call : a.IsCall) : InZoomRange (v.act a).camera.zoom := by
  cases a with
  | start config => exact inZoomRange_one
  | setConfig config =>
    simp only [act, setConfig]
    split <;> exact range
  | load text =>
    simp only [act, load]
    split <;> exact range
  | render camera filter => exact range
  | clearDirty => exact range
  | place camera => exact call.elim
  | move m =>
    cases m with
    | zoomIn => exact inZoomRange_zoomIn range
    | zoomOut => exact inZoomRange_zoomOut range
    | resetZoom => exact inZoomRange_one
    | fit width height => exact inZoomRange_fit v call.1 call.2
    | _ => exact range

/-- After every session of calls the zoom is a number from the least to the greatest one. -/
theorem zoom_stays_in_range (config : Config) {actions : List Action} (calls : ∀ a ∈ actions, a.IsCall) :
    let zoom := (session config actions).camera.zoom
    zoom.isNaN = false ∧ minZoom ≤ zoom ∧ zoom ≤ maxZoom := by
  intro zoom
  have kept : InZoomRange zoom := by
    induction actions using List.reverseRecOn with
    | nil => exact inZoomRange_one
    | append_singleton actions a ih =>
      obtain ⟨earlier, last⟩ := List.forall_mem_append.mp calls
      change InZoomRange (session config (actions ++ [a])).camera.zoom
      rw [session_concat]
      exact inZoomRange_act (ih earlier) (last a List.mem_cons_self)
  exact ⟨kept.number, kept.least, kept.most⟩

/-- A plate wider than the range of numbers and next to no height, on a canvas of a negative height. -/
theorem endless_plate_in_range :
    let actions := [.load "G1 X-3e38\nX3e38 Y1e-45", .move (.fit 800 (-600)), .move .zoomOut]
    let zoom := (session {} actions).camera.zoom
    (∀ a ∈ actions, a.IsCall) ∧ zoom.isNaN = false ∧ minZoom ≤ zoom ∧ zoom ≤ maxZoom := by
  intro actions zoom
  have sizes : (800 : Float32).isFinite = true ∧ (-600 : Float32).isFinite = true := by decide +kernel
  have calls : ∀ a ∈ actions, a.IsCall := by
    simp only [actions, List.forall_mem_cons]
    exact ⟨trivial, sizes, trivial, List.forall_mem_nil _⟩
  exact ⟨calls, zoom_stays_in_range {} calls⟩

end Viewer

end Toolpath
