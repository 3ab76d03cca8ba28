import Mathlib
import Toolpath.Path.Document
import Toolpath.Proofs.Binary.Extended
import Toolpath.Proofs.Binary.Order
import Toolpath.Proofs.Geometry.Extents

/-!
# Bounds are hulls

Bounds are gathered point by point, and each of their faces is chosen from one coordinate of the points alone. So a
face is said once for all axes and both sides: it is a number that no coordinate goes beyond, and it is one of the
coordinates or the extreme number that it started from.
-/

namespace Toolpath

/-! ### The choice of a number -/

namespace Single

variable {choose : Float32 → Float32 → Float32} {before : ℚ → ℚ → Prop} {a b start x y : Float32}
  {xs ys : List Float32}

/-- The choice of the number that comes before the other. One that is not a number does not count. -/
structure Chooses (choose : Float32 → Float32 → Float32) (before : ℚ → ℚ → Prop) : Prop where
  skips : ∀ a b, a.isNaN = false → b.isNaN = true → choose a b = a
  picks : ∀ a b, a.isNaN = false → b.isNaN = false →
    choose a b = a ∧ before (extended a) (extended b) ∨ choose a b = b ∧ before (extended b) (extended a)

theorem chooses_lesser : Chooses lesser (· ≤ ·) where
  skips a b number nothing := by
    rw [lesser, number, if_neg Bool.false_ne_true, if_neg (not_lt_of_isNaN nothing a).1]
  picks a b left right := by
    have order := lt_iff_extended right left
    rw [lesser, left, if_neg Bool.false_ne_true]
    split
    · next less => exact Or.inr ⟨rfl, (order.mp less).le⟩
    · next notLess => exact Or.inl ⟨rfl, not_lt.mp (mt order.mpr notLess)⟩

theorem chooses_greater : Chooses greater (· ≥ ·) where
  skips a b number nothing := by
    rw [greater, number, if_neg Bool.false_ne_true, if_neg (not_lt_of_isNaN nothing a).2]
  picks a b left right := by
    have order := lt_iff_extended left right
    rw [greater, left, if_neg Bool.false_ne_true]
    split
    · next less => exact Or.inr ⟨rfl, (order.mp less).le⟩
    · next notLess => exact Or.inl ⟨rfl, not_lt.mp (mt order.mpr notLess)⟩

/-- What is left of a list of numbers and a first one when all that comes after another is dropped. -/
structure Foremost (before : ℚ → ℚ → Prop) (start : Float32) (xs : List Float32) (x : Float32) : Prop where
  number : x.isNaN = false
  origin : x = start ∨ x ∈ xs
  start_le : before (extended x) (extended start)
  before_all : ∀ y ∈ xs, y.isNaN = false → before (extended x) (extended y)

theorem foremost_foldl [Std.Refl before] [IsTrans ℚ before] (chooses : Chooses choose before) (xs : List Float32)
    (number : start.isNaN = false) : Foremost before start xs (xs.foldl choose start) := by
  induction xs generalizing start with
  | nil => exact ⟨number, Or.inl rfl, refl_of before _, nofun⟩
  | cons y ys step =>
    rw [List.foldl_cons]
    cases nothing : y.isNaN with
    | true =>
      rw [chooses.skips start y number nothing]
      obtain ⟨result, origin, first, all⟩ := step number
      refine ⟨result, origin.imp_right (List.mem_cons_of_mem _), first, List.forall_mem_cons.mpr ⟨?_, all⟩⟩
      intro some
      rw [nothing] at some
      cases some
    | false =>
      rcases chooses.picks start y number nothing with ⟨kept, order⟩ | ⟨taken, order⟩
      · rw [kept]
        obtain ⟨result, origin, first, all⟩ := step number
        exact ⟨result, origin.imp_right (List.mem_cons_of_mem _), first,
          List.forall_mem_cons.mpr ⟨fun _ => trans_of before first order, all⟩⟩
      · rw [taken]
        obtain ⟨result, origin, first, all⟩ := step nothing
        refine ⟨result, Or.inr ?_, trans_of before first order, List.forall_mem_cons.mpr ⟨fun _ => first, all⟩⟩
        exact List.mem_cons.mpr (origin.imp_left id)

/-- Of more numbers the foremost one does not come later. -/
theorem Foremost.mono (more : Foremost before start xs x) (fewer : Foremost before start ys y) (sub : ys ⊆ xs) :
    before (extended x) (extended y) := by
  rcases fewer.origin with rfl | member
  · exact more.start_le
  · exact more.before_all y (sub member) fewer.number

theorem isFinite_iff : x.isFinite = true ↔ x.isNaN = false ∧ x.isInf = false := by
  refine ⟨isFinite_split, fun ⟨number, bounded⟩ => ?_⟩
  change x.toModel.unpack.isNaN = false at number
  change x.toModel.unpack.isInf = false at bounded
  change x.toModel.unpack.isFinite = true
  cases unpacked : x.toModel.unpack with
  | notANumber => rw [unpacked] at number; cases number
  | infinity => rw [unpacked] at bounded; cases bounded
  | _ => rfl

end Single

/-! ### Faces -/

inductive Axis where
  | x
  | y
  | z

def Position.along (p : Position) : Axis → Float32
  | .x => p.x
  | .y => p.y
  | .z => p.z

namespace Bounds

open Single (Foremost beq_iff_extended chooses_greater chooses_lesser extended extended_eq foremost_foldl greater
  isFinite_iff isFinite_iff_extended isNaN_of_isFinite largest le_iff_extended lesser value value_largest)

variable {axis : Axis} {b : Bounds} {ps qs : List Position} {p : Position}

def low (b : Bounds) : Axis → Float32
  | .x => b.minX
  | .y => b.minY
  | .z => b.minZ

def high (b : Bounds) : Axis → Float32
  | .x => b.maxX
  | .y => b.maxY
  | .z => b.maxZ

def coordinates (ps : List Position) (axis : Axis) : List Float32 := ps.map (Position.along · axis)

theorem isValid_iff : b.isValid = true ↔ ∀ axis, (b.low axis).isFinite = true ∧ (b.high axis).isFinite = true ∧
    b.low axis ≤ b.high axis := by
  simp only [isValid, Bool.and_eq_true, decide_eq_true_eq]
  constructor
  · intro valid axis
    cases axis <;> simp only [low, high] <;> tauto
  · intro all
    have x := all .x
    have y := all .y
    have z := all .z
    simp only [low, high] at x y z
    tauto

theorem faces_foldl (ps : List Position) (b : Bounds) (axis : Axis) :
    (ps.foldl insert b).low axis = (coordinates ps axis).foldl lesser (b.low axis) ∧
      (ps.foldl insert b).high axis = (coordinates ps axis).foldl greater (b.high axis) := by
  induction ps generalizing b with
  | nil => exact ⟨rfl, rfl⟩
  | cons p ps step =>
    have later := step (b.insert p)
    have first : (b.insert p).low axis = lesser (b.low axis) (p.along axis) ∧
        (b.insert p).high axis = greater (b.high axis) (p.along axis) := by cases axis <;> exact ⟨rfl, rfl⟩
    rw [first.1, first.2] at later
    exact later

theorem number_largest : largest.isNaN = false ∧ (-largest).isNaN = false := by decide +kernel

theorem low_foremost (ps : List Position) (axis : Axis) :
    Foremost (· ≤ ·) largest (coordinates ps axis) ((ofList ps).low axis) := by
  have start : empty.low axis = largest := by cases axis <;> rfl
  rw [ofList, (faces_foldl ps empty axis).1, start]
  exact foremost_foldl chooses_lesser _ number_largest.1

theorem high_foremost (ps : List Position) (axis : Axis) :
    Foremost (· ≥ ·) (-largest) (coordinates ps axis) ((ofList ps).high axis) := by
  have start : empty.high axis = -largest := by cases axis <;> rfl
  rw [ofList, (faces_foldl ps empty axis).2, start]
  exact foremost_foldl chooses_greater _ number_largest.2

theorem mem_coordinates (member : p ∈ ps) : p.along axis ∈ coordinates ps axis := List.mem_map_of_mem member

theorem between_faces (member : p ∈ ps) (number : (p.along axis).isNaN = false) :
    (ofList ps).low axis ≤ p.along axis ∧ p.along axis ≤ (ofList ps).high axis := by
  have low := low_foremost ps axis
  have high := high_foremost ps axis
  rw [le_iff_extended low.number number, le_iff_extended number high.number]
  exact ⟨low.before_all _ (mem_coordinates member) number, high.before_all _ (mem_coordinates member) number⟩

/-! ### Validity -/

/-- The points have an extent along an axis: none of them is infinitely far, and one of them is somewhere. -/
structure Reaches (ps : List Position) (axis : Axis) : Prop where
  bounded : ∀ p ∈ ps, (p.along axis).isInf = false
  somewhere : ∃ p ∈ ps, (p.along axis).isNaN = false

theorem Reaches.finite (reaches : Reaches ps axis) (member : p ∈ ps) (number : (p.along axis).isNaN = false) :
    (p.along axis).isFinite = true := isFinite_iff.mpr ⟨number, reaches.bounded p member⟩

theorem reaches_of_faces (lowFinite : ((ofList ps).low axis).isFinite = true)
    (highFinite : ((ofList ps).high axis).isFinite = true) (le : (ofList ps).low axis ≤ (ofList ps).high axis) :
    Reaches ps axis := by
  constructor
  · intro p member
    cases nothing : (p.along axis).isNaN with
    | true =>
      change (p.along axis).toModel.unpack.isInf = false
      rw [Single.unpack_of_isNaN nothing]
      rfl
    | false =>
      obtain ⟨above, below⟩ := between_faces member nothing
      exact (isFinite_iff.mp (Single.isFinite_of_between above below lowFinite highFinite)).2
  · by_contra nowhere
    push Not at nowhere
    -- Both faces stand where they started from, and these are the wrong way round.
    have started (x : Float32) (among : x ∈ coordinates ps axis) : x.isNaN = true := by
      obtain ⟨p, member, rfl⟩ := List.mem_map.mp among
      simpa using nowhere p member
    have low := low_foremost ps axis
    have high := high_foremost ps axis
    have lowStart := low.origin.resolve_right fun among =>
      Bool.false_ne_true (low.number.symm.trans (started _ among))
    have highStart := high.origin.resolve_right fun among =>
      Bool.false_ne_true (high.number.symm.trans (started _ among))
    rw [lowStart, highStart] at le
    exact absurd le (by decide +kernel)

theorem faces_of_reaches (reaches : Reaches ps axis) : ((ofList ps).low axis).isFinite = true ∧
    ((ofList ps).high axis).isFinite = true ∧ (ofList ps).low axis ≤ (ofList ps).high axis := by
  have finite (x : Float32) (number : x.isNaN = false) (among : x ∈ coordinates ps axis) : x.isFinite = true := by
    obtain ⟨p, member, rfl⟩ := List.mem_map.mp among
    exact reaches.finite member number
  have ends : largest.isFinite = true ∧ (-largest).isFinite = true := by decide +kernel
  have low := low_foremost ps axis
  have high := high_foremost ps axis
  refine ⟨low.origin.elim (fun same => same ▸ ends.1) (finite _ low.number),
    high.origin.elim (fun same => same ▸ ends.2) (finite _ high.number), ?_⟩
  obtain ⟨p, member, number⟩ := reaches.somewhere
  obtain ⟨above, below⟩ := between_faces member number
  rw [le_iff_extended low.number number] at above
  rw [le_iff_extended number high.number] at below
  rw [le_iff_extended low.number high.number]
  exact above.trans below

theorem isValid_iff_reaches : (ofList ps).isValid = true ↔ ∀ axis, Reaches ps axis := by
  rw [isValid_iff]
  refine forall_congr' fun axis => ⟨fun ⟨low, high, le⟩ => reaches_of_faces low high le, faces_of_reaches⟩

/-- A face that stands where it started from is a coordinate all the same, as no finite number lies beyond it. -/
theorem faces_touch (reaches : Reaches ps axis) : (∃ p ∈ ps, (ofList ps).low axis == p.along axis) ∧
    ∃ p ∈ ps, (ofList ps).high axis == p.along axis := by
  have ends : largest.isFinite = true ∧ (-largest).isFinite = true := by decide +kernel
  have low := low_foremost ps axis
  have high := high_foremost ps axis
  obtain ⟨q, someone, number⟩ := reaches.somewhere
  obtain ⟨least, greatest⟩ := value_largest (reaches.finite someone number)
  rw [← extended_eq (reaches.finite someone number), ← extended_eq ends.1] at greatest
  rw [← extended_eq (reaches.finite someone number), ← extended_eq ends.2] at least
  constructor
  · rcases low.origin with same | among
    · refine ⟨q, someone, (beq_iff_extended low.number number).mpr ?_⟩
      exact le_antisymm (low.before_all _ (mem_coordinates someone) number) (same ▸ greatest)
    · obtain ⟨p, member, same⟩ := List.mem_map.mp among
      exact ⟨p, member, (beq_iff_extended low.number (same ▸ low.number)).mpr (congrArg extended same.symm)⟩
  · rcases high.origin with same | among
    · refine ⟨q, someone, (beq_iff_extended high.number number).mpr ?_⟩
      exact le_antisymm (same ▸ least) (high.before_all _ (mem_coordinates someone) number)
    · obtain ⟨p, member, same⟩ := List.mem_map.mp among
      exact ⟨p, member, (beq_iff_extended high.number (same ▸ high.number)).mpr (congrArg extended same.symm)⟩

/-! ### More points and the same points -/

/-- The first bounds lie within the second ones. -/
def Within (a b : Bounds) : Prop := ∀ axis, b.low axis ≤ a.low axis ∧ a.high axis ≤ b.high axis

/-- The faces are equal as numbers. Zeros may differ in their signs. -/
def Agrees (a b : Bounds) : Prop := ∀ axis, a.low axis == b.low axis ∧ a.high axis == b.high axis

theorem within_of_subset (sub : ps ⊆ qs) : Within (ofList ps) (ofList qs) := by
  intro axis
  have coordinates := List.map_subset (Position.along · axis) sub
  have few := low_foremost ps axis
  have many := low_foremost qs axis
  have fewHigh := high_foremost ps axis
  have manyHigh := high_foremost qs axis
  rw [le_iff_extended many.number few.number, le_iff_extended fewHigh.number manyHigh.number]
  exact ⟨many.mono few coordinates, manyHigh.mono fewHigh coordinates⟩

theorem agrees_of_same (same : ∀ p, p ∈ qs ↔ p ∈ ps) : Agrees (ofList qs) (ofList ps) := by
  intro axis
  have low := low_foremost ps axis
  have high := high_foremost ps axis
  have otherLow := low_foremost qs axis
  have otherHigh := high_foremost qs axis
  obtain ⟨lowInner, highInner⟩ := within_of_subset (fun p => (same p).mp) axis
  obtain ⟨lowOuter, highOuter⟩ := within_of_subset (fun p => (same p).mpr) axis
  rw [le_iff_extended low.number otherLow.number] at lowInner
  rw [le_iff_extended otherLow.number low.number] at lowOuter
  rw [le_iff_extended otherHigh.number high.number] at highInner
  rw [le_iff_extended high.number otherHigh.number] at highOuter
  rw [beq_iff_extended otherLow.number low.number, beq_iff_extended otherHigh.number high.number]
  exact ⟨le_antisymm lowOuter lowInner, le_antisymm highInner highOuter⟩

theorem eq_of_ofList? (found : ofList? ps = some b) : b = ofList ps := by
  unfold ofList? at found
  dsimp only at found
  split at found
  · exact (Option.some.inj found).symm
  · cases found

end Bounds

theorem Document.cuttingPoints_subset (d : Document) : d.cuttingPoints ⊆ d.points := by
  intro p cutting
  obtain ⟨w, kept, rfl⟩ := List.mem_map.mp cutting
  obtain ⟨i, here⟩ := List.mem_iff_getElem?.mp (List.mem_filter.mp kept).1
  obtain ⟨q, travel, point, -, rfl⟩ := List.getElem?_zipWith_eq_some.mp here
  exact List.mem_of_getElem? point

namespace Bounds

theorem within_of_document (d : Document) {whole cut : Bounds} (all : d.bounds? = some whole)
    (cutting : d.cuttingBounds? = some cut) : cut.Within whole := by
  rw [eq_of_ofList? all, eq_of_ofList? cutting]
  exact within_of_subset d.cuttingPoints_subset

/-- Bounds are valid exactly when their points have an extent along every axis. Then each face touches a point. No
coordinate lies beyond a face, the order of the points and copies of them make no difference to the numbers, and the
bounds of the cut points of a document lie within the bounds of all of its points. -/
theorem exact_hull (ps : List Position) :
    ((ofList ps).isValid = true ↔ ∀ axis, Reaches ps axis) ∧
    ((ofList ps).isValid = true → ∀ axis, (∃ p ∈ ps, (ofList ps).low axis == p.along axis) ∧
      ∃ p ∈ ps, (ofList ps).high axis == p.along axis) ∧
    (∀ axis, ∀ p ∈ ps, (p.along axis).isNaN = false →
      (ofList ps).low axis ≤ p.along axis ∧ p.along axis ≤ (ofList ps).high axis) ∧
    (∀ qs, (∀ p, p ∈ qs ↔ p ∈ ps) → Agrees (ofList qs) (ofList ps)) ∧
    ∀ (d : Document) (whole cut : Bounds), d.bounds? = some whole → d.cuttingBounds? = some cut →
      cut.Within whole := by
  refine ⟨isValid_iff_reaches, fun valid axis => ?_, fun _ _ => between_faces, fun _ => agrees_of_same,
    fun d _ _ => within_of_document d⟩
  exact faces_touch (isValid_iff_reaches.mp valid axis)

/-- A travel from a place of unknown height, and a cut. -/
def plunge : Document :=
  { points := [⟨-5, 0, Single.notANumber⟩, ⟨0, 0, -1⟩, ⟨10, 4, -1⟩]
    travelFlags := [true, false, false] }

theorem plunge_hull :
    plunge.bounds? = some ⟨-5, 10, 0, 4, -1, -1⟩ ∧ plunge.cuttingBounds? = some ⟨0, 10, 0, 4, -1, -1⟩ ∧
      (⟨0, 10, 0, 4, -1, -1⟩ : Bounds).Within ⟨-5, 10, 0, 4, -1, -1⟩ ∧
      Agrees (ofList plunge.points.reverse) (ofList plunge.points) := by
  obtain ⟨-, -, -, same, within⟩ := exact_hull plunge.points
  have whole : plunge.bounds? = some ⟨-5, 10, 0, 4, -1, -1⟩ := by decide +kernel
  have cut : plunge.cuttingBounds? = some ⟨0, 10, 0, 4, -1, -1⟩ := by decide +kernel
  exact ⟨whole, cut, within plunge _ _ whole cut, same _ fun _ => List.mem_reverse⟩

end Bounds

end Toolpath
