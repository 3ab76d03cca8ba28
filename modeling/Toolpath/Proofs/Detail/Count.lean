import Toolpath.Proofs.Detail.Kept

/-!
# How many points thinning leaves

Thinning leaves the ends, the points on the stride and the sharp turns. A sharp turn on the stride is both
and is left only once. `length_thin_add_turnsOn` counts by that, so that polylines thinned in two strides can
be compared: a longer stride has fewer points on it, but it may also have fewer turns on it.
-/

namespace Toolpath.Detail

/-- The sharp turns of a polyline. -/
def turns (points : List Position) : Nat := (inner points).countP (sharpAt points)

/-- The sharp turns that lie on the stride, and would be left without being sharp. -/
def turnsOn (stride : Nat) (points : List Position) : Nat :=
  (inner points).countP fun i => i % stride == 0 && sharpAt points i

/-- The sharp turns that lie on the finer stride but not on the coarser one. -/
def turnsBetween (fine coarse : Nat) (points : List Position) : Nat :=
  (inner points).countP fun i => i % fine == 0 && !(i % coarse == 0) && sharpAt points i

variable {points : List Position}

theorem countP_or_add_countP_and (p q : Nat → Bool) (is : List Nat) :
    is.countP (fun i => p i || q i) + is.countP (fun i => p i && q i) = is.countP p + is.countP q := by
  induction is with
  | nil => rfl
  | cons i is ih =>
    simp only [List.countP_cons]
    cases p i <;> cases q i <;> simp <;> omega

theorem countP_multiples (stride n : Nat) : (List.range' 1 n).countP (fun i => i % stride == 0) = n / stride := by
  induction n with
  | zero => simp
  | succ n ih =>
    rw [List.range'_concat, List.countP_append, ih, Nat.succ_div]
    simp [List.countP_singleton, Nat.add_comm 1 n, Nat.dvd_iff_mod_eq_zero]

theorem length_thin_add_turnsOn (stride : Nat) (two : 2 ≤ points.length) :
    (thin stride points).length + turnsOn stride points =
      2 + (points.length - 2) / stride + turns points := by
  have left : (thin stride points).length = 2 + (inner points).countP (keepsInner stride points) := by
    rw [length_thin, kept_eq stride two, List.length_cons, List.length_append, ← List.countP_eq_length_filter]
    simp only [List.length_cons, List.length_nil]
    omega
  have either := countP_or_add_countP_and (fun i => i % stride == 0) (sharpAt points) (inner points)
  have multiples : (inner points).countP (fun i => i % stride == 0) = (points.length - 2) / stride :=
    countP_multiples stride _
  rw [multiples] at either
  have split : (inner points).countP (keepsInner stride points) + turnsOn stride points =
      (points.length - 2) / stride + turns points := either
  omega

/-- One stride leaves no more points than another exactly when the turns on the other one do not outnumber
those on it by more than the points that it saves. -/
theorem length_thin_le_iff (two : 2 ≤ points.length) (a b : Nat) :
    (thin a points).length ≤ (thin b points).length ↔
      (points.length - 2) / a + turnsOn b points ≤ (points.length - 2) / b + turnsOn a points := by
  have onA := length_thin_add_turnsOn a two
  have onB := length_thin_add_turnsOn b two
  omega

theorem turnsOn_le (fine coarse : Nat) (points : List Position) :
    turnsOn fine points ≤ turnsOn coarse points + turnsBetween fine coarse points := by
  unfold turnsOn turnsBetween
  induction inner points with
  | nil => simp
  | cons i is ih =>
    simp only [List.countP_cons]
    cases i % fine == 0 <;> cases i % coarse == 0 <;> cases sharpAt points i <;> simp <;> omega

end Toolpath.Detail
