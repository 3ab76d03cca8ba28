import Mathlib
import Toolpath.Arc.Basic
import Toolpath.Proofs.Binary.Finite

/-!
# The sweep of an arc

Unwinding is a loop that adds full turns to an angle, or takes them. `Unwinds` is this loop without a bound on
its turns. For angles within half a turn of zero it ends after one turn at most, and what is left between the
angles is a sweep in the direction of the arc: never more than a full turn by more than a rounding, and a
full turn on an arc that closes.
-/

namespace Toolpath

open Single

namespace Turn

/-- The sign of the sweep is that of the direction. -/
def Leads : Turn → Float32 → Prop
  | .clockwise, sweep => sweep < 0
  | .counterClockwise, sweep => 0 < sweep

instance : (turn : Turn) → (sweep : Float32) → Decidable (turn.Leads sweep)
  | .clockwise, sweep => inferInstanceAs (Decidable (sweep < 0))
  | .counterClockwise, sweep => inferInstanceAs (Decidable (0 < sweep))

/-- A value counted in the direction of the turn. -/
def orient : Turn → ℚ → ℚ
  | .clockwise, v => -v
  | .counterClockwise, v => v

variable (turn : Turn) (v w : ℚ)

theorem orient_add : turn.orient (v + w) = turn.orient v + turn.orient w := by
  cases turn
  · exact neg_add v w
  · rfl

theorem orient_sub : turn.orient (v - w) = turn.orient v - turn.orient w := by
  cases turn
  · exact (neg_sub v w).trans (neg_sub_neg v w).symm
  · rfl

theorem orient_orient : turn.orient (turn.orient v) = v := by
  cases turn
  · exact neg_neg v
  · rfl

theorem abs_orient : |turn.orient v| = |v| := by
  cases turn
  · exact abs_neg v
  · rfl

theorem rounded_orient : rounded (turn.orient v) = turn.orient (rounded v) := by
  cases turn
  · exact rounded_neg v
  · rfl

theorem orient_ne_zero {v : ℚ} (some : v ≠ 0) : turn.orient v ≠ 0 := by
  cases turn
  · exact neg_ne_zero.mpr some
  · exact some

end Turn

namespace Arc

/-- At most half a turn from zero, which is what a direction in the plane is measured by. -/
def InHalfTurn (angle : Float32) : Prop := -Single.pi ≤ angle ∧ angle ≤ Single.pi

/-- The end angle lies on the side of the start angle that the turn comes from. -/
def Behind : Turn → Float32 → Float32 → Prop
  | .clockwise, start, finish => start < finish
  | .counterClockwise, start, finish => finish < start

/-- One turn of the loop. -/
def advance : Turn → Float32 → Float32
  | .clockwise, finish => finish - Single.tau
  | .counterClockwise, finish => finish + Single.tau

/-- The loop, as long as the end angle lies behind: how often it turns, and the angle that it ends with. -/
inductive Unwinds (turn : Turn) (start : Float32) : ℕ → Float32 → Float32 → Prop
  | ahead {finish : Float32} (there : ¬ Behind turn start finish) : Unwinds turn start 0 finish finish
  | again {turns : ℕ} {finish result : Float32} (behind : Behind turn start finish)
    (later : Unwinds turn start turns (advance turn finish) result) : Unwinds turn start (turns + 1) finish result

/-- What a sweep is to be, whichever way the arc turns. -/
structure Resolved (turn : Turn) (closed : Bool) (sweep : Float32) : Prop where
  leads : turn.Leads sweep
  least : leastAngle ≤ sweep.abs
  most : sweep.abs ≤ Single.tau + 1e-6
  full : closed = true → (sweep.abs - Single.tau).abs ≤ 1e-3

variable {turn : Turn} {start finish : Float32}

/-- The loop has one run at most. -/
theorem Unwinds.unique {m n : ℕ} {p q : Float32} (one : Unwinds turn start m finish p)
    (other : Unwinds turn start n finish q) : m = n ∧ p = q := by
  induction one generalizing n with
  | ahead there =>
    cases other with
    | ahead => exact ⟨rfl, rfl⟩
    | again behind => exact absurd behind there
  | again behind later ih =>
    cases other with
    | ahead there => exact absurd behind there
    | again _ later' =>
      obtain ⟨turns, rfl⟩ := ih later'
      exact ⟨congrArg (· + 1) turns, rfl⟩

theorem unwind_of_ahead (there : ¬ Behind turn start finish) : unwind turn start finish = finish := by
  cases turn <;> exact if_neg there

theorem unwind_of_behind (behind : Behind turn start finish) (there : ¬ Behind turn start (advance turn finish)) :
    unwind turn start finish = advance turn finish := by
  cases turn <;> exact (if_pos behind).trans (if_neg there)

/-! ### The angles -/

theorem value_pi : value Single.pi = 13176795 / 2 ^ 22 := by decide +kernel

theorem value_tau : value Single.tau = 13176795 / 2 ^ 21 := by decide +kernel

theorem isFinite_tau : Single.tau.isFinite = true := by decide +kernel

theorem exact_pi : Exact (13176795 / 2 ^ 22) := by
  rw [← value_pi]
  exact exact_value Single.pi

theorem InHalfTurn.finite {angle : Float32} (within : InHalfTurn angle) : angle.isFinite = true :=
  isFinite_of_between within.1 within.2 (by decide +kernel) (by decide +kernel)

theorem InHalfTurn.abs_value_le {angle : Float32} (within : InHalfTurn angle) : |value angle| ≤ 13176795 / 2 ^ 22 := by
  have least : value (-Single.pi) = -(13176795 / 2 ^ 22) := by decide +kernel
  have low := (le_iff (by decide +kernel) within.finite).mp within.1
  have high := (le_iff within.finite (by decide +kernel)).mp within.2
  rw [least] at low
  rw [value_pi] at high
  exact abs_le.mpr ⟨low, high⟩

/-- A full turn carries an angle past every other one, and past those above it by no more than a full turn and a
rounding. -/
theorem rounded_turn {v w : ℚ} (hv : |v| ≤ 13176795 / 2 ^ 22) (hw : |w| ≤ 13176795 / 2 ^ 22) :
    v ≤ rounded (w + 13176795 / 2 ^ 21) ∧
      (w < v → rounded (w + 13176795 / 2 ^ 21) - v ≤ 13176795 / 2 ^ 21 + 1 / 2 ^ 21) := by
  obtain ⟨lowV, highV⟩ := abs_le.mp hv
  obtain ⟨lowW, highW⟩ := abs_le.mp hw
  constructor
  · refine highV.trans (le_rounded exact_pi ?_)
    linarith
  · intro less
    have pos : 0 < w + 13176795 / 2 ^ 21 := by linarith
    have unit : unitOf (w + 13176795 / 2 ^ 21) ≤ -20 := by
      apply unitOf_le pos.ne'
      · rw [abs_of_pos pos]
        norm_num at highW ⊢
        linarith
      · norm_num
    have near := (abs_le.mp (rounded_near (w + 13176795 / 2 ^ 21))).2
    have small : (2 : ℚ) ^ unitOf (w + 13176795 / 2 ^ 21) ≤ 2 ^ (-20 : ℤ) :=
      zpow_le_zpow_right₀ (by norm_num) unit
    norm_num at small near ⊢
    linarith

theorem inRange_of_small {v : ℚ} (small : |v| ≤ 2 ^ 10) : InRange v := by
  rw [InRange]
  norm_num at small ⊢
  linarith

/-! ### Unwinding -/

/-- The angle covered, counted in the direction of the turn. -/
def covered (turn : Turn) (start finish : Float32) : ℚ := turn.orient (value finish - value start)

theorem behind_iff (turn : Turn) (left : start.isFinite = true) (right : finish.isFinite = true) :
    Behind turn start finish ↔ covered turn start finish < 0 := by
  cases turn
  · exact (lt_iff left right).trans (by simp [covered, Turn.orient])
  · exact (lt_iff right left).trans (by simp [covered, Turn.orient])

theorem leads_iff (turn : Turn) {sweep : Float32} (finite : sweep.isFinite = true) :
    turn.Leads sweep ↔ 0 < turn.orient (value sweep) := by
  have zero : value 0 = 0 := by decide +kernel
  cases turn
  · exact (lt_iff finite (by decide)).trans (by simp [Turn.orient, zero])
  · exact (lt_iff (by decide) finite).trans (by simp [Turn.orient, zero])

theorem rounds_advance (turn : Turn) (finite : finish.isFinite = true) :
    Rounds (value finish + turn.orient (13176795 / 2 ^ 21)) (advance turn finish) := by
  rw [← value_tau]
  cases turn
  · have rounds := rounds_sub finite isFinite_tau
    rw [sub_eq_add_neg] at rounds
    exact rounds
  · exact rounds_add finite isFinite_tau

section HalfTurn

variable (turn) (hs : InHalfTurn start) (hf : InHalfTurn finish)
include hs hf

theorem advance_spec : (advance turn finish).isFinite = true ∧ 0 ≤ covered turn start (advance turn finish) ∧
    (Behind turn start finish → covered turn start (advance turn finish) ≤ 13176795 / 2 ^ 21 + 1 / 2 ^ 21) := by
  have rounds := rounds_advance turn hf.finite
  have finite : (advance turn finish).isFinite = true := by
    apply rounds.finite_iff.mpr
    apply inRange_of_small
    have := abs_add_le (value finish) (turn.orient (13176795 / 2 ^ 21))
    have small := hf.abs_value_le
    rw [turn.abs_orient] at this
    norm_num at this small ⊢
    linarith
  -- Seen in the direction of the turn, a full turn is added.
  have past : covered turn start (advance turn finish)
      = rounded (turn.orient (value finish) + 13176795 / 2 ^ 21) - turn.orient (value start) := by
    rw [covered, rounds.value finite, turn.orient_sub, ← turn.rounded_orient, turn.orient_add, turn.orient_orient]
  obtain ⟨ahead, most⟩ := rounded_turn (v := turn.orient (value start)) (w := turn.orient (value finish))
    (by rw [turn.abs_orient]; exact hs.abs_value_le) (by rw [turn.abs_orient]; exact hf.abs_value_le)
  rw [behind_iff turn hs.finite hf.finite, past, covered, turn.orient_sub, sub_neg]
  exact ⟨finite, sub_nonneg.mpr ahead, most⟩

theorem not_behind_advance : ¬ Behind turn start (advance turn finish) := by
  obtain ⟨finite, nonneg, -⟩ := advance_spec turn hs hf
  rw [behind_iff turn hs.finite finite]
  exact not_lt.mpr nonneg

/-- One turn suffices. -/
theorem unwinds_once : ∃ turns, turns ≤ 1 ∧ Unwinds turn start turns finish (unwind turn start finish) := by
  by_cases behind : Behind turn start finish
  · have there := not_behind_advance turn hs hf
    rw [unwind_of_behind behind there]
    exact ⟨1, le_rfl, .again behind (.ahead there)⟩
  · rw [unwind_of_ahead behind]
    exact ⟨0, zero_le_one, .ahead behind⟩

theorem unwind_spec : (unwind turn start finish).isFinite = true ∧ 0 ≤ covered turn start (unwind turn start finish) ∧
    covered turn start (unwind turn start finish) ≤ 13176795 / 2 ^ 21 + 1 / 2 ^ 21 := by
  by_cases behind : Behind turn start finish
  · obtain ⟨finite, nonneg, most⟩ := advance_spec turn hs hf
    rw [unwind_of_behind behind (not_behind_advance turn hs hf)]
    exact ⟨finite, nonneg, most behind⟩
  · rw [unwind_of_ahead behind]
    rw [behind_iff turn hs.finite hf.finite, not_lt] at behind
    refine ⟨hf.finite, behind, ?_⟩
    have apart := abs_sub (value finish) (value start)
    have first := hs.abs_value_le
    have second := hf.abs_value_le
    rw [← abs_of_nonneg behind, covered, turn.abs_orient]
    norm_num at *
    linarith

/-- The difference that a sweep is made of: finite, in the direction of the turn, and a full turn at most but for a
rounding. -/
theorem difference_spec :
    (unwind turn start finish - start).isFinite = true ∧
      |value (unwind turn start finish - start)| ≤ 13176796 / 2 ^ 21 ∧
      (value (unwind turn start finish - start) ≠ 0 → turn.Leads (unwind turn start finish - start)) := by
  obtain ⟨finite, nonneg, most⟩ := unwind_spec turn hs hf
  have rounds := rounds_sub finite hs.finite
  have size : |value (unwind turn start finish) - value start| ≤ 13176796 / 2 ^ 21 := by
    rw [← turn.abs_orient, ← covered, abs_of_nonneg nonneg]
    linarith
  have result : (unwind turn start finish - start).isFinite = true := by
    apply rounds.finite_iff.mpr
    apply inRange_of_small
    norm_num at size ⊢
    linarith
  have exact : Exact (13176796 / 2 ^ 21) := ⟨13176796, -21, by norm_num, by norm_num, by norm_num⟩
  rw [leads_iff turn result, rounds.value result]
  refine ⟨result, abs_rounded_le exact size, fun some => ?_⟩
  rw [← turn.rounded_orient]
  apply lt_of_le_of_ne (rounded_nonneg nonneg)
  rw [covered, turn.rounded_orient]
  exact (turn.orient_ne_zero some).symm

end HalfTurn

/-! ### The sweep -/

theorem resolved_full_turn (turn : Turn) (closed : Bool) : Resolved turn closed (turn.sign * Single.tau) := by
  cases turn
  · exact ⟨by decide +kernel, by decide +kernel, by decide +kernel, fun _ => by decide +kernel⟩
  · exact ⟨by decide +kernel, by decide +kernel, by decide +kernel, fun _ => by decide +kernel⟩

theorem sweepOf_eq_none_iff (turn : Turn) (closed : Bool) (start finish : Float32) :
    sweepOf turn closed start finish = none ↔
      closed = false ∧ (unwind turn start finish - start).abs < leastAngle := by
  unfold sweepOf
  dsimp only
  split
  · next small => cases closed <;> simp [small]
  · next large => split <;> simp [large]

/-- A difference is a sweep if it counts, and is near a full turn on an arc that closes. -/
theorem resolved_of_difference {closed : Bool} {sweep : Float32} (finite : sweep.isFinite = true)
    (most : |value sweep| ≤ 13176796 / 2 ^ 21) (leads : value sweep ≠ 0 → turn.Leads sweep)
    (large : ¬ sweep.abs < leastAngle) (near : closed = true → ¬ 1e-3 < (sweep.abs - Single.tau).abs) :
    Resolved turn closed sweep := by
  have size := value_abs finite
  have absFinite := isFinite_abs_of finite
  have least := le_of_not_lt absFinite (by decide +kernel) large
  have some : value sweep ≠ 0 := by
    intro zero
    have least := (le_iff (by decide +kernel) absFinite).mp least
    rw [size, zero, abs_zero] at least
    exact absurd least (by decide +kernel)
  have bound : value (Single.tau + 1e-6) = 13176797 / 2 ^ 21 := by decide +kernel
  refine ⟨leads some, least, ?_, fun isClosed => ?_⟩
  · apply (le_iff absFinite (by decide +kernel)).mpr
    rw [size, bound]
    linarith
  · have apart : (sweep.abs - Single.tau).isFinite = true := by
      rw [isFinite_sub_iff, size, value_tau]
      refine ⟨absFinite, isFinite_tau, inRange_of_small ?_⟩
      rw [abs_le]
      norm_num at most ⊢
      constructor <;> linarith [abs_nonneg (value sweep)]
    exact le_of_not_lt (by decide +kernel) (isFinite_abs_of apart) (near isClosed)

/-- Between angles within half a turn of zero, the end angle is unwound by one turn at most. There is no sweep
exactly when the angles then coincide on an arc that does not close; any other sweep leads in the direction of
the turn, through an angle that counts and, but for a rounding, no more than a full turn, and through a full turn on
a closed arc. On an open arc it is the difference of the unwound angles. -/
theorem sweepOf_resolved {start finish : Float32} (hs : InHalfTurn start) (hf : InHalfTurn finish) (turn : Turn)
    (closed : Bool) :
    (∃ turns, turns ≤ 1 ∧ Unwinds turn start turns finish (unwind turn start finish)) ∧
      (sweepOf turn closed start finish = none ↔
        closed = false ∧ (unwind turn start finish - start).abs < leastAngle) ∧
      ∀ sweep, sweepOf turn closed start finish = some sweep →
        Resolved turn closed sweep ∧ (closed = false → sweep = unwind turn start finish - start) := by
  obtain ⟨finite, most, leads⟩ := difference_spec turn hs hf
  refine ⟨unwinds_once turn hs hf, sweepOf_eq_none_iff turn closed start finish, fun sweep found => ?_⟩
  unfold sweepOf at found
  dsimp only at found
  split at found
  · split at found
    · next isClosed =>
      cases found
      exact ⟨resolved_full_turn turn closed, fun opened => absurd (isClosed.symm.trans opened) (by decide)⟩
    · cases found
  · next large =>
    split at found
    · next far =>
      cases found
      have isClosed := (Bool.and_eq_true_iff.mp far).1
      exact ⟨resolved_full_turn turn closed, fun opened => absurd (isClosed.symm.trans opened) (by decide)⟩
    · next near =>
      cases found
      rw [Bool.and_eq_true, decide_eq_true_eq, not_and] at near
      exact ⟨resolved_of_difference finite most leads large near, fun _ => rfl⟩

/-- Counter-clockwise across the cut at half a turn. -/
theorem sweep_across_cut : InHalfTurn 3 ∧ InHalfTurn (-3) ∧
    sweepOf .counterClockwise false 3 (-3) = some (-3 + Single.tau - 3) ∧
    Resolved .counterClockwise false (-3 + Single.tau - 3) ∧
    -3 + Single.tau - 3 = unwind .counterClockwise 3 (-3) - 3 := by
  have start : InHalfTurn 3 := ⟨by decide +kernel, by decide +kernel⟩
  have finish : InHalfTurn (-3) := ⟨by decide +kernel, by decide +kernel⟩
  have found : sweepOf .counterClockwise false 3 (-3) = some (-3 + Single.tau - 3) := by decide +kernel
  obtain ⟨resolved, same⟩ := (sweepOf_resolved start finish .counterClockwise false).2.2 _ found
  exact ⟨start, finish, found, resolved, same rfl⟩

/-! ### Other angles -/

/-- What the direction of a plane vector may be: an angle within half a turn of zero, or not a number. -/
def IsDirection (angle : Float32) : Prop := angle.isNaN = true ∨ InHalfTurn angle

theorem not_behind_of_isNaN (turn : Turn) (nan : start.isNaN = true ∨ finish.isNaN = true) :
    ¬ Behind turn start finish := by
  rcases nan with nan | nan
  · cases turn
    · exact (not_lt_of_isNaN nan finish).1
    · exact (not_lt_of_isNaN nan finish).2
  · cases turn
    · exact (not_lt_of_isNaN nan start).2
    · exact (not_lt_of_isNaN nan start).1

/-- Unwinding ends for whatever directions an arc may have. -/
theorem unwinds_of_isDirection (turn : Turn) (hs : IsDirection start) (hf : IsDirection finish) :
    ∃ turns, turns ≤ 1 ∧ Unwinds turn start turns finish (unwind turn start finish) := by
  have still (nan : start.isNaN = true ∨ finish.isNaN = true) :
      ∃ turns, turns ≤ 1 ∧ Unwinds turn start turns finish (unwind turn start finish) := by
    have there := not_behind_of_isNaN turn nan
    rw [unwind_of_ahead there]
    exact ⟨0, zero_le_one, .ahead there⟩
  rcases hs with nan | hs
  · exact still (Or.inl nan)
  · rcases hf with nan | hf
    · exact still (Or.inr nan)
    · exact unwinds_once turn hs hf

end Arc

end Toolpath
