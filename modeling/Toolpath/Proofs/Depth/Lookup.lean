import Mathlib
import Toolpath.Proofs.Depth.Heights

/-!
# Finding the level of a height

A height belongs to the entry into which it was merged, the greatest one not above it. A lookup goes by another
rule: it takes the first entry that is not below the height by more than the tolerance, and then asks whether that
entry is near. Where the two rules agree, and when the level of an entry lies between zero and one, is said by
`level_found_iff`, and by `entry_found_iff` for the heights that are entries themselves.
-/

namespace Toolpath.DepthMap

open Position (tolerance)
open Single (InRange beq_iff_extended extended_eq infinity isFinite_sub_iff isNaN_of_isFinite le_iff lt_asymm lt_iff
  lt_iff_extended rounded_mono rounded_nonneg rounds_sub sub_eq_infinity value)

variable {m : DepthMap} {c l : DepthLevel} {level low top z : Float32} {zs hs : List Float32}

/-- The entry into which a height was merged. -/
structure Merged (m : DepthMap) (z : Float32) (l : DepthLevel) : Prop where
  mem : l ∈ m.levels
  below : l.z ≤ z
  near : (z - l.z).abs ≤ tolerance
  greatest : ∀ other ∈ m.levels, other.z ≤ z → other.z ≤ l.z

instance (m : DepthMap) (z : Float32) (l : DepthLevel) : Decidable (Merged m z l) :=
  decidable_of_iff (l ∈ m.levels ∧ l.z ≤ z ∧ (z - l.z).abs ≤ tolerance ∧
      ∀ other ∈ m.levels, other.z ≤ z → other.z ≤ l.z)
    ⟨fun ⟨mem, below, near, greatest⟩ => ⟨mem, below, near, greatest⟩,
      fun ⟨mem, below, near, greatest⟩ => ⟨mem, below, near, greatest⟩⟩

/-- The lowest entry that is not below a height by more than the tolerance. -/
structure First (m : DepthMap) (z : Float32) (c : DepthLevel) : Prop where
  mem : c ∈ m.levels
  reached : ¬ c.z < z - tolerance
  passed : ∀ other ∈ m.levels, other.z < c.z → other.z < z - tolerance

instance (m : DepthMap) (z : Float32) (c : DepthLevel) : Decidable (First m z c) :=
  decidable_of_iff (c ∈ m.levels ∧ ¬ c.z < z - tolerance ∧
      ∀ other ∈ m.levels, other.z < c.z → other.z < z - tolerance)
    ⟨fun ⟨mem, reached, passed⟩ => ⟨mem, reached, passed⟩, fun ⟨mem, reached, passed⟩ => ⟨mem, reached, passed⟩⟩

/-! ### The search -/

theorem dropWhile_eq_cons_iff {bound : Float32} {levels : List DepthLevel}
    (ascending : levels.Pairwise fun a b => a.z < b.z) :
    (∃ rest, levels.dropWhile (fun l => l.z < bound) = c :: rest) ↔
      c ∈ levels ∧ ¬ c.z < bound ∧ ∀ other ∈ levels, other.z < c.z → other.z < bound := by
  induction levels with
  | nil => simp
  | cons l levels step =>
    obtain ⟨above, ascending⟩ := List.pairwise_cons.mp ascending
    by_cases passed : l.z < bound
    · rw [List.dropWhile_cons, if_pos (decide_eq_true passed), step ascending]
      constructor
      · rintro ⟨member, reached, earlier⟩
        exact ⟨List.mem_cons_of_mem _ member, reached, List.forall_mem_cons.mpr ⟨fun _ => passed, earlier⟩⟩
      · rintro ⟨member, reached, earlier⟩
        refine ⟨(List.mem_cons.mp member).resolve_left ?_, reached, (List.forall_mem_cons.mp earlier).2⟩
        rintro rfl
        exact reached passed
    · rw [List.dropWhile_cons, if_neg (by simpa using passed)]
      constructor
      · rintro ⟨rest, found⟩
        cases found
        refine ⟨List.mem_cons_self, passed, List.forall_mem_cons.mpr ⟨fun less => absurd less (lt_asymm less), ?_⟩⟩
        exact fun other member less => absurd less (lt_asymm (above other member))
      · rintro ⟨member, reached, earlier⟩
        rcases List.mem_cons.mp member with rfl | member
        · exact ⟨levels, rfl⟩
        · exact absurd (earlier l List.mem_cons_self (above c member)) passed

theorem levelOf?_eq_some_iff (ascending : m.levels.Pairwise fun a b => a.z < b.z) :
    m.levelOf? z = some level ↔ ∃ c, First m z c ∧ (c.z - z).abs ≤ tolerance ∧ c.level = level := by
  have search (c : DepthLevel) : (∃ rest, m.levels.dropWhile (fun l => l.z < z - tolerance) = c :: rest) ↔
      c ∈ m.levels ∧ ¬ c.z < z - tolerance ∧ ∀ other ∈ m.levels, other.z < c.z → other.z < z - tolerance :=
    dropWhile_eq_cons_iff ascending
  unfold levelOf?
  constructor
  · intro found
    split at found
    · cases found
    · next c rest head =>
      split at found
      · next near =>
        obtain ⟨member, reached, passed⟩ := (search c).mp ⟨rest, head⟩
        exact ⟨c, ⟨member, reached, passed⟩, near, Option.some.inj found⟩
      · cases found
  · rintro ⟨c, ⟨member, reached, passed⟩, near, rfl⟩
    obtain ⟨rest, head⟩ := (search c).mpr ⟨member, reached, passed⟩
    rw [head]
    exact if_pos near

/-! ### The levels of heights -/

theorem map_z_ofHeights (hs : List Float32) : (ofHeights hs).levels.map DepthLevel.z = hs := by
  unfold ofHeights
  split
  · rfl
  · rfl
  · rw [List.map_map]
    exact List.map_id _

theorem mem_heights_of_mem (member : l ∈ (ofList zs).levels) : l.z ∈ heights zs := by
  rw [← map_z_ofHeights (heights zs)]
  exact List.mem_map_of_mem member

theorem entry_finite (member : l ∈ (ofList zs).levels) : l.z.isFinite = true :=
  (mem_of_mem_heights (mem_heights_of_mem member)).2

theorem exists_entry {h : Float32} (member : h ∈ heights zs) : ∃ l ∈ (ofList zs).levels, l.z = h := by
  rw [← map_z_ofHeights (heights zs)] at member
  exact List.mem_map.mp member

theorem ascending_levels (zs : List Float32) : (ofList zs).levels.Pairwise fun a b => a.z < b.z := by
  have apart := apart_heights zs
  rw [← map_z_ofHeights (heights zs), List.pairwise_map] at apart
  refine apart.imp_of_mem fun left right apart => ?_
  exact (lt_iff (entry_finite left) (entry_finite right)).mpr apart.below

/-- A single height stands in the middle, and of several each has its share of the range. -/
theorem level_eq (apart : hs.Pairwise Apart) (member : l ∈ (ofHeights hs).levels) :
    l.level = 0.5 ∧ hs = [l.z] ∨
      ∃ low ∈ hs, ∃ top ∈ hs, (∀ h ∈ hs, value low ≤ value h ∧ value h ≤ value top) ∧ Apart low top ∧
        l.level = (l.z - low) / (top - low) := by
  unfold ofHeights at member
  split at member
  · cases member
  · obtain rfl := List.mem_singleton.mp member
    exact Or.inl ⟨rfl, rfl⟩
  · next low next later =>
    right
    obtain ⟨h, among, rfl⟩ := List.mem_map.mp member
    have first := (List.pairwise_cons.mp apart).1
    have last : (next :: later).getLast (by simp) ∈ next :: later := List.getLast_mem _
    have order : (low :: next :: later).Pairwise fun a b => value a ≤ value b := apart.imp fun apart => apart.below.le
    refine ⟨low, List.mem_cons_self, _, List.mem_cons_of_mem _ last, fun h among => ⟨?_, ?_⟩, first _ last, rfl⟩
    · rcases List.mem_cons.mp among with rfl | among
      · exact le_rfl
      · exact (first h among).below.le
    · exact order.rel_getLast_of_rel_getLast_getLast among le_rfl

theorem not_between_notANumber : ¬ (0 ≤ infinity / infinity ∧ infinity / infinity ≤ 1) := by decide +kernel

section Share

variable (lowFinite : low.isFinite = true) (zFinite : z.isFinite = true) (topFinite : top.isFinite = true)
  (above : value low ≤ value z) (below : value z ≤ value top)
include lowFinite zFinite topFinite above below

/-- A range beyond the greatest number leaves nothing of a share, and no number of a share that is beyond it, too. -/
theorem share_between_iff (apart : Apart low top) :
    0 ≤ (z - low) / (top - low) ∧ (z - low) / (top - low) ≤ 1 ↔ (z - low).isFinite = true := by
  have zero : (0 : Float32).isFinite = true ∧ value 0 = 0 := by decide +kernel
  have one : (1 : Float32).isFinite = true ∧ value 1 = 1 := by decide +kernel
  have part := rounds_sub zFinite lowFinite
  have range := rounds_sub topFinite lowFinite
  by_cases whole : (top - low).isFinite = true
  · have finite : (z - low).isFinite = true := by
      refine part.finite_iff.mpr (Single.inRange_of_abs_le ?_ (range.finite_iff.mp whole))
      rw [abs_of_nonneg (by linarith), abs_of_nonneg (by linarith)]
      linarith
    have least : 0 ≤ value (z - low) := (part.value finite).symm ▸ rounded_nonneg (by linarith)
    have most : value (z - low) ≤ value (top - low) := by
      rw [part.value finite, range.value whole]
      exact rounded_mono (by linarith)
    have some : 0 < value (top - low) := by
      have far := apart.far
      rw [near_iff topFinite lowFinite, abs_of_nonneg (rounded_nonneg (by linarith)), not_le] at far
      rw [range.value whole]
      exact value_tolerance_pos.trans far
    obtain ⟨result, nonneg, atMost⟩ := Single.value_share finite whole some least most
    rw [le_iff zero.1 result, le_iff result one.1, zero.2, one.2]
    exact iff_of_true ⟨nonneg, atMost⟩ finite
  · rw [sub_eq_infinity topFinite lowFinite (by linarith) whole]
    by_cases finite : (z - low).isFinite = true
    · obtain ⟨result, nothing⟩ := Single.div_infinity finite
      rw [le_iff zero.1 result, le_iff result one.1, zero.2, one.2, nothing]
      exact iff_of_true ⟨le_rfl, zero_le_one⟩ finite
    · rw [sub_eq_infinity zFinite lowFinite above finite]
      exact iff_of_false not_between_notANumber (by decide +kernel)

end Share

/-- The level of an entry lies between zero and one, unless the entry is out of reach of the lowest. -/
theorem level_between_iff (member : l ∈ (ofList zs).levels) :
    0 ≤ l.level ∧ l.level ≤ 1 ↔ ∀ other ∈ (ofList zs).levels, other.z ≤ l.z → (l.z - other.z).isFinite = true := by
  have lMem := mem_heights_of_mem member
  have lFinite := entry_finite member
  rcases level_eq (apart_heights zs) member with ⟨middle, alone⟩ | ⟨low, lowMem, top, topMem, between, apart, share⟩
  · rw [middle]
    refine iff_of_true (by decide +kernel) fun other among _ => ?_
    have same := mem_heights_of_mem among
    rw [alone, List.mem_singleton] at same
    rw [same, isFinite_sub_iff, sub_self]
    exact ⟨lFinite, lFinite, by norm_num [InRange]⟩
  · have lowFinite := (mem_of_mem_heights lowMem).2
    obtain ⟨above, below⟩ := between l.z lMem
    rw [share, share_between_iff lowFinite lFinite (mem_of_mem_heights topMem).2 above below apart]
    constructor
    · intro finite other among under
      have oMem := mem_heights_of_mem among
      have oFinite := entry_finite among
      rw [le_iff oFinite lFinite] at under
      have least := (between other.z oMem).1
      rw [isFinite_sub_iff] at finite ⊢
      refine ⟨lFinite, oFinite, Single.inRange_of_abs_le ?_ finite.2.2⟩
      rw [abs_of_nonneg (by linarith), abs_of_nonneg (by linarith)]
      linarith
    · intro all
      obtain ⟨entry, among, rfl⟩ := exists_entry lowMem
      exact all entry among ((le_iff lowFinite lFinite).mpr above)

/-! ### Both rules -/

theorem merged_iff (finite : z.isFinite = true) :
    Merged (ofList zs) z l ↔ l ∈ (ofList zs).levels ∧ Covers l.z z := by
  constructor
  · rintro ⟨member, below, near, -⟩
    have lFinite := entry_finite member
    exact ⟨member, (le_iff lFinite finite).mp below, near⟩
  · rintro ⟨member, covers⟩
    have lMem := mem_heights_of_mem member
    have lFinite := entry_finite member
    refine ⟨member, (le_iff lFinite finite).mpr covers.below, covers.near, fun other among below => ?_⟩
    have oMem := mem_heights_of_mem among
    have oFinite := entry_finite among
    exact (le_iff oFinite lFinite).mpr (covers.greatest lMem oMem finite ((le_iff oFinite finite).mp below))

theorem entry_eq {a b : DepthLevel} (left : a ∈ (ofList zs).levels) (right : b ∈ (ofList zs).levels)
    (same : value a.z = value b.z) : a = b := by
  rcases eq_or_apart (mem_heights_of_mem left) (mem_heights_of_mem right) with height | apart | apart
  · have distinct : ((ofList zs).levels.map DepthLevel.z).Nodup := by
      refine (List.pairwise_map.mpr (ascending_levels zs)).imp fun less => ?_
      rintro rfl
      exact lt_asymm less less
    exact List.inj_on_of_nodup_map distinct left right height
  · exact absurd same apart.below.ne
  · exact absurd same apart.below.ne'

theorem apart_of_lt {a b : DepthLevel} (left : a ∈ (ofList zs).levels) (right : b ∈ (ofList zs).levels)
    (less : a.z < b.z) : Apart a.z b.z := by
  rw [lt_iff (entry_finite left) (entry_finite right)] at less
  rcases eq_or_apart (mem_heights_of_mem left) (mem_heights_of_mem right) with same | apart | apart
  · exact absurd (congrArg value same) less.ne
  · exact apart
  · exact absurd apart.below less.asymm

theorem First.unique {a b : DepthLevel} (left : First (ofList zs) z a) (right : First (ofList zs) z b) : a = b := by
  have aFinite := entry_finite left.mem
  have bFinite := entry_finite right.mem
  rcases lt_trichotomy (value a.z) (value b.z) with less | same | more
  · exact absurd (right.passed a left.mem ((lt_iff aFinite bFinite).mpr less)) left.reached
  · exact entry_eq left.mem right.mem same
  · exact absurd (left.passed b right.mem ((lt_iff bFinite aFinite).mpr more)) right.reached

section Entry

variable {other : DepthLevel} (member : l ∈ (ofList zs).levels)
include member

/-- A search for an entry whose rounded bound is itself a lower entry stops there. -/
theorem entry_lost (among : other ∈ (ofList zs).levels) (less : other.z < l.z) (same : other.z == l.z - tolerance) :
    (ofList zs).levelOf? l.z = none := by
  have oNumber := isNaN_of_isFinite (entry_finite among)
  have number := (bound_between (entry_finite member)).1
  rw [beq_iff_extended oNumber number] at same
  have first : First (ofList zs) l.z other := by
    refine ⟨among, ?_, fun third included under => ?_⟩
    · rw [lt_iff_extended oNumber number, same]
      exact lt_irrefl _
    · have tNumber := isNaN_of_isFinite (entry_finite included)
      rw [lt_iff_extended tNumber oNumber] at under
      rwa [lt_iff_extended tNumber number, ← same]
  rw [Option.eq_none_iff_forall_ne_some]
  intro level found
  obtain ⟨c, reached, near, -⟩ := (levelOf?_eq_some_iff (ascending_levels zs)).mp found
  obtain rfl := first.unique reached
  exact (apart_of_lt among member less).far ((near_comm (entry_finite among) (entry_finite member)).mp near)

theorem entry_found (clear : ∀ other ∈ (ofList zs).levels, other.z < l.z → ¬ other.z == l.z - tolerance) :
    (ofList zs).levelOf? l.z = some l.level := by
  have finite := entry_finite member
  obtain ⟨number, below, above⟩ := bound_between finite
  have first : First (ofList zs) l.z l := by
    refine ⟨member, ?_, fun other among less => ?_⟩
    · rwa [lt_iff_extended (isNaN_of_isFinite finite) number, extended_eq finite, not_lt]
    · have oFinite := entry_finite among
      have distinct := clear other among less
      rw [beq_iff_extended (isNaN_of_isFinite oFinite) number, extended_eq oFinite] at distinct
      rw [lt_iff_extended (isNaN_of_isFinite oFinite) number, extended_eq oFinite]
      exact lt_of_le_of_ne (above other.z oFinite (apart_of_lt among member less)) distinct
  exact (levelOf?_eq_some_iff (ascending_levels zs)).mpr ⟨l, first, near_of_value_eq finite finite rfl, rfl⟩

/-- An entry is found by its own height, unless the rounded bound of the search is itself a lower entry. -/
theorem entry_found_iff : (ofList zs).levelOf? l.z = some l.level ↔
    ∀ other ∈ (ofList zs).levels, other.z < l.z → ¬ other.z == l.z - tolerance := by
  constructor
  · intro found other among less same
    rw [entry_lost member among less same] at found
    cases found
  · exact entry_found member

end Entry

/-- Every height of the stream has one entry into which it was merged. Its lookup finds that level where the rounded
bound of the search lies above all lower entries and not above that entry, or else where a higher entry near the
height has the same level. -/
theorem level_found_iff (member : z ∈ zs) (finite : z.isFinite = true) :
    (∃! l, Merged (ofList zs) z l) ∧ ∀ l, Merged (ofList zs) z l →
      ((ofList zs).levelOf? z = some l.level ↔ First (ofList zs) z l ∨
        ∃ c, First (ofList zs) z c ∧ l.z < c.z ∧ (c.z - z).abs ≤ tolerance ∧ c.level = l.level) ∧
      (0 ≤ l.level ∧ l.level ≤ 1 ↔
        ∀ other ∈ (ofList zs).levels, other.z ≤ l.z → (l.z - other.z).isFinite = true) := by
  constructor
  · obtain ⟨h, hMem, covers⟩ := covered_heights member finite
    obtain ⟨l, lMem, rfl⟩ := exists_entry hMem
    refine ⟨l, (merged_iff finite).mpr ⟨lMem, covers⟩, fun other merged => ?_⟩
    obtain ⟨oMem, oCovers⟩ := (merged_iff finite).mp merged
    have oHeight := mem_heights_of_mem oMem
    exact entry_eq oMem lMem (le_antisymm (covers.greatest hMem oHeight finite oCovers.below)
      (oCovers.greatest oHeight hMem finite covers.below))
  · intro l merged
    obtain ⟨lMem, covers⟩ := (merged_iff finite).mp merged
    have lFinite := entry_finite lMem
    refine ⟨?_, level_between_iff lMem⟩
    rw [levelOf?_eq_some_iff (ascending_levels zs)]
    constructor
    · rintro ⟨c, first, near, same⟩
      have cMem := mem_heights_of_mem first.mem
      have cFinite := entry_finite first.mem
      rcases eq_or_apart (mem_heights_of_mem lMem) cMem with height | apart | apart
      · exact Or.inl (entry_eq lMem first.mem (congrArg value height) ▸ first)
      · exact Or.inr ⟨c, first, (lt_iff lFinite cFinite).mpr apart.below, near, same⟩
      · -- An entry below the own one is too far from the height.
        have near : Near z c.z := (near_comm cFinite finite).mp near
        exact absurd (near.between apart.below.le covers.below cFinite lFinite finite).1 apart.far
    · rintro (first | ⟨c, first, -, near, same⟩)
      · exact ⟨l, first, (near_comm finite lFinite).mp covers.near, rfl⟩
      · exact ⟨c, first, near, same⟩

/-- Layers with small steps in between. -/
def layers : List Float32 := [-1.00005, -1, 0, 0.00005, 4]

theorem heights_layers : heights layers = [-1.00005, 0, 4] := by
  rw [layers, heights_of_ordered (by decide +kernel) (by decide +kernel)]
  decide +kernel

theorem merged_layer_found :
    0.00005 ∈ layers ∧ (0.00005 : Float32).isFinite = true ∧ ∃ l, Merged (ofList layers) 0.00005 l ∧
      (ofList layers).levelOf? 0.00005 = some l.level ∧ 0 ≤ l.level ∧ l.level ≤ 1 := by
  have member : 0.00005 ∈ layers := by simp [layers]
  have finite : (0.00005 : Float32).isFinite = true := by decide +kernel
  have merged : Merged (ofList layers) 0.00005 ⟨0, 1.00005 / 5.00005⟩ := by
    rw [ofList, heights_layers]
    decide +kernel
  obtain ⟨found, between⟩ := (level_found_iff member finite).2 _ merged
  refine ⟨member, finite, _, merged, found.mpr (Or.inl ?_), between.mpr ?_⟩
  · rw [ofList, heights_layers]
    decide +kernel
  · rw [ofList, heights_layers]
    decide +kernel

/-- Heights that are in the stream and do not find the level of their own entry: one stops at a lower entry that is
not near, one passes over its own entry to the next, and one has a level that is no number. -/
theorem own_level_missed :
    (ofList [1, 1.0001]).levelOf? 1.0001 = none ∧
      (Merged (ofList [-3e-12, 1e-4, 1.0000001e-4]) 1e-4 ⟨-3e-12, 0⟩ ∧
        (ofList [-3e-12, 1e-4, 1.0000001e-4]).levelOf? 1e-4 = some 1) ∧
      (ofList [-3e38, 3e38]).levelOf? 3e38 = some Single.notANumber := by
  refine ⟨?_, ?_, ?_⟩ <;>
    · rw [ofList, heights_of_ordered (by decide +kernel) (by decide +kernel)]
      decide +kernel

end Toolpath.DepthMap
