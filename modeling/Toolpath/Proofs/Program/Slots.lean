import Toolpath.Proofs.Program.Growth
import Toolpath.Proofs.Program.Words

/-!
# The slots of a line

Each word of a line is written into one slot or into none, and a slot keeps the last word that is written into it.
`Block.ofWords_eq` says that a block is what its slots hold, so that words of different slots may stand in any order.
This is so although modes are set while a line is still being read: `State.gather_eq` says that nothing depends on
when they are.
-/

namespace Toolpath.Program

inductive Slot where
  | motion
  | plane
  | distance
  | origin
  | x
  | y
  | z
  | i
  | j
  | k
  | r
deriving DecidableEq, Repr

def Code.slot? : Code → Option Slot
  | .rapid | .linear | .arcClockwise | .arcCounterClockwise => some .motion
  | .planeXY | .planeZX | .planeYZ => some .plane
  | .absolute | .incremental => some .distance
  | .setOrigin => some .origin
  | .unsupported _ => none

namespace Word

def slot? : Word → Option Slot
  | .code c => c.slot?
  | .x _ => some .x
  | .y _ => some .y
  | .z _ => some .z
  | .i _ => some .i
  | .j _ => some .j
  | .k _ => some .k
  | .r _ => some .r
  | .other _ _ => none

def plane? : Word → Option Plane
  | .code c => c.plane?
  | _ => none

def absolute? : Word → Option Bool
  | .code c => c.absolute?
  | _ => none

/-- The number of a coordinate, of an offset or of a radius. -/
def number? : Word → Option Float32
  | .x v | .y v | .z v | .i v | .j v | .k v | .r v => some v
  | .code _ | .other _ _ => none

end Word

/-- The words written into a slot, one after the other. -/
def written (slot : Slot) (ws : List Word) : List Word := ws.filter fun w => w.slot? = some slot

/-- The word that a slot holds in the end. -/
def lastIn (slot : Slot) (ws : List Word) : Option Word := (written slot ws).getLast?

/-- Every slot holds the same word in the end. -/
def SameSlots (ws vs : List Word) : Prop := ∀ slot, lastIn slot ws = lastIn slot vs

theorem lastIn_concat (slot : Slot) (ws : List Word) (w : Word) :
    lastIn slot (ws ++ [w]) = if w.slot? = some slot then some w else lastIn slot ws := by
  unfold lastIn written
  by_cases fills : w.slot? = some slot <;> simp [fills]

namespace Block

/-- The block whose slots hold the given words. -/
def ofSlots (last : Slot → Option Word) : Block :=
  { motion := (last .motion).bind Word.motion?
    plane := (last .plane).bind Word.plane?
    absolute := (last .distance).bind Word.absolute?
    setsOrigin := (last .origin).isSome
    x := (last .x).bind Word.number?
    y := (last .y).bind Word.number?
    z := (last .z).bind Word.number?
    i := (last .i).bind Word.number?
    j := (last .j).bind Word.number?
    k := (last .k).bind Word.number?
    r := (last .r).bind Word.number? }

/-- One more word goes into its own slot and leaves the others alone. -/
theorem add_ofSlots (last : Slot → Option Word) (w : Word) :
    (ofSlots last).add w = ofSlots fun slot => if w.slot? = some slot then some w else last slot := by
  cases w with
  | code c =>
    cases c <;> simp [ofSlots, add, addCode, Word.slot?, Code.slot?, Word.motion?, Code.motion?, Word.plane?,
      Code.plane?, Word.absolute?, Code.absolute?]
  | _ => simp [ofSlots, add, Word.slot?, Word.number?]

theorem ofWords_eq (ws : List Word) : ofWords ws = ofSlots fun slot => lastIn slot ws := by
  induction ws using List.reverseRecOn with
  | nil => rfl
  | append_singleton ws w ih =>
    rw [ofWords_concat, ih, add_ofSlots]
    simp only [lastIn_concat]

theorem ofWords_of_sameSlots {ws vs : List Word} (same : SameSlots ws vs) : ofWords ws = ofWords vs := by
  rw [ofWords_eq, ofWords_eq, funext same]

end Block

/-! ### Reading word by word -/

namespace State

/-- The words of a line are read one by one. A word that sets a mode does so at once, and whatever else it says waits
for the end of the line. -/
def gather (s : State) (ws : List Word) : State × Block :=
  ws.foldl (fun read w => (read.1.withModes (Block.ofWords [w]), read.2.add w)) (s, {})

theorem withModes_add (s : State) (b : Block) (w : Word) :
    (s.withModes b).withModes (Block.ofWords [w]) = s.withModes (b.add w) := by
  cases w with
  | code c => cases c <;> rfl
  | _ => rfl

/-- The modes are the same after the line, whether they are set as the words come or all at the end. -/
theorem gather_eq (s : State) (ws : List Word) : s.gather ws = (s.withModes (Block.ofWords ws), Block.ofWords ws) := by
  induction ws using List.reverseRecOn with
  | nil => rfl
  | append_singleton ws w ih =>
    have next : s.gather (ws ++ [w]) = ((s.gather ws).1.withModes (Block.ofWords [w]), (s.gather ws).2.add w) := by
      rw [gather, List.foldl_append]
      rfl
    rw [next, ih, withModes_add, Block.ofWords_concat]

theorem withModes_withModes (s : State) (b : Block) : (s.withModes b).withModes b = s.withModes b := by
  cases plane : b.plane <;> cases absolute : b.absolute <;> simp [withModes, plane, absolute]

/-- The line is interpreted from the state that reading it has left behind. -/
theorem step_gather (settings : ArcSettings) (fresh : Bool) (s : State) (ws : List Word) :
    (s.gather ws).1.step settings fresh (s.gather ws).2 = s.step settings fresh (Block.ofWords ws) := by
  rw [gather_eq]
  simp only [step, withModes_withModes]

end State

/-! ### Words in another order -/

/-- The slot that the text of a word writes into. -/
def slotOf? (word : List Char) : Option Slot := (Word.ofText? word).bind Word.slot?

/-- Words of different slots change places, and words without a slot come or go. Those are words that spell nothing,
unsupported codes, and all letters that nothing depends on. -/
inductive Rearranged : List (List Char) → List (List Char) → Prop where
  | refl (words : List (List Char)) : Rearranged words words
  | swap (before after : List (List Char)) {u v : List Char} (apart : slotOf? u ≠ slotOf? v) :
      Rearranged (before ++ u :: v :: after) (before ++ v :: u :: after)
  | drop (before after : List (List Char)) {u : List Char} (idle : slotOf? u = none) :
      Rearranged (before ++ u :: after) (before ++ after)
  | symm {words others : List (List Char)} (turned : Rearranged others words) : Rearranged words others
  | trans {words others rest : List (List Char)} (first : Rearranged words others)
      (second : Rearranged others rest) : Rearranged words rest

/-- The word of a text if it writes into the slot. -/
def wordIn (slot : Slot) (word : List Char) : Option Word :=
  (Word.ofText? word).filter fun w => w.slot? = some slot

theorem written_filterMap (slot : Slot) (words : List (List Char)) :
    written slot (words.filterMap Word.ofText?) = words.filterMap (wordIn slot) :=
  List.filter_filterMap

theorem wordIn_eq_none {slot : Slot} {word : List Char} (other : slotOf? word ≠ some slot) :
    wordIn slot word = none := by
  unfold slotOf? at other
  unfold wordIn
  cases read : Word.ofText? word with
  | none => rfl
  | some w =>
    rw [read] at other
    simpa [Option.filter] using other

theorem written_of_rearranged {words others : List (List Char)} (rearranged : Rearranged words others) (slot : Slot) :
    words.filterMap (wordIn slot) = others.filterMap (wordIn slot) := by
  induction rearranged with
  | refl => rfl
  | @swap before after u v apart =>
    have one : wordIn slot u = none ∨ wordIn slot v = none := by
      by_cases first : slotOf? u = some slot
      · exact Or.inr (wordIn_eq_none fun second => apart (first.trans second.symm))
      · exact Or.inl (wordIn_eq_none first)
    rw [List.filterMap_append, List.filterMap_append]
    congr 1
    simp only [List.filterMap_cons]
    rcases one with none | none
    · rw [none]
    · rw [none]
  | @drop before after u idle =>
    have passed : wordIn slot u = none := wordIn_eq_none (by simp [idle])
    rw [List.filterMap_append, List.filterMap_append, List.filterMap_cons, passed]
  | symm _ ih => exact ih.symm
  | trans _ _ first second => exact first.trans second

theorem sameSlots_of_rearranged {code other : List Char} (rearranged : Rearranged (Text.words code) (Text.words other)) :
    SameSlots (Word.ofLine code) (Word.ofLine other) := by
  intro slot
  unfold lastIn Word.ofLine
  rw [written_filterMap, written_filterMap, written_of_rearranged rearranged slot]

/-- The two lines do the same in every state, and report the same. -/
theorem Run.feed_of_sameSlots (settings : ArcSettings) (run : Run) {line other code rest : List Char}
    (reads : interpretable? line = some code) (readsOther : interpretable? other = some rest)
    (same : SameSlots (Word.ofLine code) (Word.ofLine rest)) :
    run.feed settings line = run.feed settings other ∧ run.reported settings line = run.reported settings other := by
  have block : Block.ofLine code = Block.ofLine rest := Block.ofWords_of_sameSlots same
  constructor
  · rw [feed_of_code settings run reads, feed_of_code settings run readsOther]
    simp only [interpret, block]
  · simp only [reported, reads, readsOther, block]

/-- Two lines do the same if each slot holds the same word in the end, and so they do when words of different slots
change places or words without a slot come or go. It makes no difference that the modes of a line are set while it is
being read. -/
theorem last_words_decide (settings : ArcSettings) (run : Run) {line other code rest : List Char}
    (reads : interpretable? line = some code) (readsOther : interpretable? other = some rest) :
    (SameSlots (Word.ofLine code) (Word.ofLine rest) →
      run.feed settings line = run.feed settings other ∧ run.reported settings line = run.reported settings other) ∧
    (Rearranged (Text.words code) (Text.words rest) →
      run.feed settings line = run.feed settings other ∧ run.reported settings line = run.reported settings other) ∧
    ∀ fresh, run.state.step settings fresh (Block.ofLine code) =
      (run.state.gather (Word.ofLine code)).1.step settings fresh (run.state.gather (Word.ofLine code)).2 := by
  refine ⟨Run.feed_of_sameSlots settings run reads readsOther, ?_, ?_⟩
  · intro rearranged
    exact Run.feed_of_sameSlots settings run reads readsOther (sameSlots_of_rearranged rearranged)
  · intro fresh
    exact (State.step_gather settings fresh run.state (Word.ofLine code)).symm

/-- A coordinate given twice, modes behind coordinates, a feed rate and a word that spells nothing. -/
theorem shuffled_line_same :
    let run : Run := Run.feed {} {} "G0 X1".toList
    run.feed {} "X3 Y2 G91 G2 F100 I1 X5 (slow)".toList = run.feed {} "foo G2 X5 I1 G4 Y2 G91".toList ∧
      run.feed {} "G1 X5 F100".toList = run.feed {} "X5 G1".toList := by
  intro run
  have line : interpretable? "X3 Y2 G91 G2 F100 I1 X5 (slow)".toList = some "X3 Y2 G91 G2 F100 I1 X5".toList := by
    decide +kernel
  have other : interpretable? "foo G2 X5 I1 G4 Y2 G91".toList = some "foo G2 X5 I1 G4 Y2 G91".toList := by
    decide +kernel
  have same : SameSlots (Word.ofLine "X3 Y2 G91 G2 F100 I1 X5".toList) (Word.ofLine "foo G2 X5 I1 G4 Y2 G91".toList) := by
    intro slot
    cases slot <;> decide +kernel
  have plain : interpretable? "G1 X5 F100".toList = some "G1 X5 F100".toList := by decide +kernel
  have turned : interpretable? "X5 G1".toList = some "X5 G1".toList := by decide +kernel
  have rearranged : Rearranged (Text.words "G1 X5 F100".toList) (Text.words "X5 G1".toList) := by
    have words : Text.words "G1 X5 F100".toList = ["G1".toList, "X5".toList, "F100".toList] := by decide +kernel
    have fewer : Text.words "X5 G1".toList = ["X5".toList, "G1".toList] := by decide +kernel
    rw [words, fewer]
    exact .trans (.swap [] ["F100".toList] (by decide +kernel)) (.drop ["X5".toList, "G1".toList] [] (by decide +kernel))
  exact ⟨((last_words_decide {} run line other).1 same).1, ((last_words_decide {} run plain turned).2.1 rearranged).1⟩

end Toolpath.Program
