import ScopedCheck.Proofs.Import.Positions
/-! # The ranges of the literals

The literals of a masked source are noted in bytes, in their order. They are filled, lie apart on character
boundaries of the text that is left, and so a binary search finds the one that holds an offset, if there is
one (`exists_masking_isSearchable`). -/

namespace ScopedCheck.Import

/-! ## Binary search -/

variable {α : Type}

/-- The first position between two bounds behind which a condition fails, halving what is left of them. -/
def partitionPointIn (before : α → Bool) (xs : List α) (low high : Nat) : Nat :=
  if low < high then
    let middle := low + (high - low) / 2
    if xs[middle]?.any before then partitionPointIn before xs (middle + 1) high
    else partitionPointIn before xs low middle
  else low
termination_by high - low

/-- The first position at which a condition fails, if it holds of a front of the list alone. -/
def partitionPoint (before : α → Bool) (xs : List α) : Nat := partitionPointIn before xs 0 xs.length

section Search

variable {before : α → Bool} {xs : List α}

/-- A condition that holds of an entry holds of all entries in front of it. -/
def IsPartitioned (before : α → Bool) (xs : List α) : Prop :=
  xs.Pairwise fun x y => before y = true → before x = true

theorem IsPartitioned.of_le (h : IsPartitioned before xs) {i j : Nat} (hij : i ≤ j) (hi : i < xs.length)
    (hj : j < xs.length) (hbefore : before xs[j] = true) : before xs[i] = true := by
  rcases Nat.lt_or_eq_of_le hij with hlt | rfl
  · exact List.pairwise_iff_getElem.mp h i j hi hj hlt hbefore
  · exact hbefore

/-- The search keeps its bounds around the entry that it looks for. -/
theorem before_iff_lt_partitionPointIn (h : IsPartitioned before xs) {low high : Nat} (hle : low ≤ high)
    (hhigh : high ≤ xs.length) (hlow : ∀ i (hi : i < xs.length), i < low → before xs[i] = true)
    (hbehind : ∀ i (hi : i < xs.length), high ≤ i → ¬before xs[i] = true) (i : Nat) (hi : i < xs.length) :
    before xs[i] = true ↔ i < partitionPointIn before xs low high := by
  fun_induction partitionPointIn before xs low high with
  | case1 low high hlt middle hmiddle ih =>
    have hin : middle < xs.length := by omega
    rw [List.getElem?_eq_getElem hin, Option.any_some] at hmiddle
    exact ih (by omega) hhigh (fun i hi hlt => h.of_le (Nat.le_of_lt_succ hlt) hi hin hmiddle) hbehind
  | case2 low high hlt middle hmiddle ih =>
    have hin : middle < xs.length := by omega
    rw [List.getElem?_eq_getElem hin, Option.any_some] at hmiddle
    exact ih (by omega) (by omega) hlow fun i hi hle hbefore => hmiddle (h.of_le hle hin hi hbefore)
  | case3 low high hlt =>
    exact ⟨fun hbefore => by_contra fun hout => hbehind i hi (by omega) hbefore, hlow i hi⟩

theorem before_iff_lt_partitionPoint (h : IsPartitioned before xs) {i : Nat} (hi : i < xs.length) :
    before xs[i] = true ↔ i < partitionPoint before xs :=
  before_iff_lt_partitionPointIn h (Nat.zero_le _) (Nat.le_refl _) (fun _ _ hlt => absurd hlt (Nat.not_lt_zero _))
    (fun _ hi hle => absurd hi (Nat.not_lt.mpr hle)) i hi

end Search

namespace Masking

/-- Whether an offset in bytes lies in code: the first literal that ends behind it does not hold it. -/
def startsInCode (m : Masking) (offset : Nat) : Bool :=
  !m.literals[partitionPoint (·.stop ≤ offset) m.literals]?.any (·.start ≤ offset)

/-- The literals of a masking can be searched. -/
structure IsSearchable (m : Masking) : Prop where
  filled : ∀ range ∈ m.literals, range.start < range.stop
  within : ∀ range ∈ m.literals, range.stop ≤ m.code.utf8ByteSize
  onBoundaries : ∀ range ∈ m.literals,
    String.Pos.Raw.IsValid m.code ⟨range.start⟩ ∧ String.Pos.Raw.IsValid m.code ⟨range.stop⟩
  increasing : m.literals.Pairwise fun range later => range.start < later.start ∧ range.stop < later.stop
  disjoint : m.literals.Pairwise fun range later => range.stop ≤ later.start
  search : ∀ offset, m.startsInCode offset = false ↔ ∃ range ∈ m.literals, range.has offset = true

/-- A search for an offset among ranges in their order finds the range that holds it. -/
theorem startsInCode_eq_false_iff {m : Masking} (hfilled : ∀ range ∈ m.literals, range.start < range.stop)
    (hdisjoint : m.literals.Pairwise fun range later => range.stop ≤ later.start) (offset : Nat) :
    m.startsInCode offset = false ↔ ∃ range ∈ m.literals, range.has offset = true := by
  have hpartitioned : IsPartitioned (fun range : OffsetRange => decide (range.stop ≤ offset)) m.literals := by
    refine hdisjoint.imp_of_mem fun {range later} hrange hlater hstop hbefore => ?_
    have := hfilled later hlater
    have := of_decide_eq_true hbefore
    exact decide_eq_true (by omega)
  rw [startsInCode, Bool.not_eq_false']
  constructor
  · intro hfound
    cases hrange : m.literals[partitionPoint (·.stop ≤ offset) m.literals]? with
    | none =>
      rw [hrange] at hfound
      cases hfound
    | some range =>
      obtain ⟨hin, rfl⟩ := List.getElem?_eq_some_iff.mp hrange
      rw [hrange] at hfound
      have hstop := (before_iff_lt_partitionPoint hpartitioned hin).not.mpr (Nat.lt_irrefl _)
      exact ⟨_, List.getElem_mem hin, Bool.and_eq_true_iff.mpr ⟨hfound, by simpa using hstop⟩⟩
  · rintro ⟨range, hrange, hhas⟩
    obtain ⟨i, hi, rfl⟩ := List.getElem_of_mem hrange
    obtain ⟨hstart, hstop⟩ := Bool.and_eq_true_iff.mp hhas
    have hle := (before_iff_lt_partitionPoint hpartitioned hi).not.mp (by simpa using hstop)
    have hin : partitionPoint (·.stop ≤ offset) m.literals < m.literals.length := by omega
    rw [List.getElem?_eq_getElem hin, Option.any_some]
    rcases Nat.lt_or_eq_of_le (Nat.not_lt.mp hle) with hlt | heq
    · -- a literal in front of the one that holds the offset ends in front of the offset
      have hfront := List.pairwise_iff_getElem.mp hdisjoint _ i hin hi hlt
      have hbefore := (before_iff_lt_partitionPoint hpartitioned hin).mp
        (decide_eq_true (hfront.trans (of_decide_eq_true hstart)))
      exact absurd hbefore (Nat.lt_irrefl _)
    · simpa only [heq] using hstart

end Masking

/-! ## Positions in bytes -/

section Bytes

variable {text : List Char} {i j : Nat}

theorem byteOffset_le (h : i ≤ j) : byteOffset text i ≤ byteOffset text j := by
  obtain ⟨n, rfl⟩ := Nat.exists_eq_add_of_le h
  rw [byteOffset, byteOffset, List.take_add, String.utf8Len_append]
  exact Nat.le_add_right ..

theorem byteOffset_lt (h : i < j) (hin : i < text.length) : byteOffset text i < byteOffset text j := by
  refine Nat.lt_of_lt_of_le ?_ (byteOffset_le h)
  have := Char.utf8Size_pos text[i]
  rw [byteOffset, byteOffset, ← List.take_append_getElem hin, String.utf8Len_append, String.utf8Len_cons]
  omega

theorem byteOffset_le_iff (hin : i ≤ text.length) : byteOffset text i ≤ byteOffset text j ↔ i ≤ j :=
  ⟨fun h => by_contra fun hlt => Nat.not_lt.mpr h (byteOffset_lt (Nat.not_le.mp hlt) (by omega)), byteOffset_le⟩

theorem isValid_byteOffset (text : List Char) (i : Nat) :
    String.Pos.Raw.IsValid (String.ofList text) ⟨byteOffset text i⟩ := by
  refine String.Pos.Raw.isValid_iff_exists_append.mpr
    ⟨String.ofList (text.take i), String.ofList (text.drop i), ?_, ?_⟩
  · rw [← String.ofList_append, List.take_append_drop]
  · rw [byteOffset, ← String.utf8ByteSize_ofList]
    rfl

end Bytes

/-! ## The literals of a masked source -/

theorem Opening.chars_ne_nil {opening : Opening} {c : Char} {cs : List Char} {piece : Piece}
    (h : piece ∈ opening.pieces c cs) : piece.chars ≠ [] := by
  cases opening with
  | plain => exact List.mem_singleton.mp h ▸ List.cons_ne_nil _ _
  | literal n => exact List.mem_singleton.mp h ▸ List.cons_ne_nil _ _
  | lineComment n => cases h
  | blockComment n =>
    rcases List.mem_append.mp h with h | h
    · obtain ⟨d, -, rfl⟩ := List.mem_map.mp h
      exact List.cons_ne_nil _ _
    · exact List.mem_singleton.mp h ▸ List.cons_ne_nil _ _

/-- Every piece of a masked source holds a character. -/
theorem chars_ne_nil_of_mem_maskFrom {b : Behind} {cs : List Char} {piece : Piece} (h : piece ∈ maskFrom b cs) :
    piece.chars ≠ [] := by
  induction hn : cs.length using Nat.strongRecOn generalizing b cs with
  | ind n ih =>
    subst hn
    cases cs with
    | nil =>
      rw [maskFrom] at h
      cases h
    | cons c cs =>
      rw [maskFrom_cons] at h
      rcases List.mem_append.mp h with h | h
      · exact Opening.chars_ne_nil h
      · exact ih _ (by rw [List.length_drop, List.length_cons]; omega) h rfl

section Ranges

variable {pieces : List Piece} {start : Nat}

theorem start_lt_stop_of_mem_literalRanges (hchars : ∀ piece ∈ pieces, piece.chars ≠ []) {range : OffsetRange}
    (h : range ∈ literalRanges start pieces) : range.start < range.stop := by
  induction pieces generalizing start with
  | nil => cases h
  | cons piece rest ih =>
    obtain ⟨hpiece, hrest⟩ := List.forall_mem_cons.mp hchars
    cases piece with
    | code c => exact ih hrest h
    | literal text =>
      rcases List.mem_cons.mp h with rfl | h
      · exact Nat.lt_add_of_pos_right (List.length_pos_iff.mpr hpiece)
      · exact ih hrest h

theorem pairwise_literalRanges (start : Nat) (pieces : List Piece) :
    (literalRanges start pieces).Pairwise fun range later => range.stop ≤ later.start := by
  induction pieces generalizing start with
  | nil => exact .nil
  | cons piece rest ih =>
    cases piece with
    | code c => exact ih (start + 1)
    | literal text => exact .cons (fun later hlater => (bounds_of_mem_literalRanges hlater).1) (ih _)

end Ranges

namespace Masking

theorem isSearchable_ofPieces {pieces : List Piece} (hchars : ∀ piece ∈ pieces, piece.chars ≠ []) :
    (ofPieces pieces).IsSearchable := by
  have hbounds : ∀ range ∈ literalRanges 0 pieces,
      range.start < range.stop ∧ range.stop ≤ (charsOf pieces).length := by
    intro range hrange
    obtain ⟨-, -, hstop⟩ := bounds_of_mem_literalRanges hrange
    exact ⟨start_lt_stop_of_mem_literalRanges hchars hrange, by omega⟩
  have hfilled : ∀ range ∈ (ofPieces pieces).literals, range.start < range.stop := by
    refine List.forall_mem_map.mpr fun range hrange => ?_
    obtain ⟨hlt, hstop⟩ := hbounds range hrange
    exact byteOffset_lt hlt (by omega)
  have hdisjoint : (ofPieces pieces).literals.Pairwise fun range later => range.stop ≤ later.start :=
    List.pairwise_map.mpr ((pairwise_literalRanges 0 pieces).imp byteOffset_le)
  refine ⟨hfilled, List.forall_mem_map.mpr fun range hrange => ?_, List.forall_mem_map.mpr fun range _ => ?_, ?_,
    hdisjoint, startsInCode_eq_false_iff hfilled hdisjoint⟩
  · show byteOffset _ _ ≤ (String.ofList (charsOf pieces)).utf8ByteSize
    rw [← byteOffset_length]
    exact byteOffset_le (hbounds range hrange).2
  · exact ⟨isValid_byteOffset _ _, isValid_byteOffset _ _⟩
  · refine hdisjoint.imp_of_mem fun {range later} hrange hlater hle => ?_
    have := hfilled range hrange
    have := hfilled later hlater
    exact ⟨by omega, by omega⟩

/-- A masking keeps a masked source in bytes. -/
structure Keeps (m : Masking) (masked : Masked) : Prop where
  code : m.code.toList = masked.code
  literals : m.literals = masked.literals.map (·.inBytes masked.code)
  isCode : ∀ position, masked.isCode position = m.startsInCode (byteOffset masked.code position)

theorem has_inBytes {text : List Char} {range : OffsetRange} (hfilled : range.start ≤ range.stop)
    (hstop : range.stop ≤ text.length) (position : Nat) :
    (range.inBytes text).has (byteOffset text position) = range.has position := by
  have hstart : byteOffset text range.start ≤ byteOffset text position ↔ range.start ≤ position :=
    byteOffset_le_iff (hfilled.trans hstop)
  have hbehind : byteOffset text position < byteOffset text range.stop ↔ position < range.stop :=
    Nat.not_le.symm.trans ((byteOffset_le_iff hstop).not.trans Nat.not_le)
  simp only [OffsetRange.has, OffsetRange.inBytes, hstart, hbehind]

theorem keeps_ofPieces {pieces : List Piece} (hchars : ∀ piece ∈ pieces, piece.chars ≠ []) :
    (ofPieces pieces).Keeps ⟨charsOf pieces, literalRanges 0 pieces⟩ := by
  refine ⟨String.toList_ofList, rfl, fun position => ?_⟩
  have hsearch := (isSearchable_ofPieces hchars).search (byteOffset (charsOf pieces) position)
  have hiff : (∃ range ∈ (ofPieces pieces).literals, range.has (byteOffset (charsOf pieces) position) = true)
      ↔ (literalRanges 0 pieces).any (·.has position) = true := by
    simp only [ofPieces, List.mem_map, exists_exists_and_eq_and, List.any_eq_true]
    refine exists_congr fun range => and_congr_right fun hrange => ?_
    obtain ⟨-, hfilled, hstop⟩ := bounds_of_mem_literalRanges hrange
    rw [has_inBytes hfilled (by omega)]
  rw [Masked.isCode, Bool.eq_iff_iff, Bool.not_eq_true', ← Bool.not_eq_true, ← hiff, ← hsearch, Bool.not_eq_false]

end Masking

/-- Masking a source goes through: no literal is cut out of range. Its literals can be searched, and the
search says of every position whether it is code. -/
theorem exists_masking_isSearchable (source : List Char) :
    ∃ m : Masking, maskAt source 0 {} {} = some m ∧ m.IsSearchable ∧ m.Keeps (mask source) := by
  have hchars : ∀ piece ∈ maskFrom {} source, piece.chars ≠ [] := fun _ => chars_ne_nil_of_mem_maskFrom
  refine ⟨.ofPieces (maskFrom {} source), ?_, Masking.isSearchable_ofPieces hchars, Masking.keeps_ofPieces hchars⟩
  have hrun : maskAt source 0 {} (.ofPieces []) = _ := maskAt_eq_some (Nat.zero_le _)
  exact hrun

end ScopedCheck.Import
