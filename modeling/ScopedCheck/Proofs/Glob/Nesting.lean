import ScopedCheck.Proofs.Glob.Expansion
/-! # Nested groups

Every group of a glob is a pair of parentheses in its expression. So braces around one letter make an
expression as deep as one likes, and to expand such a pattern is a panic from some depth on. -/

namespace ScopedCheck

open FileTree (Name pathOf)
open ScopedCheck.Path (AreNames)

namespace Glob

/-- A letter with braces around it. -/
def braced (depth : Nat) : Name := List.replicate depth '{' ++ 'a' :: List.replicate depth '}'

/-- The letter in as many groups. -/
def nested : Nat → GlobToken
  | 0 => .literal 'a'
  | depth + 1 => .oneOf [[nested depth]]

/-- The expression of the letter in as many groups. -/
def nestedExpression : Nat → Expression
  | 0 => .byte 97
  | depth + 1 => .choice [[nestedExpression depth]]

/-- The braces are read as the groups, whatever stands behind them. -/
theorem read_braced (depth : Nat) :
    ∃ last, ∀ (r : Reading) (before : Option Char) (rest : List Char),
      read r before (braced depth ++ rest) = read (r.push (nested depth)) (some last) rest := by
  induction depth with
  | zero => exact ⟨'a', fun r before rest => by simp [braced, nested, read]⟩
  | succ depth ih =>
      obtain ⟨last, hread⟩ := ih
      refine ⟨'}', fun r before rest => ?_⟩
      have hbraces : braced (depth + 1) ++ rest = '{' :: (braced depth ++ '}' :: rest) := by
        rw [braced, List.replicate_succ, List.replicate_succ']
        simp [braced]
      rw [hbraces, read, hread, read]
      rfl

theorem expressions_nested (depth : Nat) :
    (nested depth).expressions = [nestedExpression depth] := by
  induction depth with
  | zero =>
      have hbyte : charBytes 'a' = [97] := by decide +kernel
      simp [nested, nestedExpression, GlobToken.expressions, hbyte]
  | succ depth ih =>
      simp [nested, nestedExpression, GlobToken.expressions, GlobToken.branchExpressions,
        GlobToken.allExpressions, ih]

theorem depth_nestedExpression (depth : Nat) : (nestedExpression depth).depth = depth := by
  induction depth with
  | zero => rfl
  | succ depth ih =>
      simp [nestedExpression, Expression.depth, Expression.branchDepth, Expression.sequenceDepth,
        Expression.partDepth, ih]
      omega

/-- The letter in braces, as an absolute pattern. -/
def bracedPattern (depth : Nat) : String := (pathOf [braced depth]).text

theorem toList_bracedPattern (depth : Nat) : (bracedPattern depth).toList = '/' :: braced depth :=
  Path.chars_pathOf _

/-- The slash makes the expression one deeper than its groups. -/
theorem exists_ofText_bracedPattern (depth : Nat) :
    ∃ glob, ofText (bracedPattern depth) = .ok glob ∧ glob.depth = depth + 1 := by
  obtain ⟨last, hread⟩ := read_braced depth
  have hslash : charBytes '/' = [47] := by decide +kernel
  have htokens : read {} none (bracedPattern depth).toList = .ok [.literal '/', nested depth] := by
    rw [toList_bracedPattern, ← List.append_nil (braced depth), read, hread, read]
    · rfl
    all_goals simp
  refine ⟨⟨bracedPattern depth, [.literal '/', nested depth]⟩, ?_, ?_⟩
  · rw [ofText, htokens]
    rfl
  · simp [Glob.depth, expressions, GlobToken.allExpressions, GlobToken.expressions, hslash,
      expressions_nested, Expression.partDepth, Expression.depth, depth_nestedExpression]
    omega

theorem isName_braced (depth : Nat) : FileTree.isName (braced depth) = true := by
  have hmem : 'a' ∈ braced depth := by simp [braced]
  have hother : ∀ name : Name, 'a' ∉ name → braced depth ≠ name := fun name hname heq =>
    hname (heq ▸ hmem)
  exact FileTree.isName_iff.mpr
    ⟨hother [] (by simp), hother ['.'] (by simp), hother ['.', '.'] (by simp), by simp [braced]⟩

end Glob

namespace Expansion

open Glob (bracedPattern toList_bracedPattern)

/-- Such a pattern is its own normal form. -/
theorem normalPattern_bracedPattern (cwd : Path) (depth : Nat) :
    normalPattern (absolutePattern cwd (bracedPattern depth)) = bracedPattern depth := by
  have hplain : Text.forwardSlashes (bracedPattern depth) = bracedPattern depth := by
    apply Text.forwardSlashes_eq
    simp [toList_bracedPattern, Glob.braced]
  have hnames : AreNames [Glob.braced depth] := by simp [AreNames, Glob.isName_braced]
  have habs : (⟨bracedPattern depth⟩ : Path).isAbsolute = true := Path.isAbsolute_pathOf _
  rw [absolutePattern, if_pos habs, hplain, normalPattern, Path.slashed]
  have hnormal : (⟨bracedPattern depth⟩ : Path).normalize = ⟨bracedPattern depth⟩ :=
    Path.normalize_pathOf hnames
  rw [hnormal, hplain]

/-- A letter in braces keeps the bound on the depth as long as there are fewer braces than that. -/
theorem isWithinDepth_bracedPattern_iff (cwd : Path) {depth : Nat} (hsome : 0 < depth) :
    IsWithinDepth cwd (bracedPattern depth) ↔ depth < GlobUnion.maxDepth := by
  obtain ⟨glob, hread, hdepth⟩ := Glob.exists_ofText_bracedPattern depth
  have hglob : isGlobText (bracedPattern depth) = true := by
    simp [isGlobText, toList_bracedPattern, Glob.braced, Nat.pos_iff_ne_zero.mp hsome]
  have hok : PathFilter.globOf (bracedPattern depth) = .ok glob := by
    rw [PathFilter.globOf, hread]
  simp only [IsWithinDepth, normalPattern_bracedPattern, hglob, hok, true_implies, Except.ok.injEq,
    forall_eq', hdepth]
  exact Nat.succ_le_iff

end Expansion

end ScopedCheck
