import ScopedCheck.Glob.Union
/-! # Globs that start with literals

A glob whose text starts with plain characters and a slash asks for these characters first, and then for what
the rest of its text asks for by itself: reading never looks behind the slash again. So two globs that differ
only in such a front have one shape and one depth, and they match the same texts behind their fronts. -/

namespace ScopedCheck

namespace Glob

/-! ## Reading behind other tokens -/

namespace Reading

/-- Open groups with further tokens, the latest first, in front of the outermost one. -/
def groupsBehind (front : List GlobToken) : List OpenGroup → List OpenGroup
  | [] => []
  | [group] => [{ group with before := group.before ++ front }]
  | group :: outer :: rest => group :: groupsBehind front (outer :: rest)

/-- A reading with further tokens, the latest first, in front of everything. -/
def behind (r : Reading) (front : List GlobToken) : Reading :=
  match r.groups with
  | [] => { r with current := r.current ++ front }
  | groups => { r with groups := groupsBehind front groups }

/-- Whether there is a token or a group, so that what comes next is not at the start of a glob. -/
def IsBegun (r : Reading) : Prop := r.groups = [] → r.current ≠ []

variable {r : Reading} {front : List GlobToken}

theorem behind_push (token : GlobToken) : (r.push token).behind front = (r.behind front).push token := by
  obtain ⟨current, groups⟩ := r
  cases groups <;> rfl

theorem behind_twoStars : r.twoStars.behind front = (r.behind front).twoStars := by
  rw [twoStars, behind_push, behind_push, twoStars]

theorem behind_openGroup : r.openGroup.behind front = (r.behind front).openGroup := by
  obtain ⟨current, groups⟩ := r
  cases groups <;> rfl

theorem behind_comma : r.comma.behind front = (r.behind front).comma := by
  obtain ⟨current, groups⟩ := r
  rcases groups with _ | ⟨group, _ | ⟨outer, rest⟩⟩ <;> rfl

theorem closeGroup_behind : (r.behind front).closeGroup = r.closeGroup.map (·.behind front) := by
  obtain ⟨current, groups⟩ := r
  rcases groups with _ | ⟨group, _ | ⟨outer, rest⟩⟩ <;> rfl

/-- Only a reading at its start would take the token in front of it for its own latest one. -/
theorem behind_deepen (token : GlobToken) (h : r.IsBegun) :
    (r.deepen token).behind front = (r.behind front).deepen token := by
  obtain ⟨current, groups⟩ := r
  cases groups with
  | nil =>
    cases current with
    | nil => exact absurd rfl (h rfl)
    | cons latest earlier => cases latest <;> rfl
  | cons group outer =>
    cases current with
    | nil => rfl
    | cons latest earlier => cases latest <;> rfl

theorem finish_behind : (r.behind front).finish = r.finish.map (front.reverse ++ ·) := by
  obtain ⟨current, groups⟩ := r
  rcases groups with _ | ⟨group, _ | ⟨outer, rest⟩⟩
  · simp [behind, finish, Except.map]
  · rfl
  · rfl

theorem isEmpty_groups_behind : (r.behind front).groups.isEmpty = r.groups.isEmpty := by
  obtain ⟨current, groups⟩ := r
  rcases groups with _ | ⟨group, _ | ⟨outer, rest⟩⟩ <;> rfl

theorem isEmpty_current_behind (h : r.IsBegun) : (r.behind front).current.isEmpty = r.current.isEmpty := by
  obtain ⟨current, groups⟩ := r
  cases groups with
  | nil =>
    cases current with
    | nil => exact absurd rfl (h rfl)
    | cons latest earlier => rfl
  | cons group outer => rfl

theorem isBegun_push (token : GlobToken) : (r.push token).IsBegun := fun _ => by simp [push]

theorem isBegun_twoStars : r.twoStars.IsBegun := isBegun_push _

theorem isBegun_openGroup : r.openGroup.IsBegun := fun h => by simp [openGroup] at h

theorem isBegun_comma : r.comma.IsBegun := by
  unfold comma
  split
  · exact isBegun_push _
  · exact fun h => by cases h

theorem isBegun_of_closeGroup {closed : Reading} (h : r.closeGroup = .ok closed) : closed.IsBegun := by
  unfold closeGroup at h
  split at h
  · cases h
  · obtain rfl := Except.ok.inj h
    exact fun _ => by simp

theorem IsBegun.deepen (h : r.IsBegun) (token : GlobToken) : (r.deepen token).IsBegun := by
  unfold Reading.deepen
  split
  · exact h
  · exact h
  · exact fun _ => by simp
  · exact h

end Reading

section Behind

variable {r : Reading} {front : List GlobToken} {before : Option Char}

theorem boundsSegment_behind : boundsSegment (r.behind front) before = boundsSegment r before := by
  unfold boundsSegment
  split <;> simp [Reading.isEmpty_groups_behind]

theorem read_twoStars (rest : List Char) (hsome : r.current.isEmpty = false)
    (hinside : boundsSegment r before = false) :
    read r before ('*' :: '*' :: rest) = read r.twoStars (some '*') rest := by
  rw [read.eq_def]
  simp only [hsome, hinside, Bool.false_eq_true, if_false]

/-- What has been begun is read on in the same way behind other tokens. -/
theorem read_behind (front : List GlobToken) :
    (∀ (r : Reading) (before : Option Char) (cs : List Char), r.IsBegun →
        read (r.behind front) before cs = (read r before cs).map (front.reverse ++ ·)) ∧
      ∀ (r : Reading) (k : ClassReading) (cs : List Char), r.IsBegun →
        readClass (r.behind front) k cs = (readClass r k cs).map (front.reverse ++ ·) := by
  -- one case for each way of reading on; what is kept on the way is that something has been begun
  apply read.mutual_induct
  case case10 =>
    intro r before rest hsome hinside ih hbegun
    rw [Bool.not_eq_true] at hsome hinside
    rw [read_twoStars rest hsome hinside,
      read_twoStars rest ((Reading.isEmpty_current_behind hbegun).trans hsome) (boundsSegment_behind.trans hinside),
      ← Reading.behind_twoStars, ih Reading.isBegun_twoStars]
  case case16 =>
    intro r before rest closed hclosed ih hbegun
    simp only [read, Reading.closeGroup_behind, hclosed, Except.map]
    exact ih (Reading.isBegun_of_closeGroup hclosed)
  all_goals intros
  all_goals simp_all only [read, readClass, Except.map, Reading.behind_push, Reading.behind_twoStars,
    Reading.behind_openGroup, Reading.behind_comma, Reading.closeGroup_behind, Reading.behind_deepen,
    Reading.finish_behind, Reading.isEmpty_groups_behind, Reading.isEmpty_current_behind, boundsSegment_behind,
    Reading.isBegun_push, Reading.isBegun_twoStars, Reading.isBegun_openGroup, Reading.isBegun_comma,
    Reading.IsBegun.deepen, forall_const, if_true, if_false, Bool.false_eq_true]

end Behind

/-! ## Plain characters -/

/-- Whether a character stands for itself wherever no group is open. -/
def isPlain (c : Char) : Bool := !(['?', '*', '[', '{', '}', '\\'].contains c)

section Plain

variable {front : List Char}

theorem read_cons_of_isPlain {c : Char} (h : isPlain c = true) (current : List GlobToken) (before : Option Char)
    (rest : List Char) :
    read ⟨current, []⟩ before (c :: rest) = read ⟨.literal c :: current, []⟩ (some c) rest := by
  by_cases hcomma : c = ','
  · subst hcomma
    rw [read]
    rfl
  · rw [read]
    · rfl
    all_goals simp_all [isPlain]

theorem read_append_of_isPlain (h : ∀ c ∈ front, isPlain c = true) (current : List GlobToken)
    (before : Option Char) (rest : List Char) :
    ∃ latest, read ⟨current, []⟩ before (front ++ rest) =
      read ⟨(front.map .literal).reverse ++ current, []⟩ latest rest := by
  induction front generalizing current before with
  | nil => exact ⟨before, rfl⟩
  | cons c front ih =>
    obtain ⟨hc, hfront⟩ := List.forall_mem_cons.mp h
    rw [List.cons_append, read_cons_of_isPlain hc]
    simpa using ih hfront (.literal c :: current) (some c)

/-- Plain characters in front of a slash are put in front of what is read from the slash on. -/
theorem read_append_slash (h : ∀ c ∈ front, isPlain c = true) (rest : List Char) :
    read {} none (front ++ '/' :: rest) = (read {} none ('/' :: rest)).map (front.map .literal ++ ·) := by
  have hslash : isPlain '/' = true := by decide
  obtain ⟨latest, hfront⟩ := read_append_of_isPlain h [] none ('/' :: rest)
  have hrest := (read_behind (front.map .literal).reverse).1 ⟨[.literal '/'], []⟩ (some '/') rest (by simp [Reading.IsBegun])
  rw [List.reverse_reverse] at hrest
  rw [hfront, read_cons_of_isPlain hslash, read_cons_of_isPlain hslash, ← hrest, List.append_nil]
  rfl

theorem read_of_isPlain (h : ∀ c ∈ front, isPlain c = true) : read {} none front = .ok (front.map .literal) := by
  obtain ⟨latest, hfront⟩ := read_append_of_isPlain h [] none []
  rw [List.append_nil, List.append_nil] at hfront
  rw [hfront, read, Reading.finish]
  simp

end Plain

end Glob

/-! ## What literals ask for -/

theorem toList_loop_eq (bytes : ByteArray) (place : Nat) (found : List UInt8) :
    ByteArray.toList.loop bytes place found = found.reverse ++ bytes.data.toList.drop place := by
  fun_induction ByteArray.toList.loop bytes place found with
  | case1 place found hlt ih =>
    have hlength : place < bytes.data.toList.length := by simpa using hlt
    have hget : bytes.get! place = bytes.data.toList[place] := by
      rw [Array.getElem_toList]
      exact getElem!_pos bytes.data place hlt
    rw [ih, List.drop_eq_getElem_cons hlength, hget]
    simp
  | case2 place found hlt =>
    rw [List.drop_eq_nil_of_le (by simpa using Nat.le_of_not_lt hlt)]
    simp

/-- The bytes of a text are those of its characters. -/
theorem toList_toUTF8 (cs : List Char) : (String.ofList cs).toUTF8.toList = cs.flatMap charBytes := by
  have hbytes : ∀ cs : List Char, (String.ofList cs).toUTF8.toList = cs.flatMap String.utf8EncodeChar := by
    intro cs
    rw [ByteArray.toList, toList_loop_eq, String.toUTF8, String.toByteArray_ofList, List.utf8Encode]
    simp
  have hchar : ∀ c, charBytes c = String.utf8EncodeChar c := by
    intro c
    have hone := hbytes [c]
    rw [List.flatMap_singleton] at hone
    exact hone
  rw [hbytes, funext hchar]

namespace Marks

theorem union_cons_false (marks others : Marks) :
    Marks.union (false :: marks) (false :: others) = false :: Marks.union marks others := rfl

end Marks

namespace Expression

mutual

/-- A place that is not marked at the start of a text stays behind. -/
theorem reach_cons_false (b : UInt8) (text : List UInt8) (part : Expression) (marks : Marks) :
    part.reach (b :: text) (false :: marks) = false :: part.reach text marks := by
  cases part with
  | choice branches => exact reachSome_cons_false b text branches marks
  | _ => rfl

theorem reachAll_cons_false (b : UInt8) (text : List UInt8) (parts : List Expression) (marks : Marks) :
    reachAll (b :: text) parts (false :: marks) = false :: reachAll text parts marks := by
  cases parts with
  | nil => rfl
  | cons part rest =>
    rw [reachAll, reach_cons_false b text part, reachAll_cons_false b text rest]
    rfl

theorem reachSome_cons_false (b : UInt8) (text : List UInt8) (branches : List (List Expression)) (marks : Marks) :
    reachSome (b :: text) branches (false :: marks) = false :: reachSome text branches marks := by
  cases branches with
  | nil => rfl
  | cons branch rest =>
    rw [reachSome, reachAll_cons_false b text branch, reachSome_cons_false b text rest, Marks.union_cons_false]
    rfl

end

theorem atEnd_cons_false (marks : Marks) : Marks.atEnd (false :: marks) = marks.atEnd := by
  cases marks <;> rfl

theorem matchesAll_byte_cons (b : UInt8) (parts : List Expression) (text : List UInt8) :
    matchesAll (.byte b :: parts) (b :: text) = matchesAll parts text := by
  have hone : (Expression.byte b).reach (b :: text) (Marks.start (b :: text)) = false :: Marks.start text := by
    have hrest : ∀ rest : List UInt8,
        List.zipWith (fun mark other => mark && other == b) (false :: rest.map fun _ => false) rest =
          rest.map fun _ => false := by
      intro rest
      induction rest with
      | nil => rfl
      | cons other rest ih => exact congrArg (List.cons false) ih
    show false :: (true && b == b) ::
      List.zipWith (fun mark other => mark && other == b) (false :: text.map fun _ => false) text =
        false :: true :: text.map fun _ => false
    rw [hrest, beq_self_eq_true, Bool.and_self]
  rw [matchesAll, reachAll, hone, reachAll_cons_false, atEnd_cons_false, matchesAll]

/-- Bytes that are asked for are found in front of what else is asked for. -/
theorem matchesAll_bytes_append (front : List UInt8) (parts : List Expression) (text : List UInt8) :
    matchesAll (front.map .byte ++ parts) (front ++ text) = matchesAll parts text := by
  induction front with
  | nil => rfl
  | cons b front ih => rw [List.map_cons, List.cons_append, List.cons_append, matchesAll_byte_cons, ih]

theorem partDepth_bytes_append (front : List UInt8) (parts : List Expression) :
    partDepth (front.map .byte ++ parts) = partDepth parts := by
  induction front with
  | nil => rfl
  | cons b front ih => rw [List.map_cons, List.cons_append, partDepth, ih, depth, Nat.zero_max]

end Expression

namespace GlobToken

theorem allExpressions_append_literals (front : List Char) (tokens : List GlobToken) :
    allExpressions (front.map .literal ++ tokens) = (front.flatMap charBytes).map .byte ++ allExpressions tokens := by
  induction front with
  | nil => rfl
  | cons c front ih =>
    rw [List.map_cons, List.cons_append, allExpressions, ih, expressions, List.flatMap_cons, List.map_append,
      List.append_assoc]

/-! ## The shape of what starts with literals -/

theorem areLiterals_append (front rest : List GlobToken) (except : List Char) :
    areLiterals (front ++ rest) except = (areLiterals front except && areLiterals rest except) :=
  List.all_append

theorem areLiterals_literals (cs : List Char) : areLiterals (cs.map .literal) [] = true := by
  simp [areLiterals, literal?]

/-- The ending of a name is behind everything that is no literal. -/
theorem startWithEnding_append {tokens : List GlobToken} (h : areLiterals tokens [] = false)
    (rest : List GlobToken) : startWithEnding (tokens ++ rest) = startWithEnding tokens := by
  induction tokens with
  | nil => simp [areLiterals] at h
  | cons token tokens ih =>
    cases token with
    | literal c =>
      have hrest : areLiterals tokens [] = false := by simpa [areLiterals, literal?] using h
      rw [List.cons_append, startWithEnding, startWithEnding, ih hrest]
    | _ => rfl

theorem areLiterals_reverse (tokens : List GlobToken) (except : List Char) :
    areLiterals tokens.reverse except = areLiterals tokens except := List.all_reverse

theorem other_append_literals {tokens : List GlobToken} (h : areLiterals tokens [] = false) (front : List Char) :
    shapeOf.other (front.map .literal ++ tokens) = shapeOf.other tokens := by
  rw [← areLiterals_reverse] at h
  cases hlast : tokens.reverse with
  | nil => simp [hlast, areLiterals] at h
  | cons last earlier =>
    rw [hlast] at h
    have hending := startWithEnding_append h (front.map .literal).reverse
    have hfront : areLiterals (earlier ++ (front.map .literal).reverse) [] = areLiterals earlier [] := by
      rw [areLiterals_append, areLiterals_reverse, areLiterals_literals, Bool.and_true]
    rw [List.cons_append] at hending
    simp only [shapeOf.other, List.reverse_append, hlast, List.cons_append]
    cases last <;> simp only [hending, hfront]

/-- Behind a literal the shape is decided by what comes next. -/
theorem shapeOf_literals_append {front : List Char} (hne : front ≠ []) (tokens : List GlobToken) :
    shapeOf (front.map .literal ++ tokens) =
      if areLiterals tokens [] then .whole else shapeOf.other tokens := by
  obtain ⟨c, front, rfl⟩ := List.exists_cons_of_ne_nil hne
  have hwhole : areLiterals ((c :: front).map .literal ++ tokens) [] = areLiterals tokens [] := by
    rw [areLiterals_append, areLiterals_literals, Bool.true_and]
  have hshape : shapeOf ((c :: front).map .literal ++ tokens) =
      if areLiterals ((c :: front).map .literal ++ tokens) [] then .whole
      else shapeOf.other ((c :: front).map .literal ++ tokens) := rfl
  rw [hshape, hwhole]
  cases h : areLiterals tokens [] with
  | true => rfl
  | false => rw [other_append_literals h]

end GlobToken

namespace Glob

/-- Globs that ask for the characters of a front each, and then for the same. -/
def GoOnAlike (front other : List Char) (glob moved : Glob) : Prop :=
  ∃ tokens, glob.tokens = front.map .literal ++ tokens ∧ moved.tokens = other.map .literal ++ tokens

variable {front other : List Char} {glob moved : Glob}

theorem expressions_of_literals {tokens : List GlobToken} (hne : front ≠ [])
    (h : glob.tokens = front.map .literal ++ tokens) :
    glob.expressions = (front.flatMap charBytes).map .byte ++ GlobToken.allExpressions tokens := by
  obtain ⟨c, front, rfl⟩ := List.exists_cons_of_ne_nil hne
  rw [← GlobToken.allExpressions_append_literals, ← h, expressions, h]
  rfl

theorem GoOnAlike.shape_eq (h : GoOnAlike front other glob moved) (hfront : front ≠ []) (hother : other ≠ []) :
    moved.shape = glob.shape := by
  obtain ⟨tokens, hglob, hmoved⟩ := h
  rw [shape, shape, hglob, hmoved, GlobToken.shapeOf_literals_append hfront, GlobToken.shapeOf_literals_append hother]

theorem GoOnAlike.depth_eq (h : GoOnAlike front other glob moved) (hfront : front ≠ []) (hother : other ≠ []) :
    moved.depth = glob.depth := by
  obtain ⟨tokens, hglob, hmoved⟩ := h
  rw [depth, depth, expressions_of_literals hfront hglob, expressions_of_literals hother hmoved,
    Expression.partDepth_bytes_append, Expression.partDepth_bytes_append]

theorem GoOnAlike.matchesText_eq (h : GoOnAlike front other glob moved) (hfront : front ≠ []) (hother : other ≠ [])
    (text : List Char) :
    moved.matchesText (String.ofList (other ++ text)) = glob.matchesText (String.ofList (front ++ text)) := by
  obtain ⟨tokens, hglob, hmoved⟩ := h
  rw [matchesText, matchesText, expressions_of_literals hfront hglob, expressions_of_literals hother hmoved,
    toList_toUTF8, toList_toUTF8, List.flatMap_append, List.flatMap_append, Expression.matchesAll_bytes_append,
    Expression.matchesAll_bytes_append]

end Glob

end ScopedCheck
