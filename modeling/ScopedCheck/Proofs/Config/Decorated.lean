import ScopedCheck.Config.Document
import ScopedCheck.Proofs.Json.ShapeReading
/-! # Decorated config documents

Comments, trailing commas, another layout and a byte-order mark change nothing about what a config
document says. -/

namespace ScopedCheck

open Json Json.Decoder Json.Commented Json.Grammar Lexeme

namespace Options

/-! ## Reading options -/

theorem readsShapes_fieldOnce {α : Type} (met : Option α) (key : String) {decoder : Json.Decoder α}
    (h : ReadsShapes decoder) : ReadsShapes (fieldOnce met key decoder) :=
  (readsShapes_onlyOnce met key).bind fun _ => readsShapes_colon.bind fun _ => h.bind fun _ => readsShapes_pure _

theorem readsShapes_switch (room : Nat) : ReadsShapes (switch room) := by
  refine (readsShapes_optional (readsShapes_value room)).bind fun found => ?_
  split
  · exact readsShapes_pure _
  · exact readsShapes_pure _
  · split
    · exact readsShapes_pure _
    · exact (fails_failLoose _).follows
  · exact (fails_failLoose _).follows

theorem readsShapes_stringList (room : Nat) : ReadsShapes (stringList room) :=
  readsShapes_list room fun _ => readsShapes_string

theorem readsShapes_field (room : Nat) (d : Draft) (key : String) :
    ReadsShapes (Draft.field room d key) := by
  have hset : ∀ {α : Type} (met : Option α) (key : String) {decoder : Json.Decoder α} (set : Option α → Draft),
      ReadsShapes decoder →
        ReadsShapes (do return set (← fieldOnce met key decoder)) :=
    fun met key _ set h => (readsShapes_fieldOnce met key h).bind fun found => readsShapes_pure (set found)
  unfold Draft.field
  split
  · exact hset _ _ _ (readsShapes_optional (readsShapes_map room readsShapes_stringList))
  · exact hset _ _ _ (readsShapes_optional readsShapes_string)
  · exact hset _ _ _ (readsShapes_optional readsShapes_string)
  · exact hset _ _ _ (readsShapes_optional readsShapes_string)
  · exact hset _ _ _ (readsShapes_switch room)
  · exact hset _ _ _ (readsShapes_switch room)
  · exact hset _ _ _ (readsShapes_switch room)
  · exact hset _ _ _ (readsShapes_switch room)
  · exact hset _ _ _ (readsShapes_optional (readsShapes_stringList room))
  · exact hset _ _ _ (readsShapes_optional (readsShapes_stringList room))
  · exact readsShapes_colon.bind fun _ => (readsShapes_value room).bind fun found => readsShapes_pure _

theorem readsShapes_decode (room : Nat) : ReadsShapes (decode room) :=
  readsShapes_record room shape readsShapes_field (fun d => readsShapes_pure d.options) (by simp [shape])

end Options

namespace Document

/-! ## Reading documents -/

theorem readsShapes_extendsDecoder (room : Nat) : ReadsShapes (extendsDecoder room) := by
  refine (readsShapes_optional (readsShapes_value room)).bind fun found => ?_
  split
  · exact readsShapes_pure _
  · exact readsShapes_pure _
  · split
    · exact readsShapes_pure _
    · exact (fails_failLoose _).follows
  · exact (fails_failLoose _).follows

theorem readsShapes_options (room : Nat) :
    ReadsShapes (optional (Options.decode room)) :=
  readsShapes_optional (Options.readsShapes_decode room)

theorem readsShapes_patterns (room : Nat) : ReadsShapes (patterns room) :=
  readsShapes_optional (Options.readsShapes_stringList room)

theorem readsShapes_reference (room : Nat) :
    ReadsShapes (record room referenceShape) := by
  refine readsShapes_record room referenceShape (fun left path key => ?_) (fun path => ?_) ?_
  · show ReadsShapes (if key = "path" then Options.fieldOnce path key string
      else do colon; skip; return path)
    split
    · exact Options.readsShapes_fieldOnce path key readsShapes_string
    · exact readsShapes_colon.bind fun _ => readsShapes_skip.bind fun _ => readsShapes_pure _
  · cases path with
    | none => exact (fails_failLoose _).follows
    | some path => exact readsShapes_pure _
  · intro items hitems left
    obtain rfl := Option.mem_some.mp hitems
    refine (readsShapes_nextItem true readsShapes_string).bind fun found => ?_
    cases found with
    | none => exact (fails_failLoose _).follows
    | some path => exact readsShapes_pure _

theorem readsShapes_referencesDecoder (room : Nat) :
    ReadsShapes (referencesDecoder room) :=
  readsShapes_optional (readsShapes_list room readsShapes_reference)

theorem readsShapes_field (room : Nat) (d : Draft) (key : String) :
    ReadsShapes (Draft.field room d key) := by
  unfold Draft.field
  split
  · exact (Options.readsShapes_fieldOnce _ _ (readsShapes_extendsDecoder room)).bind fun _ => readsShapes_pure _
  · exact (Options.readsShapes_fieldOnce _ _ (readsShapes_options room)).bind fun _ => readsShapes_pure _
  · exact (Options.readsShapes_fieldOnce _ _ (readsShapes_patterns room)).bind fun _ => readsShapes_pure _
  · exact (Options.readsShapes_fieldOnce _ _ (readsShapes_patterns room)).bind fun _ => readsShapes_pure _
  · exact (Options.readsShapes_fieldOnce _ _ (readsShapes_patterns room)).bind fun _ => readsShapes_pure _
  · exact (Options.readsShapes_fieldOnce _ _ (readsShapes_referencesDecoder room)).bind fun _ => readsShapes_pure _
  · exact readsShapes_colon.bind fun _ => readsShapes_skip.bind fun _ => readsShapes_pure _

theorem readsShapes_items (room : Nat) : ReadsShapes (items room) := by
  unfold items
  refine (readsShapes_nextItem true (readsShapes_extendsDecoder room)).bind fun extends? => ?_
  refine (readsShapes_nextItem false (readsShapes_options room)).bind fun options => ?_
  refine (readsShapes_nextItem false (readsShapes_patterns room)).bind fun includes => ?_
  refine (readsShapes_nextItem false (readsShapes_patterns room)).bind fun excludes => ?_
  refine (readsShapes_nextItem false (readsShapes_patterns room)).bind fun files => ?_
  exact (readsShapes_nextItem false (readsShapes_referencesDecoder room)).bind fun references => readsShapes_pure _

theorem readsShapes_decode (room : Nat) : ReadsShapes (decode room) := by
  refine readsShapes_record room shape readsShapes_field (fun d => readsShapes_pure d.document)
    fun found hfound left => ?_
  obtain rfl := Option.mem_some.mp hfound
  exact readsShapes_items left

/-! ## Decorations -/

/-- A text that shows a value is not an empty document. -/
theorem parse_eq_run {value : Grammar.Value} {text : String}
    (h : Spaced IsWhite (value.tokens false) (document text)) :
    parse text = run decode (String.ofList (document text)) := by
  obtain ⟨t, tokens, htokens⟩ := value.exists_cons
  rw [htokens] at h
  simp only [parse, h.all_isBlank]
  rfl

/-- Texts that show the same value say the same. -/
theorem parse_of_parse {value : Grammar.Value} {text other : String}
    (htext : Spaced IsWhite (value.tokens false) (document text))
    (hother : Spaced IsWhite (value.tokens false) (document other)) {found : Document}
    (h : parse text = .ok found) : parse other = .ok found := by
  obtain ⟨shown, hshown⟩ := exists_shapes_cut value.isParted_tokens
  rw [parse_eq_run htext] at h
  rw [parse_eq_run hother]
  refine run_of_shapes (readsShapes_decode depthLimit) ?_ h
  rw [String.toList_ofList, String.toList_ofList, hshown _ _ htext, hshown _ _ hother]

/-- A decorated document is accepted where the strict one is and says the same, and neither pass changes
the strict one. -/
theorem decoration_is_transparent {value : Grammar.Value} {strict decorated : String}
    (hstrict : value.IsStrictText strict) (hdecorated : value.IsDecoratedText decorated) :
    (∀ found, parse decorated = .ok found ↔ parse strict = .ok found) ∧
      stripComments .code strict.toList = strict.toList ∧
        dropTrailingCommas .code strict.toList = strict.toList := by
  have hplain : Spaced IsWhite (value.tokens false) (document strict) := by
    rw [hstrict.document]
    exact hstrict
  exact ⟨fun found => ⟨parse_of_parse hdecorated.document hplain, parse_of_parse hplain hdecorated.document⟩,
    hstrict.unchanged⟩

/-- Tokens with gaps in front of them and behind the last one. Gaps that are missing are empty. -/
def interleave (gaps : List (List Char)) : List Token → List Char
  | [] => gaps.headD []
  | t :: tokens => gaps.headD [] ++ (t.chars ++ interleave gaps.tail tokens)

theorem spaced_interleave {isGap : List Char → Prop} (hempty : isGap []) (tokens : List Token)
    {gaps : List (List Char)} (h : ∀ gap ∈ gaps, isGap gap) :
    Spaced isGap tokens (interleave gaps tokens) := by
  have hhead : isGap (gaps.headD []) := by
    cases gaps with
    | nil => exact hempty
    | cons gap gaps => exact h gap (List.mem_cons_self ..)
  induction tokens generalizing gaps with
  | nil => exact .nil hhead
  | cons t tokens ih =>
      have htail : ∀ gap ∈ gaps.tail, isGap gap := fun gap hgap => h gap (List.mem_of_mem_tail hgap)
      refine .cons hhead (ih htail ?_)
      cases htails : gaps.tail with
      | nil => exact hempty
      | cons gap rest => exact htail gap (htails ▸ List.mem_cons_self ..)

/-- A string that is shown as it is. -/
def shownParts (text : String) : List StringPart :=
  text.toList.filterMap fun c => if h : IsShownPlainly c then some (.plain c h) else none

/-- Two lists of files, where strings hold what looks like comments, trailing commas and their ends. -/
def markedValue : Grammar.Value :=
  .object
    [(shownParts "include",
        .array [.string (shownParts "src//x"), .string (shownParts "a,]"),
          .string (.short '"' (by simp) :: shownParts "/*")] true),
      (shownParts "files", .array [] true)] true

/-- The value as a strict document. -/
def markedStrict : String := "\x7b\"include\": [\"src//x\",\"a,]\",\"\\\"/*\"],\"files\": [] \x7d"

/-- The value as a decorated document. -/
def markedDecorated : String :=
  "\ufeff// ]\n\x7b\"include\":[\"src//x\" , /* ] */\"a,]\",\"\\\"/*\", // ,]\n ],\"files\":[] /**/ , \x7d"

theorem isStrictText_markedStrict : markedValue.IsStrictText markedStrict := by
  let gaps : List (List Char) := [[], [], [], [' '], [], [], [], [], [], [], [], [], [], [' '], [], [' ']]
  have hgaps : ∀ gap ∈ gaps, IsWhite gap := by simp [gaps, IsWhite]
  have htext : markedStrict.toList = interleave gaps (markedValue.tokens false) := by decide +kernel
  rw [Value.IsStrictText, htext]
  exact spaced_interleave isWhite_nil _ hgaps

theorem isDecoratedText_markedDecorated : markedValue.IsDecoratedText markedDecorated := by
  let space : Filler := .white [' '] (by simp [IsWhite])
  let fillers : List (List Filler) := [[.line " ]".toList (by decide)], [], [], [], [], [space],
    [space, .block " ] ".toList (by decide)], [], [], [], [space, .line " ,]".toList (by decide), space],
    [], [], [], [], [], [space, .block [] (by decide), space], [space]]
  have hgaps : ∀ gap ∈ fillers.map fun gap => gap.flatMap Filler.chars, IsFilled gap := by
    intro gap hgap
    obtain ⟨found, -, rfl⟩ := List.mem_map.mp hgap
    exact ⟨found, rfl⟩
  refine ⟨_, spaced_interleave ⟨[], rfl⟩ (markedValue.tokens true) hgaps, .inr ?_⟩
  decide +kernel

theorem markedDecorated_parses :
    markedValue.IsStrictText markedStrict ∧ markedValue.IsDecoratedText markedDecorated ∧
      (parse markedDecorated).toOption.map (fun found => (found.includes, found.files)) =
        some (some ["src//x", "a,]", "\"/*"], some []) := by
  refine ⟨isStrictText_markedStrict, isDecoratedText_markedDecorated, ?_⟩
  have hparsed : (parse markedStrict).toOption.map (fun found => (found.includes, found.files)) =
      some (some ["src//x", "a,]", "\"/*"], some []) := by decide +kernel
  obtain ⟨hsame, -, -⟩ := decoration_is_transparent isStrictText_markedStrict isDecoratedText_markedDecorated
  cases hstrict : parse markedStrict with
  | error e => simp [hstrict, Except.toOption] at hparsed
  | ok found =>
      rw [hstrict] at hparsed
      rw [(hsame found).mpr hstrict]
      exact hparsed

end Document

end ScopedCheck
