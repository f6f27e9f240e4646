import ScopedCheck.Config.Document
import ScopedCheck.Proofs.Json.LineKeeping
import ScopedCheck.Proofs.Json.Placing
/-! # Errors name the lines of the file

A config document is read without its comments, its trailing commas and its byte-order marks. What is wrong with
it is still said of the line on which it was written (`plain_keepsLines`). -/

namespace ScopedCheck

open Json Json.Decoder Json.Commented JsonError Lexeme

variable {spots : Spot → Prop}

namespace Options

/-! ## Reading options -/

theorem mayPlace_fieldOnce {α : Type} (met : Option α) (key : String) {decoder : Json.Decoder α}
    (h : MayPlace spots decoder) : MayPlace spots (fieldOnce met key decoder) :=
  (mayPlace_onlyOnce met key).bind fun _ => places_colon.mayPlace.bind fun _ => h.bind fun _ => errs_pure _

theorem mayPlace_switch (room : Nat) : MayPlace spots (switch room) := by
  refine (errs_optional (places_value room).mayPlace).bind fun found => ?_
  split
  · exact errs_pure _
  · exact errs_pure _
  · split
    · exact errs_pure _
    · exact mayPlace_failLoose _
  · exact mayPlace_failLoose _

theorem mayPlace_string : MayPlace spots (optional string) := errs_optional places_string.mayPlace

theorem places_stringList (room : Nat) : Places spots (stringList room) :=
  places_list room fun _ => places_string.mayPlace

theorem mayPlace_strings (room : Nat) : MayPlace spots (optional (stringList room)) :=
  errs_optional (places_stringList room).mayPlace

theorem mayPlace_field (room : Nat) (d : Draft) (key : String) : MayPlace spots (Draft.field room d key) := by
  have hset : ∀ {α : Type} (met : Option α) (key : String) {decoder : Json.Decoder α} (set : Option α → Draft),
      MayPlace spots decoder → MayPlace spots (do return set (← fieldOnce met key decoder)) :=
    fun met key _ set h => (mayPlace_fieldOnce met key h).bind fun found => errs_pure (set found)
  unfold Draft.field
  split
  · exact hset _ _ _ (errs_optional (places_map room fun left => (places_stringList left).mayPlace).mayPlace)
  · exact hset _ _ _ mayPlace_string
  · exact hset _ _ _ mayPlace_string
  · exact hset _ _ _ mayPlace_string
  · exact hset _ _ _ (mayPlace_switch room)
  · exact hset _ _ _ (mayPlace_switch room)
  · exact hset _ _ _ (mayPlace_switch room)
  · exact hset _ _ _ (mayPlace_switch room)
  · exact hset _ _ _ (mayPlace_strings room)
  · exact hset _ _ _ (mayPlace_strings room)
  · exact places_colon.mayPlace.bind fun _ => (places_value room).mayPlace.bind fun found => errs_pure _

theorem places_decode (room : Nat) : Places spots (decode room) :=
  places_record room shape mayPlace_field (fun d => errs_pure d.options) (by simp [shape])

end Options

namespace Document

/-! ## Reading documents -/

theorem mayPlace_extendsDecoder (room : Nat) : MayPlace spots (extendsDecoder room) := by
  refine (errs_optional (places_value room).mayPlace).bind fun found => ?_
  split
  · exact errs_pure _
  · exact errs_pure _
  · split
    · exact errs_pure _
    · exact mayPlace_failLoose _
  · exact mayPlace_failLoose _

theorem mayPlace_options (room : Nat) : MayPlace spots (optional (Options.decode room)) :=
  errs_optional (Options.places_decode room).mayPlace

theorem mayPlace_patterns (room : Nat) : MayPlace spots (patterns room) := Options.mayPlace_strings room

theorem places_reference (room : Nat) : Places spots (record room referenceShape) := by
  refine places_record room referenceShape (fun left path key => ?_) (fun path => ?_) ?_
  · show MayPlace spots (if key = "path" then Options.fieldOnce path key string
      else do colon; skip; return path)
    split
    · exact Options.mayPlace_fieldOnce path key places_string.mayPlace
    · exact places_colon.mayPlace.bind fun _ => places_skip.mayPlace.bind fun _ => errs_pure _
  · cases path with
    | none => exact mayPlace_failLoose _
    | some path => exact errs_pure _
  · intro items hitems left
    obtain rfl := Option.mem_some.mp hitems
    refine (mayPlace_nextItem true places_string.mayPlace).bind fun found => ?_
    cases found with
    | none => exact mayPlace_failLoose _
    | some path => exact errs_pure _

theorem mayPlace_referencesDecoder (room : Nat) : MayPlace spots (referencesDecoder room) :=
  errs_optional (places_list room fun left => (places_reference left).mayPlace).mayPlace

theorem mayPlace_field (room : Nat) (d : Draft) (key : String) : MayPlace spots (Draft.field room d key) := by
  unfold Draft.field
  split
  · exact (Options.mayPlace_fieldOnce _ _ (mayPlace_extendsDecoder room)).bind fun _ => errs_pure _
  · exact (Options.mayPlace_fieldOnce _ _ (mayPlace_options room)).bind fun _ => errs_pure _
  · exact (Options.mayPlace_fieldOnce _ _ (mayPlace_patterns room)).bind fun _ => errs_pure _
  · exact (Options.mayPlace_fieldOnce _ _ (mayPlace_patterns room)).bind fun _ => errs_pure _
  · exact (Options.mayPlace_fieldOnce _ _ (mayPlace_patterns room)).bind fun _ => errs_pure _
  · exact (Options.mayPlace_fieldOnce _ _ (mayPlace_referencesDecoder room)).bind fun _ => errs_pure _
  · exact places_colon.mayPlace.bind fun _ => places_skip.mayPlace.bind fun _ => errs_pure _

theorem mayPlace_items (room : Nat) : MayPlace spots (items room) := by
  unfold items
  refine (mayPlace_nextItem true (mayPlace_extendsDecoder room)).bind fun extends? => ?_
  refine (mayPlace_nextItem false (mayPlace_options room)).bind fun options => ?_
  refine (mayPlace_nextItem false (mayPlace_patterns room)).bind fun includes => ?_
  refine (mayPlace_nextItem false (mayPlace_patterns room)).bind fun excludes => ?_
  refine (mayPlace_nextItem false (mayPlace_patterns room)).bind fun files => ?_
  exact (mayPlace_nextItem false (mayPlace_referencesDecoder room)).bind fun references => errs_pure _

theorem places_decode (room : Nat) : Places spots (decode room) := by
  refine places_record room shape mayPlace_field (fun d => errs_pure d.document) fun found hfound left => ?_
  obtain rfl := Option.mem_some.mp hfound
  exact mayPlace_items left

theorem isPlaced_of_parse {text : String} {e : JsonError} (h : parse text = .error e) :
    e.IsPlaced (Spot.first.Reaches (document text)) := by
  simp only [parse] at h
  split at h
  · cases h
  · rw [← String.toList_ofList (l := document text)]
    exact isPlaced_of_run (fun _ => places_decode depthLimit) h

/-! ## Lines -/

/-- Whether an error stands at a place of a text, behind what is left of the characters in front of the place,
and names the line of the place. -/
def NamesLine (text : String) (e : JsonError) : Prop :=
  ∃ before behind read unread : List Char, ∃ spot : Spot,
    text.toList = before ++ behind ∧ document text = read ++ unread ∧
      KeepsLines before read ∧ KeepsLines behind unread ∧
        e.spot = some spot ∧ Spot.first.Between read unread spot ∧
          e.message = e.fault.words ++ " at line " ++ toString (before.count '\n' + 1) ++ " column "
            ++ toString spot.column

theorem namesLine_of_parse {text : String} {e : JsonError} (h : parse text = .error e) : NamesLine text e := by
  obtain ⟨spot, hspot, hreaches⟩ := isPlaced_of_parse h
  obtain ⟨read, unread, hdocument, hbetween⟩ := hreaches.exists_between
  obtain ⟨before, behind, htext, hread, hunread⟩ := (hdocument ▸ leaves_document text).split
  refine ⟨before, behind, read, unread, spot, htext, hdocument, hread.keepsLines, hunread.keepsLines, hspot,
    hbetween, ?_⟩
  have hline : spot.line = before.count '\n' + 1 := by
    obtain ⟨inside, rfl, -⟩ := hbetween
    rw [Spot.line_after, hread.count_newline, Nat.add_comm]
    rfl
  simp only [message, hspot, hline]

/-- Dropping comments and trailing commas keeps every character that is left on its line, and every newline. So
an error of a document names a line of its text. -/
theorem plain_keepsLines (text : String) :
    KeepsLines text.toList (plain text.toList) ∧ ∀ e, parse text = .error e → NamesLine text e :=
  ⟨(leaves_plain text.toList).keepsLines, fun _ => namesLine_of_parse⟩

/-- A bracket behind a comment of two lines is a fault of the second line. -/
theorem stray_bracket_namesLine :
    parse "/*\n*/]" = .error (JsonFault.expectedValue.at ⟨2, 1⟩) ∧
      NamesLine "/*\n*/]" (JsonFault.expectedValue.at ⟨2, 1⟩) := by
  have hdocument : document "/*\n*/]" = ['\n', ']'] := by decide +kernel
  have hblank : ¬['\n', ']'].all Text.isBlank = true := by decide +kernel
  have hcut : cut Spot.first ['\n', ']'] = ([⟨.mark ']', ⟨2, 0⟩, ⟨2, 1⟩, ⟨2, 1⟩⟩], ⟨2, 1⟩) := by
    rw [cut, if_pos (by decide), cut, if_neg (by decide)]
    simp only [List.drop_nil, cut]
    rfl
  have hparse : parse "/*\n*/]" = .error (JsonFault.expectedValue.at ⟨2, 1⟩) := by
    rw [parse]
    simp only [hdocument, if_neg hblank, run, String.toList_ofList, hcut]
    rfl
  exact ⟨hparse, (plain_keepsLines "/*\n*/]").2 _ hparse⟩

end Document

end ScopedCheck
