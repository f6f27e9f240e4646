import ScopedCheck.Proofs.Json.Entries
import ScopedCheck.Proofs.Json.Printed
/-! # The text of a value

The text of a value shows the lexemes of the value, except that a floating-point number is read as
the number that its text is scaled to. -/

namespace ScopedCheck.Json

open Lexeme Commented

/-! ## The lexemes of a value -/

/-- Groups of lexemes with commas between them. -/
def separated : List (List Kind) → List Kind
  | [] => []
  | first :: rest => first ++ rest.flatMap (.mark ',' :: ·)

mutual

/-- The lexemes that a value is printed as. -/
def kinds : Json → List Kind
  | null => [.word .null]
  | bool value => [.word (if value then .true else .false)]
  | int value => [.number (.ok (.int value))]
  | float value => [.number (.ok (.float value))]
  | string value => [.string (.ok value)]
  | array items => .mark '[' :: (separated (itemKinds items) ++ [.mark ']'])
  | object entries => .mark '\x7b' :: (separated (entryKinds entries) ++ [.mark '\x7d'])

/-- The lexemes of the items of an array. -/
def itemKinds : List Json → List (List Kind)
  | [] => []
  | item :: rest => item.kinds :: itemKinds rest

/-- The lexemes of the entries of an object. -/
def entryKinds : List (String × Json) → List (List Kind)
  | [] => []
  | (key, value) :: rest => (.string (.ok key) :: .mark ':' :: value.kinds) :: entryKinds rest

end

mutual

/-- The value with every floating-point number as it is read from its text. -/
def reread : Json → Json
  | float value => float value.reread
  | array items => array (rereadItems items)
  | object entries => object (rereadEntries entries)
  | other => other

/-- The items of an array, reread. -/
def rereadItems : List Json → List Json
  | [] => []
  | item :: rest => item.reread :: rereadItems rest

/-- The entries of an object, reread. -/
def rereadEntries : List (String × Json) → List (String × Json)
  | [] => []
  | (key, value) :: rest => (key, value.reread) :: rereadEntries rest

end

mutual

/-- Whether a value can be read from its text: it nests no deeper than there is room, its whole
numbers are exact and its objects repeat no key. -/
def Fits (room : Nat) : Json → Prop
  | int value => IsExact value
  | array items => 0 < room ∧ FitItems (room - 1) items
  | object entries => 0 < room ∧ (Entries.keys entries).Nodup ∧ FitEntries (room - 1) entries
  | _ => True

/-- Whether all items of an array fit. -/
def FitItems (room : Nat) : List Json → Prop
  | [] => True
  | item :: rest => item.Fits room ∧ FitItems room rest

/-- Whether the values of all entries of an object fit. -/
def FitEntries (room : Nat) : List (String × Json) → Prop
  | [] => True
  | (_, value) :: rest => value.Fits room ∧ FitEntries room rest

end

theorem fitItems_iff {room : Nat} {items : List Json} :
    FitItems room items ↔ ∀ item ∈ items, item.Fits room := by
  induction items with
  | nil => simp [FitItems]
  | cons first rest ih => rw [FitItems, ih, List.forall_mem_cons]

theorem fitEntries_iff {room : Nat} {entries : Entries Json} :
    FitEntries room entries ↔ ∀ entry ∈ entries, entry.2.Fits room := by
  induction entries with
  | nil => simp [FitEntries]
  | cons first rest ih =>
      obtain ⟨key, value⟩ := first
      rw [FitEntries, ih, List.forall_mem_cons]

/-! ## The text of a value -/

/-- Whether a text starts with neither a closing bracket nor blanks in front of one. -/
def Opens (cs : List Char) : Prop := ∀ rest, closesNext (cs ++ rest) = false

theorem opens_cons {c : Char} (hblank : Text.isBlank c = false) (hlist : c ≠ ']') (hrecord : c ≠ '\x7d')
    (cs : List Char) : Opens (c :: cs) := by
  intro rest
  unfold closesNext
  rw [List.cons_append, List.dropWhile_cons_of_neg (by simp [hblank])]
  split
  · rename_i h
    exact absurd (List.cons.inj h).1 hrecord
  · rename_i h
    exact absurd (List.cons.inj h).1 hlist
  · rfl

theorem Opens.blank {c : Char} (hc : Text.isBlank c = true) {cs : List Char} (h : Opens cs) :
    Opens (c :: cs) := by
  intro rest
  have hrest := h rest
  unfold closesNext at hrest ⊢
  rwa [List.cons_append, List.dropWhile_cons_of_pos hc]

theorem newLine_eq (depth : Nat) : (newLine depth).toList = '\n' :: List.replicate (2 * depth) ' ' := by
  simp [newLine]

/-- What a blank or a line break in front keeps, a new line with its indentation keeps. -/
theorem holds_newLine (property : List Char → Prop)
    (hblank : ∀ cs, property cs → property (' ' :: cs))
    (hbreak : ∀ cs, property cs → property ('\n' :: cs)) (depth : Nat) {cs : List Char}
    (h : property cs) : property ((newLine depth).toList ++ cs) := by
  have hindented : ∀ count, property (List.replicate count ' ' ++ cs) := by
    intro count
    induction count with
    | zero => exact h
    | succ count ih => exact hblank _ ih
  rw [newLine_eq]
  exact hbreak _ (hindented _)

theorem IsPrinted.newLine (depth : Nat) {cs : List Char} {kinds : List Kind} (h : IsPrinted cs kinds) :
    IsPrinted ((Json.newLine depth).toList ++ cs) kinds :=
  holds_newLine (IsPrinted · kinds) (fun _ hcs => hcs.blank rfl) (fun _ hcs => hcs.blank rfl) depth h

theorem Opens.newLine (depth : Nat) {cs : List Char} (h : Opens cs) :
    Opens ((Json.newLine depth).toList ++ cs) :=
  holds_newLine Opens (fun _ hcs => hcs.blank rfl) (fun _ hcs => hcs.blank rfl) depth h

theorem readyAfterNumber_newLine (depth : Nat) (cs : List Char) :
    ReadyAfterNumber ((newLine depth).toList ++ cs) := by
  intro rest _
  rw [newLine_eq]
  exact endsNumber_cons rfl (by decide) (by decide) (by decide)

/-- A part of a container: printed, and no closing bracket in front. -/
structure IsPart (text : String) (kinds : List Kind) : Prop where
  printed : IsPrinted text.toList kinds
  opens : Opens text.toList

theorem isPart_newLine (depth : Nat) {text : String} {kinds : List Kind}
    (h : IsPrinted text.toList kinds) (hopens : Opens text.toList) :
    IsPart (newLine depth ++ text) kinds := by
  refine ⟨?_, ?_⟩ <;> rw [String.toList_append]
  · exact h.newLine depth
  · exact hopens.newLine depth

theorem isPrinted_separated {texts : List String} {groups : List (List Kind)}
    (h : List.Forall₂ IsPart texts groups) :
    IsPrinted (",".intercalate texts).toList (separated groups) := by
  cases h with
  | nil => exact IsPrinted.nil
  | cons hfirst hrest =>
      rename_i first group texts groups
      have hbehind : IsPrinted (texts.flatMap fun text => ',' :: text.toList)
          (groups.flatMap (.mark ',' :: ·)) ∧
          ReadyAfterNumber (texts.flatMap fun text => ',' :: text.toList) := by
        clear hfirst
        induction hrest with
        | nil => exact ⟨IsPrinted.nil, fun rest hrest => hrest⟩
        | cons hpart _ ih =>
            rw [List.flatMap_cons, List.flatMap_cons]
            refine ⟨(hpart.printed.comma hpart.opens).append ih.2 ih.1, fun rest _ => ?_⟩
            exact endsNumber_cons rfl (by decide) (by decide) (by decide)
      have htext : (",".intercalate (first :: texts)).toList =
          first.toList ++ texts.flatMap fun text => ',' :: text.toList := by
        clear hfirst hrest hbehind
        induction texts generalizing first with
        | nil => simp
        | cons second texts ih =>
            rw [String.intercalate_cons_cons, String.toList_append, String.toList_append, ih,
              List.flatMap_cons, List.append_assoc]
            rfl
      rw [htext, separated]
      exact hfirst.printed.append hbehind.2 hbehind.1

theorem word_text (word : Word) {text : String} (h : text.toList = word.letters) :
    IsPrinted text.toList [.word word] ∧ Opens text.toList := by
  rw [h]
  refine ⟨IsPrinted.word word, ?_⟩
  cases word <;> exact opens_cons rfl (by decide) (by decide) _

theorem string_text (s : String) :
    IsPrinted (stringText s).toList [.string (.ok s)] ∧ Opens (stringText s).toList := by
  refine ⟨IsPrinted.string s, ?_⟩
  rw [stringText, String.toList_ofList]
  exact opens_cons rfl (by decide) (by decide) _

/-- Whether two marks open and close a container. -/
def AreBrackets (opening closing : Char) : Prop :=
  opening = '[' ∧ closing = ']' ∨ opening = '\x7b' ∧ closing = '\x7d'

theorem AreBrackets.opens {opening closing : Char} (h : AreBrackets opening closing)
    (cs : List Char) : Opens (opening :: cs) := by
  rcases h with ⟨rfl, -⟩ | ⟨rfl, -⟩ <;> exact opens_cons rfl (by decide) (by decide) cs

theorem AreBrackets.isPrinted {opening closing : Char} (h : AreBrackets opening closing)
    (cs : List Char) {front : List Char} {kinds : List Kind} (hfront : IsPrinted front kinds)
    (hready : ReadyAfterNumber (cs ++ [closing]))
    (hcs : ∀ more kinds, IsPrinted more kinds → IsPrinted (cs ++ more) kinds) :
    IsPrinted (opening :: (front ++ (cs ++ [closing])))
      (.mark opening :: (kinds ++ [.mark closing])) := by
  rcases h with ⟨rfl, rfl⟩ | ⟨rfl, rfl⟩
  · have hend := IsPrinted.nil.mark (c := ']') (by simp [IsMark]) (by decide)
    exact (hfront.append hready (hcs _ _ hend)).mark (by simp [IsMark]) (by decide)
  · have hend := IsPrinted.nil.mark (c := '\x7d') (by simp [IsMark]) (by decide)
    exact (hfront.append hready (hcs _ _ hend)).mark (by simp [IsMark]) (by decide)

/-- A container on one line. -/
theorem bracketed_text {opening closing : Char} (h : AreBrackets opening closing) {texts : List String}
    {groups : List (List Kind)} (hparts : List.Forall₂ IsPart texts groups) {text : String}
    (htext : text.toList = opening :: ((",".intercalate texts).toList ++ [closing])) :
    IsPrinted text.toList (.mark opening :: (separated groups ++ [.mark closing])) ∧
      Opens text.toList := by
  rw [htext]
  refine ⟨?_, h.opens _⟩
  refine h.isPrinted [] (isPrinted_separated hparts) (fun rest hrest => ?_) fun _ _ h => h
  rcases h with ⟨-, rfl⟩ | ⟨-, rfl⟩ <;> exact endsNumber_cons rfl (by decide) (by decide) (by decide)

theorem empty_text {opening closing : Char} (h : AreBrackets opening closing) {text : String}
    (htext : text.toList = [opening, closing]) :
    IsPrinted text.toList (.mark opening :: (separated [] ++ [.mark closing])) ∧ Opens text.toList :=
  bracketed_text h .nil (by simp [htext])

theorem container_text {opening closing : Char} (h : AreBrackets opening closing) (depth : Nat)
    {texts : List String} {groups : List (List Kind)} (hparts : List.Forall₂ IsPart texts groups)
    {text : String} (htext : text.toList =
      opening :: ((",".intercalate texts).toList ++ ((newLine depth).toList ++ [closing]))) :
    IsPrinted text.toList (.mark opening :: (separated groups ++ [.mark closing])) ∧
      Opens text.toList := by
  rw [htext]
  exact ⟨h.isPrinted _ (isPrinted_separated hparts) (readyAfterNumber_newLine depth _)
    fun _ _ h => h.newLine depth, h.opens _⟩

theorem isBlank_of_isDigit {c : Char} (hc : c.isDigit = true) : Text.isBlank c = false := by
  have hrange : 48 ≤ c.toNat ∧ c.toNat ≤ 57 := Char.isDigit_iff_toNat.mp hc
  simp only [Text.isBlank, Bool.or_eq_false_iff, Bool.and_eq_false_iff, decide_eq_false_iff_not,
    beq_eq_false_iff_ne]
  omega

theorem opens_number {w : Written} (h : w.IsProper) : Opens w.chars := by
  obtain ⟨c, cs, hcs, hc⟩ := h.exists_cons
  rw [hcs]
  rcases hc with rfl | hc
  · exact opens_cons rfl (by decide) (by decide) cs
  · exact opens_cons (isBlank_of_isDigit hc) (ne_of_isDigit hc rfl) (ne_of_isDigit hc rfl) cs

mutual

/-- The text of a value that fits shows the lexemes of the value, reread. -/
theorem isPrinted_prettyAt (depth room : Nat) : (value : Json) → value.Fits room →
    IsPrinted (value.prettyAt depth).toList value.reread.kinds ∧ Opens (value.prettyAt depth).toList
  | null, _ => word_text .null (by simp [prettyAt, Word.letters])
  | bool true, _ => word_text .true (by simp [prettyAt, Word.letters])
  | bool false, _ => word_text .false (by simp [prettyAt, Word.letters])
  | int n, h => by
      have hproper := Written.isProper_ofInt n
      rw [prettyAt, ← Written.chars_ofInt]
      exact ⟨IsPrinted.number hproper (value_ofInt h), opens_number hproper⟩
  | float x, _ => by
      obtain ⟨w, hproper, hchars, hvalue⟩ := x.written_text
      rw [prettyAt, ← hchars]
      exact ⟨IsPrinted.number hproper hvalue, opens_number hproper⟩
  | string s, _ => by
      rw [prettyAt]
      exact string_text s
  | array [], _ => empty_text (Or.inl ⟨rfl, rfl⟩) (by simp [prettyAt])
  | array (item :: rest), h => by
      have hitems := isPart_prettyItems (depth + 1) (room - 1) (item :: rest) h.2
      exact container_text (Or.inl ⟨rfl, rfl⟩) depth hitems (by simp [prettyAt])
  | object [], _ => empty_text (Or.inr ⟨rfl, rfl⟩) (by simp [prettyAt])
  | object (entry :: rest), h => by
      have hentries := isPart_prettyEntries (depth + 1) (room - 1) (entry :: rest) h.2.2
      exact container_text (Or.inr ⟨rfl, rfl⟩) depth hentries (by simp [prettyAt])

theorem isPart_prettyItems (depth room : Nat) : (items : List Json) → FitItems room items →
    List.Forall₂ IsPart (prettyItems depth items) (itemKinds (rereadItems items))
  | [], _ => .nil
  | item :: rest, h => by
      obtain ⟨hprinted, hopens⟩ := isPrinted_prettyAt depth room item h.1
      exact .cons (isPart_newLine depth hprinted hopens) (isPart_prettyItems depth room rest h.2)

theorem isPart_prettyEntries (depth room : Nat) : (entries : List (String × Json)) →
    FitEntries room entries →
      List.Forall₂ IsPart (prettyEntries depth entries) (entryKinds (rereadEntries entries))
  | [], _ => .nil
  | (key, value) :: rest, h => by
      obtain ⟨hprinted, -⟩ := isPrinted_prettyAt depth room value h.1
      obtain ⟨hkey, hopens⟩ := string_text key
      have hcolon : IsPrinted (':' :: ' ' :: (value.prettyAt depth).toList)
          (.mark ':' :: value.reread.kinds) := (hprinted.blank rfl).mark (by simp [IsMark]) (by decide)
      have hready : ReadyAfterNumber (':' :: ' ' :: (value.prettyAt depth).toList) := fun rest _ =>
        endsNumber_cons rfl (by decide) (by decide) (by decide)
      have htext : (newLine depth ++ stringText key ++ ": " ++ value.prettyAt depth).toList =
          (newLine depth).toList ++
            ((stringText key).toList ++ ':' :: ' ' :: (value.prettyAt depth).toList) := by
        simp
      refine .cons ?_ (isPart_prettyEntries depth room rest h.2)
      refine ⟨?_, ?_⟩ <;> rw [htext]
      · exact (hkey.append hready hcolon).newLine depth
      · refine Opens.newLine depth fun rest => ?_
        rw [List.append_assoc]
        exact hopens _

end

mutual

/-- The compact text of a value that fits shows the same lexemes. -/
theorem isPrinted_compact (room : Nat) : (value : Json) → value.Fits room →
    IsPrinted value.compact.toList value.reread.kinds ∧ Opens value.compact.toList
  | null, _ => word_text .null (by simp [compact, Word.letters])
  | bool true, _ => word_text .true (by simp [compact, Word.letters])
  | bool false, _ => word_text .false (by simp [compact, Word.letters])
  | int n, h => by
      have hproper := Written.isProper_ofInt n
      rw [compact, ← Written.chars_ofInt]
      exact ⟨IsPrinted.number hproper (value_ofInt h), opens_number hproper⟩
  | float x, _ => by
      obtain ⟨w, hproper, hchars, hvalue⟩ := x.written_text
      rw [compact, ← hchars]
      exact ⟨IsPrinted.number hproper hvalue, opens_number hproper⟩
  | string s, _ => by
      rw [compact]
      exact string_text s
  | array items, h =>
      bracketed_text (Or.inl ⟨rfl, rfl⟩) (isPart_compactItems (room - 1) items h.2) (by simp [compact])
  | object entries, h =>
      bracketed_text (Or.inr ⟨rfl, rfl⟩) (isPart_compactEntries (room - 1) entries h.2.2)
        (by simp [compact])

theorem isPart_compactItems (room : Nat) : (items : List Json) → FitItems room items →
    List.Forall₂ IsPart (compactItems items) (itemKinds (rereadItems items))
  | [], _ => .nil
  | item :: rest, h => by
      obtain ⟨hprinted, hopens⟩ := isPrinted_compact room item h.1
      exact .cons ⟨hprinted, hopens⟩ (isPart_compactItems room rest h.2)

theorem isPart_compactEntries (room : Nat) : (entries : List (String × Json)) →
    FitEntries room entries →
      List.Forall₂ IsPart (compactEntries entries) (entryKinds (rereadEntries entries))
  | [], _ => .nil
  | (key, value) :: rest, h => by
      obtain ⟨hprinted, -⟩ := isPrinted_compact room value h.1
      obtain ⟨hkey, hopens⟩ := string_text key
      have hcolon : IsPrinted (':' :: value.compact.toList) (.mark ':' :: value.reread.kinds) :=
        hprinted.mark (by simp [IsMark]) (by decide)
      have hready : ReadyAfterNumber (':' :: value.compact.toList) := fun rest _ =>
        endsNumber_cons rfl (by decide) (by decide) (by decide)
      have htext : (stringText key ++ ":" ++ value.compact).toList =
          (stringText key).toList ++ ':' :: value.compact.toList := by
        simp
      refine .cons ?_ (isPart_compactEntries room rest h.2)
      refine ⟨?_, ?_⟩ <;> rw [htext]
      · exact hkey.append hready hcolon
      · intro rest
        rw [List.append_assoc]
        exact hopens _

end

/-! ## The text of an object as a document -/

theorem pretty_object (entries : Entries Json) :
    ∃ cs, (object entries).pretty.toList = '\x7b' :: cs := by
  cases entries with
  | nil => exact ⟨['\x7d'], by simp [pretty, prettyAt]⟩
  | cons first rest => exact ⟨_, by simp only [pretty, prettyAt, String.toList_append]; rfl⟩

/-- An object is printed as a plain document. -/
theorem document_pretty {room : Nat} {entries : Entries Json} (h : (object entries).Fits room) :
    document (object entries).pretty = (object entries).pretty.toList := by
  obtain ⟨hprinted, -⟩ := isPrinted_prettyAt 0 room _ h
  have hcomments := hprinted.comments []
  have hcommas := hprinted.commas []
  obtain ⟨cs, hcs⟩ := pretty_object entries
  simp only [List.append_nil, stripComments, dropTrailingCommas] at hcomments hcommas
  rw [document, plain, pretty, hcomments, hcommas, ← pretty, hcs,
    List.dropWhile_cons_of_neg (by decide)]

/-- The lexemes of a printed text. -/
theorem IsPrinted.cut_eq {cs : List Char} {kinds : List Kind} (h : IsPrinted cs kinds) (spot : Spot) :
    (cut spot cs).1.map (·.kind) = kinds := by
  obtain ⟨lexemes, next, hkinds, hcut⟩ := h.isCutInto spot [] endsNumber_nil
  rw [List.append_nil] at hcut
  rw [hcut]
  simpa [cut] using hkinds

theorem cut_pretty {room : Nat} {value : Json} (h : value.Fits room) (spot : Spot) :
    (cut spot value.pretty.toList).1.map (·.kind) = value.reread.kinds :=
  (isPrinted_prettyAt 0 room value h).1.cut_eq spot

theorem cut_compact {room : Nat} {value : Json} (h : value.Fits room) (spot : Spot) :
    (cut spot value.compact.toList).1.map (·.kind) = value.reread.kinds :=
  (isPrinted_compact room value h).1.cut_eq spot

end ScopedCheck.Json
