import ScopedCheck.Proofs.Json.Yields
/-! # Reading what was printed

What a decoder does with the rest of a document depends on the kinds of the lexemes only, as long as
it does not fail. -/

namespace ScopedCheck.Json

open Lexeme

/-- The kinds of the lexemes that are left. -/
def Rest.kinds (rest : Rest) : List Kind := rest.lexemes.map (·.kind)

namespace Decoder

variable {α β : Type}

/-! ## Steps -/

/-- Whether a decoder gives a value and goes from some lexemes to others, whatever their spots are. -/
def Goes (decoder : Decoder α) (before : List Kind) (value : α) (behind : List Kind) : Prop :=
  ∀ rest : Rest, rest.kinds = before → ∃ next : Rest, decoder rest = .ok value next ∧ next.kinds = behind

theorem goes_pure (value : α) (kinds : List Kind) : Goes (pure value) kinds value kinds :=
  fun rest h => ⟨rest, rfl, h⟩

theorem Goes.bind {decoder : Decoder α} {f : α → Decoder β} {before middle behind : List Kind}
    {value : α} {result : β} (h : Goes decoder before value middle)
    (hf : Goes (f value) middle result behind) : Goes (decoder >>= f) before result behind := by
  intro rest hrest
  obtain ⟨next, hnext, hmiddle⟩ := h rest hrest
  obtain ⟨last, hlast, hbehind⟩ := hf next hmiddle
  refine ⟨last, ?_, hbehind⟩
  show EStateM.bind decoder f rest = _
  rw [EStateM.bind, hnext]
  exact hlast

/-- What a decoder gives is told by the lexemes. -/
theorem Goes.unique {decoder : Decoder α} {before behind rear : List Kind} {value other : α}
    (h : Goes decoder before value behind) (hother : Goes decoder before other rear) (rest : Rest)
    (hrest : rest.kinds = before) : value = other := by
  obtain ⟨next, hnext, -⟩ := h rest hrest
  obtain ⟨last, hlast, -⟩ := hother rest hrest
  rw [hnext] at hlast
  injection hlast

/-- To look at the next lexeme takes nothing. -/
theorem goes_peek_bind {f : Option Lexeme → Decoder α} {kind : Kind} {before behind : List Kind}
    {value : α} (h : ∀ lexeme : Lexeme, lexeme.kind = kind →
      Goes (f (some lexeme)) (kind :: before) value behind) :
    Goes (peek >>= f) (kind :: before) value behind := by
  intro rest hrest
  obtain ⟨lexeme, lexemes, hlexemes, hkind, -⟩ := List.map_eq_cons_iff.mp hrest
  obtain ⟨next, hnext, hbehind⟩ := h lexeme hkind { rest with spot := lexeme.start } hrest
  refine ⟨next, ?_, hbehind⟩
  show EStateM.bind peek f rest = _
  rw [EStateM.bind, peek_of_cons hlexemes]
  exact hnext

theorem goes_eat (lexeme : Lexeme) (kind : Kind) (behind : List Kind) :
    Goes (eat lexeme) (kind :: behind) () behind := by
  intro rest hrest
  obtain ⟨first, lexemes, hlexemes, -, hbehind⟩ := List.map_eq_cons_iff.mp hrest
  refine ⟨{ rest with lexemes := rest.lexemes.tail, spot := lexeme.stop }, rfl, ?_⟩
  simp only [Rest.kinds, hlexemes, List.tail_cons, hbehind]

theorem goes_count_bind {f : Nat → Decoder α} {before behind : List Kind} {value : α}
    (h : Goes (f before.length) before value behind) : Goes (count >>= f) before value behind := by
  intro rest hrest
  obtain ⟨next, hnext, hbehind⟩ := h rest hrest
  refine ⟨next, ?_, hbehind⟩
  have hcount : rest.lexemes.length = before.length := by
    rw [← hrest, Rest.kinds, List.length_map]
  show f rest.lexemes.length rest = _
  rw [hcount]
  exact hnext

theorem goes_closed {close : Decoder Unit} {inside : Decoder α} {before middle behind : List Kind}
    {value : α} (h : Goes inside before value middle) (hclose : Goes close middle () behind) :
    Goes (closed close inside) before value behind := by
  intro rest hrest
  obtain ⟨next, hnext, hmiddle⟩ := h rest hrest
  obtain ⟨last, hlast, hbehind⟩ := hclose next hmiddle
  refine ⟨last, ?_, hbehind⟩
  simp only [closed, hnext, placed, bind, EStateM.bind, hlast, pure, EStateM.pure]

/-! ## Brackets, commas and colons -/

theorem goes_closeArray (behind : List Kind) : Goes closeArray (.mark ']' :: behind) () behind := by
  refine goes_peek_bind fun lexeme hkind => ?_
  simp only [hkind]
  exact goes_eat lexeme _ behind

theorem goes_closeObject (behind : List Kind) : Goes closeObject (.mark '\x7d' :: behind) () behind := by
  refine goes_peek_bind fun lexeme hkind => ?_
  simp only [hkind]
  exact goes_eat lexeme _ behind

theorem goes_colon (behind : List Kind) : Goes colon (.mark ':' :: behind) () behind := by
  refine goes_peek_bind fun lexeme hkind => ?_
  simp only [hkind]
  exact goes_eat lexeme _ behind

theorem goes_hasItem_end (isFirst : Bool) (behind : List Kind) :
    Goes (hasItem isFirst) (.mark ']' :: behind) false (.mark ']' :: behind) := by
  refine goes_peek_bind fun lexeme hkind => ?_
  simp only [hkind]
  exact goes_pure false _

theorem goes_hasItem_first {kind : Kind} (h : kind ≠ .mark ']') (behind : List Kind) :
    Goes (hasItem true) (kind :: behind) true (kind :: behind) := by
  refine goes_peek_bind fun lexeme hkind => ?_
  subst hkind
  simp only [if_true]
  split
  · contradiction
  · exact goes_pure true _
  · exact goes_pure true _

theorem goes_hasItem_next {kind : Kind} (h : kind ≠ .mark ']') (behind : List Kind) :
    Goes (hasItem false) (.mark ',' :: kind :: behind) true (kind :: behind) := by
  refine goes_peek_bind fun comma hcomma => ?_
  simp only [hcomma]
  refine (goes_eat comma _ _).bind (goes_peek_bind fun lexeme hkind => ?_)
  subst hkind
  simp only
  exact goes_pure true _

theorem goes_nextKey_end (isFirst : Bool) (behind : List Kind) :
    Goes (nextKey isFirst) (.mark '\x7d' :: behind) none (.mark '\x7d' :: behind) := by
  refine goes_peek_bind fun lexeme hkind => ?_
  simp only [hkind]
  exact goes_pure none _

theorem goes_readString {lexeme : Lexeme} {s : String} (h : lexeme.kind = .string (.ok s))
    (behind : List Kind) : Goes (readString lexeme) (.string (.ok s) :: behind) s behind := by
  simp only [readString, h]
  exact (goes_eat lexeme _ _).bind (goes_pure s _)

theorem goes_nextKey_first (key : String) (behind : List Kind) :
    Goes (nextKey true) (.string (.ok key) :: behind) (some key) behind := by
  refine goes_peek_bind fun lexeme hkind => ?_
  simp only [hkind]
  exact (goes_readString hkind behind).bind (goes_pure (some key) _)

theorem goes_nextKey_next (key : String) (behind : List Kind) :
    Goes (nextKey false) (.mark ',' :: .string (.ok key) :: behind) (some key) behind := by
  refine goes_peek_bind fun comma hcomma => ?_
  simp only [hcomma]
  refine (goes_eat comma _ _).bind (goes_peek_bind fun lexeme hkind => ?_)
  simp only [hkind]
  exact (goes_readString hkind behind).bind (goes_pure (some key) _)

/-! ## Items and entries -/

/-- Whether a decoder reads a group of lexemes as a value. -/
structure IsItem (item : Decoder α) (group : List Kind) (value : α) : Prop where
  head : ∃ kind tail, group = kind :: tail ∧ kind ≠ .mark ']'
  goes : ∀ behind, Goes item (group ++ behind) value behind

theorem goes_nextItem_end (isFirst : Bool) (item : Decoder α) (behind : List Kind) :
    Goes (nextItem isFirst item) (.mark ']' :: behind) none (.mark ']' :: behind) :=
  (goes_hasItem_end isFirst behind).bind (goes_pure none _)

theorem goes_nextItem_first {item : Decoder α} {group : List Kind} {value : α}
    (h : IsItem item group value) (behind : List Kind) :
    Goes (nextItem true item) (group ++ behind) (some value) behind := by
  have hitem := h.goes behind
  obtain ⟨kind, tail, rfl, hkind⟩ := h.head
  exact (goes_hasItem_first hkind _).bind (hitem.bind (goes_pure _ _))

theorem goes_nextItem_next {item : Decoder α} {group : List Kind} {value : α}
    (h : IsItem item group value) (behind : List Kind) :
    Goes (nextItem false item) (.mark ',' :: (group ++ behind)) (some value) behind := by
  have hitem := h.goes behind
  obtain ⟨kind, tail, rfl, hkind⟩ := h.head
  exact (goes_hasItem_next hkind _).bind (hitem.bind (goes_pure _ _))

theorem goes_items_next {item : Decoder α} {groups : List (List Kind)} {values : List α}
    (h : List.Forall₂ (IsItem item) groups values) {fuel : Nat} (hfuel : groups.length < fuel)
    (behind : List Kind) :
    Goes (items item false fuel) (groups.flatMap (.mark ',' :: ·) ++ .mark ']' :: behind) values
      (.mark ']' :: behind) := by
  induction h generalizing fuel with
  | nil =>
      obtain ⟨fuel, rfl⟩ := Nat.exists_eq_succ_of_ne_zero (Nat.ne_of_gt hfuel)
      exact (goes_nextItem_end false item behind).bind (goes_pure _ _)
  | cons hfirst hrest ih =>
      obtain ⟨fuel, rfl⟩ := Nat.exists_eq_succ_of_ne_zero (Nat.ne_of_gt (Nat.zero_lt_of_lt hfuel))
      rw [List.flatMap_cons, List.append_assoc, List.cons_append]
      refine (goes_nextItem_next hfirst _).bind ?_
      exact (ih (by simpa using hfuel)).bind (goes_pure _ _)

theorem goes_items {item : Decoder α} {groups : List (List Kind)} {values : List α}
    (h : List.Forall₂ (IsItem item) groups values) {fuel : Nat} (hfuel : groups.length < fuel)
    (behind : List Kind) :
    Goes (items item true fuel) (separated groups ++ .mark ']' :: behind) values
      (.mark ']' :: behind) := by
  obtain ⟨fuel, rfl⟩ := Nat.exists_eq_succ_of_ne_zero (Nat.ne_of_gt (Nat.zero_lt_of_lt hfuel))
  cases h with
  | nil =>
      exact (goes_nextItem_end true item behind).bind (goes_pure _ _)
  | cons hfirst hrest =>
      rw [separated, List.append_assoc]
      refine (goes_nextItem_first hfirst _).bind ?_
      exact (goes_items_next hrest (by simpa using hfuel) behind).bind (goes_pure _ _)

/-- Whether a step reads the entries of an object one by one, from a state to another one. -/
inductive Steps {σ : Type} (step : σ → String → Decoder σ) : σ → List (List Kind) → σ → Prop
  | nil (state : σ) : Steps step state [] state
  | cons {state next last : σ} {key : String} {group : List Kind} {groups : List (List Kind)}
      (first : ∀ behind, Goes (step state key) (group ++ behind) next behind)
      (rest : Steps step next groups last) :
      Steps step state ((.string (.ok key) :: group) :: groups) last

theorem goes_entries_next {σ : Type} {step : σ → String → Decoder σ} {state last : σ}
    {groups : List (List Kind)} (h : Steps step state groups last) {fuel : Nat}
    (hfuel : groups.length < fuel) (behind : List Kind) :
    Goes (entries step false fuel state) (groups.flatMap (.mark ',' :: ·) ++ .mark '\x7d' :: behind)
      last (.mark '\x7d' :: behind) := by
  induction h generalizing fuel with
  | nil =>
      obtain ⟨fuel, rfl⟩ := Nat.exists_eq_succ_of_ne_zero (Nat.ne_of_gt hfuel)
      exact (goes_nextKey_end false behind).bind (goes_pure _ _)
  | cons hfirst hrest ih =>
      obtain ⟨fuel, rfl⟩ := Nat.exists_eq_succ_of_ne_zero (Nat.ne_of_gt (Nat.zero_lt_of_lt hfuel))
      rw [List.flatMap_cons, List.append_assoc, List.cons_append, List.cons_append]
      refine (goes_nextKey_next _ _).bind ((hfirst _).bind ?_)
      exact ih (by simpa using hfuel)

theorem goes_entries {σ : Type} {step : σ → String → Decoder σ} {state last : σ}
    {groups : List (List Kind)} (h : Steps step state groups last) {fuel : Nat}
    (hfuel : groups.length < fuel) (behind : List Kind) :
    Goes (entries step true fuel state) (separated groups ++ .mark '\x7d' :: behind) last
      (.mark '\x7d' :: behind) := by
  obtain ⟨fuel, rfl⟩ := Nat.exists_eq_succ_of_ne_zero (Nat.ne_of_gt (Nat.zero_lt_of_lt hfuel))
  cases h with
  | nil => exact (goes_nextKey_end true behind).bind (goes_pure _ _)
  | cons hfirst hrest =>
      rw [separated, List.append_assoc, List.cons_append]
      refine (goes_nextKey_first _ _).bind ((hfirst _).bind ?_)
      exact goes_entries_next hrest (by simpa using hfuel) behind

theorem goes_peekValue_bind {f : Lexeme → Decoder α} {kind : Kind} {before behind : List Kind}
    {value : α} (h : ∀ lexeme : Lexeme, lexeme.kind = kind →
      Goes (f lexeme) (kind :: before) value behind) :
    Goes (peekValue >>= f) (kind :: before) value behind := by
  unfold peekValue
  rw [bind_assoc]
  exact goes_peek_bind fun lexeme hkind => h lexeme hkind

theorem length_separated {groups : List (List Kind)} (h : ∀ group ∈ groups, group ≠ []) :
    groups.length ≤ (separated groups).length := by
  cases groups with
  | nil => simp
  | cons first groups =>
      have hfirst : 0 < first.length := List.length_pos_iff.mpr (h first (List.mem_cons_self ..))
      have hrest : groups.length ≤ (groups.flatMap (Kind.mark ',' :: ·)).length := by
        clear h hfirst
        induction groups with
        | nil => simp
        | cons group groups ih =>
            rw [List.flatMap_cons, List.length_append, List.length_cons, List.length_cons]
            omega
      rw [separated, List.length_append, List.length_cons]
      omega

/-- The rest of a document is long enough to hold all groups. -/
theorem length_lt_separated {groups : List (List Kind)} (h : ∀ group ∈ groups, group ≠ [])
    (kind : Kind) (behind : List Kind) :
    groups.length < (separated groups ++ kind :: behind).length := by
  have hle := length_separated h
  rw [List.length_append, List.length_cons]
  omega

theorem IsItem.ne_nil {item : Decoder α} {groups : List (List Kind)} {values : List α}
    (h : List.Forall₂ (IsItem item) groups values) : ∀ group ∈ groups, group ≠ [] := by
  induction h with
  | nil => simp
  | cons hfirst _ ih =>
      intro group hgroup
      rcases List.mem_cons.mp hgroup with rfl | hmem
      · obtain ⟨kind, tail, rfl, -⟩ := hfirst.head
        simp
      · exact ih group hmem

theorem Steps.ne_nil {σ : Type} {step : σ → String → Decoder σ} {state last : σ}
    {groups : List (List Kind)} (h : Steps step state groups last) : ∀ group ∈ groups, group ≠ [] := by
  induction h with
  | nil => simp
  | cons _ _ ih =>
      intro group hgroup
      rcases List.mem_cons.mp hgroup with rfl | hmem
      · simp
      · exact ih group hmem

/-- Items between brackets. -/
theorem goes_array {item : Decoder α} {groups : List (List Kind)} {values : List α}
    (h : List.Forall₂ (IsItem item) groups values) (behind : List Kind) (f : List α → β) :
    Goes (closed closeArray (do return f (← items item true (← count))))
      (separated groups ++ .mark ']' :: behind) (f values) behind := by
  refine goes_closed ?_ (goes_closeArray behind)
  refine goes_count_bind ((goes_items h ?_ behind).bind (goes_pure _ _))
  exact length_lt_separated (IsItem.ne_nil h) _ _

/-- Entries between braces. -/
theorem goes_object {σ : Type} {step : σ → String → Decoder σ} {state last : σ}
    {groups : List (List Kind)} (h : Steps step state groups last) (behind : List Kind)
    (f : σ → Decoder β) {result : β} (hf : ∀ kinds, Goes (f last) kinds result kinds) :
    Goes (closed closeObject (do f (← entries step true (← count) state)))
      (separated groups ++ .mark '\x7d' :: behind) result behind := by
  refine goes_closed ?_ (goes_closeObject behind)
  refine goes_count_bind ((goes_entries h ?_ behind).bind (hf _))
  exact length_lt_separated h.ne_nil _ _

/-! ## Values -/

/-- The lexemes of a value do not start with a closing bracket. -/
theorem head_kinds (value : Json) : ∃ kind tail, value.kinds = kind :: tail ∧ kind ≠ .mark ']' := by
  cases value with
  | null => exact ⟨_, _, rfl, by simp⟩
  | bool value => exact ⟨_, _, rfl, by simp⟩
  | int value => exact ⟨_, _, rfl, by simp⟩
  | float value => exact ⟨_, _, rfl, by simp⟩
  | string value => exact ⟨_, _, rfl, by simp⟩
  | array items => exact ⟨_, _, rfl, by simp⟩
  | object entries => exact ⟨_, _, rfl, by simp⟩

theorem kinds_array_append (items : List Json) (behind : List Kind) :
    (array items).kinds ++ behind =
      .mark '[' :: (separated (itemKinds items) ++ .mark ']' :: behind) := by
  simp [Json.kinds]

theorem kinds_object_append (fields : List (String × Json)) (behind : List Kind) :
    (object fields).kinds ++ behind =
      .mark '\x7b' :: (separated (entryKinds fields) ++ .mark '\x7d' :: behind) := by
  simp [Json.kinds]

/-- If every entry with a new key goes on from what was read before, all entries are read. -/
theorem Steps.of_entries {σ : Type} (step : σ → String → Decoder σ) (state : Entries Json → σ)
    (fits : String → Json → Prop)
    (h : ∀ (done : Entries Json) key value, key ∉ done.keys → fits key value → ∀ behind,
      Goes (step (state done) key) (.mark ':' :: (value.kinds ++ behind))
        (state (done ++ [(key, value)])) behind)
    {entries : Entries Json} (hfits : ∀ entry ∈ entries, fits entry.1 entry.2)
    (hnodup : entries.keys.Nodup) : Steps step (state []) (entryKinds entries) (state entries) := by
  have hfrom : ∀ done : Entries Json, (Entries.keys (done ++ entries)).Nodup →
      Steps step (state done) (entryKinds entries) (state (done ++ entries)) := by
    clear hnodup
    induction entries with
    | nil =>
        intro done _
        rw [List.append_nil]
        exact .nil _
    | cons first entries ih =>
        intro done hnodup
        obtain ⟨key, value⟩ := first
        rw [List.forall_mem_cons] at hfits
        have hnew : key ∉ done.keys := by
          rw [Entries.keys, List.map_append, List.map_cons, List.nodup_middle] at hnodup
          exact fun hmem => hnodup.notMem (List.mem_append_left _ hmem)
        have hrest := ih hfits.2 (done ++ [(key, value)]) (by simpa using hnodup)
        rw [List.append_assoc, List.singleton_append] at hrest
        exact .cons (h done key value hnew hfits.1) hrest
  exact hfrom [] hnodup

theorem steps_set (room : Nat) {entries : Entries Json}
    (h : ∀ entry ∈ entries, ∀ behind, Goes (value room) (entry.2.kinds ++ behind) entry.2 behind)
    (hnodup : entries.keys.Nodup) :
    Steps (fun (state : Entries Json) key => do
      colon
      return state.set key (← value room)) [] (entryKinds entries) entries := by
  refine Steps.of_entries _ id
    (fun _ json => ∀ behind, Goes (value room) (json.kinds ++ behind) json behind)
    (fun done key json hnew hjson behind => ?_) h hnodup
  rw [id, id, ← Entries.set_of_notMem hnew]
  exact (goes_colon _).bind ((hjson behind).bind (goes_pure _ _))

mutual

/-- A value that fits is read from its lexemes. -/
theorem goes_value (room : Nat) : (json : Json) → json.Fits room → ∀ behind,
    Goes (value room) (json.kinds ++ behind) json behind
  | .null, _, behind => by
      unfold value
      refine goes_peekValue_bind fun lexeme hkind => ?_
      simp only [hkind]
      exact (goes_eat lexeme _ behind).bind (goes_pure _ _)
  | .bool true, _, behind => by
      unfold value
      refine goes_peekValue_bind fun lexeme hkind => ?_
      simp only [if_true] at hkind
      simp only [hkind]
      exact (goes_eat lexeme _ behind).bind (goes_pure _ _)
  | .bool false, _, behind => by
      unfold value
      refine goes_peekValue_bind fun lexeme hkind => ?_
      simp only [Bool.false_eq_true, if_false] at hkind
      simp only [hkind]
      exact (goes_eat lexeme _ behind).bind (goes_pure _ _)
  | .int n, _, behind => by
      unfold value
      refine goes_peekValue_bind fun lexeme hkind => ?_
      simp only [hkind]
      exact (goes_eat lexeme _ behind).bind (goes_pure _ _)
  | .float x, _, behind => by
      unfold value
      refine goes_peekValue_bind fun lexeme hkind => ?_
      simp only [hkind]
      exact (goes_eat lexeme _ behind).bind (goes_pure _ _)
  | .string s, _, behind => by
      unfold value
      refine goes_peekValue_bind fun lexeme hkind => ?_
      simp only [hkind]
      exact (goes_eat lexeme _ behind).bind (goes_pure _ _)
  | .array values, h, behind => by
      obtain ⟨room, rfl⟩ := Nat.exists_eq_succ_of_ne_zero (Nat.ne_of_gt h.1)
      have hitems := isItem_values room values h.2
      rw [kinds_array_append]
      unfold value
      refine goes_peekValue_bind fun lexeme hkind => ?_
      simp only [hkind]
      exact (goes_eat lexeme _ _).bind (goes_array hitems behind Json.array)
  | .object fields, h, behind => by
      obtain ⟨room, rfl⟩ := Nat.exists_eq_succ_of_ne_zero (Nat.ne_of_gt h.1)
      have hentries := steps_set room (goes_entry_values room fields h.2.2) h.2.1
      rw [kinds_object_append]
      unfold value
      refine goes_peekValue_bind fun lexeme hkind => ?_
      simp only [hkind]
      exact (goes_eat lexeme _ _).bind
        (goes_object hentries behind (fun entries => pure (object entries)) fun _ => goes_pure _ _)

theorem isItem_values (room : Nat) : (items : List Json) → FitItems room items →
    List.Forall₂ (IsItem (value room)) (itemKinds items) items
  | [], _ => .nil
  | item :: rest, h =>
      .cons ⟨head_kinds item, goes_value room item h.1⟩ (isItem_values room rest h.2)

theorem goes_entry_values (room : Nat) : (entries : List (String × Json)) → FitEntries room entries →
    ∀ entry ∈ entries, ∀ behind, Goes (value room) (entry.2.kinds ++ behind) entry.2 behind
  | [], _ => by simp
  | (_, json) :: rest, h => by
      rw [List.forall_mem_cons]
      exact ⟨goes_value room json h.1, goes_entry_values room rest h.2⟩

end

/-! ## Typed values -/

theorem goes_string (s : String) (behind : List Kind) :
    Goes string (.string (.ok s) :: behind) s behind := by
  refine goes_peekValue_bind fun lexeme hkind => ?_
  simp only [hkind]
  exact goes_readString hkind behind

/-- What does not start with null is read as it would be without the option. -/
theorem goes_optional {decoder : Decoder α} {kind : Kind} {before behind : List Kind} {value : α}
    (hkind : kind ≠ .word .null) (h : Goes decoder (kind :: before) value behind) :
    Goes (optional decoder) (kind :: before) (some value) behind := by
  refine goes_peek_bind fun lexeme hlexeme => ?_
  subst hlexeme
  simp only
  exact h.bind (goes_pure _ _)

theorem goes_list {room : Nat} (hroom : 0 < room) {item : Nat → Decoder α} {groups : List (List Kind)}
    {values : List α} (h : List.Forall₂ (IsItem (item (room - 1))) groups values) (behind : List Kind) :
    Goes (list room item) (.mark '[' :: (separated groups ++ .mark ']' :: behind)) values behind := by
  obtain ⟨room, rfl⟩ := Nat.exists_eq_succ_of_ne_zero (Nat.ne_of_gt hroom)
  refine goes_peekValue_bind fun lexeme hkind => ?_
  simp only [hkind]
  refine (goes_eat lexeme _ _).bind (goes_closed ?_ (goes_closeArray behind))
  exact goes_count_bind (goes_items h (length_lt_separated (IsItem.ne_nil h) _ _) behind)

theorem goes_map {room : Nat} (hroom : 0 < room) {value : Nat → Decoder α} {groups : List (List Kind)}
    {last : Entries α} (h : Steps (fun (state : Entries α) key => do
      colon
      return state.set key (← value (room - 1))) [] groups last) (behind : List Kind) :
    Goes (map room value) (.mark '\x7b' :: (separated groups ++ .mark '\x7d' :: behind)) last behind := by
  obtain ⟨room, rfl⟩ := Nat.exists_eq_succ_of_ne_zero (Nat.ne_of_gt hroom)
  refine goes_peekValue_bind fun lexeme hkind => ?_
  simp only [hkind]
  refine (goes_eat lexeme _ _).bind
    (goes_closed ?_ (goes_closeObject behind))
  exact goes_count_bind (goes_entries h (length_lt_separated h.ne_nil _ _) behind)

theorem goes_record {σ : Type} {room : Nat} (hroom : 0 < room) {r : Record σ α} {last : σ}
    {groups : List (List Kind)} {result : α} (h : Steps (r.field (room - 1)) r.start groups last)
    (hfinish : ∀ kinds, Goes (r.finish last) kinds result kinds) (behind : List Kind) :
    Goes (record room r) (.mark '\x7b' :: (separated groups ++ .mark '\x7d' :: behind)) result behind := by
  obtain ⟨room, rfl⟩ := Nat.exists_eq_succ_of_ne_zero (Nat.ne_of_gt hroom)
  refine goes_peekValue_bind fun lexeme hkind => ?_
  simp only [hkind]
  exact (goes_eat lexeme _ _).bind (goes_object h behind r.finish hfinish)

/-! ## Documents -/

theorem goes_endOfText : Goes endOfText [] () [] := by
  intro rest hrest
  have hlexemes : rest.lexemes = [] := List.map_eq_nil_iff.mp hrest
  refine ⟨{ rest with spot := rest.last }, ?_, hrest⟩
  simp only [endOfText, bind, EStateM.bind, peek_of_nil hlexemes, pure, EStateM.pure]

/-- A document is decoded if the decoder goes through all of its lexemes. -/
theorem run_eq_ok {decoder : Nat → Decoder α} {text : String} {kinds : List Kind} {value : α}
    (hcut : (cut Spot.first text.toList).1.map (·.kind) = kinds)
    (h : Goes (decoder depthLimit) kinds value []) : run decoder text = .ok value := by
  have hall : Goes (do let value ← decoder depthLimit; endOfText; return value) kinds value [] :=
    h.bind (goes_endOfText.bind (goes_pure value []))
  obtain ⟨next, hnext, -⟩ :=
    hall ⟨(cut Spot.first text.toList).1, Spot.first, (cut Spot.first text.toList).2⟩ hcut
  simp only [run, hnext]

end Decoder

/-! ## Printing and reading -/

theorem keys_rereadEntries (entries : Entries Json) :
    Entries.keys (rereadEntries entries) = entries.keys := by
  induction entries with
  | nil => rfl
  | cons first rest ih =>
      simp only [Entries.keys] at ih ⊢
      rw [rereadEntries, List.map_cons, List.map_cons, ih]

mutual

theorem Fits.reread {room : Nat} : (value : Json) → value.Fits room → value.reread.Fits room
  | .null, h => h
  | .bool _, h => h
  | .int _, h => h
  | .float _, _ => trivial
  | .string _, h => h
  | .array items, h => ⟨h.1, FitItems.reread items h.2⟩
  | .object entries, h => by
      refine ⟨h.1, ?_, FitEntries.reread entries h.2.2⟩
      rw [keys_rereadEntries]
      exact h.2.1

theorem FitItems.reread {room : Nat} : (items : List Json) → FitItems room items →
    FitItems room (rereadItems items)
  | [], h => h
  | item :: rest, h => ⟨Fits.reread item h.1, FitItems.reread rest h.2⟩

theorem FitEntries.reread {room : Nat} : (entries : List (String × Json)) →
    FitEntries room entries → FitEntries room (rereadEntries entries)
  | [], h => h
  | (_, value) :: rest, h => ⟨Fits.reread value h.1, FitEntries.reread rest h.2⟩

end

/-- What is printed is read back, except that floating-point numbers are read as what their texts are
scaled to. -/
theorem parse_pretty {value : Json} (h : value.Fits depthLimit) :
    parse value.pretty = .ok value.reread := by
  have hgoes := Decoder.goes_value depthLimit value.reread (Fits.reread value h) []
  rw [List.append_nil] at hgoes
  exact Decoder.run_eq_ok (cut_pretty h Spot.first) hgoes

/-- A compact text tells the value, up to how floating-point numbers are read. -/
theorem reread_eq_of_compact_eq {room : Nat} {value other : Json} (h : value.Fits room)
    (hother : other.Fits room) (htext : value.compact = other.compact) : value.reread = other.reread := by
  have hcut := cut_compact h Spot.first
  have hcut' := cut_compact hother Spot.first
  rw [htext, hcut'] at hcut
  have hgoes := Decoder.goes_value room value.reread (Fits.reread value h) []
  have hgoes' := Decoder.goes_value room other.reread (Fits.reread other hother) []
  rw [← hcut] at hgoes
  exact hgoes.unique hgoes'
    ⟨(cut Spot.first other.compact.toList).1, Spot.first, (cut Spot.first other.compact.toList).2⟩
    (by rw [List.append_nil]; exact hcut')

end ScopedCheck.Json
