import Strongbox.Proofs.Store.Pattern
import Strongbox.Store.Tables

/-!
# What the pattern of a query finds

The relational store leaves the comparison of texts to a search that comes with its tables, and of
which no more is known than what is documented: what a percent sign, an underscore, a backslash and
any other character of a pattern stand for. Whatever search keeps to this, the pattern of a query
finds the texts that hold the filter, where the case of basic letters does not count.

## Main definitions

* `Pattern.Searchable`: what can be searched for, and in what.
* `Pattern.Documented`: what is documented of a search.
* `Pattern.search`: a search that keeps to it.
* `Pattern.mark`: a backslash before every occurrence of a character.

## Main statements

* `Pattern.flatMap_escape`: marking the three special characters one after another marks no mark.
* `Pattern.Documented.containing_iff`: the pattern for a text finds what holds the text.
* `Tables.finds_pattern_iff`: the pattern of a query finds what holds the filter.
-/

namespace Strongbox

namespace Pattern

variable {p t u f : List Char} {c : Char}

/-! ## The search -/

/-- Neither the pattern nor the text has a null character, and the pattern is not too long. -/
structure Searchable (pattern text : List Char) : Prop where
  plain_pattern : '\x00' ∉ pattern
  plain_text : '\x00' ∉ text
  short : (String.ofList pattern).utf8ByteSize ≤ maxBytes

theorem Searchable.of_suffix {q : List Char} (h : Searchable p t) (hq : q <:+ p) (hu : u <:+ t) :
    Searchable q u where
  plain_pattern there := h.plain_pattern (hq.subset there)
  plain_text there := h.plain_text (hu.subset there)
  short := by
    obtain ⟨before, rfl⟩ := hq
    have := h.short
    rw [String.ofList_append, String.utf8ByteSize_append] at this
    omega

/-- What is documented of a search: a percent sign stands for any characters, an underscore for one,
a backslash takes away the meaning of what follows, and all else stands for itself, where basic
letters match in either case. -/
structure Documented (like : List Char → List Char → Bool) : Prop where
  nil {t : List Char} : Searchable [] t → (like [] t = true ↔ t = [])
  many {p t : List Char} : Searchable ('%' :: p) t →
    (like ('%' :: p) t = true ↔ ∃ u, u <:+ t ∧ like p u = true)
  one {p t : List Char} : Searchable ('_' :: p) t →
    (like ('_' :: p) t = true ↔ ∃ d u, t = d :: u ∧ like p u = true)
  marked {c : Char} {p t : List Char} : Searchable ('\\' :: c :: p) t →
    (like ('\\' :: c :: p) t = true ↔ ∃ d u, t = d :: u ∧ c.toLower = d.toLower ∧ like p u = true)
  letter {c : Char} {p t : List Char} : c ∉ ['\\', '%', '_'] → Searchable (c :: p) t →
    (like (c :: p) t = true ↔ ∃ d u, t = d :: u ∧ c.toLower = d.toLower ∧ like p u = true)

/-- A search that does what is documented. -/
def search : List Char → List Char → Bool
  | [], t => t.isEmpty
  | '%' :: p, t => (endings t).any (search p)
  | '_' :: p, t =>
    match t with
    | [] => false
    | _ :: t => search p t
  | '\\' :: c :: p, t =>
    match t with
    | [] => false
    | d :: t => c.toLower = d.toLower && search p t
  | c :: p, t =>
    match t with
    | [] => false
    | d :: t => c.toLower = d.toLower && search p t

theorem documented_search : Documented search where
  nil _ := by simp [search]
  many _ := by simp [search, mem_endings]
  one {p t} _ := by cases t <;> grind [search]
  marked {c p t} _ := by cases t <;> grind [search]
  letter {c p t} plain _ := by cases t <;> grind [search.eq_def]

/-! ## Escaping -/

/-- A backslash before every occurrence of a character. -/
def mark (c : Char) (s : List Char) : List Char :=
  s.flatMap fun d => if d = c then ['\\', d] else [d]

/-- The special characters may be marked one after another, backslashes first: then no mark is taken
for a character of the text. -/
theorem flatMap_escape (s : List Char) :
    s.flatMap escape = mark '_' (mark '%' (mark '\\' s)) := by
  have each : ∀ c, escape c = mark '_' (mark '%' (mark '\\' [c])) := by
    intro c
    by_cases slash : c = '\\'
    · simp [slash, escape, mark]
    · by_cases percent : c = '%'
      · simp [percent, escape, mark]
      · by_cases line : c = '_' <;> simp [slash, percent, line, escape, mark]
  simp only [mark, List.flatMap_assoc] at each ⊢
  refine congrArg (List.flatMap · s) (funext fun c => ?_)
  simpa using each c

namespace Documented

variable {like : List Char → List Char → Bool} (documented : Documented like)

include documented

/-- A gap at the end of a pattern takes the rest of a text. -/
theorem like_gap (h : Searchable ['%'] t) : like ['%'] t = true := by
  have empty : Searchable [] [] := h.of_suffix List.nil_suffix List.nil_suffix
  exact (documented.many h).2 ⟨[], List.nil_suffix, (documented.nil empty).2 rfl⟩

theorem like_escape (h : Searchable (escape c ++ p) t) : like (escape c ++ p) t = true ↔
    ∃ d u, t = d :: u ∧ c.toLower = d.toLower ∧ like p u = true := by
  unfold escape at h ⊢
  split
  · rw [if_pos ‹_›] at h
    exact documented.marked h
  · rw [if_neg ‹_›] at h
    exact documented.letter ‹_› h

/-- An escaped text before a gap is what a text begins with. -/
theorem like_letters (h : Searchable (f.flatMap escape ++ ['%']) t) :
    like (f.flatMap escape ++ ['%']) t = true ↔ Text.lowerAscii f <+: Text.lowerAscii t := by
  induction f generalizing t with
  | nil => simpa [Text.lowerAscii] using documented.like_gap h
  | cons c f ih =>
    rw [List.flatMap_cons, List.append_assoc] at h ⊢
    rw [documented.like_escape h]
    constructor
    · rintro ⟨d, u, rfl, same, more⟩
      have rest := h.of_suffix (List.suffix_append ..) (List.suffix_cons d u)
      exact List.cons_prefix_cons.2 ⟨same, (ih rest).1 more⟩
    · intro begins
      cases t with
      | nil => simp [Text.lowerAscii] at begins
      | cons d u =>
        obtain ⟨same, more⟩ := List.cons_prefix_cons.1 begins
        have rest := h.of_suffix (List.suffix_append ..) (List.suffix_cons d u)
        exact ⟨d, u, rfl, same, (ih rest).2 more⟩

theorem containing_iff {s text : String} (h : Searchable (containing s).toList text.toList) :
    like (containing s).toList text.toList = true ↔
      Text.lowerAscii s.toList <:+: Text.lowerAscii text.toList := by
  rw [containing, String.toList_ofList, List.cons_append] at h ⊢
  rw [documented.many h, Text.lowerAscii, Text.lowerAscii, infix_map_iff]
  refine exists_congr fun u => and_congr_right fun suffix => ?_
  exact documented.like_letters (h.of_suffix (List.suffix_cons ..) suffix)

end Documented

theorem length_le_utf8ByteSize (s : List Char) : s.length ≤ (String.ofList s).utf8ByteSize := by
  induction s with
  | nil => exact Nat.zero_le _
  | cons c rest ih =>
    have := c.utf8Size_pos
    rw [String.ofList_cons, String.utf8ByteSize_append, String.utf8ByteSize_singleton,
      List.length_cons]
    omega

theorem length_le_flatMap_escape (s : List Char) : s.length ≤ (s.flatMap escape).length := by
  induction s with
  | nil => exact Nat.zero_le _
  | cons c rest ih =>
    have some : 0 < (escape c).length := by
      unfold escape
      split <;> simp
    rw [List.flatMap_cons, List.length_append, List.length_cons]
    omega

end Pattern

namespace Tables

open Pattern

/-- The pattern of a query without a filter is a gap; any other has the trimmed filter between two
gaps. -/
theorem pattern_make (page perPage : Int) (filter : String) :
    pattern (.make page perPage filter) =
      if Text.trim filter.toList = [] then "%"
      else containing (String.ofList (Text.trim filter.toList)) := by
  by_cases blank : Text.trim filter.toList = [] <;> simp [pattern, Query.make, blank]

/-- The pattern of a query has more bytes than the trimmed filter has characters. -/
theorem lt_pattern {filter : String} (some : Text.trim filter.toList ≠ [])
    (page perPage : Int) : (Text.trim filter.toList).length <
      (pattern (.make page perPage filter)).utf8ByteSize := by
  rw [pattern_make, if_neg some, containing, String.toList_ofList]
  refine Nat.lt_of_lt_of_le ?_ (length_le_utf8ByteSize _)
  have := length_le_flatMap_escape (Text.trim filter.toList)
  rw [List.cons_append, List.length_cons, List.length_append]
  omega

/-- A filter and a text without null characters can be searched for and in, unless the pattern is
too long. -/
theorem searchable_pattern {page perPage : Int} {filter text : String}
    (filter_plain : '\x00' ∉ Text.trim filter.toList) (text_plain : '\x00' ∉ text.toList)
    (short : (pattern (.make page perPage filter)).utf8ByteSize ≤ maxBytes) :
    Searchable (pattern (.make page perPage filter)).toList text.toList where
  plain_pattern := by
    rw [pattern_make]
    split
    · decide
    · exact plain_containing (by simpa using filter_plain)
  plain_text := text_plain
  short := by simpa using short

/-- Where no character stands for another, texts are compared by their basic letters alone. -/
theorem map_fold_eq {s : List Char} (h : ∀ c ∈ s, c ≠ '\ufffe' ∧ c ≠ '\uffff') :
    s.map fold = Text.lowerAscii s :=
  List.map_congr_left fun c hc => if_neg (not_or.2 (h c hc))

/-- The pattern of a query marks the special characters of the trimmed filter, one after another,
and any search that keeps to what is documented finds with it the texts that hold the trimmed
filter, letter case aside. So does the search of the tables, but for the two code points that it
takes for another. -/
theorem finds_pattern_iff {like : List Char → List Char → Bool} (documented : Documented like)
    (page perPage : Int) {filter text : String}
    (filter_plain : '\x00' ∉ Text.trim filter.toList) (text_plain : '\x00' ∉ text.toList)
    (short : (pattern (.make page perPage filter)).utf8ByteSize ≤ maxBytes) :
    (Text.trim filter.toList ≠ [] → (pattern (.make page perPage filter)).toList =
      '%' :: mark '_' (mark '%' (mark '\\' (Text.trim filter.toList))) ++ ['%']) ∧
    (like (pattern (.make page perPage filter)).toList text.toList = true ↔
      Text.lowerAscii (Text.trim filter.toList) <:+: Text.lowerAscii text.toList) ∧
    ((∀ c ∈ Text.trim filter.toList ++ text.toList, c ≠ '\ufffe' ∧ c ≠ '\uffff') →
      accepts (pattern (.make page perPage filter)) text =
        like (pattern (.make page perPage filter)).toList text.toList) := by
  have searchable := searchable_pattern filter_plain text_plain short
  rw [pattern_make] at searchable ⊢
  by_cases blank : Text.trim filter.toList = []
  · rw [if_pos blank] at searchable ⊢
    have gap : like ['%'] text.toList = true := documented.like_gap searchable
    simp [gap, blank, accepts_any, Text.lowerAscii]
  · rw [if_neg blank] at searchable ⊢
    have found := documented.containing_iff searchable
    rw [String.toList_ofList] at found
    refine ⟨fun _ => ?_, found, fun proper => Bool.eq_iff_iff.2 ?_⟩
    · rw [containing, String.toList_ofList, String.toList_ofList, flatMap_escape]
    · rw [found, accepts_containing_iff (by simpa using filter_plain), visible_of_plain text_plain,
        String.toList_ofList, map_fold_eq fun c hc => proper c (List.mem_append_left _ hc),
        map_fold_eq fun c hc => proper c (List.mem_append_right _ hc)]

/-- A filter of all three special characters is found as it is, its letters in either case. -/
theorem finds_pattern_of_special_characters :
    pattern (.make 1 10 " 50%_a\\B ") = "%50\\%\\_a\\\\B%" ∧
    search (pattern (.make 1 10 " 50%_a\\B ")).toList "<50%_A\\b>".toList = true ∧
    accepts (pattern (.make 1 10 " 50%_a\\B ")) "<50%_A\\b>" = true := by
  obtain ⟨made, found, alike⟩ := finds_pattern_iff documented_search 1 10
    (by decide +kernel : '\x00' ∉ Text.trim " 50%_a\\B ".toList)
    (by decide +kernel : '\x00' ∉ "<50%_A\\b>".toList) (by decide +kernel)
  have hit := found.2 (by decide +kernel)
  have proper : (Text.trim " 50%_a\\B ".toList ++ "<50%_A\\b>".toList).all
      (fun c => c ≠ '\ufffe' ∧ c ≠ '\uffff') = true := by decide +kernel
  exact ⟨String.toList_inj.1 ((made (by decide +kernel)).trans (by decide +kernel)), hit,
    (alike fun c hc => of_decide_eq_true (List.all_eq_true.1 proper c hc)).trans hit⟩

end Tables

end Strongbox
