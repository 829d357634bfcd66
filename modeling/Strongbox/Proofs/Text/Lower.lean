import Mathlib.Data.List.Basic
import Strongbox.Query

/-!
# Lower case of a part of a text

A text is searched for in lower case. What a part of a text becomes in lower case depends on the
rest of the text in one way only: a capital sigma has two forms, and which of them it takes is
decided by the nearest characters on its two sides that case rules do not look through. Where both
are within the part, or one of them is enough, the form is settled.

## Main definitions

* `Text.lowerWithin`: lower case of a part of a text.
* `Text.nearest`, `Text.settles`: what decides the form of a sigma, and whether it is known.
* `Text.isSettled`: the form of every sigma of a text is known, whatever stands around the text.

## Main statements

* `Text.lower_eq_map`, `Text.lower_of_ascii`: texts that are lower-cased character by character.
* `Text.lower_infix_of_settled`: a settled text is found in lower case wherever it occurs.
* `Text.exists_unfound`: any other text occurs where it is not found in lower case.
* `Query.finds_literal_iff`: so a filter finds all its literal hits if and only if it is settled.
-/

namespace Strongbox

namespace Text

variable {before after s t : List Char} {c : Char}

/-! ## Lower case in context -/

/-- Lower case of a part of a text, which follows the reversed text `before` and is followed by
`after`. -/
def lowerWithin (before after : List Char) : List Char → List Char
  | [] => []
  | c :: rest =>
    (if c = 'Σ' then [if endsWord before (rest ++ after) then 'ς' else 'σ'] else lowerChar c)
      ++ lowerWithin (c :: before) after rest

/-- The lower case of a text is made of the lower cases of its parts. -/
theorem lowerAfter_append (before s t : List Char) :
    lowerAfter before (s ++ t) =
      lowerWithin before t s ++ lowerAfter (s.reverse ++ before) t := by
  induction s generalizing before with
  | nil => rfl
  | cons c rest ih => simp [lowerAfter, lowerWithin, ih]

theorem lowerWithin_append (before after s t : List Char) :
    lowerWithin before after (s ++ t) =
      lowerWithin before (t ++ after) s ++ lowerWithin (s.reverse ++ before) after t := by
  induction s generalizing before with
  | nil => rfl
  | cons c rest ih => simp [lowerWithin, ih]

theorem lower_eq_lowerWithin (s : List Char) : lower s = lowerWithin [] [] s := by
  simpa [lower, lowerAfter] using lowerAfter_append [] s []

theorem length_lowerWithin (before after before' after' s : List Char) :
    (lowerWithin before after s).length = (lowerWithin before' after' s).length := by
  induction s generalizing before before' with
  | nil => rfl
  | cons c rest ih =>
    simp only [lowerWithin, List.length_append, ih (c :: before) (c :: before')]
    split <;> rfl

/-- Where a part with a sigma becomes the same in two places, so does the sigma. -/
theorem endsWord_eq_of_lowerWithin_eq {before' after' : List Char}
    (same : lowerWithin before after (s ++ 'Σ' :: t) = lowerWithin before' after' (s ++ 'Σ' :: t)) :
    endsWord (s.reverse ++ before) (t ++ after) =
      endsWord (s.reverse ++ before') (t ++ after') := by
  rw [lowerWithin_append, lowerWithin_append] at same
  have rest := List.append_inj_right same (length_lowerWithin ..)
  simp only [lowerWithin, if_true, List.singleton_append, List.cons.injEq] at rest
  have form := rest.1
  grind

/-! ## Characters on their own -/

/-- Where each character becomes a single one, whatever stands around it, so does the whole text. -/
theorem lower_eq_map {f : Char → Char} (single : ∀ c ∈ s, c ≠ 'Σ' ∧ lowerChar c = [f c]) :
    lower s = s.map f := by
  have main : ∀ before, lowerAfter before s = s.map f := by
    induction s with
    | nil => exact fun _ => rfl
    | cons c rest ih =>
      intro before
      obtain ⟨⟨plain, here⟩, single⟩ := List.forall_mem_cons.1 single
      rw [lowerAfter, if_neg plain, here, ih single]
      rfl
  exact main []

/-- Of the characters below 128 the first run of the case table tells the lower case. -/
theorem findSome?_caseRuns {n : Nat} (h : n < 128) :
    caseRuns.findSome? (·.map? n) = CaseRun.map? ⟨0x41, 0x5a, 1, 0x61⟩ n := by
  have later : ∀ r ∈ caseRuns.tail, 128 ≤ r.first := by decide +kernel
  have none : caseRuns.tail.findSome? (·.map? n) = none := by
    refine List.findSome?_eq_none_iff.2 fun r hr => ?_
    have := later r hr
    exact if_neg (by omega)
  rw [show caseRuns = ⟨0x41, 0x5a, 1, 0x61⟩ :: caseRuns.tail from rfl, List.findSome?_cons, none]
  cases CaseRun.map? ⟨0x41, 0x5a, 1, 0x61⟩ n <;> rfl

/-- Of the characters below 128 only the basic letters have case. -/
theorem lowerChar_of_ascii (h : c.toNat < 128) : c ≠ 'Σ' ∧ lowerChar c = [c.toLower] := by
  have main : ∀ n < 128, Char.ofNat n ≠ 'Σ' ∧ Char.ofNat n ≠ '\u0130' ∧
      Char.ofNat ((CaseRun.map? ⟨0x41, 0x5a, 1, 0x61⟩ n).getD n) = (Char.ofNat n).toLower := by
    decide +kernel
  obtain ⟨sigma, dotted, same⟩ := main c.toNat h
  rw [Char.ofNat_toNat] at sigma dotted same
  refine ⟨sigma, ?_⟩
  rw [lowerChar, if_neg dotted, findSome?_caseRuns h, same]

/-- A text below 128 is lower-cased by its basic letters alone. -/
theorem lower_of_ascii (ascii : ∀ c ∈ s, c.toNat < 128) : lower s = lowerAscii s :=
  lower_eq_map fun c hc => lowerChar_of_ascii (ascii c hc)

/-! ## What decides the form of a sigma -/

/-- Past the characters that case rules look through, whether the first one has case. Nothing is
known if there is none. -/
def nearest : List Char → Option Bool
  | [] => none
  | c :: rest =>
    if ignorableFlips.covers c.toNat then nearest rest else some (casedFlips.covers c.toNat)

theorem nearest_append (s t : List Char) : nearest (s ++ t) = (nearest s).or (nearest t) := by
  induction s with
  | nil => rfl
  | cons c rest ih => grind [nearest, Option.or]

theorem meetsCased_eq_nearest (s : List Char) : meetsCased s = (nearest s).getD false := by
  induction s with
  | nil => rfl
  | cons c rest ih => grind [nearest, meetsCased]

theorem meetsCased_concat (unknown : nearest s = none) (cased : nearest [c] = some true) :
    meetsCased (s ++ [c]) = true := by
  rw [meetsCased_eq_nearest, nearest_append, unknown, cased]
  rfl

/-- Whether the form of a sigma between two texts is the same wherever these texts stand: a letter
with case follows, or something else precedes, or a letter precedes and something else follows. -/
def settles (before after : List Char) : Bool :=
  match nearest before, nearest after with
  | _, some true | some false, _ | some true, some false => true
  | _, _ => false

/-- A settled sigma keeps its form wherever the two texts stand. -/
theorem endsWord_append (settled : settles before after = true) (s t : List Char) :
    endsWord (before ++ s) (after ++ t) = endsWord before after := by
  simp only [settles] at settled
  simp only [endsWord, meetsCased_eq_nearest, nearest_append]
  grind [Option.or]

/-- A sigma that is not settled has nothing after it that decides its form, or nothing before it. -/
theorem nearest_of_unsettled (unsettled : settles before after = false) :
    (endsWord before after = true ∧ nearest after = none) ∨
      (endsWord before after = false ∧ nearest before = none ∧ meetsCased after = false) := by
  simp only [endsWord, meetsCased_eq_nearest]
  rcases hb : nearest before with _ | _ | _ <;> rcases ha : nearest after with _ | _ | _ <;>
    simp_all [settles]

/-! ## Settled texts -/

/-- Every sigma of the text `after`, which follows the reversed text `before`, is settled. -/
def settledAfter (before : List Char) : List Char → Bool
  | [] => true
  | c :: rest => (c ≠ 'Σ' || settles before rest) && settledAfter (c :: before) rest

/-- Every sigma of a text is settled. -/
def isSettled (s : List Char) : Bool := settledAfter [] s

theorem settledAfter_of_not_mem (plain : 'Σ' ∉ s) (before : List Char) :
    settledAfter before s = true := by
  induction s generalizing before with
  | nil => rfl
  | cons c rest ih => grind [settledAfter]

theorem isSettled_of_not_mem (plain : 'Σ' ∉ s) : isSettled s = true :=
  settledAfter_of_not_mem plain []

theorem lowerWithin_of_settled (settled : settledAfter before s = true) (u v : List Char) :
    lowerWithin (before ++ u) v s = lowerWithin before [] s := by
  induction s generalizing before with
  | nil => rfl
  | cons c rest ih =>
    simp only [settledAfter, Bool.and_eq_true, Bool.or_eq_true, decide_eq_true_eq] at settled
    have below := ih settled.2
    have here : c = 'Σ' → endsWord (before ++ u) (rest ++ v) = endsWord before rest := by
      intro sigma
      exact endsWord_append (settled.1.resolve_left (not_not_intro sigma)) u v
    simp only [List.cons_append] at below
    simp only [lowerWithin, List.append_nil, below]
    grind

/-- A settled text is found in lower case wherever it occurs. -/
theorem lower_infix_of_settled (settled : isSettled s = true) (occurs : s <:+: t) :
    lower s <:+: lower t := by
  obtain ⟨u, v, rfl⟩ := occurs
  have same := lowerWithin_of_settled settled u.reverse v
  rw [List.nil_append] at same
  refine ⟨lowerWithin [] (s ++ v) u, lowerAfter (u ++ s).reverse v, ?_⟩
  rw [lower_eq_lowerWithin s, ← same, lower, lowerAfter_append, List.append_nil,
    lowerWithin_append, List.append_nil]

/-! ## Texts that are not found -/

theorem exists_unsettled (unsettled : settledAfter before s = false) :
    ∃ u v, s = u ++ 'Σ' :: v ∧ settles (u.reverse ++ before) v = false := by
  induction s generalizing before with
  | nil => cases unsettled
  | cons c rest ih =>
    by_cases below : settledAfter (c :: before) rest = false
    · obtain ⟨u, v, rfl, open_⟩ := ih below
      exact ⟨c :: u, v, rfl, by simpa using open_⟩
    · refine ⟨[], rest, ?_, ?_⟩ <;> grind [settledAfter]

/-- A letter with case that is its own lower case, and is not a given one. -/
theorem exists_letter (other : Option Char) :
    ∃ c, other ≠ some c ∧ c ≠ 'Σ' ∧ lowerChar c = [c] ∧ nearest [c] = some true := by
  by_cases first : other = some 'a'
  · exact ⟨'b', by simp [first], by decide +kernel⟩
  · exact ⟨'a', first, by decide +kernel⟩

/-- Where a text is found in what it becomes as a part, each of its sigmas has kept its form. -/
theorem endsWord_eq_of_found
    (found : lower (s ++ 'Σ' :: t) <:+: lowerWithin before after (s ++ 'Σ' :: t)) :
    endsWord (s.reverse ++ before) (t ++ after) = endsWord s.reverse t := by
  rw [lower_eq_lowerWithin] at found
  have same := found.eq_of_length (length_lowerWithin ..)
  simpa using (endsWord_eq_of_lowerWithin_eq same).symm

/-- A text that is not settled occurs where it is not found in lower case. -/
theorem exists_unfound (unsettled : isSettled s = false) :
    ∃ t, s <:+: t ∧ ¬lower s <:+: lower t := by
  obtain ⟨u, v, rfl, free⟩ := exists_unsettled unsettled
  rw [List.append_nil] at free
  generalize hs : u ++ 'Σ' :: v = s at unsettled ⊢
  have present : lower s ≠ [] := by
    rw [← hs, lower_eq_lowerWithin, lowerWithin_append]
    simp [lowerWithin]
  rcases nearest_of_unsettled free with ⟨final, ahead⟩ | ⟨medial, behind, ahead⟩
  · -- A letter is put after the text, and the sigma is not final any more.
    obtain ⟨c, other, plain, own, cased⟩ := exists_letter (lower s).getLast?
    have whole : lower (s ++ [c]) = lowerWithin [] [c] s ++ [c] := by
      simp [lower, lowerAfter_append, lowerAfter, plain, own]
    refine ⟨s ++ [c], (List.prefix_append s [c]).isInfix, ?_⟩
    rw [whole, List.infix_concat_iff]
    rintro (⟨w, hw⟩ | found)
    · have last := congrArg List.getLast? hw
      rw [List.getLast?_append_of_ne_nil _ present, List.getLast?_concat] at last
      exact other last
    · have form := endsWord_eq_of_found (hs ▸ found)
      rw [final] at form
      simp [endsWord, meetsCased_concat ahead cased] at form
  · -- A letter is put before the text, and the sigma becomes final.
    obtain ⟨c, other, plain, own, cased⟩ := exists_letter (lower s).head?
    have whole : lower ([c] ++ s) = c :: lowerWithin [c] [] s := by
      have rest := lowerAfter_append [c] s []
      simp only [List.append_nil, lowerAfter] at rest
      simp [lower, lowerAfter, plain, own, rest]
    refine ⟨[c] ++ s, (List.suffix_append [c] s).isInfix, ?_⟩
    rw [whole, List.infix_cons_iff]
    rintro (⟨w, hw⟩ | found)
    · have first := congrArg List.head? hw
      rw [List.head?_append_of_ne_nil _ present] at first
      exact other first
    · have form := endsWord_eq_of_found (hs ▸ found)
      rw [medial] at form
      simp [endsWord, ahead, meetsCased_concat behind cased] at form

end Text

namespace Query

theorem accepts_make_iff {page perPage : Int} {filter : String} {fields : List String} :
    (make page perPage filter).accepts fields = true ↔ Text.trim filter.toList = [] ∨
      ∃ s ∈ fields, Text.lower (Text.trim filter.toList) <:+: Text.lower s.toList := by
  by_cases blank : Text.trim filter.toList = []
  · simp [make, accepts, blank]
  · simp [make, accepts, blank, Text.holds_iff_isInfix]

/-- A filter finds all its literal hits if and only if it is settled: then every text that the
trimmed filter occurs in is found, among any others and whatever the page. A filter that is not
settled misses one of them, because a capital sigma in it takes its other form there. A filter
without a capital sigma is settled. -/
theorem finds_literal_iff (filter : String) :
    ((∀ (page perPage : Int) (s : String) (fields : List String), s ∈ fields →
        Text.trim filter.toList <:+: s.toList →
        (make page perPage filter).accepts fields = true) ↔
      Text.isSettled (Text.trim filter.toList) = true) ∧
    ('Σ' ∉ Text.trim filter.toList → Text.isSettled (Text.trim filter.toList) = true) := by
  refine ⟨⟨fun all => ?_, fun settled page perPage s fields there occurs => ?_⟩,
    Text.isSettled_of_not_mem⟩
  · by_contra unsettled
    obtain ⟨t, occurs, unfound⟩ := Text.exists_unfound (Bool.not_eq_true _ ▸ unsettled)
    have found := all 1 1 (String.ofList t) [String.ofList t] (by simp) (by simpa using occurs)
    rcases accepts_make_iff.1 found with blank | ⟨s, hs, found⟩
    · rw [blank] at unsettled
      exact unsettled rfl
    · rw [List.mem_singleton.1 hs, String.toList_ofList] at found
      exact unfound found
  · exact accepts_make_iff.2 (.inr ⟨s, there, Text.lower_infix_of_settled settled occurs⟩)

/-- A capital sigma alone is not found at the end of a word, where it takes its final form. -/
example : "Σ".toList <:+: "ΑΣ".toList ∧ (make 1 10 "Σ").accepts ["ΑΣ"] = false := by
  decide +kernel

end Query

end Strongbox
