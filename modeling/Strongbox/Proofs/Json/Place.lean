import Mathlib.Data.List.DropRight
import Strongbox.Proofs.Json.Depth
import Strongbox.Proofs.Json.Scalar

/-!
# Where readers stand

A reader in place that fails leaves a text somewhere in the middle, and what comes after it reads on
from there. It can only stand in three kinds of places: before a word, as many lists and objects
deep as it was or deeper; inside of a text; or before something with which nothing can go on.
-/

namespace Strongbox.Json

open Reader

variable {s after : Bytes} {word : Lexeme} {words rest : List Lexeme} {n : Nat}

/-! ## Places -/

/-- A text begins with words in which `n` lists and objects end, and the words `rest` follow. -/
def Deep (n : Nat) (rest : List Lexeme) (s : Bytes) : Prop :=
  ∃ words, lexemes? s = some words ∧ leave n words = some rest

/-- A text begins with words among which, after a value, `n` lists and objects end, and the words
`rest` follow. -/
def Faces (n : Nat) (rest : List Lexeme) (s : Bytes) : Prop :=
  ∃ words, lexemes? s = some words ∧ pass n words = some rest

/-- A text begins inside of one of its texts. -/
def Inside (s : Bytes) : Prop :=
  ∃ raw after, textBody s = some (raw, after) ∧ (lexemes? after).isSome = true

/-- Neither the end of a list or an object comes next nor a comma. -/
def Stuck (s : Bytes) : Prop :=
  ∃ c tail, s.dropWhile isSpace = c :: tail ∧ c ≠ 0x2c ∧ c ≠ 0x5d ∧ c ≠ 0x7d

/-- Where a reader stands that lost its way inside of `n` lists and objects before the words
`rest`. -/
inductive Lost (n : Nat) (rest : List Lexeme) (s : Bytes) : Prop where
  | deep {k : Nat} (le : n ≤ k) (h : Deep k rest s)
  | inside (h : Inside s)
  | stuck (h : Stuck s)

theorem deep_zero : Deep 0 rest s ↔ lexemes? s = some rest := by
  simp [Deep]

theorem Deep.add (h : Deep n rest s) {m : Nat} {rest' : List Lexeme}
    (hr : leave m rest = some rest') : Deep (m + n) rest' s := by
  obtain ⟨words, hw, hl⟩ := h
  exact ⟨words, hw, (leave_add hl m).trans hr⟩

/-! ### Blanks -/

theorem Deep.blanks (h : Deep n rest s) : Deep n rest (s.dropWhile isSpace) := by
  obtain ⟨words, hw, hl⟩ := h
  exact ⟨words, by rwa [lexemes?_dropWhile], hl⟩

theorem Inside.tail {c : UInt8} (h : Inside (c :: s)) (hq : c ≠ 0x22) (hb : c ≠ 0x5c) :
    Inside s := by
  obtain ⟨raw, after, ht, hl⟩ := h
  rw [textBody_cons hq hb] at ht
  split at ht
  · cases ht
  · obtain ⟨⟨raw, after⟩, ht, he⟩ := Option.map_eq_some_iff.1 ht
    cases he
    exact ⟨raw, after, ht, hl⟩

theorem Inside.blanks (h : Inside s) : Inside (s.dropWhile isSpace) := by
  induction s with
  | nil => exact h
  | cons c tail ih =>
    by_cases hc : isSpace c = true
    · rw [List.dropWhile_cons_of_pos hc]
      exact ih (h.tail (by grind [isSpace]) (by grind [isSpace]))
    · rwa [List.dropWhile_cons_of_neg hc]

theorem not_inside_nil : ¬ Inside [] := by
  simp [Inside, textBody]

theorem Inside.append {taken : Bytes} (h : Inside (taken ++ s))
    (outside : ∀ b ∈ taken, isOutside b = true) : Inside s := by
  obtain ⟨raw, after, ht, hl⟩ := h
  rw [textBody_append outside] at ht
  obtain ⟨⟨raw, after⟩, ht, he⟩ := Option.map_eq_some_iff.1 ht
  cases he
  exact ⟨raw, after, ht, hl⟩

/-- What is read as a text where one ends is what stands before the next. -/
theorem Inside.between {raw : Bytes} (h : Inside (0x22 :: s))
    (ht : textBody s = some (raw, after)) : (∀ b ∈ raw, isOutside b = true) ∧ Inside after := by
  obtain ⟨_, _, hq, hl⟩ := h
  cases hq
  obtain ⟨words, hw⟩ := Option.isSome_iff_exists.1 hl
  exact textBody_between hw ht

theorem Stuck.blanks (h : Stuck s) : Stuck (s.dropWhile isSpace) := by
  rwa [Stuck, List.dropWhile_idempotent]

theorem Lost.blanks (h : Lost n rest s) : Lost n rest (s.dropWhile isSpace) := by
  cases h with
  | deep le h => exact .deep le h.blanks
  | inside h => exact .inside h.blanks
  | stuck h => exact .stuck h.blanks

theorem Lost.add (h : Lost n rest s) {m : Nat} {rest' : List Lexeme}
    (hr : leave m rest = some rest') : Lost (m + n) rest' s := by
  cases h with
  | deep le h => exact .deep (Nat.add_le_add_left le m) (h.add hr)
  | inside h => exact .inside h
  | stuck h => exact .stuck h

/-- A reader that is lost outside of everything may be where it should be. -/
theorem Lost.zero (h : Lost 0 rest s) : lexemes? s = some rest ∨ Lost 1 rest s := by
  cases h with
  | deep le h =>
    rename_i k
    cases k with
    | zero => exact .inl (deep_zero.1 h)
    | succ k => exact .inr (.deep (Nat.le_add_left 1 k) h)
  | inside h => exact .inr (.inside h)
  | stuck h => exact .inr (.stuck h)

theorem Lost.of_le {m : Nat} (h : Lost n rest s) (le : m ≤ n) : Lost m rest s := by
  cases h with
  | deep le' h => exact .deep (le.trans le') h
  | inside h => exact .inside h
  | stuck h => exact .stuck h

/-! ### What comes next -/

/-- What a reader finds before it, after the blanks. -/
inductive Next (n : Nat) (rest : List Lexeme) : Bytes → Prop where
  | opening {c : UInt8} {tail : Bytes} (hc : c = 0x5b ∨ c = 0x7b) (h : Deep (n + 1) rest tail) :
      Next n rest (c :: tail)
  | closing {c : UInt8} {tail : Bytes} {m : Nat} (hc : c = 0x5d ∨ c = 0x7d) (hn : n = m + 1)
      (here : Deep n rest (c :: tail)) (h : Deep m rest tail) : Next n rest (c :: tail)
  | divider {c : UInt8} {tail : Bytes} (hc : c = 0x2c ∨ c = 0x3a) (hn : 0 < n)
      (here : Deep n rest (c :: tail)) (h : Deep n rest tail) : Next n rest (c :: tail)
  | text {body raw after : Bytes} (ht : textBody body = some (raw, after))
      (h : Deep n rest after) : Next n rest (0x22 :: body)
  | number {c : UInt8} {tail literal after : Bytes} (first : c = 0x2d ∨ isDigit c = true)
      (hn : number? (c :: tail) = some (literal, after)) (h : Deep n rest after) :
      Next n rest (c :: tail)
  | isTrue {after : Bytes} (h : Deep n rest after) :
      Next n rest (0x74 :: 0x72 :: 0x75 :: 0x65 :: after)
  | isFalse {after : Bytes} (h : Deep n rest after) :
      Next n rest (0x66 :: 0x61 :: 0x6c :: 0x73 :: 0x65 :: after)
  | isNull {after : Bytes} (h : Deep n rest after) :
      Next n rest (0x6e :: 0x75 :: 0x6c :: 0x6c :: after)

theorem Faces.next (h : Faces n rest s) : Next n rest (s.dropWhile isSpace) := by
  obtain ⟨words, hw, hp⟩ := h
  cases words with
  | nil => cases n <;> simp [pass, leave] at hp
  | cons word words =>
    have here := (lexemes?_dropWhile s).trans hw
    obtain ⟨after, spelt, ha⟩ := first_lexeme hw
    generalize s.dropWhile isSpace = b at spelt here
    cases spelt with
    | beginList => exact .opening (.inl rfl) ⟨words, ha, by simpa using hp⟩
    | beginObject => exact .opening (.inr rfl) ⟨words, ha, by simpa using hp⟩
    | text ht => exact .text ht ⟨words, ha, by simpa using hp⟩
    | number first hn => exact .number first hn ⟨words, ha, by simpa using hp⟩
    | isTrue => exact .isTrue ⟨words, ha, by simpa using hp⟩
    | isFalse => exact .isFalse ⟨words, ha, by simpa using hp⟩
    | isNull => exact .isNull ⟨words, ha, by simpa using hp⟩
    | _ =>
      -- no value: the reader stands inside of a list or an object
      cases n with
      | zero => cases hp
      | succ m =>
        have there : Deep _ rest after := ⟨words, ha, hp⟩
        first
          | exact .closing (by simp) rfl ⟨_, here, hp⟩ there
          | exact .divider (by simp) (Nat.succ_pos m) ⟨_, here, hp⟩ there

theorem Deep.next (h : Deep n rest s) (hn : 0 < n) : Next n rest (s.dropWhile isSpace) := by
  cases n with
  | zero => cases hn
  | succ n => exact Faces.next h

/-! ## Marks -/

theorem Deep.divider {b : UInt8} (h : Deep n rest s) (hn : 0 < n) (hb : b = 0x2c ∨ b = 0x3a) :
    Ends (mark b) s (fun _ => Deep n rest) (Deep n rest) := by
  have next := h.next hn
  have here := h.blanks
  rw [ends_mark]
  generalize s.dropWhile isSpace = b' at next here
  split
  · next head =>
    cases next <;> grind [isDigit]
  · exact here

/-- A list or an object that begins where a value comes next. -/
theorem Faces.opening {c : UInt8} {tail : Bytes} (h : Faces n rest s)
    (hc : c = 0x5b ∨ c = 0x7b) (here : s.dropWhile isSpace = c :: tail) :
    Deep (n + 1) rest tail := by
  have next := h.next
  rw [here] at next
  cases next <;> grind [isDigit]

theorem Deep.closing {c : UInt8} {tail : Bytes} (h : Deep (n + 1) rest s)
    (hc : c = 0x5d ∨ c = 0x7d) (here : s.dropWhile isSpace = c :: tail) : Deep n rest tail := by
  have next := h.next (Nat.succ_pos n)
  rw [here] at next
  cases next <;> grind [isDigit]

theorem Deep.endList (h : Deep (n + 1) rest s) :
    Ends endList s (fun _ => Deep n rest) (Deep (n + 1) rest) := by
  have here := h.blanks
  rw [ends_endList]
  split
  · next tail hs => exact h.closing (.inl rfl) hs
  · next tail hs =>
    have := h.divider (Nat.succ_pos n) (.inl rfl)
    rw [ends_mark, hs] at this
    exact this.blanks
  · exact here

theorem Deep.endObject (h : Deep (n + 1) rest s) :
    Ends endObject s (fun _ => Deep n rest) (Deep (n + 1) rest) := by
  have here := h.blanks
  rw [ends_endObject]
  split
  · next tail hs => exact h.closing (.inr rfl) hs
  · exact here

theorem Inside.mark {b : UInt8} (h : Inside s) (hq : b ≠ 0x22) (hb : b ≠ 0x5c) :
    Ends (mark b) s (fun _ => Inside) Inside := by
  have here := h.blanks
  rw [ends_mark]
  generalize s.dropWhile isSpace = b' at here
  split
  · next head =>
    obtain ⟨tail, rfl⟩ := List.head?_eq_some_iff.1 head
    exact here.tail hq hb
  · exact here

theorem Inside.endList (h : Inside s) : Ends endList s (fun _ => Inside) Inside := by
  have here := h.blanks
  rw [ends_endList]
  generalize s.dropWhile isSpace = b at here
  split
  · exact here.tail (by decide) (by decide)
  · exact (here.tail (by decide) (by decide)).blanks
  · exact here

theorem Inside.endObject (h : Inside s) : Ends endObject s (fun _ => Inside) Inside :=
  h.mark (by decide) (by decide)

theorem Stuck.endList (h : Stuck s) : Ends endList s (fun _ _ => False) Stuck := by
  have here := h.blanks
  obtain ⟨c, tail, hs, hc⟩ := h
  rw [ends_endList]
  split <;> simp_all

theorem Stuck.endObject (h : Stuck s) : Ends endObject s (fun _ _ => False) Stuck := by
  have here := h.blanks
  obtain ⟨c, tail, hs, hc⟩ := h
  rw [ends_endObject]
  split <;> simp_all

/-- A reader that is lost ends at most the list in which it is. -/
theorem Lost.endList (h : Lost (n + 1) rest s) :
    Ends endList s (fun _ => Lost n rest) (Lost n rest) := by
  cases h with
  | deep le h =>
    obtain ⟨k, rfl⟩ := Nat.exists_eq_add_of_le' (Nat.zero_lt_of_lt le)
    exact h.endList.mono (fun _ _ => .deep (by omega)) fun _ => .deep (by omega)
  | inside h => exact h.endList.mono (fun _ _ => .inside) fun _ => .inside
  | stuck h => exact h.endList.mono (fun _ _ => False.elim) fun _ => .stuck

/-- A reader that is lost ends at most the object in which it is. -/
theorem Lost.endObject (h : Lost (n + 1) rest s) :
    Ends endObject s (fun _ => Lost n rest) (Lost n rest) := by
  cases h with
  | deep le h =>
    obtain ⟨k, rfl⟩ := Nat.exists_eq_add_of_le' (Nat.zero_lt_of_lt le)
    exact h.endObject.mono (fun _ _ => .deep (by omega)) fun _ => .deep (by omega)
  | inside h => exact h.endObject.mono (fun _ _ => .inside) fun _ => .inside
  | stuck h => exact h.endObject.mono (fun _ _ => False.elim) fun _ => .stuck

/-! ## Values -/

/-- A text that a reader does not come to the end of leaves it inside. -/
theorem lost_of_textBody {body raw left : Bytes} (ht : textBody body = some (raw, after))
    (h : Deep n rest after)
    (place : ∀ raw after, textBody body = some (raw, after) →
      plain? raw = none ∧ (left = after ∨ ∃ inner, textBody left = some (inner, after))) :
    Lost n rest left := by
  obtain ⟨-, rfl | ⟨inner, hi⟩⟩ := place raw after ht
  · exact .deep le_rfl h
  · obtain ⟨words, hw, -⟩ := h
    exact .inside ⟨inner, after, hi, by simp [hw]⟩

/-- A text that can be told, and where a reader is that fails at one. -/
theorem Deep.quoted {body raw : Bytes} (ht : textBody body = some (raw, after))
    (h : Deep n rest after) : Ends quoted body (fun _ => Deep n rest) (Lost n rest) := by
  refine (ends_quoted body).mono (fun key left found => ?_) fun left => lost_of_textBody ht h
  obtain ⟨raw', ht', -⟩ := found
  simp_all

theorem ends_scalar_of_ne {c : UInt8} {tail : Bytes} {yes : Scalar → Bytes → Prop}
    {no : Bytes → Prop} (hc : c ≠ 0x6e ∧ c ≠ 0x74 ∧ c ≠ 0x66 ∧ c ≠ 0x22) :
    Ends scalar (c :: tail) yes no ↔ if c = 0x2d ∨ isDigit c = true then
      Ends numeral (c :: tail) (fun _ => yes .number) no else no (c :: tail) := by
  simp only [scalar, ends_bind, ends_peek, List.head?_cons]
  split <;> simp_all

/-- A byte that is no blank and with which nothing can go on. -/
theorem stuck_cons {c : UInt8} {tail : Bytes} (hs : isSpace c = false)
    (hc : c ≠ 0x2c ∧ c ≠ 0x5d ∧ c ≠ 0x7d) : Stuck (c :: tail) :=
  ⟨c, tail, List.dropWhile_cons_of_neg (by simp [hs]), hc⟩

/-- A value without parts, and where a reader is that fails at it. -/
theorem Next.scalar (h : Next n rest s) :
    Ends scalar s (fun _ => Deep n rest) (Lost n rest) := by
  cases h with
  | opening hc h =>
    rw [ends_scalar_of_ne (by grind), if_neg (by grind [isDigit])]
    exact .stuck (stuck_cons (by grind [isSpace]) (by grind))
  | closing hc hn here h =>
    rw [ends_scalar_of_ne (by grind), if_neg (by grind [isDigit])]
    exact .deep le_rfl here
  | divider hc hn here h =>
    rw [ends_scalar_of_ne (by grind), if_neg (by grind [isDigit])]
    exact .deep le_rfl here
  | text ht h =>
    simp only [Reader.scalar, ends_bind, ends_peek, List.head?_cons]
    rw [ends_mark_cons (by decide)]
    exact h.quoted ht
  | number first hn h =>
    rw [ends_scalar_of_ne (by grind [isDigit]), if_pos first]
    refine (ends_numeral hn).mono (fun _ left eq => eq ▸ h) fun left place => ?_
    obtain rfl | ⟨c, tail, rfl, digit⟩ := place
    · exact .deep le_rfl h
    · exact .stuck (stuck_cons (by grind [isSpace, isDigit]) (by grind [isDigit]))
  | isTrue h =>
    simp only [Reader.scalar, ends_bind, ends_peek, List.head?_cons]
    exact (ends_word [0x74, 0x72, 0x75, 0x65] _).2 h
  | isFalse h =>
    simp only [Reader.scalar, ends_bind, ends_peek, List.head?_cons]
    exact (ends_word [0x66, 0x61, 0x6c, 0x73, 0x65] _).2 h
  | isNull h =>
    simp only [Reader.scalar, ends_bind, ends_peek, List.head?_cons]
    exact (ends_word [0x6e, 0x75, 0x6c, 0x6c] _).2 h

/-- A reader that does not move from before a value is as good as lost. -/
theorem Faces.lost (h : Faces n rest s) : Lost n rest s := by
  cases n with
  | succ n => exact .deep le_rfl h
  | zero =>
    have next := h.next
    generalize hs : s.dropWhile isSpace = b at next
    refine .stuck ?_
    cases next with
    | closing hc hn => cases hn
    | divider hc hn => cases hn
    | _ => exact ⟨_, _, hs, by grind [isDigit]⟩

theorem Deep.comma (h : Deep (n + 1) rest s) :
    Ends (Reader.mark 0x2c) s (fun _ => Deep (n + 1) rest) (Lost (n + 1) rest) :=
  (h.divider (Nat.succ_pos n) (.inl rfl)).mono (fun _ _ => id) fun _ => .deep le_rfl

theorem Deep.mark_name (h : Deep (n + 1) rest s) : Ends (Reader.mark 0x22) s
    (fun _ left => ∃ raw after, textBody left = some (raw, after) ∧ Deep (n + 1) rest after)
    (Deep (n + 1) rest) := by
  have next := h.next (Nat.succ_pos n)
  have here := h.blanks
  rw [ends_mark]
  generalize s.dropWhile isSpace = b at next here
  split
  · next head =>
    cases next with
    | text ht h => exact ⟨_, _, ht, h⟩
    | _ => grind [isDigit]
  · exact here

/-- A member of an object, where a reader of values leaves them behind or ends as it may. -/
theorem Deep.member {α : Type} {read : String → Reader α} {yes no : Bytes → Prop}
    (lost : ∀ left, Lost (n + 1) rest left → no left)
    (hread : ∀ key left, Deep (n + 1) rest left → Ends (read key) left (fun _ => yes) no)
    (h : Deep (n + 1) rest s) : Ends (Reader.mark 0x22) s (fun _ left =>
      Ends Reader.quoted left (fun key left => Ends (Reader.mark 0x3a) left (fun _ left =>
        Ends (read key) left (fun _ => yes) no) no) no) no := by
  refine h.mark_name.mono (fun _ left found => ?_) fun left h => lost left (.deep le_rfl h)
  obtain ⟨raw, after, ht, h⟩ := found
  refine (h.quoted ht).mono (fun key left h => ?_) lost
  exact (h.divider (Nat.succ_pos n) (.inr rfl)).mono (fun _ left h => hread key left h)
    fun left h => lost left (.deep le_rfl h)

/-- A value that can be kept, and where a reader is that fails at one. -/
theorem Faces.shape (levels : Nat) (h : Faces n rest s) :
    Ends (shape levels) s (fun _ => Deep n rest) (Lost n rest) := by
  induction levels generalizing n s with
  | zero => exact h.lost
  | succ levels ih =>
    simp only [Reader.shape, ends_bind, ends_blanks, ends_peek]
    split
    · next head =>
      obtain ⟨tail, hs⟩ := List.head?_eq_some_iff.1 head
      have inner := h.opening (.inl rfl) hs
      have parts : Ends (items (Reader.shape levels) (tail.length + 1) true) tail
          (fun _ => Deep (n + 1) rest) (Lost (n + 1) rest) :=
        ends_items (Deep (n + 1) rest) (Deep (n + 1) rest) (fun _ => .deep le_rfl)
          (fun _ => Deep.blanks) (fun _ => Deep.comma) (fun _ h => ih h) _ _ inner
          fun _ => inner.blanks
      rw [hs]
      simp only [ends_bind, ends_guard, ends_mark_cons (b := 0x5b) (by decide), ends_attempt,
        ends_get]
      split
      · refine parts.mono (fun parts left h => ?_) fun left h => ?_
        · exact h.endList.mono (fun _ _ => id) fun _ => .deep (Nat.le_succ n)
        · exact h.endList.mono (fun _ _ => id) fun _ => id
      · exact .stuck (stuck_cons (by decide) (by decide))
    · next head =>
      obtain ⟨tail, hs⟩ := List.head?_eq_some_iff.1 head
      have inner := h.opening (.inr rfl) hs
      have parts : Ends (members quoted (fun _ => Reader.shape levels) (tail.length + 1) true) tail
          (fun _ => Deep (n + 1) rest) (Lost (n + 1) rest) :=
        ends_members (Deep (n + 1) rest) (Deep (n + 1) rest) (fun _ => .deep le_rfl)
          (fun _ => Deep.blanks) (fun _ => Deep.comma)
          (fun _ => Deep.member (fun _ => id) fun _ _ h => ih h) _ _ inner fun _ => inner.blanks
      rw [hs]
      simp only [ends_bind, ends_guard, ends_mark_cons (b := 0x7b) (by decide), ends_attempt,
        ends_get]
      split
      · refine parts.mono (fun parts left h => ?_) fun left h => ?_
        · simpa using h.endObject.mono (fun _ _ => id) fun _ => Lost.deep (Nat.le_succ n)
        · simpa using h.endObject.mono (fun _ _ => id) fun _ => id
      · exact .stuck (stuck_cons (by decide) (by decide))
    · simp only [ends_bind, ends_pure]
      exact h.next.scalar.mono (fun _ _ => id) fun _ => id

/-! ## Values that are passed over -/

/-- What passing over values keeps: `before` holds before a value, and `behind` behind it, some
lists and objects deep. -/
structure Carried (before behind : Nat → Bytes → Prop) : Prop where
  blanks {n : Nat} {s : Bytes} : before n s → before n (s.dropWhile isSpace)
  opening {n : Nat} {c : UInt8} {s : Bytes} :
    c = 0x5b ∨ c = 0x7b → before n (c :: s) → behind (n + 1) s
  inner {n : Nat} {s : Bytes} : behind (n + 1) s ↔ before (n + 1) s
  divider {n : Nat} {b : UInt8} {s : Bytes} : b = 0x2c ∨ b = 0x3a → behind (n + 1) s →
    Ends (mark b) s (fun _ => behind (n + 1)) fun _ => True
  endList {n : Nat} {s : Bytes} : behind (n + 1) s →
    Ends endList s (fun _ => behind n) fun _ => True
  endObject {n : Nat} {s : Bytes} : behind (n + 1) s →
    Ends endObject s (fun _ => behind n) fun _ => True
  text {n : Nat} {s raw after : Bytes} :
    before n (0x22 :: s) → textBody s = some (raw, after) → behind n after
  name {n : Nat} {taken s : Bytes} :
    taken = [0x6e, 0x75, 0x6c, 0x6c] ∨ taken = [0x74, 0x72, 0x75, 0x65] ∨
      taken = [0x66, 0x61, 0x6c, 0x73, 0x65] → before n (taken ++ s) → behind n s
  number {n : Nat} {s literal after : Bytes} :
    before n s → number? s = some (literal, after) → behind n after

section Skip

variable {before behind : Nat → Bytes → Prop}

theorem Carried.behind_blanks (kept : Carried before behind) (h : behind (n + 1) s) :
    behind (n + 1) (s.dropWhile isSpace) :=
  kept.inner.2 (kept.blanks (kept.inner.1 h))

theorem Carried.skip (kept : Carried before behind) (fuel : Nat) (h : before n s) :
    Ends (skip fuel) s (fun _ => behind n) fun _ => True := by
  -- The fuel bounds how deep values are nested; the readers of items bring their own.
  induction fuel generalizing n s with
  | zero => trivial
  | succ fuel ih =>
    have word (taken : Bytes) (ht : taken = [0x6e, 0x75, 0x6c, 0x6c] ∨
        taken = [0x74, 0x72, 0x75, 0x65] ∨ taken = [0x66, 0x61, 0x6c, 0x73, 0x65]) {s : Bytes}
        (h : before n s) : Ends (Reader.word taken) s (fun _ => behind n) fun _ => True :=
      (word_taken taken).mono (fun _ left split => kept.name ht (split ▸ h)) fun _ => id
    have here := kept.blanks h
    simp only [Reader.skip, ends_bind, ends_blanks, ends_peek]
    generalize s.dropWhile isSpace = s at here
    split
    · next head =>
      obtain ⟨tail, rfl⟩ := List.head?_eq_some_iff.1 head
      have inner := kept.opening (.inl rfl) here
      have parts : Ends (items (Reader.skip fuel) (tail.length + 1) true) tail
          (fun _ => behind (n + 1)) fun _ => True :=
        ends_items (behind (n + 1)) (behind (n + 1)) (fun _ _ => trivial)
          (fun _ => kept.behind_blanks) (fun _ => kept.divider (.inl rfl))
          (fun _ h => ih (kept.inner.1 h)) _ _ inner fun _ => kept.behind_blanks inner
      simp only [ends_bind, ends_mark_cons (b := 0x5b) (by decide), ends_get]
      exact parts.mono (fun _ _ => kept.endList) fun _ => id
    · next head =>
      obtain ⟨tail, rfl⟩ := List.head?_eq_some_iff.1 head
      have inner := kept.opening (.inr rfl) here
      have member (s : Bytes) (h : behind (n + 1) s) : Ends (mark 0x22) s (fun _ left =>
          Ends (do let _ ← split? textBody; return "") left (fun _ left =>
            Ends (mark 0x3a) left (fun _ left => Ends (Reader.skip fuel) left
              (fun _ => behind (n + 1)) fun _ => True) fun _ => True) fun _ => True)
          fun _ => True := by
        have here := kept.inner.1 (kept.behind_blanks h)
        rw [ends_mark]
        generalize s.dropWhile isSpace = b at here
        split
        · next head =>
          obtain ⟨body, rfl⟩ := List.head?_eq_some_iff.1 head
          simp only [List.tail_cons, ends_bind, ends_split?, ends_pure]
          split
          · next ht =>
            exact (kept.divider (.inr rfl) (kept.text here ht)).mono
              (fun _ _ h => ih (kept.inner.1 h)) fun _ => id
          · trivial
        · trivial
      have parts : Ends (members (do let _ ← split? textBody; return "") (fun _ => Reader.skip fuel)
          (tail.length + 1) true) tail (fun _ => behind (n + 1)) fun _ => True :=
        ends_members (behind (n + 1)) (behind (n + 1)) (fun _ _ => trivial)
          (fun _ => kept.behind_blanks) (fun _ => kept.divider (.inl rfl)) member _ _ inner
          fun _ => kept.behind_blanks inner
      simp only [ends_bind, ends_mark_cons (b := 0x7b) (by decide), ends_get]
      exact parts.mono (fun _ _ => kept.endObject) fun _ => id
    · exact word _ (by simp) here
    · exact word _ (by simp) here
    · exact word _ (by simp) here
    · next head =>
      obtain ⟨tail, rfl⟩ := List.head?_eq_some_iff.1 head
      simp only [ends_bind, ends_mark_cons (b := 0x22) (by decide), ends_split?]
      split
      · next ht => exact kept.text here ht
      · trivial
    · simp only [ends_bind, ends_split?]
      split
      · next hn => exact kept.number here hn
      · trivial

end Skip

theorem carried_faces (rest : List Lexeme) :
    Carried (fun n => Faces n rest) fun n => Deep n rest where
  blanks h := by
    obtain ⟨words, hw, hp⟩ := h
    exact ⟨words, by rwa [lexemes?_dropWhile], hp⟩
  opening hc h := h.opening hc (List.dropWhile_cons_of_neg (by grind [isSpace]))
  inner := Iff.rfl
  divider hb h := (h.divider (Nat.succ_pos _) hb).mono (fun _ _ => id) fun _ _ => trivial
  endList h := h.endList.mono (fun _ _ => id) fun _ _ => trivial
  endObject h := h.endObject.mono (fun _ _ => id) fun _ _ => trivial
  text h ht := by
    have next := h.next
    rw [List.dropWhile_cons_of_neg (by decide)] at next
    cases next <;> grind [isDigit]
  name ht h := by
    obtain rfl | rfl | rfl := ht
    all_goals
      simp only [List.cons_append, List.nil_append] at h
      have next := h.next
      rw [List.dropWhile_cons_of_neg (by decide)] at next
      cases next <;> grind [isDigit]
  number h hn := by
    obtain ⟨c, tail, rfl, first⟩ := number?_head hn
    have next := h.next
    rw [List.dropWhile_cons_of_neg (by grind [isSpace, isDigit])] at next
    cases next <;> grind [isDigit]

theorem carried_inside : Carried (fun _ => Inside) fun _ => Inside where
  blanks := Inside.blanks
  opening hc h := h.tail (by grind) (by grind)
  inner := Iff.rfl
  divider hb h := (h.mark (by grind) (by grind)).mono (fun _ _ => id) fun _ _ => trivial
  endList h := h.endList.mono (fun _ _ => id) fun _ _ => trivial
  endObject h := h.endObject.mono (fun _ _ => id) fun _ _ => trivial
  text h ht := (h.between ht).2
  name ht h := h.append (by obtain rfl | rfl | rfl := ht <;> exact List.all_eq_true.1 rfl)
  number h hn := by
    rw [← number?_splits _ _ _ hn] at h
    exact h.append (number?_outside hn)

end Strongbox.Json
