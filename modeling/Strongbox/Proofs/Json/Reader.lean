import Mathlib.Data.Option.Basic
import Strongbox.Json.Reader

/-!
# How readers end

A reader gives a value or fails, and leaves what it did not take either way. What holds of the value
and of what is left is found by going through the reader step by step; a loop is gone through with a
property of what is left that each item keeps.
-/

namespace Strongbox.Json.Reader

variable {α β : Type} {s : Bytes} {yes yes' : α → Bytes → Prop} {no no' : Bytes → Prop}

/-- How a run of a reader ends: with a value, and `yes` holds of the value and of what is left, or
with a failure, and `no` holds of what is left. -/
def Ends (read : Reader α) (s : Bytes) (yes : α → Bytes → Prop) (no : Bytes → Prop) : Prop :=
  match read.run.run s with
  | (some a, left) => yes a left
  | (none, left) => no left

theorem Ends.mono {read : Reader α} (h : Ends read s yes no)
    (hyes : ∀ a left, yes a left → yes' a left) (hno : ∀ left, no left → no' left) :
    Ends read s yes' no' := by
  unfold Ends at *
  split at h
  · exact hyes _ _ h
  · exact hno _ h

/-! ## Steps -/

@[simp]
theorem ends_pure {a : α} : Ends (pure a) s yes no ↔ yes a s := Iff.rfl

@[simp]
theorem ends_failure : Ends (failure : Reader α) s yes no ↔ no s := Iff.rfl

@[simp]
theorem ends_bind {read : Reader β} {next : β → Reader α} :
    Ends (read >>= next) s yes no ↔
      Ends read s (fun b left => Ends (next b) left yes no) no := by
  unfold Ends
  rw [OptionT.run_bind, Option.elimM, StateT.run_bind]
  rcases read.run.run s with ⟨_ | b, left⟩ <;> rfl

@[simp]
theorem ends_map {read : Reader β} {f : β → α} :
    Ends (f <$> read) s yes no ↔ Ends read s (fun b => yes (f b)) no := by
  rw [map_eq_pure_bind, ends_bind]
  rfl

@[simp]
theorem ends_get {yes : Bytes → Bytes → Prop} : Ends (get : Reader Bytes) s yes no ↔ yes s s :=
  Iff.rfl

@[simp]
theorem ends_set {yes : PUnit → Bytes → Prop} {left : Bytes} :
    Ends (set left : Reader PUnit) s yes no ↔ yes () left :=
  Iff.rfl

@[simp]
theorem ends_modify {yes : PUnit → Bytes → Prop} {f : Bytes → Bytes} :
    Ends (modify f : Reader PUnit) s yes no ↔ yes () (f s) :=
  Iff.rfl

@[simp]
theorem ends_guard {yes : Unit → Bytes → Prop} {p : Prop} [Decidable p] :
    Ends (guard p : Reader Unit) s yes no ↔ if p then yes () s else no s := by
  show Ends (if p then pure () else failure) s yes no ↔ _
  by_cases h : p <;> simp [h]

@[simp]
theorem ends_ite {p : Prop} [Decidable p] {one other : Reader α} :
    Ends (if p then one else other) s yes no ↔
      if p then Ends one s yes no else Ends other s yes no := by
  split <;> rfl

@[simp]
theorem ends_attempt {read : Reader α} {yes : Option α → Bytes → Prop} :
    Ends (attempt read) s yes no ↔
      Ends read s (fun a => yes (some a)) (fun left => yes none left) := by
  unfold Ends attempt
  rw [OptionT.run_mk, StateT.run_bind]
  rcases read.run.run s with ⟨_ | a, left⟩ <;> rfl

@[simp]
theorem ends_peek {yes : Option UInt8 → Bytes → Prop} : Ends peek s yes no ↔ yes s.head? s :=
  Iff.rfl

@[simp]
theorem ends_blanks {yes : Unit → Bytes → Prop} :
    Ends blanks s yes no ↔ yes () (s.dropWhile isSpace) :=
  Iff.rfl

@[simp]
theorem ends_next {yes : UInt8 → Bytes → Prop} :
    Ends next s yes no ↔ match s with
      | [] => no []
      | b :: rest => yes b rest := by
  cases s <;> rfl

@[simp]
theorem ends_split {cut : Bytes → Bytes × Bytes} {yes : Bytes → Bytes → Prop} :
    Ends (split cut) s yes no ↔ yes (cut s).1 (cut s).2 :=
  Iff.rfl

@[simp]
theorem ends_split? {cut : Bytes → Option (Bytes × Bytes)} {yes : Bytes → Bytes → Prop} :
    Ends (split? cut) s yes no ↔ match cut s with
      | some (taken, rest) => yes taken rest
      | none => no s := by
  simp only [split?, ends_bind, ends_get]
  rcases cut s with _ | ⟨taken, rest⟩ <;> rfl

theorem ends_mark {b : UInt8} {yes : Unit → Bytes → Prop} :
    Ends (mark b) s yes no ↔
      if (s.dropWhile isSpace).head? = some b then yes () (s.dropWhile isSpace).tail
      else no (s.dropWhile isSpace) := by
  simp only [mark, ends_bind, ends_blanks, ends_peek, ends_guard]
  split <;> rfl

theorem ends_mark_here {b : UInt8} {tail : Bytes} {yes : Unit → Bytes → Prop}
    (h : s.dropWhile isSpace = b :: tail) : Ends (mark b) s yes no ↔ yes () tail := by
  simp [ends_mark, h]

theorem ends_mark_cons {b : UInt8} {tail : Bytes} {yes : Unit → Bytes → Prop}
    (hb : isSpace b = false) : Ends (mark b) (b :: tail) yes no ↔ yes () tail :=
  ends_mark_here (List.dropWhile_cons_of_neg (by simp [hb]))

theorem ends_endList {yes : Unit → Bytes → Prop} :
    Ends endList s yes no ↔ match s.dropWhile isSpace with
      | 0x5d :: rest => yes () rest
      | 0x2c :: rest => no (rest.dropWhile isSpace)
      | rest => no rest := by
  simp only [endList, ends_bind, ends_blanks, ends_peek]
  cases s.dropWhile isSpace with
  | nil => rfl
  | cons c rest =>
    by_cases close : c = 0x5d
    · subst close
      rfl
    · by_cases comma : c = 0x2c
      · subst comma
        rfl
      · simp [close, comma]

theorem ends_endObject {yes : Unit → Bytes → Prop} :
    Ends endObject s yes no ↔ match s.dropWhile isSpace with
      | 0x7d :: rest => yes () rest
      | rest => no rest := by
  rw [endObject, ends_mark]
  cases s.dropWhile isSpace with
  | nil => rfl
  | cons c rest =>
    by_cases close : c = 0x7d
    · subst close
      rfl
    · simp [close]

theorem ends_word (bytes after : Bytes) {yes : Unit → Bytes → Prop} :
    Ends (word bytes) (bytes ++ after) yes no ↔ yes () after := by
  induction bytes with
  | nil => rfl
  | cons b rest ih => simp [word, ih]

theorem word_taken (bytes : Bytes) :
    Ends (word bytes) s (fun _ left => s = bytes ++ left) fun _ => True := by
  induction bytes generalizing s with
  | nil => rfl
  | cons b rest ih =>
    cases s with
    | nil => simp [word]
    | cons c tail =>
      simp only [word, ends_bind, ends_next, ends_guard]
      split
      · next hc => exact ih.mono (fun _ left h => by rw [hc, h]; rfl) fun _ => id
      · trivial

/-- Nothing but blanks is left of a text that a reader takes. -/
theorem Ends.of_takesAll {read : Reader α} {a : α} (h : Ends read s yes no)
    (ha : takesAll read s = some a) : ∃ left, yes a left ∧ left.dropWhile isSpace = [] := by
  have whole : Ends (do let a ← read; blanks; guard ((← get) = []); return a : Reader α) s
      (fun a _ => ∃ left, yes a left ∧ left.dropWhile isSpace = []) fun _ => True := by
    simp only [ends_bind, ends_blanks, ends_get, ends_guard, ends_pure]
    refine h.mono (fun a left h => ?_) fun _ _ => trivial
    split
    · next empty => exact ⟨left, h, empty⟩
    · trivial
  unfold takesAll at ha
  unfold Ends at whole
  split at whole <;> simp_all

/-- A text is taken, if a run of the reader ends with it. -/
theorem takesAll_of_ends {read : Reader α} {a : α}
    (h : Ends read s (fun b left => b = a ∧ left = []) fun _ => False) :
    takesAll read s = some a := by
  have whole : Ends (do let a ← read; blanks; guard ((← get) = []); return a : Reader α) s
      (fun b _ => b = a) fun _ => False := by
    simp only [ends_bind, ends_blanks, ends_get, ends_guard, ends_pure]
    refine h.mono (fun b left found => ?_) fun _ => id
    rw [found.2]
    exact found.1
  unfold takesAll
  unfold Ends at whole
  split at whole <;> simp_all

/-! ## Loops -/

section Loops

variable (inv fresh : Bytes → Prop)

/-- The items of a list: `inv` holds before each of them, `fresh` after a comma. -/
theorem ends_items {read : Reader α} (stops : ∀ s, inv s → no s)
    (blank : ∀ s, inv s → inv (s.dropWhile isSpace))
    (comma : ∀ s, inv s → Ends (mark 0x2c) s (fun _ => fresh) no)
    (item : ∀ s, fresh s → Ends read s (fun _ => inv) no) (fuel : Nat) (first : Bool)
    (h : inv s) (hf : first = true → fresh (s.dropWhile isSpace)) :
    Ends (items read fuel first) s (fun _ => inv) no := by
  induction fuel generalizing s first with
  | zero => exact stops s h
  | succ fuel ih =>
    simp only [items, ends_bind, ends_blanks, ends_peek, ends_ite, ends_pure]
    split
    · exact blank s h
    · have more {s : Bytes} (hs : fresh s) : Ends read s
          (fun a left => Ends (items read fuel false) left (fun l left => inv left) no) no :=
        (item s hs).mono (fun _ _ hl => ih false hl nofun) fun _ => id
      cases first with
      | true => simpa using more (hf rfl)
      | false =>
        have := comma _ (blank s h)
        simpa using this.mono (fun _ _ hl => more hl) fun _ => id

/-- The members of an object: `inv` holds before each of them, `fresh` after a comma. -/
theorem ends_members {name : Reader String} {read : String → Reader α} (stops : ∀ s, inv s → no s)
    (blank : ∀ s, inv s → inv (s.dropWhile isSpace))
    (comma : ∀ s, inv s → Ends (mark 0x2c) s (fun _ => fresh) no)
    (member : ∀ s, fresh s → Ends (mark 0x22) s (fun _ left =>
      Ends name left (fun key left => Ends (mark 0x3a) left (fun _ left =>
        Ends (read key) left (fun _ => inv) no) no) no) no)
    (fuel : Nat) (first : Bool) (h : inv s)
    (hf : first = true → fresh (s.dropWhile isSpace)) :
    Ends (members name read fuel first) s (fun _ => inv) no := by
  induction fuel generalizing s first with
  | zero => exact stops s h
  | succ fuel ih =>
    simp only [members, ends_bind, ends_blanks, ends_peek, ends_ite, ends_pure]
    split
    · exact blank s h
    · have more {s : Bytes} (hs : fresh s) : Ends (mark 0x22) s (fun _ left =>
          Ends name left (fun key left => Ends (mark 0x3a) left (fun _ left =>
            Ends (read key) left (fun _ left =>
              Ends (members name read fuel false) left (fun _ => inv) no) no) no) no) no :=
        (member s hs).mono (fun _ _ h => h.mono (fun _ _ h => h.mono (fun _ _ h => h.mono
          (fun _ _ hl => ih false hl nofun) fun _ => id) fun _ => id) fun _ => id) fun _ => id
      cases first with
      | true => simpa using more (hf rfl)
      | false =>
        have := comma _ (blank s h)
        simpa using this.mono (fun _ _ hl => more hl) fun _ => id

end Loops

end Strongbox.Json.Reader
