import Strongbox.Proofs.Json.Place
import Strongbox.Proofs.Pairs

/-!
# Texts are recognized

A text in a document, or a list of texts, that stands for something is told by its shape wherever it
is read in place.
-/

namespace Strongbox.Json

open Reader

variable {s raw : Bytes} {words rest : List Lexeme} {fuel : Nat} {item : Json}

/-! ## Values of the parts -/

theorem text?_of_texts? {items : List Json} (h : (list items).texts?.isSome = true) :
    ∀ item ∈ items, item.text?.isSome = true := by
  obtain ⟨texts, ht⟩ := Option.isSome_iff_exists.1 h
  intro item hi
  obtain ⟨text, -, hit⟩ := exists_of_forall₂ (forall₂_of_mapM ht) hi
  simp [hit]

/-- The members of an object are those of the document, under the names that theirs stand for. -/
theorem exists_of_members? {rows : List (Bytes × Json)} {members : List (String × Json)}
    {name : String} (h : (object rows).members? = some members) (hm : (name, item) ∈ members) :
    ∃ raw, (raw, item) ∈ rows ∧ plain? raw = some name := by
  obtain ⟨⟨raw, item'⟩, hrow, hr⟩ := exists_of_forall₂ (forall₂_of_mapM h).flip hm
  obtain ⟨_, hp, he⟩ := Option.map_eq_some_iff.1 hr
  cases he
  exact ⟨raw, hrow, hp⟩

/-! ## Texts and lists of texts -/

theorem value?_text (h : value? fuel words = some (item, rest)) (ht : item.text?.isSome = true) :
    ∃ raw key, item = .text raw ∧ words = .text raw :: rest ∧ plain? raw = some key := by
  cases item with
  | text raw =>
    obtain ⟨key, hk⟩ := Option.isSome_iff_exists.1 ht
    refine ⟨raw, key, rfl, ?_, hk⟩
    cases fuel with
    | zero => cases h
    | succ fuel =>
      unfold value? at h
      split at h <;> simp_all
  | _ => cases ht

theorem value?_list {items : List Json} (h : value? fuel words = some (.list items, rest)) :
    ∃ words', words = .beginList :: words' ∧
      ((items = [] ∧ words' = .endList :: rest) ∨
        ∃ fuel, items? fuel words' = some (items, rest)) := by
  cases fuel with
  | zero => cases h
  | succ fuel =>
    unfold value? at h
    split at h
    case h_6 =>
      cases h
      exact ⟨_, rfl, .inl ⟨rfl, rfl⟩⟩
    case h_7 words' _ =>
      obtain ⟨⟨items, after⟩, hi, he⟩ := Option.map_eq_some_iff.1 h
      cases he
      exact ⟨words', rfl, .inr ⟨fuel, hi⟩⟩
    case h_9 =>
      obtain ⟨⟨ms, after⟩, -, he⟩ := Option.map_eq_some_iff.1 h
      cases he
    all_goals cases h

theorem value?_object {members : List (Bytes × Json)}
    (h : value? fuel words = some (.object members, rest)) :
    ∃ words', words = .beginObject :: words' ∧
      ((members = [] ∧ words' = .endObject :: rest) ∨
        ∃ fuel, memberRow? fuel words' = some (members, rest)) := by
  cases fuel with
  | zero => cases h
  | succ fuel =>
    unfold value? at h
    split at h
    case h_8 =>
      cases h
      exact ⟨_, rfl, .inl ⟨rfl, rfl⟩⟩
    case h_9 words' _ =>
      obtain ⟨⟨ms, after⟩, hm, he⟩ := Option.map_eq_some_iff.1 h
      cases he
      exact ⟨words', rfl, .inr ⟨fuel, hm⟩⟩
    case h_7 =>
      obtain ⟨⟨items, after⟩, -, he⟩ := Option.map_eq_some_iff.1 h
      cases he
    all_goals cases h

theorem shape_text {key : String} (levels : Nat) (h : lexemes? s = some (.text raw :: rest))
    (hp : plain? raw = some key) : Ends (shape (levels + 1)) s
      (fun found left => found = .text ∧ lexemes? left = some rest ∧ left.length < s.length)
      fun _ => False := by
  obtain ⟨body, after, hs, ht, ha, shorter⟩ := text_first h
  have quoted : Ends quoted body
      (fun _ left => lexemes? left = some rest ∧ left.length < s.length) fun _ => False := by
    refine (ends_quoted body).mono (fun _ left found => ?_) fun left lost => ?_
    · obtain ⟨raw', ht', -⟩ := found
      obtain ⟨rfl, rfl⟩ : raw = raw' ∧ after = left := by simpa [ht] using ht'
      exact ⟨ha, shorter⟩
    · obtain ⟨none, -⟩ := lost raw after ht
      simp [none] at hp
  simp only [shape, ends_bind, ends_blanks, ends_peek, hs]
  split
  · next head => simp at head
  · next head => simp at head
  · simp only [scalar, ends_bind, ends_peek, List.head?_cons,
      ends_mark_cons (b := 0x22) (by decide)]
    exact quoted.mono (fun _ _ h => ⟨rfl, h⟩) fun _ => id

theorem ends_items_of_endList {α : Type} {read : Reader α} {n : Nat} {first : Bool}
    (h : lexemes? s = some (.endList :: rest)) (hn : 0 < n) :
    Ends (Reader.items read n first) s
      (fun found left => found = [] ∧ lexemes? left = some (.endList :: rest)) fun _ => False := by
  obtain _ | n := n
  · cases hn
  obtain ⟨after, hd, -⟩ := mark_first rfl h
  simp only [Reader.items, ends_bind, ends_blanks, ends_peek, ends_ite, ends_pure, hd,
    List.head?_cons, if_true]
  exact ⟨trivial, by rw [← hd, lexemes?_dropWhile, h]⟩

theorem ends_items_of_texts {items : List Json} {levels : Nat}
    (hi : items? fuel words = some (items, rest)) (ht : ∀ item ∈ items, item.text?.isSome = true)
    {n : Nat} {first : Bool} {s : Bytes}
    (hs : lexemes? s = some (if first then words else .comma :: words)) (hn : s.length < n) :
    Ends (Reader.items (shape (levels + 1)) n first) s
      (fun found left => (∀ each ∈ found, each = .text) ∧ lexemes? left = some (.endList :: rest))
      fun _ => False := by
  induction fuel generalizing words items n first s with
  | zero => cases hi
  | succ fuel ih =>
    obtain _ | n := n
    · cases hn
    -- the item, and the rest of the list
    obtain ⟨raw, key, words', hw, hp, more⟩ : ∃ raw key words', words = .text raw :: words' ∧
        plain? raw = some key ∧ ∀ left, lexemes? left = some words' → left.length < n →
          Ends (Reader.items (shape (levels + 1)) n false) left
            (fun found left => (∀ each ∈ found, each = .text) ∧
              lexemes? left = some (.endList :: rest)) fun _ => False := by
      obtain ⟨item, next, tail, rfl, hv, more⟩ := of_items? hi
      obtain ⟨here, later⟩ := List.forall_mem_cons.1 ht
      obtain ⟨raw, key, -, hw, hp⟩ := value?_text hv here
      refine ⟨raw, key, next, hw, hp, fun left hl hn => ?_⟩
      obtain ⟨after, rfl, hi⟩ | ⟨-, rfl⟩ := more
      · exact ih hi later (by simpa using hl) hn
      · refine (ends_items_of_endList hl (Nat.zero_lt_of_lt hn)).mono (fun found left here => ?_)
          fun _ => id
        exact ⟨by simp [here.1], here.2⟩
    have item {s' : Bytes} (h : lexemes? s' = some words) (hl : s'.length ≤ s.length) :
        Ends (shape (levels + 1)) s' (fun found left =>
          Ends (Reader.items (shape (levels + 1)) n false) left
            (fun all left => (∀ each ∈ found :: all, each = .text) ∧
              lexemes? left = some (.endList :: rest)) fun _ => False) fun _ => False := by
      refine (shape_text levels (hw ▸ h) hp).mono (fun found left here => ?_) fun _ => id
      obtain ⟨rfl, hleft, shorter⟩ := here
      exact (more left hleft (by omega)).mono (fun all left h => by simpa using h) fun _ => id
    simp only [Reader.items, ends_bind, ends_blanks, ends_peek, ends_ite, ends_pure]
    cases first with
    | true =>
      obtain ⟨body, after, hd, -⟩ := text_first (hw ▸ hs)
      rw [if_neg (by simp [hd])]
      have := (List.dropWhile_sublist isSpace (l := s)).length_le
      exact item ((lexemes?_dropWhile s).trans hs) this
    | false =>
      obtain ⟨after, hd, ha, shorter⟩ := mark_first rfl hs
      rw [if_neg (by simp [hd])]
      simp only [hd, ends_mark_cons (b := 0x2c) (by decide), Bool.false_eq_true, if_false]
      exact item ha (by omega)

theorem shape_texts (levels : Nat) (hw : lexemes? s = some words)
    (h : value? fuel words = some (item, rest)) (ht : item.texts?.isSome = true) :
    Ends (shape (levels + 2)) s (fun found left => found = .texts ∧ lexemes? left = some rest)
      fun _ => False := by
  obtain ⟨items, rfl⟩ : ∃ items, item = .list items := by
    cases item with
    | list items => exact ⟨items, rfl⟩
    | _ => cases ht
  obtain ⟨words, rfl, hitems⟩ := value?_list h
  obtain ⟨after, hs, ha, -⟩ := mark_first rfl hw
  have read : Ends (Reader.items (shape (levels + 1)) (after.length + 1) true) after
      (fun found left => (∀ each ∈ found, each = .text) ∧ lexemes? left = some (.endList :: rest))
      fun _ => False := by
    obtain ⟨-, rfl⟩ | ⟨fuel, hi⟩ := hitems
    · refine (ends_items_of_endList ha (Nat.succ_pos _)).mono (fun found left here => ?_)
        fun _ => id
      exact ⟨by simp [here.1], here.2⟩
    · exact ends_items_of_texts hi (text?_of_texts? ht) ha (Nat.lt_succ_self _)
  simp only [shape, ends_bind, ends_blanks, ends_peek, hs, List.head?_cons, ends_guard,
    Nat.succ_pos, if_true, ends_mark_cons (b := 0x5b) (by decide), ends_attempt, ends_get,
    ends_endList]
  refine read.mono (fun found left here => ?_) fun _ => False.elim
  obtain ⟨texts, hleft⟩ := here
  obtain ⟨after, hd, ha, -⟩ := mark_first rfl hleft
  rw [hd]
  exact ⟨if_pos (by simpa using texts), ha⟩

end Strongbox.Json
