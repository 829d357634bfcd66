import Strongbox.Proofs.Json.Shape
import Strongbox.Token.Claims

/-!
# Whom a token is addressed to

The second reading of a document of claims goes on where a member went wrong, so it could lose its
way and find other members than the document has. It cannot come to a good end then: it would be too
deep, or inside of a text, where what it takes for names is made of bytes that no name with a
meaning has.
-/

namespace Strongbox.Token

open Json Json.Reader

variable {n fuel : Nat} {s : Bytes} {words rest : List Lexeme} {key : String} {item : Json}

/-! ## One member -/

theorem ends_timeValue (h : Faces n rest s) :
    Ends timeValue s (fun _ => Deep n rest) (Lost n rest) := by
  simp only [timeValue, ends_bind, ends_blanks, ends_peek]
  split
  · next head =>
    obtain ⟨tail, hs⟩ := List.head?_eq_some_iff.1 head
    rw [hs, ends_bind, ends_mark_cons (by decide)]
    exact (h.opening (.inl rfl) hs).endList.mono (fun _ _ => id) fun _ => .deep (Nat.le_succ n)
  · next head =>
    obtain ⟨tail, hs⟩ := List.head?_eq_some_iff.1 head
    rw [hs, ends_bind, ends_mark_cons (by decide)]
    exact (h.opening (.inr rfl) hs).endObject.mono (fun _ _ => id) fun _ => .deep (Nat.le_succ n)
  · simpa using h.next.scalar

theorem ends_partyShape? (h : Faces n rest s) :
    Ends (partyShape? key) s (fun _ => Lost n rest) fun _ => True := by
  have found (left : Bytes) (h : Deep n rest left) : Lost n rest left := .deep le_rfl h
  unfold partyShape?
  split
  · simp only [ends_attempt]
    exact (h.shape _).mono (fun _ => found) fun _ => id
  split
  · simp only [ends_bind, ends_attempt, ends_pure]
    exact (ends_timeValue h).mono (fun _ => found) fun _ => id
  split
  · simp only [ends_bind, ends_attempt, ends_blanks, ends_pure]
    exact h.next.scalar.mono (fun _ => found) fun _ => id
  · simp only [ends_bind, ends_get, ends_pure]
    exact ((carried_faces rest).skip _ h).mono (fun _ => found) fun _ _ => trivial

/-- A text or a list of texts that tells who is addressed is found to be one. -/
theorem ends_aud (hs : lexemes? s = some words) (h : value? fuel words = some (item, rest)) :
    Ends (partyShape? "aud") s (fun found left => Lost 0 rest left ∧
      (item.text?.isSome = true → found = some .text) ∧
      (item.texts?.isSome = true → found = some .texts)) fun _ => True := by
  have faces : Faces 0 rest s := ⟨words, hs, pass_of_value? h⟩
  have kept (left : Bytes) (hl : lexemes? left = some rest) : Lost 0 rest left :=
    .deep le_rfl (deep_zero.2 hl)
  have levels : maxLevels - 1 = 125 + 2 := rfl
  have one : ¬ (item.text?.isSome = true ∧ item.texts?.isSome = true) := by
    cases item <;> simp [text?, texts?]
  unfold partyShape?
  rw [if_pos (by decide), ends_attempt, levels]
  by_cases text : item.text?.isSome = true
  · obtain ⟨raw, key, rfl, rfl, hp⟩ := value?_text h text
    refine (shape_text 126 hs hp).mono (fun found left here => ?_) fun _ => False.elim
    obtain ⟨rfl, hl, -⟩ := here
    exact ⟨kept left hl, fun _ => rfl, fun texts => absurd ⟨text, texts⟩ one⟩
  · by_cases texts : item.texts?.isSome = true
    · refine (shape_texts 125 hs h texts).mono (fun found left here => ?_) fun _ => False.elim
      obtain ⟨rfl, hl⟩ := here
      exact ⟨kept left hl, fun text' => absurd text' text, fun _ => rfl⟩
    · exact (faces.shape _).mono
        (fun _ left h => ⟨.deep le_rfl h, fun h => absurd h text, fun h => absurd h texts⟩)
        fun _ h => ⟨h, fun h => absurd h text, fun h => absurd h texts⟩

/-! ## Readers that are lost -/

def meaningful : List String := userMember :: timeMembers ++ partyMembers

theorem not_meaningful {raw : Bytes} (outside : ∀ b ∈ raw, isOutside b = true)
    (hp : plain? raw = some key) : key ∉ meaningful := by
  have same : Bytes.ofString key = raw := by
    have plain : unescape raw = some raw :=
      unescape_of_not_mem fun h => absurd (outside _ h) (by decide)
    rw [plain?, plain] at hp
    exact Bytes.ofString_of_toString? hp
  have foreign : ∀ name ∈ meaningful, ∃ b ∈ Bytes.ofString name, isOutside b = false := by decide
  intro hk
  obtain ⟨b, hb, hout⟩ := foreign key hk
  rw [outside b (same ▸ hb)] at hout
  cases hout

/-- Where a lost reader may take a name: as deep as before, or inside of a text. -/
def Astray (n : Nat) (s : Bytes) : Prop := (∃ k, n ≤ k ∧ Deep k [] s) ∨ Inside s

/-- The next name and its value leave a lost reader lost. -/
theorem Astray.member (h : Astray (n + 1) s) : Ends (mark 0x22) s (fun _ left =>
    Ends quoted left (fun key left => Ends (mark 0x3a) left (fun _ left =>
      Ends (partyShape? key) left (fun _ => Lost (n + 1) []) fun _ => True) fun _ => True)
        fun _ => True) fun _ => True := by
  obtain ⟨k, le, h⟩ | h := h
  · obtain ⟨k, rfl⟩ := Nat.exists_eq_add_of_le' (Nat.zero_lt_of_lt le)
    refine h.member (fun _ _ => trivial) fun key left (h : Faces (k + 1) [] left) => ?_
    exact (ends_partyShape? h).mono (fun _ _ h => h.of_le le) fun _ => id
  · have here := h.blanks
    rw [ends_mark]
    generalize s.dropWhile isSpace = b at here
    split
    · next head =>
      obtain ⟨body, rfl⟩ := List.head?_eq_some_iff.1 head
      refine (ends_quoted body).mono (fun key left found => ?_) fun _ _ => trivial
      obtain ⟨raw, ht, hp⟩ := found
      obtain ⟨outside, inside⟩ := here.between ht
      have foreign := not_meaningful outside hp
      simp only [meaningful, List.mem_append, List.mem_cons, not_or] at foreign
      refine (inside.mark (by decide) (by decide)).mono (fun _ left h => ?_) fun _ _ => trivial
      unfold partyShape?
      rw [if_neg foreign.2, if_neg foreign.1.2, if_neg foreign.1.1, ends_bind, ends_get, ends_bind]
      exact (carried_inside.skip (n := 0) _ h).mono (fun _ _ => .inside) fun _ => id
    · trivial

theorem ends_members_of_lost (fuel : Nat) (h : Lost (n + 1) [] s) :
    Ends (members quoted partyShape? fuel false) s (fun _ => Lost (n + 1) []) fun _ => True := by
  refine ends_members (Lost (n + 1) []) (Astray (n + 1)) (fun _ _ => trivial)
    (fun _ => Lost.blanks) (fun s h => ?_) (fun _ => Astray.member) _ _ h nofun
  cases h with
  | deep le h =>
    exact (h.divider (Nat.zero_lt_of_lt le) (.inl rfl)).mono (fun _ _ h => .inl ⟨_, le, h⟩)
      fun _ _ => trivial
  | inside h =>
    exact (h.mark (by decide) (by decide)).mono (fun _ _ => .inr) fun _ _ => trivial
  | stuck h =>
    obtain ⟨c, tail, hs, hc, -⟩ := h
    rw [ends_mark, hs, if_neg (by simpa using hc)]
    trivial

theorem not_lost_of_blank (h : Lost (n + 1) [] s) : s.dropWhile isSpace ≠ [] := by
  intro blank
  cases h with
  | deep le h =>
    obtain ⟨k, rfl⟩ := Nat.exists_eq_add_of_le' (Nat.zero_lt_of_lt le)
    obtain ⟨words, hw, hl⟩ := h
    rw [← lexemes?_dropWhile, blank, lexemes?] at hw
    cases hw
    cases hl
  | inside h => exact not_inside_nil (blank ▸ h.blanks)
  | stuck h =>
    obtain ⟨c, tail, hs, -⟩ := h
    simp [blank] at hs

/-! ## The members of a document -/

/-- A member of a document and what the second reading finds of it. -/
def Found (member : Bytes × Json) (found : String × Option Shape) : Prop :=
  plain? member.1 = some found.1 ∧ (found.1 = "aud" →
    (member.2.text?.isSome = true → found.2 = some .text) ∧
    (member.2.texts?.isSome = true → found.2 = some .texts))

/-- A value leaves the reader of a document where the next member begins, or lost. -/
theorem ends_value (hs : lexemes? s = some words) (h : value? fuel words = some (item, rest))
    (hr : leave 1 rest = some []) (raw : Bytes) (hp : plain? raw = some key) :
    Ends (partyShape? key) s (fun found left => Found (raw, item) (key, found) ∧
      (lexemes? left = some rest ∨ Lost 2 [] left)) fun _ => True := by
  have place (left : Bytes) (h : Lost 0 rest left) :
      lexemes? left = some rest ∨ Lost 2 [] left :=
    h.zero.imp_right fun h => h.add hr
  by_cases hk : key = "aud"
  · subst hk
    exact (ends_aud hs h).mono (fun _ left found => ⟨⟨hp, fun _ => found.2⟩, place left found.1⟩)
      fun _ => id
  · have faces : Faces 0 rest s := ⟨words, hs, pass_of_value? h⟩
    exact (ends_partyShape? faces).mono
      (fun _ left h => ⟨⟨hp, fun h => absurd h hk⟩, place left h⟩) fun _ => id

theorem ends_memberRow {members : List (Bytes × Json)}
    (h : memberRow? fuel words = some (members, [])) (first : Bool)
    (hs : lexemes? s = some (if first then words else .comma :: words)) (n : Nat) :
    Ends (Reader.members quoted partyShape? n first) s (fun all left => Lost 2 [] left ∨
      (lexemes? left = some [.endObject] ∧ List.Forall₂ Found members all)) fun _ => True := by
  induction fuel generalizing words members n first s with
  | zero => cases h
  | succ fuel ih =>
    obtain _ | n := n
    · trivial
    obtain ⟨raw, item, row, next, tail, rfl, rfl, hv, rest⟩ := of_memberRow? h
    have hr : leave 1 next = some [] := by
      obtain ⟨after, rfl, hm⟩ | ⟨-, rfl⟩ := rest
      · simpa [leave] using leave_of_memberRow? hm
      · simp [leave]
    have more (left : Bytes) (hl : lexemes? left = some next) :
        Ends (Reader.members quoted partyShape? n false) left (fun all left => Lost 2 [] left ∨
          (lexemes? left = some [.endObject] ∧ List.Forall₂ Found tail all)) fun _ => True := by
      obtain ⟨after, rfl, hm⟩ | ⟨rfl, rfl⟩ := rest
      · exact ih hm false hl n
      obtain _ | n := n
      · trivial
      obtain ⟨after, hd, -⟩ := mark_first rfl hl
      simp only [Reader.members, ends_bind, ends_blanks, ends_peek, ends_ite, ends_pure, hd,
        List.head?_cons, if_true]
      exact .inr ⟨by rw [← hd, lexemes?_dropWhile, hl], .nil⟩
    have member {s' : Bytes} (h : lexemes? s' = some (.text raw :: .colon :: row)) :
        Ends (mark 0x22) s' (fun _ left => Ends quoted left (fun key left =>
          Ends (mark 0x3a) left (fun _ left => Ends (partyShape? key) left (fun found left =>
            Ends (Reader.members quoted partyShape? n false) left (fun all left =>
              Lost 2 [] left ∨ (lexemes? left = some [.endObject] ∧
                List.Forall₂ Found ((raw, item) :: tail) ((key, found) :: all)))
              fun _ => True) fun _ => True) fun _ => True) fun _ => True) fun _ => True := by
      obtain ⟨body, after, hd, ht, ha, -⟩ := text_first h
      rw [ends_mark_here hd]
      refine (ends_quoted body).mono (fun key left found => ?_) fun _ _ => trivial
      obtain ⟨raw', ht', hp⟩ := found
      obtain ⟨rfl, rfl⟩ : raw = raw' ∧ after = left := by simpa [ht] using ht'
      obtain ⟨after, hd, ha, -⟩ := mark_first rfl ha
      rw [ends_mark_here hd]
      refine (ends_value ha hv hr raw hp).mono (fun found left place => ?_) fun _ => id
      obtain ⟨here, hl | lost⟩ := place
      · exact (more left hl).mono (fun all left => Or.imp_right fun h => ⟨h.1, .cons here h.2⟩)
          fun _ => id
      · exact (ends_members_of_lost n lost).mono (fun _ _ => .inl) fun _ => id
    simp only [Reader.members, ends_bind, ends_blanks, ends_peek, ends_ite, ends_pure]
    cases first with
    | true =>
      obtain ⟨body, after, hd, -⟩ := text_first hs
      rw [if_neg (by simp [hd])]
      exact member ((lexemes?_dropWhile s).trans hs)
    | false =>
      obtain ⟨after, hd, ha, -⟩ := mark_first rfl hs
      rw [if_neg (by simp [hd])]
      simp only [hd, ends_mark_cons (b := 0x2c) (by decide), Bool.false_eq_true, if_false]
      exact member ha

/-- What the second reading finds are the members of the document. -/
theorem found_of_takesAll {document : Bytes} {members : List (Bytes × Json)}
    {all : List (String × Option Shape)} (hd : parse? document = some (.object members))
    (h : takesAll parties document = some all) (hm : members ≠ []) :
    List.Forall₂ Found members all := by
  obtain ⟨words, hw, hv⟩ := Option.bind_eq_some_iff.1 hd
  obtain ⟨row, fuel, rfl, hrow⟩ : ∃ row fuel, words = .beginObject :: row ∧
      memberRow? fuel row = some (members, []) := by
    split at hv
    · next document hv' =>
      cases hv
      obtain ⟨row, rfl, ⟨rfl, -⟩ | ⟨fuel, hrow⟩⟩ := value?_object hv'
      · exact absurd rfl hm
      · exact ⟨row, fuel, rfl, hrow⟩
    · cases hv
  obtain ⟨after, hs, ha, -⟩ := mark_first rfl hw
  have read : Ends parties document
      (fun all left => Lost 1 [] left ∨ List.Forall₂ Found members all) fun _ => True := by
    simp only [parties, ends_bind, ends_mark_here hs, ends_get, ends_pure]
    refine (ends_memberRow hrow true ha _).mono (fun all left place => ?_) fun _ => id
    obtain lost | ⟨-, found⟩ := place
    · exact lost.endObject.mono (fun _ _ => .inl) fun _ _ => trivial
    · rw [ends_endObject]
      split
      · exact .inr found
      · trivial
  obtain ⟨left, lost | found, blank⟩ := read.of_takesAll h
  · exact absurd blank (not_lost_of_blank lost)
  · exact found

/-- A loop that tries something with each name succeeds with all of them. -/
theorem isSome_of_forIn {α : Type} {f : String → Option α} {names : List String} {u : PUnit}
    (h : (forIn names PUnit.unit fun name _ => do
      let _ ← f name
      pure (ForInStep.yield PUnit.unit)) = some u) : ∀ name ∈ names, (f name).isSome = true := by
  induction names with
  | nil => simp
  | cons name names ih =>
    rw [List.forIn_cons] at h
    cases hf : f name with
    | none => simp [hf] at h
    | some _ => exact List.forall_mem_cons.2 ⟨by simp [hf], ih (by simpa [hf] using h)⟩

theorem of_isAddressed? {document : Bytes} (h : isAddressed? document = some false) :
    ∃ all, takesAll parties document = some all ∧ (member? "aud" all).isSome = true ∧
      (all.lookup "aud").join ≠ some .text ∧ (all.lookup "aud").join ≠ some .texts := by
  obtain ⟨all, hall, h⟩ := Option.bind_eq_some_iff.1 h
  obtain ⟨_, hloop, h⟩ := Option.bind_eq_some_iff.1 h
  refine ⟨all, hall, isSome_of_forIn hloop "aud" (by decide), fun he => ?_, fun he => ?_⟩ <;>
    simp [he] at h

theorem lookup_eq_head? {α : Type} (name : String) (all : List (String × α)) :
    all.lookup name = ((all.filter (·.1 == name)).head?).map (·.2) := by
  induction all with
  | nil => rfl
  | cons one all ih =>
    obtain ⟨key, a⟩ := one
    by_cases h : key = name
    · simp [h]
    · have h' : (name == key) = false := by simpa using Ne.symm h
      simp [List.lookup_cons, h, h', ih]

/-- The only member of a name is the one that is looked up. -/
theorem lookup_of_member? {α : Type} {all : List (String × α)} (found : String × α)
    (h : (member? found.1 all).isSome = true) (hm : found ∈ all) :
    all.lookup found.1 = some found.2 := by
  have here : found ∈ all.filter (·.1 == found.1) :=
    List.mem_filter.2 ⟨hm, beq_self_eq_true _⟩
  rw [lookup_eq_head?]
  unfold member? at h
  split at h
  · next none => simp [none] at here
  · next key a only =>
    rw [only] at here ⊢
    cases List.mem_singleton.1 here
    rfl
  · cases h

/-- A token whose claims are read as those of one without addressees has none. -/
theorem not_addressed {document : Bytes} {members : List (String × Json)}
    (hd : (parse? document).bind members? = some members)
    (h : isAddressed? document = some false) (hm : ("aud", item) ∈ members) :
    item.text? = none ∧ item.texts? = none := by
  obtain ⟨j, hd, hj⟩ := Option.bind_eq_some_iff.1 hd
  obtain ⟨rows, rfl⟩ : ∃ rows, j = .object rows := by
    cases j with
    | object rows => exact ⟨rows, rfl⟩
    | _ => cases hj
  obtain ⟨all, hall, hone, htext, htexts⟩ := of_isAddressed? h
  obtain ⟨raw, hraw, hp⟩ := exists_of_members? hj hm
  have found := found_of_takesAll hd hall (List.ne_nil_of_mem hraw)
  obtain ⟨⟨key, shape⟩, hin, hkey, told⟩ := exists_of_forall₂ found hraw
  obtain rfl : key = "aud" := by simpa [hp] using hkey.symm
  rw [lookup_of_member? ("aud", shape) hone hin, Option.join_some] at htext htexts
  obtain ⟨text, texts⟩ := told rfl
  exact ⟨Option.not_isSome_iff_eq_none.1 fun h => htext (text h),
    Option.not_isSome_iff_eq_none.1 fun h => htexts (texts h)⟩

end Strongbox.Token
