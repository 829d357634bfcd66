import Strongbox.Proofs.Message
import Strongbox.Proofs.Wire.Field

/-!
# Messages with unknown fields

A newer party may write fields that a message type does not have. They are passed over wherever
they stand between the fields of a message, or of a message embedded in it, so that what is read is
the message without them.

## Main definitions

* `Schema.Embeds`: a field of a message type holds messages of another type.
* `Widened`: the bytes of a message, with unknown fields in between.

## Main statements

* `Widened.exists_readAll`: unknown fields change nothing in what the tokens of a message come to.
* `Spoken.decode_widened`: every message reads back from its bytes with unknown fields.
-/

namespace Strongbox

namespace Wire

theorem Item.IsValue.ends {i : Item} (value : i.IsValue) : i ≠ .closing ∧ i ≠ .opening := by
  constructor <;> rintro rfl <;> exact value

theorem Item.IsValue.outside_zero {t : Token} {ts : List Token} (value : t.item.IsValue) :
    Token.outside 0 [] (t :: ts) = none := by
  obtain ⟨field, item⟩ := t
  cases item with
  | closing => exact value.elim
  | _ => rfl

variable {M N : Type} {s : Schema M} {inner : Schema N} {field depth : Nat} {a : M} {b c : Bytes}

/-! ## Fields of numbers and blocks -/

namespace Entry

/-- Whatever the message, the field is written as numbers and blocks. -/
def IsPlain (e : Entry M) : Prop := ∀ m, ∀ i ∈ e.write m, i.IsValue

variable {α C : Type} {k : Kind α} {get : M → α} {set : M → α → M}

theorem isPlain_of_sound (sound : k.Sound 0) : (k.entry field get set).IsPlain :=
  fun m => sound.isValue (get m)

theorem isPlain_repeated {get : M → List N} {set : M → List N → M} :
    (inner.repeated.entry field get set).IsPlain := by
  intro m i hi
  obtain ⟨n, -, rfl⟩ := List.mem_map.1 hi
  trivial

theorem isPlain_choice {get? : C → Option N} {make : N → C} :
    (inner.choice field get? make).IsPlain := by
  intro m i hi
  obtain ⟨n, -, rfl⟩ := Option.map_eq_some_iff.1 (Option.mem_toList.1 hi)
  trivial

end Entry

namespace Schema

/-- The tokens of a message are numbers and blocks, if its fields are. -/
theorem isValue_of_mem_tokens {m : M} {t : Token} (plain : ∀ e ∈ s.entries, e.IsPlain)
    (ht : t ∈ s.tokens m) : t.item.IsValue := by
  obtain ⟨e, he, written⟩ := List.mem_flatMap.1 ht
  obtain ⟨i, hi, rfl⟩ := List.mem_map.1 written
  exact plain e he m i hi

/-! ## Embedded messages -/

/-- A field of a message type holds messages of another type: any number of them, or one as an
alternative to others. -/
inductive Embeds (s : Schema M) (inner : Schema N) : (field : Nat) → Prop
  | repeated {field : Nat} {get : M → List N} {set : M → List N → M} :
      inner.repeated.entry field get set ∈ s.entries → Embeds s inner field
  | choice {field : Nat} {get? : M → Option N} {make : N → M} :
      inner.choice field get? make ∈ s.entries → Embeds s inner field

/-- What is read of an embedded message is all that counts of it. -/
theorem Embeds.mergeToken_congr (numbered : s.Numbered) (embeds : s.Embeds inner field)
    (same : ∀ x, inner.mergeBytes depth x b = inner.mergeBytes depth x c) (a : M) :
    s.mergeToken (depth + 1) a ⟨field, .block b⟩ =
      s.mergeToken (depth + 1) a ⟨field, .block c⟩ := by
  have embedded (x : N) : inner.mergeEmbedded (depth + 1) x (.block b) =
      inner.mergeEmbedded (depth + 1) x (.block c) := same x
  cases embeds with
  | repeated mem =>
    refine (mergeToken_eq numbered mem (.block b)).trans
      (Eq.trans ?_ (mergeToken_eq numbered mem (.block c)).symm)
    simp only [Kind.entry, Schema.repeated, embedded]
  | choice mem =>
    refine (mergeToken_eq numbered mem (.block b)).trans
      (Eq.trans ?_ (mergeToken_eq numbered mem (.block c)).symm)
    simp only [Schema.choice, embedded]

/-! ## Tokens merged one after another -/

/-- Tokens of a field that the type does not have change nothing. -/
theorem foldlM_unknown {ts more : List Token} (unknown : field ∉ s.entries.map (·.field))
    (foreign : ∀ t ∈ ts, t.field = field) (a : M) :
    (ts ++ more).foldlM (s.mergeToken depth) a = more.foldlM (s.mergeToken depth) a := by
  induction ts with
  | nil => rfl
  | cons t ts ih =>
    obtain ⟨first, others⟩ := List.forall_mem_cons.1 foreign
    have none : s.entries.find? (·.field == t.field) = none := by
      rw [List.find?_eq_none]
      intro e he same
      exact unknown (first ▸ beq_iff_eq.1 same ▸ List.mem_map_of_mem he)
    have passed : s.mergeToken depth a t = some a := by simp [mergeToken, none]
    rw [List.cons_append, List.foldlM_cons, passed]
    exact ih others

/-- What comes of merging some tokens into a message, those outside every group. -/
def mergeAll (s : Schema M) (depth : Nat) (a : M) (ts : List Token) : Option M :=
  (Token.outside depth [] ts).bind fun kept => kept.foldlM (s.mergeToken depth) a

theorem mergeBytes_of_readAll {ts : List Token} (h : Token.readAll b = some ts) :
    s.mergeBytes depth a b = s.mergeAll depth a ts := by
  simp only [mergeBytes, h, mergeAll, Option.bind_eq_bind, Option.bind_some]

theorem mergeAll_cons {t : Token} {ts : List Token} (value : t.item.IsValue) (room : 0 < depth) :
    s.mergeAll depth a (t :: ts) =
      (s.mergeToken depth a t).bind fun x => s.mergeAll depth x ts := by
  obtain ⟨field, item⟩ := t
  obtain ⟨closes, opens⟩ := value.ends
  have kept : Token.outside depth [] (⟨field, item⟩ :: ts) =
      (Token.outside depth [] ts).map (⟨field, item⟩ :: ·) := by
    rw [Token.outside_cons closes (by simpa using room), if_neg opens]
    rfl
  simp only [mergeAll, kept]
  cases Token.outside depth [] ts with
  | none => cases s.mergeToken depth a ⟨field, item⟩ <;> rfl
  | some us => rfl

theorem mergeAll_cons_congr {t u : Token} {ts us : List Token} (ht : t.item.IsValue)
    (hu : u.item.IsValue) (here : ∀ x, s.mergeToken depth x t = s.mergeToken depth x u)
    (after : ∀ x, s.mergeAll depth x ts = s.mergeAll depth x us) (a : M) :
    s.mergeAll depth a (t :: ts) = s.mergeAll depth a (u :: us) := by
  cases depth with
  | zero => simp only [mergeAll, ht.outside_zero, hu.outside_zero]
  | succ depth =>
    rw [mergeAll_cons ht depth.succ_pos, mergeAll_cons hu depth.succ_pos, here]
    simp only [after]

end Schema

end Wire

namespace Message

open Wire Schema

theorem Spoken.isPlain {M : Type} {s : Schema M} (spoken : Spoken s) :
    ∀ e ∈ s.entries, e.IsPlain := by
  cases spoken <;>
    simp [Label.schema, Metadata.schema, Chunk.schema, Frame.schema, Receipt.schema,
      FileRequest.schema, Removal.schema, ListRequest.schema, ListItem.schema, ListReply.schema,
      FileDetails.schema, Entry.isPlain_of_sound Kind.sound_int64,
      Entry.isPlain_of_sound Kind.sound_int32, Entry.isPlain_of_sound Kind.sound_bool,
      Entry.isPlain_of_sound Kind.sound_text, Entry.isPlain_of_sound Kind.sound_bytes,
      Entry.isPlain_repeated, Entry.isPlain_choice]

theorem embeds : Frame.schema.Embeds Metadata.schema 1 ∧ Frame.schema.Embeds Chunk.schema 2 ∧
    Metadata.schema.Embeds Label.schema 7 ∧ FileDetails.schema.Embeds Label.schema 7 ∧
    ListReply.schema.Embeds ListItem.schema 1 :=
  ⟨.choice (List.mem_of_getElem? (i := 0) rfl), .choice (List.mem_of_getElem? (i := 1) rfl),
    .repeated (List.mem_of_getElem? (i := 6) rfl), .repeated (List.mem_of_getElem? (i := 6) rfl),
    .repeated (List.mem_of_getElem? (i := 0) rfl)⟩

/-- The bytes write a row of tokens, with fields of other numbers in between, and in between the
fields of the messages that are embedded in the row. -/
inductive Widened : {M : Type} → Schema M → (depth : Nat) → List Token → Bytes → Prop
  | nil {M : Type} {s : Schema M} {depth : Nat} : Widened s depth [] []
  | token {M : Type} {s : Schema M} {depth : Nat} {t : Token} {ts : List Token} {b : Bytes} :
      Widened s depth ts b → Widened s depth (t :: ts) (t.write ++ b)
  | unknown {M : Type} {s : Schema M} {depth field : Nat} {u b : Bytes} {ts : List Token} :
      IsField depth field u → field ∉ s.entries.map (·.field) → Widened s depth ts b →
        Widened s depth ts (u ++ b)
  | embedded {M N : Type} {s : Schema M} {inner : Schema N} {depth field : Nat} {n : N}
      {b c : Bytes} {ts : List Token} :
      Spoken inner → s.Embeds inner field → Widened inner depth (inner.tokens n) c →
        Widened s (depth + 1) ts b →
          Widened s (depth + 1) (⟨field, .block (inner.encode n)⟩ :: ts)
            (Token.write ⟨field, .block c⟩ ++ b)

namespace Widened

variable {M : Type} {s : Schema M} {depth field : Nat} {ts front back : List Token} {u b : Bytes}

theorem append_tokens (front : List Token) (h : Widened s depth back b) :
    Widened s depth (front ++ back) (front.flatMap Token.write ++ b) := by
  induction front with
  | nil => exact h
  | cons t front ih =>
    rw [List.cons_append, List.flatMap_cons, List.append_assoc]
    exact ih.token

/-- A field may be put in between any two tokens, or at either end. -/
theorem insert (isField : IsField depth field u) (absent : field ∉ s.entries.map (·.field)) :
    Widened s depth (front ++ back)
      (front.flatMap Token.write ++ (u ++ back.flatMap Token.write)) := by
  have written : Widened s depth back (back.flatMap Token.write) := by
    simpa using append_tokens back (nil (s := s))
  exact append_tokens front (written.unknown isField absent)

theorem length_le (h : Widened s depth ts b) : (ts.flatMap Token.write).length ≤ b.length := by
  induction h with
  | nil => exact Nat.le_refl 0
  | token _ ih => simpa using ih
  | unknown _ _ _ ih =>
    simp only [List.length_append]
    omega
  | @embedded _ _ _ inner _ field n _ c _ _ _ _ _ inside ih =>
    have whole : (inner.encode n).length ≤ c.length := inside
    have lengths := Varint.length_write_le_of_le whole
    simp only [List.flatMap_cons, Token.write, Token.key, Item.code, Item.write, List.length_append]
    omega

/-- What is read of the bytes comes to the same as the tokens that they were written for. -/
theorem exists_readAll (h : Widened s depth ts b) (numbered : s.Numbered) (fits : ∀ t ∈ ts, t.Fits)
    (values : ∀ t ∈ ts, t.item.IsValue) (short : b.length < Word.count64) :
    ∃ us, Token.readAll b = some us ∧ ∀ a, s.mergeAll depth a us = s.mergeAll depth a ts := by
  induction h with
  | nil => exact ⟨[], Token.readAll_nil, fun _ => rfl⟩
  | token _ ih =>
    obtain ⟨fit, fits⟩ := List.forall_mem_cons.1 fits
    obtain ⟨value, values⟩ := List.forall_mem_cons.1 values
    simp only [List.length_append] at short
    obtain ⟨us, read, same⟩ := ih numbered fits values (by omega)
    refine ⟨_ :: us, ?_, mergeAll_cons_congr value value (fun _ => rfl) same⟩
    rw [Token.readAll_of_read (Token.read_write fit _), read, Option.map_some]
  | unknown isField absent _ ih =>
    simp only [List.length_append] at short
    obtain ⟨us, read, same⟩ := ih numbered fits values (by omega)
    obtain ⟨vs, reads, passes⟩ := isField.passes
    obtain ⟨kept, foreign, outside⟩ := passes.outer (Nat.le_refl _)
    refine ⟨vs ++ us, by rw [reads, read, Option.map_some], fun a => ?_⟩
    rw [← same, mergeAll, outside, Option.bind_map]
    exact congrArg (Option.bind _) (funext fun ts => foldlM_unknown absent foreign a)
  | @embedded _ _ _ inner depth field n b c _ spoken embeds inside _ ihInner ih =>
    obtain ⟨fit, fits⟩ := List.forall_mem_cons.1 fits
    obtain ⟨-, values⟩ := List.forall_mem_cons.1 values
    simp only [Token.write, Item.write, List.length_append] at short
    obtain ⟨us, read, same⟩ := ih numbered fits values (by omega)
    have shortInner : c.length < Word.count64 := by omega
    have plain : ∀ t ∈ inner.tokens n, t.item.IsValue :=
      fun _ ht => isValue_of_mem_tokens spoken.isPlain ht
    have fitsInner : ∀ t ∈ inner.tokens n, t.Fits :=
      fits_tokens spoken.numbered plain (Nat.lt_of_le_of_lt inside.length_le shortInner)
    obtain ⟨vs, readInner, sameInner⟩ := ihInner spoken.numbered fitsInner plain shortInner
    have embedded (x : _) :
        inner.mergeBytes depth x c = inner.mergeBytes depth x (inner.encode n) := by
      rw [mergeBytes_of_readAll readInner, sameInner, encode,
        mergeBytes_of_readAll (Token.readAll_write fitsInner)]
    have fit' : Token.Fits ⟨field, .block c⟩ := ⟨fit.field_pos, fit.key_lt, shortInner⟩
    refine ⟨⟨field, .block c⟩ :: us, ?_, mergeAll_cons_congr trivial trivial
      (embeds.mergeToken_congr numbered embedded) same⟩
    rw [Token.readAll_of_read (Token.read_write fit' b), read, Option.map_some]

end Widened

namespace Spoken

variable {M : Type} {s : Schema M} {m : M}

/-- Every message reads back from its bytes with any unknown fields in between, in between the
fields of the messages embedded in it too; so with one unknown field between any two of its own. -/
theorem decode_widened (spoken : Spoken s) :
    (∀ b, Widened s maxDepth (s.tokens m) b → b.length < Word.count64 → s.decode b = some m) ∧
      ∀ front back field u, s.tokens m = front ++ back → IsField maxDepth field u →
        field ∉ s.entries.map (·.field) → (s.encode m).length + u.length < Word.count64 →
          s.decode (front.flatMap Token.write ++ (u ++ back.flatMap Token.write)) = some m := by
  have plain : ∀ t ∈ s.tokens m, t.item.IsValue := fun _ ht =>
    isValue_of_mem_tokens spoken.isPlain ht
  have decoded (b : Bytes) (widened : Widened s maxDepth (s.tokens m) b)
      (short : b.length < Word.count64) : s.decode b = some m := by
    have short' : (s.encode m).length < Word.count64 :=
      Nat.lt_of_le_of_lt widened.length_le short
    have fits : ∀ t ∈ s.tokens m, t.Fits := fits_tokens spoken.numbered plain short'
    obtain ⟨us, read, same⟩ := widened.exists_readAll spoken.numbered fits plain short
    calc s.decode b
      _ = s.mergeAll maxDepth s.blank us := mergeBytes_of_readAll read
      _ = s.mergeAll maxDepth s.blank (s.tokens m) := same s.blank
      _ = s.decode (s.encode m) := (mergeBytes_of_readAll (Token.readAll_write fits)).symm
      _ = some m := (spoken.decode_encode short').1
  refine ⟨decoded, fun front back field u split isField absent short => ?_⟩
  have widened : Widened s maxDepth (s.tokens m) _ := split ▸ Widened.insert isField absent
  refine decoded _ widened ?_
  simp only [encode, split, List.flatMap_append, List.length_append] at short ⊢
  omega

/-- A frame, its metadata and a label are widened: by a group that holds a number in a form that is
too long, by four bytes and by a block. -/
theorem decode_widened_of_newer_frame :
    Widened Frame.schema maxDepth
        (Frame.schema.tokens (.metadata { filename := "a", labels := [{ id := 1 }] }))
        [27, 8, 129, 0, 28, 10, 15, 10, 1, 97, 77, 1, 2, 3, 4, 58, 5, 8, 1, 34, 1, 122] ∧
      Frame.schema.decode
          [27, 8, 129, 0, 28, 10, 15, 10, 1, 97, 77, 1, 2, 3, 4, 58, 5, 8, 1, 34, 1, 122] =
        some (.metadata { filename := "a", labels := [{ id := 1 }] }) := by
  have inGroup : IsField 99 1 ([8] ++ [129, 0]) :=
    .number (isKey_byte (by decide) (by decide) (by decide))
      ⟨.more (by decide) (.last (by decide)), by decide, by decide⟩
  have group : IsField 100 3 ([27] ++ ([(1, [8, 129, 0])].flatMap (·.2) ++ [28])) :=
    .group (isKey_byte (by decide) (by decide) (by decide))
      (List.forall_mem_singleton.2 inGroup) (isKey_byte (by decide) (by decide) (by decide))
  have four : IsField 99 9 ([77] ++ [1, 2, 3, 4]) :=
    .four (isKey_byte (by decide) (by decide) (by decide)) (by decide)
  have length : Varint.Writes 1 [1] := Varint.writes_byte (x := 1) (by decide)
  have block : IsField 98 4 ([34] ++ ([1] ++ [122])) :=
    .block (isKey_byte (by decide) (by decide) (by decide)) length
  have id : Token.write ⟨1, .number 1⟩ = [8, 1] := by decide +kernel
  have name : Token.write ⟨1, .block [97]⟩ = [10, 1, 97] := by decide +kernel
  have label : Widened Label.schema 98 (Label.schema.tokens { id := 1 }) [8, 1, 34, 1, 122] :=
    show Widened _ _ [⟨1, .number 1⟩] ([8, 1] ++ ([34, 1, 122] ++ [])) from
      id ▸ .token (.unknown block (by decide) .nil)
  have labels : Token.write ⟨7, .block [8, 1, 34, 1, 122]⟩ = [58, 5, 8, 1, 34, 1, 122] := by
    decide +kernel
  have outer : Token.write ⟨1, .block [10, 1, 97, 77, 1, 2, 3, 4, 58, 5, 8, 1, 34, 1, 122]⟩ =
      [10, 15, 10, 1, 97, 77, 1, 2, 3, 4, 58, 5, 8, 1, 34, 1, 122] := by decide +kernel
  have metadata : Widened Metadata.schema 99
      (Metadata.schema.tokens { filename := "a", labels := [{ id := 1 }] })
      [10, 1, 97, 77, 1, 2, 3, 4, 58, 5, 8, 1, 34, 1, 122] :=
    show Widened _ _ [⟨1, .block [97]⟩, ⟨7, .block (Label.schema.encode { id := 1 })⟩]
        ([10, 1, 97] ++ ([77, 1, 2, 3, 4] ++ ([58, 5, 8, 1, 34, 1, 122] ++ []))) from
      name ▸ labels ▸ .token (.unknown four (by decide)
        (.embedded .label embeds.2.2.1 label .nil))
  have frame : Widened Frame.schema maxDepth
      (Frame.schema.tokens (.metadata { filename := "a", labels := [{ id := 1 }] }))
      [27, 8, 129, 0, 28, 10, 15, 10, 1, 97, 77, 1, 2, 3, 4, 58, 5, 8, 1, 34, 1, 122] :=
    show Widened _ 100
        [⟨1, .block (Metadata.schema.encode { filename := "a", labels := [{ id := 1 }] })⟩]
        ([27, 8, 129, 0, 28] ++
          ([10, 15, 10, 1, 97, 77, 1, 2, 3, 4, 58, 5, 8, 1, 34, 1, 122] ++ [])) from
      outer ▸ .unknown group (by decide) (.embedded .metadata embeds.1 metadata .nil)
  exact ⟨frame, Spoken.frame.decode_widened.1 _ frame (by decide)⟩

end Spoken

end Message

end Strongbox
