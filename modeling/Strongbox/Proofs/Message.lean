import Strongbox.Message
import Strongbox.Proofs.Wire.Schema

/-!
# Messages survive the wire

Each message type gives its fields back one after the other, from the blank message on. Frames embed
metadata and chunks, and metadata, details and listings embed lists, so messages are nested at most
three deep, far less than reading allows.

## Main definitions

* `Spoken`: the schemas of the messages that the parties send.

## Main statements

* `Spoken.faithful`: every one of these messages reads back.
* `Spoken.decode_encode`: so does what was read from any bytes, once it is written again.
-/

namespace Strongbox.Message

open Wire Schema

/-- The schema of a message that one party sends to another, by itself or within another one. -/
inductive Spoken : {M : Type} → Schema M → Prop
  | label : Spoken Label.schema
  | metadata : Spoken Metadata.schema
  | chunk : Spoken Chunk.schema
  | frame : Spoken Frame.schema
  | receipt : Spoken Receipt.schema
  | fileRequest : Spoken FileRequest.schema
  | removal : Spoken Removal.schema
  | listRequest : Spoken ListRequest.schema
  | listItem : Spoken ListItem.schema
  | listReply : Spoken ListReply.schema
  | fileDetails : Spoken FileDetails.schema

/-- The fields of every message have numbers of their own that a key can hold. -/
theorem Spoken.numbered {M : Type} {s : Schema M} (spoken : Spoken s) : s.Numbered := by
  cases spoken <;> decide

/-! ## Messages that embed no other -/

theorem Label.faithful : Label.schema.Faithful 1 := by
  refine faithful_of_chain Spoken.label.numbered Nat.one_pos fun _ _ =>
    .cons (Kind.sound_int64.carries ?_ rfl) <| .cons (Kind.sound_text.carries ?_ rfl) <|
    .cons (Kind.sound_text.carries ?_ rfl) .nil
  all_goals exact ⟨fun _ _ => rfl, fun _ => rfl, fun _ _ _ => rfl⟩

theorem Chunk.faithful : Chunk.schema.Faithful 1 := by
  refine faithful_of_chain Spoken.chunk.numbered Nat.one_pos fun _ _ =>
    .cons (Kind.sound_bytes.carries ?_ rfl) <| .cons (Kind.sound_int32.carries ?_ rfl) <|
    .cons (Kind.sound_bool.carries ?_ rfl) .nil
  all_goals exact ⟨fun _ _ => rfl, fun _ => rfl, fun _ _ _ => rfl⟩

theorem Receipt.faithful : Receipt.schema.Faithful 1 := by
  refine faithful_of_chain Spoken.receipt.numbered Nat.one_pos fun _ _ =>
    .cons (Kind.sound_int64.carries ?_ rfl) <| .cons (Kind.sound_int64.carries ?_ rfl) <|
    .cons (Kind.sound_text.carries ?_ rfl) .nil
  all_goals exact ⟨fun _ _ => rfl, fun _ => rfl, fun _ _ _ => rfl⟩

theorem FileRequest.faithful : FileRequest.schema.Faithful 1 := by
  refine faithful_of_chain Spoken.fileRequest.numbered Nat.one_pos fun _ _ =>
    .cons (Kind.sound_int64.carries ?_ rfl) .nil
  all_goals exact ⟨fun _ _ => rfl, fun _ => rfl, fun _ _ _ => rfl⟩

theorem Removal.faithful : Removal.schema.Faithful 1 := by
  refine faithful_of_chain Spoken.removal.numbered Nat.one_pos fun _ _ =>
    .cons (Kind.sound_bool.carries ?_ rfl) .nil
  all_goals exact ⟨fun _ _ => rfl, fun _ => rfl, fun _ _ _ => rfl⟩

theorem ListRequest.faithful : ListRequest.schema.Faithful 1 := by
  refine faithful_of_chain Spoken.listRequest.numbered Nat.one_pos fun _ _ =>
    .cons (Kind.sound_int32.carries ?_ rfl) <| .cons (Kind.sound_int32.carries ?_ rfl) <|
    .cons (Kind.sound_text.carries ?_ rfl) .nil
  all_goals exact ⟨fun _ _ => rfl, fun _ => rfl, fun _ _ _ => rfl⟩

theorem ListItem.faithful : ListItem.schema.Faithful 1 := by
  refine faithful_of_chain Spoken.listItem.numbered Nat.one_pos fun _ _ =>
    .cons (Kind.sound_int64.carries ?_ rfl) <| .cons (Kind.sound_text.carries ?_ rfl) <|
    .cons (Kind.sound_text.carries ?_ rfl) <| .cons (Kind.sound_int64.carries ?_ rfl) <|
    .cons (Kind.sound_text.carries ?_ rfl) <| .cons (Kind.sound_text.carries ?_ rfl) .nil
  all_goals exact ⟨fun _ _ => rfl, fun _ => rfl, fun _ _ _ => rfl⟩

/-! ## Messages that embed others -/

theorem Metadata.faithful : Metadata.schema.Faithful 2 := by
  refine faithful_of_chain Spoken.metadata.numbered Nat.two_pos fun room _ =>
    .cons (Kind.sound_text.carries ?_ rfl) <| .cons (Kind.sound_text.carries ?_ rfl) <|
    .cons (Kind.sound_int64.carries ?_ rfl) <| .cons (Kind.sound_text.carries ?_ rfl) <|
    .cons (Kind.sound_int32.carries ?_ rfl) <| .cons (Kind.sound_int32.carries ?_ rfl) <|
    .cons ((Label.faithful.repeated room).carries ?_ rfl) .nil
  all_goals exact ⟨fun _ _ => rfl, fun _ => rfl, fun _ _ _ => rfl⟩

theorem FileDetails.faithful : FileDetails.schema.Faithful 2 := by
  refine faithful_of_chain Spoken.fileDetails.numbered Nat.two_pos fun room _ =>
    .cons (Kind.sound_int64.carries ?_ rfl) <| .cons (Kind.sound_text.carries ?_ rfl) <|
    .cons (Kind.sound_text.carries ?_ rfl) <| .cons (Kind.sound_int64.carries ?_ rfl) <|
    .cons (Kind.sound_text.carries ?_ rfl) <| .cons (Kind.sound_text.carries ?_ rfl) <|
    .cons ((Label.faithful.repeated room).carries ?_ rfl) .nil
  all_goals exact ⟨fun _ _ => rfl, fun _ => rfl, fun _ _ _ => rfl⟩

theorem ListReply.faithful : ListReply.schema.Faithful 2 := by
  refine faithful_of_chain Spoken.listReply.numbered Nat.two_pos fun room _ =>
    .cons ((ListItem.faithful.repeated room).carries ?_ rfl) <|
    .cons (Kind.sound_int32.carries ?_ rfl) <| .cons (Kind.sound_int32.carries ?_ rfl) <|
    .cons (Kind.sound_int32.carries ?_ rfl) .nil
  all_goals exact ⟨fun _ _ => rfl, fun _ => rfl, fun _ _ _ => rfl⟩

/-- A frame writes the one alternative that it has, even if that one is blank. -/
theorem Frame.faithful : Frame.schema.Faithful 3 := by
  refine faithful_of_chain Spoken.frame.numbered (by decide) fun {depth} room f => ?_
  have chunkRoom : 1 < depth := by omega
  cases f with
  | empty => exact .cons (choice_absent rfl) <| .cons (choice_absent rfl) .nil
  | metadata m =>
    exact .cons (Metadata.faithful.choice_carries room rfl rfl) <| .cons (choice_absent rfl) .nil
  | chunk c =>
    exact .cons (choice_absent rfl) <| .cons (Chunk.faithful.choice_carries chunkRoom rfl rfl) .nil

/-! ## Every message -/

namespace Spoken

variable {M : Type} {s : Schema M} {m : M}

theorem faithful (spoken : Spoken s) : s.Faithful 3 := by
  cases spoken with
  | label => exact Label.faithful.mono (by decide)
  | metadata => exact Metadata.faithful.mono (by decide)
  | chunk => exact Chunk.faithful.mono (by decide)
  | frame => exact Frame.faithful
  | receipt => exact Receipt.faithful.mono (by decide)
  | fileRequest => exact FileRequest.faithful.mono (by decide)
  | removal => exact Removal.faithful.mono (by decide)
  | listRequest => exact ListRequest.faithful.mono (by decide)
  | listItem => exact ListItem.faithful.mono (by decide)
  | listReply => exact ListReply.faithful.mono (by decide)
  | fileDetails => exact FileDetails.faithful.mono (by decide)

/-- Every message reads back from its bytes, if their number is one that a length can tell. So what
any bytes were read as is read again from its own bytes. -/
theorem decode_encode (spoken : Spoken s) (short : (s.encode m).length < Word.count64) :
    s.decode (s.encode m) = some m ∧
      ∀ b, s.decode b = some m → s.decode (s.encode m) = s.decode b := by
  have same : s.decode (s.encode m) = some m := spoken.faithful _ _ (by decide) short
  exact ⟨same, fun b read => same.trans read.symm⟩

/-- An empty frame, blank alternatives and extreme values read back; so does a frame that replaced
another one on the wire. -/
theorem decode_encode_of_frames :
    (∀ f ∈ [Frame.empty, .metadata {}, .chunk {},
        .metadata
          { filename := "é", originalSize := .minValue, totalChunks := .maxValue,
            labels := [{}, { id := -1 }] },
        .chunk { data := [0, 255], index := .minValue, isLast := true }],
      (Frame.schema.encode f).length < Word.count64 ∧
        Frame.schema.decode (Frame.schema.encode f) = some f) ∧
    Frame.schema.decode [18, 2, 24, 1, 10, 0] = some (.metadata {}) ∧
    Frame.schema.decode (Frame.schema.encode (.metadata {})) =
      Frame.schema.decode [18, 2, 24, 1, 10, 0] := by
  have short : ∀ f ∈ [Frame.empty, .metadata {}, .chunk {},
        .metadata
          { filename := "é", originalSize := .minValue, totalChunks := .maxValue,
            labels := [{}, { id := -1 }] },
        .chunk { data := [0, 255], index := .minValue, isLast := true }],
      (Frame.schema.encode f).length < Word.count64 := by decide +kernel
  have read : Frame.schema.decode [18, 2, 24, 1, 10, 0] = some (.metadata {}) := by decide +kernel
  refine ⟨fun f hf => ⟨short f hf, (Spoken.frame.decode_encode (short f hf)).1⟩, read, ?_⟩
  exact (Spoken.frame.decode_encode (short _ (by simp))).2 _ read

end Spoken

end Strongbox.Message
