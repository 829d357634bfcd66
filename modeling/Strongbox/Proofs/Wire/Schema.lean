import Strongbox.Proofs.Keyed
import Strongbox.Proofs.Wire.Token
import Strongbox.Wire.Schema

/-!
# Messages read back

A message is written field by field, and read from the blank message token by token. A kind of field
is sound if the items of a value, read one after another from the blank value, give the value. The
fields of a message then give it one after the other.
-/

namespace Strongbox.Wire

/-- A part of a message that can be read and set on its own. -/
structure IsPart {M α : Type} (get : M → α) (set : M → α → M) : Prop where
  get_set : ∀ m v, get (set m v) = v
  set_get : ∀ m, set m (get m) = m
  set_set : ∀ m v w, set (set m v) w = set m w

/-! ## Kinds -/

namespace Kind

variable {α : Type} {depth : Nat}

/-- Values are written as numbers and blocks, which give the value back when they are read one after
another from the blank value. -/
structure Sound (k : Kind α) (depth : Nat) : Prop where
  isValue : ∀ v, ∀ i ∈ k.write v, i.IsValue
  reads_back : ∀ v, (∀ i ∈ k.write v, i.Fits) → (k.write v).foldlM (k.merge depth) k.blank = some v

theorem sound_scalar [DecidableEq α] {blank : α} {write : α → Item} {read : Item → Option α}
    (isValue : ∀ v, (write v).IsValue) (read_write : ∀ v, read (write v) = some v) :
    (scalar blank write read).Sound depth where
  isValue v i hi := by
    simp only [scalar] at hi
    split at hi
    · cases hi
    · cases List.mem_singleton.1 hi
      exact isValue v
  reads_back v _ := by
    simp only [scalar]
    split
    · rename_i same
      rw [same]
      rfl
    · simp [read_write v]

theorem sound_int64 : int64.Sound depth :=
  sound_scalar (fun _ => trivial) fun n => by simp [number?]

theorem sound_int32 : int32.Sound depth :=
  sound_scalar (fun _ => trivial) fun n => by simp [number?]

theorem sound_bool : bool.Sound depth :=
  sound_scalar (fun _ => trivial) fun b => by cases b <;> rfl

theorem sound_text : text.Sound depth :=
  sound_scalar (fun _ => trivial) fun s => by simp [block?]

theorem sound_bytes : bytes.Sound depth :=
  sound_scalar (fun _ => trivial) fun _ => rfl

end Kind

/-! ## Fields -/

namespace Entry

variable {M : Type}

/-- The items that a field has in `m` are numbers and blocks, and they turn `a` into `b`. -/
structure Carries (e : Entry M) (depth : Nat) (m a b : M) : Prop where
  isValue : ∀ i ∈ e.write m, i.IsValue
  merged : (∀ i ∈ e.write m, i.Fits) → (e.write m).foldlM (e.merge depth) a = some b

end Entry

namespace Kind

variable {M α : Type} {k : Kind α} {field depth : Nat} {get : M → α} {set : M → α → M}

theorem entry_foldlM (part : IsPart get set) (items : List Item) (a : M) :
    items.foldlM ((k.entry field get set).merge depth) a =
      (items.foldlM (k.merge depth) (get a)).map (set a) := by
  induction items generalizing a with
  | nil => simp [part.set_get]
  | cons i items ih =>
    simp only [List.foldlM_cons, entry, Option.bind_eq_bind]
    cases k.merge depth (get a) i with
    | none => rfl
    | some v =>
      have same : set (set a v) = set a := funext fun w => part.set_set a v w
      have rest := ih (set a v)
      rw [part.get_set, same] at rest
      exact rest

/-- A field whose part is still blank takes the part over. -/
theorem Sound.carries (sound : k.Sound depth) (part : IsPart get set) {m a : M}
    (blank : get a = k.blank) : (k.entry field get set).Carries depth m a (set a (get m)) where
  isValue := sound.isValue (get m)
  merged fits := by
    rw [entry_foldlM part, blank]
    exact congrArg (Option.map (set a)) (sound.reads_back (get m) fits)

end Kind

/-- Fields that turn one message into another, one after the other, by what they have in `m`. -/
inductive Chain {M : Type} (depth : Nat) (m : M) : List (Entry M) → M → M → Prop
  | nil {a : M} : Chain depth m [] a a
  | cons {e : Entry M} {es : List (Entry M)} {a b c : M} :
      e.Carries depth m a b → Chain depth m es b c → Chain depth m (e :: es) a c

/-! ## Messages -/

namespace Schema

variable {M : Type} {s : Schema M} {m a b : M} {nesting depth : Nat}

/-- Every field has a number of its own, from one on, that a key can hold. -/
def Numbered (s : Schema M) : Prop :=
  (s.entries.map (·.field)).Nodup ∧ ∀ n ∈ s.entries.map (·.field), 0 < n ∧ n < 0x20000000

instance : Decidable s.Numbered := inferInstanceAs (Decidable (_ ∧ _))

/-- Where `nesting` messages may be nested, messages whose length can be counted read back. -/
def Faithful (s : Schema M) (nesting : Nat) : Prop :=
  ∀ depth m, nesting ≤ depth → (s.encode m).length < Word.count64 →
    s.mergeBytes depth s.blank (s.encode m) = some m

theorem Faithful.mono {more : Nat} (faithful : s.Faithful nesting) (le : nesting ≤ more) :
    s.Faithful more :=
  fun depth m room => faithful depth m (Nat.le_trans le room)

def tokensOf (es : List (Entry M)) (m : M) : List Token :=
  es.flatMap fun e => (e.write m).map (Token.mk e.field)

theorem mergeToken_eq (numbered : s.Numbered) {e : Entry M} (he : e ∈ s.entries) (i : Item) :
    s.mergeToken depth a ⟨e.field, i⟩ = e.merge depth a i := by
  have found : s.entries.find? (·.field == e.field) = some e :=
    Keyed.find?_of_mem (·.field) numbered.1 he
  simp only [mergeToken, found]

theorem foldlM_tokensOf (numbered : s.Numbered) {es : List (Entry M)}
    (known : ∀ e ∈ es, e ∈ s.entries) (chain : Chain depth m es a b)
    (fits : ∀ t ∈ tokensOf es m, t.item.Fits) :
    (tokensOf es m).foldlM (s.mergeToken depth) a = some b := by
  induction chain with
  | nil => rfl
  | @cons e es a b c carries _ ih =>
    obtain ⟨he, hes⟩ := List.forall_mem_cons.1 known
    have split : tokensOf (e :: es) m = (e.write m).map (Token.mk e.field) ++ tokensOf es m :=
      List.flatMap_cons
    rw [split] at fits ⊢
    have here : (∀ i ∈ e.write m, i.Fits) := fun i hi =>
      fits ⟨e.field, i⟩ (List.mem_append_left _ (List.mem_map_of_mem hi))
    have merged : ((e.write m).map (Token.mk e.field)).foldlM (s.mergeToken depth) a = some b := by
      simp only [List.foldlM_map, mergeToken_eq numbered he]
      exact carries.merged here
    rw [List.foldlM_append, merged]
    exact ih hes fun t ht => fits t (List.mem_append_right _ ht)

theorem isValue_tokensOf {es : List (Entry M)} (chain : Chain depth m es a b) :
    ∀ t ∈ tokensOf es m, t.item.IsValue := by
  induction chain with
  | nil => simp [tokensOf]
  | cons carries _ ih =>
    simp only [tokensOf, List.flatMap_cons, List.mem_append, List.mem_map] at ih ⊢
    rintro t (⟨i, hi, rfl⟩ | ht)
    · exact carries.isValue i hi
    · exact ih t ht

/-- The tokens of a message have the numbers of its fields. -/
theorem field_of_mem_tokens {t : Token} (ht : t ∈ s.tokens m) :
    t.field ∈ s.entries.map (·.field) := by
  obtain ⟨e, he, hi⟩ := List.mem_flatMap.1 ht
  obtain ⟨i, -, rfl⟩ := List.mem_map.1 hi
  exact List.mem_map_of_mem he

/-- The bytes of a token of a message are among those of the message. -/
theorem length_write_le {t : Token} (ht : t ∈ s.tokens m) :
    t.write.length ≤ (s.encode m).length := by
  obtain ⟨before, after, split⟩ := List.append_of_mem ht
  rw [encode, split, List.flatMap_append, List.flatMap_cons]
  simp only [List.length_append]
  omega

/-- The tokens of a message whose length can be counted read back. -/
theorem fits_tokens (numbered : s.Numbered) (values : ∀ t ∈ s.tokens m, t.item.IsValue)
    (short : (s.encode m).length < Word.count64) : ∀ t ∈ s.tokens m, t.Fits := by
  intro t ht
  obtain ⟨field_pos, field_lt⟩ := numbered.2 _ (field_of_mem_tokens ht)
  refine ⟨field_pos, ?_, ?_⟩
  · have := t.item.code_lt
    simp only [Token.key, Word.count32]
    omega
  · have written := length_write_le ht
    have value := values t ht
    obtain ⟨field, item⟩ := t
    cases item with
    | number => trivial
    | block bytes =>
      have := Item.length_le_write bytes
      simp only [Token.write, List.length_append] at written
      exact Nat.lt_of_le_of_lt (by omega) short
    | eight | opening | closing | four => cases value

/-- Bytes written token by token are merged token by token. -/
theorem mergeBytes_write {ts : List Token} (values : ∀ t ∈ ts, t.item.IsValue)
    (fits : ∀ t ∈ ts, t.Fits) (room : 0 < depth) :
    s.mergeBytes depth a (ts.flatMap Token.write) = ts.foldlM (s.mergeToken depth) a := by
  simp [mergeBytes, Token.readAll_write fits, Token.outside_values values room]

/-- A schema is faithful if the fields of each message give the message, from the blank one on. -/
theorem faithful_of_chain (numbered : s.Numbered) (pos : 0 < nesting)
    (chain : ∀ {depth}, nesting ≤ depth → ∀ m, Chain depth m s.entries s.blank m) :
    s.Faithful nesting := by
  intro depth m room short
  have values : ∀ t ∈ s.tokens m, t.item.IsValue := isValue_tokensOf (chain room m)
  have fits := fits_tokens numbered values short
  rw [encode, mergeBytes_write values fits (by omega)]
  exact foldlM_tokensOf numbered (fun _ he => he) (chain room m) fun t ht => (fits t ht).item

/-! ## Embedded messages -/

theorem Faithful.mergeEmbedded (faithful : s.Faithful nesting) (room : nesting < depth)
    (short : (s.encode m).length < Word.count64) :
    s.mergeEmbedded depth s.blank (.block (s.encode m)) = some m := by
  have deep : depth ≠ 0 := by omega
  simp only [Schema.mergeEmbedded, if_neg deep]
  exact faithful _ _ (by omega) short

theorem Faithful.repeated (faithful : s.Faithful nesting) (room : nesting < depth) :
    s.repeated.Sound depth where
  isValue ms i hi := by
    obtain ⟨m, -, rfl⟩ := List.mem_map.1 hi
    trivial
  reads_back ms fits := by
    have grows (got : List M) : (s.repeated.write ms).foldlM (s.repeated.merge depth) got =
        some (got ++ ms) := by
      induction ms generalizing got with
      | nil => simp [Schema.repeated]
      | cons m ms ih =>
        obtain ⟨first, others⟩ := List.forall_mem_cons.1 fits
        have merged := faithful.mergeEmbedded room first
        have rest := ih others (got ++ [m])
        simp only [Schema.repeated] at rest ⊢
        simp only [List.map_cons, List.foldlM_cons, merged, Option.map_some, Option.bind_eq_bind,
          Option.bind_some, rest, List.append_assoc, List.singleton_append]
    exact grows []

variable {C : Type} {field : Nat} {get? : C → Option M} {make : M → C} {c d : C}

/-- The alternative that a message has is written, and replaces what was there. -/
theorem Faithful.choice_carries (faithful : s.Faithful nesting) (room : nesting < depth)
    (has : get? c = some m) (absent : get? d = none) :
    (s.choice field get? make).Carries depth c d (make m) where
  isValue i hi := by
    simp only [choice, has, Option.map_some, Option.toList_some, List.mem_singleton] at hi
    rw [hi]
    trivial
  merged fits := by
    simp only [choice, has, Option.map_some, Option.toList_some, List.forall_mem_singleton] at fits
    simp [choice, has, absent, faithful.mergeEmbedded room fits]

/-- An alternative that a message does not have is not written. -/
theorem choice_absent (h : get? c = none) : (s.choice field get? make).Carries depth c d d where
  isValue i hi := by simp [choice, h] at hi
  merged _ := by simp [choice, h]

end Schema

end Strongbox.Wire
