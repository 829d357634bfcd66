import Strongbox.Gate
import Strongbox.Proofs.Json.Decimal
import Strongbox.Proofs.Text.Base64Url
import Strongbox.Proofs.Token

/-!
# Minted tokens

A token is written by one party and read by another, which takes it apart again: the claims are
written as a document and read from it twice, in base 64 and between points, and the token is
carried by a header.

## Main statements

* `Token.claims?_toText`: the first reading finds the claims that were written.
* `Token.isAddressed?_toText`: the second reading finds no addressee.
* `Token.verify_of_sign`: a signed token names its user for as long as it should.
* `Header.bearer_of_range`: what a header was made to carry is found in it.
* `Gate.enter_of_issue`: a token that is issued passes the gate.
-/

namespace Strongbox

namespace Token

open Json Json.Reader

variable {secret rest : Bytes} {c : Claims}

/-! ## The document of claims -/

theorem ofString_toText (c : Claims) : Bytes.ofString c.toText =
    0x7b :: 0x22 :: 0x73 :: 0x75 :: 0x62 :: 0x22 :: 0x3a :: (signed c.user ++
      0x2c :: 0x22 :: 0x65 :: 0x78 :: 0x70 :: 0x22 :: 0x3a :: (signed c.expiry ++ [0x7d])) := by
  simp only [Claims.toText, Bytes.ofString_append, List.append_assoc]
  rfl

theorem lexemes?_toText (c : Claims) : lexemes? (Bytes.ofString c.toText) =
    some [.beginObject, .text [0x73, 0x75, 0x62], .colon, .number (signed c.user), .comma,
      .text [0x65, 0x78, 0x70], .colon, .number (signed c.expiry), .endObject] := by
  have last : lexemes? [0x7d] = some [.endObject] := by
    have taken : lexeme? [0x7d] = some (.endObject, []) := rfl
    rw [lexemes?_of_lexeme? rfl taken, lexemes?]
    rfl
  rw [ofString_toText]
  rw [lexemes?_of_lexeme? rfl rfl, lexemes?_of_lexeme? rfl rfl, lexemes?_of_lexeme? rfl rfl,
    lexemes?_signed _ (by decide), lexemes?_of_lexeme? rfl rfl, lexemes?_of_lexeme? rfl rfl,
    lexemes?_of_lexeme? rfl rfl, lexemes?_signed _ (by decide), last]
  rfl

theorem members?_toText (c : Claims) :
    (parse? (Bytes.ofString c.toText)).bind members? =
      some [("sub", .number (signed c.user)), ("exp", .number (signed c.expiry))] := by
  have sub : plain? [0x73, 0x75, 0x62] = some "sub" := Bytes.toString?_ofString "sub"
  have exp : plain? [0x65, 0x78, 0x70] = some "exp" := Bytes.toString?_ofString "exp"
  have parsed : parse? (Bytes.ofString c.toText) = some (.object
      [([0x73, 0x75, 0x62], .number (signed c.user)),
        ([0x65, 0x78, 0x70], .number (signed c.expiry))]) := by
    rw [parse?, lexemes?_toText]
    rfl
  simp [parsed, members?, sub, exp]

theorem claims?_toText (low : -(Word.maxInt64 + 1 : Nat) ≤ c.user) (high : c.user ≤ Word.maxInt64)
    (short : c.expiry < Word.count64) : claims? (Bytes.ofString c.toText) = some c := by
  obtain ⟨document, parsed, listed⟩ := Option.bind_eq_some_iff.1 (members?_toText c)
  have user := integer?_signed low high
  have expiry : (Json.number (signed c.expiry)).word? = some c.expiry := word?_decimal short
  simp [claims?, parsed, listed, member?, user, expiry]

/-! ### In place -/

theorem ends_scalar_signed {i : Int} {b : UInt8} (small : i.natAbs < Word.count64)
    (stop : Stops b) :
    Ends scalar (signed i ++ b :: rest) (fun _ left => left = b :: rest) fun _ => False := by
  have taken : Ends numeral (signed i ++ b :: rest) (fun _ left => left = b :: rest)
    fun _ => False := ends_numeral_signed small stop
  obtain ⟨first, tail, whole, start⟩ := exists_signed_cons i
  rw [whole, List.cons_append] at taken ⊢
  rw [ends_scalar_of_ne (by grind [isDigit]), if_pos start]
  exact taken

theorem ends_timeValue_signed {i : Int} {b : UInt8} (small : i.natAbs < Word.count64)
    (stop : Stops b) :
    Ends timeValue (signed i ++ b :: rest) (fun _ left => left = b :: rest) fun _ => False := by
  have taken : Ends scalar (signed i ++ b :: rest) (fun _ left => left = b :: rest)
    fun _ => False := ends_scalar_signed small stop
  obtain ⟨first, tail, whole, start⟩ := exists_signed_cons i
  rw [whole, List.cons_append] at taken ⊢
  have solid : (first :: (tail ++ b :: rest)).dropWhile isSpace = first :: (tail ++ b :: rest) :=
    List.dropWhile_cons_of_neg (by simp [not_isSpace_of_number start])
  simp only [timeValue, ends_bind, ends_blanks, solid, ends_peek, List.head?_cons]
  split
  · next list => exact absurd (Option.some.inj list) (by grind [isDigit])
  · next object => exact absurd (Option.some.inj object) (by grind [isDigit])
  · simpa using taken

/-- An integer is taken as the value of any member that has a meaning and tells no party. -/
theorem ends_partyShape?_signed {name : String} {i : Int} {b : UInt8}
    (known : name ∈ userMember :: timeMembers) (small : i.natAbs < Word.count64) (stop : Stops b) :
    Ends (partyShape? name) (signed i ++ b :: rest)
      (fun found left => found = none ∧ left = b :: rest) fun _ => False := by
  have noParty : name ∉ partyMembers := by
    have all : ∀ name ∈ userMember :: timeMembers, name ∉ partyMembers := by decide
    exact all name known
  rw [partyShape?, if_neg noParty]
  split
  · simp only [ends_bind, ends_attempt, ends_pure]
    exact (ends_timeValue_signed small stop).mono (fun _ _ => .intro trivial) fun _ => False.elim
  · next other =>
    have user : name = userMember := (List.mem_cons.1 known).resolve_right other
    obtain ⟨first, tail, whole, start⟩ := exists_signed_cons i
    have solid : (signed i ++ b :: rest).dropWhile isSpace = signed i ++ b :: rest := by
      rw [whole]
      exact List.dropWhile_cons_of_neg (by simp [not_isSpace_of_number start])
    simp only [if_pos user, ends_bind, ends_attempt, ends_blanks, solid, ends_pure]
    exact (ends_scalar_signed small stop).mono (fun _ _ => .intro trivial) fun _ => False.elim

/-- A member's name is taken, and what follows is its value. -/
theorem ends_members_quoted {α : Type} {read : String → Reader α} (name : String) {body : Bytes}
    {fuel : Nat} {yes : List (String × α) → Bytes → Prop} {no : Bytes → Prop}
    (plain : plainBody body = (some (Bytes.ofString name), 0x3a :: rest)) (first : Bool) :
    Ends (members quoted read (fuel + 1) first)
        ((if first then [] else [0x2c]) ++ 0x22 :: body) yes no ↔
      Ends (read name) rest (fun item left => Ends (members quoted read fuel false) left
        (fun all left => yes ((name, item) :: all) left) no) no := by
  cases first <;>
    simp [members, isSpace, ends_mark_cons, quoted, plain]

theorem ends_members_closed {α : Type} {name : Reader String} {read : String → Reader α}
    {fuel : Nat} {first : Bool} {yes : List (String × α) → Bytes → Prop} {no : Bytes → Prop} :
    Ends (members name read (fuel + 1) first) (0x7d :: rest) yes no ↔ yes [] (0x7d :: rest) := by
  simp [members, isSpace]

/-- The second reading of the claims finds their two members, none of which tells a party. -/
theorem takesAll_toText {c : Claims} (user : c.user.natAbs < Word.count64)
    (short : c.expiry < Word.count64) :
    takesAll parties (Bytes.ofString c.toText) = some [("sub", none), ("exp", none)] := by
  have small : (c.expiry : Int).natAbs < Word.count64 := short
  refine takesAll_of_ends ?_
  rw [ofString_toText]
  simp only [parties, ends_bind, ends_mark_cons (b := 0x7b) rfl, ends_get, ends_pure,
    List.length_cons]
  refine (ends_members_quoted "sub" rfl true).2 ?_
  refine (ends_partyShape?_signed (by decide) user (by decide)).mono
    (fun found left taken => ?_) fun _ => id
  obtain ⟨rfl, rfl⟩ := taken
  refine (ends_members_quoted "exp" rfl false).2 ?_
  refine (ends_partyShape?_signed (by decide) small (by decide)).mono
    (fun found left taken => ?_) fun _ => id
  obtain ⟨rfl, rfl⟩ := taken
  refine ends_members_closed.2 ?_
  simp [isSpace, ends_endObject]

theorem isAddressed?_toText {c : Claims} (user : c.user.natAbs < Word.count64)
    (short : c.expiry < Word.count64) : isAddressed? (Bytes.ofString c.toText) = some false := by
  rw [isAddressed?, takesAll_toText user short]
  decide

/-! ## The token -/

theorem headerAlgorithm?_headerText :
    headerAlgorithm? (Bytes.ofString headerText) = some algorithmName := by
  decide +kernel

/-- A token is issued if its last second can be counted, and says the claims. -/
theorem issue_eq_some_iff {ttl now : Duration} {user : Int} {token : String} :
    issue secret ttl now user = some token ↔ (now + ttl).seconds < Word.count64 ∧
      (sign secret ⟨user, (now + ttl).seconds⟩).spelled = token := by
  simp only [issue]
  split
  · next short => exact ⟨fun h => ⟨short, Option.some.inj h⟩, fun h => congrArg some h.2⟩
  · next long => exact ⟨nofun, fun h => absurd h.1 long⟩

/-- A token is made of bytes that are shown, none of them a blank. -/
theorem sign_range (secret : Bytes) (c : Claims) : ∀ b ∈ sign secret c, 0x20 < b ∧ b < 0x7f := by
  have dot : 0x20 < point ∧ point < 0x7f := by decide
  simp only [sign, List.forall_mem_append, List.forall_mem_cons]
  exact ⟨⟨Base64Url.encode_range _, dot, Base64Url.encode_range _⟩, dot, Base64Url.encode_range _⟩

theorem point_notMem_encode (document : Bytes) : point ∉ Base64Url.encode document :=
  point_notMem_of_decode? (Base64Url.decode?_encode document)

/-- A signed token names its user for a minute longer than it says, and is over then. -/
theorem verify_of_sign {token : String} (written : Bytes.ofString token = sign secret c)
    (low : -(Word.maxInt64 + 1 : Nat) ≤ c.user) (high : c.user ≤ Word.maxInt64)
    (short : c.expiry < Word.count64) (now : Nat) :
    verify secret now token =
      if now ≤ c.expiry + leeway then .ok c.user else .error .expired := by
  have last : Text.cutLast? point (sign secret c) = some (_, _) :=
    (Text.cutLast?_eq_some_iff ..).2 ⟨rfl, point_notMem_encode _⟩
  have first : Text.cutLast? point (Base64Url.encode (Bytes.ofString headerText) ++
      point :: Base64Url.encode (Bytes.ofString c.toText)) = some (_, _) :=
    (Text.cutLast?_eq_some_iff ..).2 ⟨rfl, point_notMem_encode _⟩
  have user : c.user.natAbs < Word.count64 := by
    simp only [Word.maxInt64, Word.count64] at *
    omega
  have step {α β : Type} (a : α) (next : α → Except Fault β) : (.ok a >>= next) = next a := rfl
  simp only [verify, written, last, first, orFault, Base64Url.decode?_encode, step,
    headerAlgorithm?_headerText, claims?_toText low high short, isAddressed?_toText user short]
  by_cases late : c.expiry + leeway < now
  · rw [if_neg (Nat.not_le.2 late)]
    simp only [ne_eq, not_true_eq_false, if_false, if_pos late]
    rfl
  · rw [if_pos (Nat.not_lt.1 late)]
    simp only [ne_eq, not_true_eq_false, if_false, if_neg late]
    rfl

end Token

/-! ## The header -/

namespace Header

/-- Bytes that are shown and are no blanks can be carried by a header as the text that they spell,
and are what the header is found to carry. -/
theorem bearer_of_range {b : Bytes} (range : ∀ x ∈ b, 0x20 < x ∧ x < 0x7f) :
    ∃ header, bearer b.spelled = .ok header ∧ header.text?.bind token? = some b.spelled := by
  have written : Bytes.ofString (scheme ++ b.spelled) = Bytes.ofString scheme ++ b := by
    rw [Bytes.ofString_append,
      Bytes.ofString_spelled fun x hx => UInt8.lt_trans (range x hx).2 (by decide)]
  have shown : ∀ x ∈ Bytes.ofString scheme ++ b, isVisible x = true ∧ isHeaderByte x = true := by
    have byte : ∀ x : UInt8, 0x20 < x ∧ x < 0x7f → isVisible x = true ∧ isHeaderByte x = true :=
      fun x => Bytes.forall_byte (by decide +kernel) x
    exact List.forall_mem_append.2 ⟨by decide +kernel, fun x hx => byte x (range x hx)⟩
  have valid : (Bytes.ofString scheme ++ b).all isHeaderByte = true :=
    List.all_eq_true.2 fun x hx => (shown x hx).2
  have visible : (Bytes.ofString scheme ++ b).all isVisible = true :=
    List.all_eq_true.2 fun x hx => (shown x hx).1
  have text : text? ⟨_, valid⟩ = some (scheme ++ b.spelled) := by
    rw [text?, if_pos visible]
    exact congrArg some (Bytes.spelled_append (Bytes.ofString scheme) b)
  have split : (scheme ++ b.spelled).toList = scheme.toList ++ b.spelled.toList :=
    String.toList_append
  have dropped : (scheme.toList ++ b.spelled.toList).drop scheme.length = b.spelled.toList :=
    List.drop_left' rfl
  have solid : ∀ c ∈ b.spelled.toList, Text.isBlank c = false := by
    have byte : ∀ x : UInt8, 0x20 < x ∧ x < 0x7f → Text.isBlank (Char.ofNat x.toNat) = false :=
      fun x => Bytes.forall_byte (by decide +kernel) x
    rw [Bytes.spelled, String.toList_ofList]
    exact List.forall_mem_map.2 fun x hx => byte x (range x hx)
  refine ⟨⟨_, valid⟩, by rw [bearer, written, ofBytes?, dif_pos valid], ?_⟩
  rw [text, Option.bind_some, token?, split,
    if_pos (List.isPrefixOf_iff_prefix.2 (List.prefix_append ..)), dropped,
    Text.trim_of_solid solid, String.ofList_toList]

end Header

namespace Gate

variable {secret : Bytes} {ttl now : Duration} {user : Int64} {token : String}

/-- A token that is issued names its user for a minute longer than it is good for, and is over then.
It can be carried by a header, and until then the gate lets a call with this header through, for
this user. -/
theorem enter_of_issue (issued : Token.issue secret ttl now user.toInt = some token) :
    (∀ time, Token.verify secret time token =
      if time ≤ (now + ttl).seconds + 60 then .ok user.toInt else .error .expired) ∧
    ∃ header, Header.bearer token = .ok header ∧
      ∀ time more, time ≤ (now + ttl).seconds + 60 →
        enter secret time (header :: more) = .ok user.toInt ∧
        caller (enter secret time (header :: more)).toOption = .ok user.toInt := by
  obtain ⟨short, rfl⟩ := Token.issue_eq_some_iff.1 issued
  have range := Token.sign_range secret ⟨user.toInt, (now + ttl).seconds⟩
  have written := Bytes.ofString_spelled fun x hx => UInt8.lt_trans (range x hx).2 (by decide)
  have verified := Token.verify_of_sign written user.le_toInt
    (Int.le_of_lt_add_one user.toInt_lt) short
  obtain ⟨header, made, carried⟩ := Header.bearer_of_range range
  refine ⟨verified, header, made, fun time more inTime => ?_⟩
  obtain ⟨text, shown, token⟩ := Option.bind_eq_some_iff.1 carried
  have entered : enter secret time (header :: more) = .ok user.toInt := by
    have lasting : time ≤ (now + ttl).seconds + Token.leeway := inTime
    simp only [enter, identify, shown, token, verified, if_pos lasting]
    rfl
  exact ⟨entered, by rw [entered]; rfl⟩

/-- Two parts of a second make up a whole one: a token issued at 0.7 for 1.5 seconds is good until
the second second, and a minute longer. -/
theorem enter_of_issue_of_fractions :
    ∃ token header,
      Token.issue [107] ⟨1500000000⟩ ⟨700000000⟩ Int64.minValue.toInt = some token ∧
      Token.verify [107] 62 token = .ok (-9223372036854775808) ∧
      Token.verify [107] 63 token = .error .expired ∧ Header.bearer token = .ok header ∧
      enter [107] 62 [header] = .ok (-9223372036854775808) := by
  have issued : Token.issue [107] ⟨1500000000⟩ ⟨700000000⟩ Int64.minValue.toInt = some _ :=
    Token.issue_eq_some_iff.2 ⟨by decide, rfl⟩
  obtain ⟨verified, header, made, admitted⟩ := enter_of_issue issued
  exact ⟨_, header, issued, verified 62, verified 63, made, (admitted 62 [] (by decide)).1⟩

end Gate

end Strongbox
