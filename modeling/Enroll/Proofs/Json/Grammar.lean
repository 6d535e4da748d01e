import Enroll.Proofs.Json.Members
import Enroll.Proofs.Json.Numeral

/-!
# The grammar of JSON

The grammar of RFC 8259 with what each of its texts denotes. A JSON text is a sequence of tokens,
and white space around any of them counts for nothing; of two neighbouring tokens of a value one is
structural (`Derives.apart`), so it never has to part two that would run together.
-/

namespace Enroll.Json

/-! ## Tokens -/

def IsSpace (u : UInt16) : Prop := u = 0x20 ∨ u = 0x09 ∨ u = 0x0A ∨ u = 0x0D

def Space (t : Text) : Prop := ∀ u ∈ t, IsSpace u

/-- A unit that stands for itself between quotes. -/
def Unescaped (u : UInt16) : Prop := 0x20 ≤ u.toNat ∧ u ≠ 0x22 ∧ u ≠ 0x5C

inductive Escape : UInt16 → UInt16 → Prop where
  | quote : Escape 0x22 0x22
  | backslash : Escape 0x5C 0x5C
  | slash : Escape 0x2F 0x2F
  | backspace : Escape 0x62 0x08
  | formFeed : Escape 0x66 0x0C
  | lineFeed : Escape 0x6E 0x0A
  | carriageReturn : Escape 0x72 0x0D
  | tab : Escape 0x74 0x09

inductive HexDigit : UInt16 → Nat → Prop where
  | decimal {u : UInt16} (h : 0x30 ≤ u.toNat ∧ u.toNat ≤ 0x39) : HexDigit u (u.toNat - 0x30)
  | lower {u : UInt16} (h : 0x61 ≤ u.toNat ∧ u.toNat ≤ 0x66) : HexDigit u (u.toNat - 0x61 + 10)
  | upper {u : UInt16} (h : 0x41 ≤ u.toNat ∧ u.toNat ≤ 0x46) : HexDigit u (u.toNat - 0x41 + 10)

/-- What stands between the quotes, and the string it denotes. -/
inductive Chars : Text → Text → Prop where
  | nil : Chars [] []
  | unescaped {u : UInt16} {body t : Text} (hUnit : Unescaped u) (hRest : Chars body t) :
    Chars (u :: body) (u :: t)
  | escape {u v : UInt16} {body t : Text} (hEscape : Escape u v) (hRest : Chars body t) :
    Chars (0x5C :: u :: body) (v :: t)
  | hex {a b c d : UInt16} {i j k l : Nat} {body t : Text} (ha : HexDigit a i) (hb : HexDigit b j)
    (hc : HexDigit c k) (hd : HexDigit d l) (hRest : Chars body t) :
    Chars (0x5C :: 0x75 :: a :: b :: c :: d :: body)
      ((((i * 16 + j) * 16 + k) * 16 + l).toUInt16 :: t)

inductive Word : Text → Json → Prop where
  | ofNull : Word "null" .null
  | ofTrue : Word "true" (.bool true)
  | ofFalse : Word "false" (.bool false)
  | ofNumeral {w : Text} {x : Number} (h : Numeral w x) : Word w (.number x)

inductive Spells : Token → Text → Prop where
  | openArray : Spells .openArray [0x5B]
  | closeArray : Spells .closeArray [0x5D]
  | openObject : Spells .openObject [0x7B]
  | closeObject : Spells .closeObject [0x7D]
  | colon : Spells .colon [0x3A]
  | comma : Spells .comma [0x2C]
  | string {body t : Text} (h : Chars body t) : Spells (.string t) (0x22 :: (body ++ [0x22]))
  | scalar {w : Text} {v : Json} (h : Word w v) : Spells (.scalar v) w

/-- The tokens of a text, with white space before each of them and after the last. -/
inductive Lexes : Text → List Token → Prop where
  | nil {s : Text} (hSpace : Space s) : Lexes s []
  | cons {s w t : Text} {token : Token} {tokens : List Token} (hSpace : Space s)
    (hToken : Spells token w) (hRest : Lexes t tokens) :
    Lexes (s ++ (w ++ t)) (token :: tokens)

/-! ## Values -/

/-- What a stretch of tokens can be: a value, or the elements or the members of one. -/
inductive Phrase where
  | value (v : Json)
  | elements (xs : List Json)
  | members (pairs : Members)

inductive Derives : Phrase → List Token → Prop where
  | string (t : Text) : Derives (.value (.string t)) [.string t]
  | scalar (v : Json) : Derives (.value v) [.scalar v]
  | emptyArray : Derives (.value (.array [])) [.openArray, .closeArray]
  | array {xs : List Json} {ts : List Token} (h : Derives (.elements xs) ts) :
    Derives (.value (.array xs)) (.openArray :: (ts ++ [.closeArray]))
  | emptyObject : Derives (.value (.object [])) [.openObject, .closeObject]
  | object {pairs ms : Members} {ts : List Token} (h : Derives (.members pairs) ts)
    (hArranged : Members.Arranges pairs ms) :
    Derives (.value (.object ms)) (.openObject :: (ts ++ [.closeObject]))
  | element {v : Json} {ts : List Token} (h : Derives (.value v) ts) : Derives (.elements [v]) ts
  | elements {xs : List Json} {v : Json} {ts us : List Token} (hBefore : Derives (.elements xs) ts)
    (hLast : Derives (.value v) us) : Derives (.elements (xs ++ [v])) (ts ++ .comma :: us)
  | member {k : Text} {v : Json} {ts : List Token} (h : Derives (.value v) ts) :
    Derives (.members [(k, v)]) (.string k :: .colon :: ts)
  | members {pairs : Members} {k : Text} {v : Json} {ts us : List Token}
    (hBefore : Derives (.members pairs) ts) (hLast : Derives (.value v) us) :
    Derives (.members (pairs ++ [(k, v)])) (ts ++ .comma :: .string k :: .colon :: us)

/-- The text is JSON, and this is its value. -/
def Denotes (t : Text) (v : Json) : Prop := ∃ ts, Lexes t ts ∧ Derives (.value v) ts

/-! ## Neighbours -/

def Token.isStructural : Token → Bool
  | .string _ | .scalar _ => false
  | _ => true

def Apart : List Token → Prop := List.IsChain fun a b => a.isStructural ∨ b.isStructural

theorem Apart.join {ts us : List Token} {token : Token} (hToken : token.isStructural)
    (hBefore : Apart ts) (hAfter : Apart us) : Apart (ts ++ token :: us) := by
  refine List.isChain_append.mpr ⟨hBefore, List.isChain_cons.mpr ⟨?_, hAfter⟩, ?_⟩
  · exact fun _ _ => .inl hToken
  · intro a _ b hb
    obtain rfl := Option.mem_some.mp hb
    exact .inr hToken

theorem Derives.apart {phrase : Phrase} {ts : List Token} (h : Derives phrase ts) : Apart ts := by
  induction h with
  | string | scalar => exact .singleton _
  | emptyArray | emptyObject => exact .cons_cons (.inl rfl) (.singleton _)
  | array _ ih | object _ _ ih => exact Apart.join rfl (.nil : Apart []) (ih.join rfl .nil)
  | element _ ih => exact ih
  | elements _ _ ihBefore ihLast => exact ihBefore.join rfl ihLast
  | member _ ih => exact Apart.join rfl (.singleton _ : Apart [_]) ih
  | members _ _ ihBefore ihLast =>
    exact ihBefore.join rfl (Apart.join rfl (.singleton _ : Apart [_]) ihLast)

end Enroll.Json
