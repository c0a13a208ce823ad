import Relay.Bytes

/-!
# UTF-8

`encode` writes a text as octets.  Reading goes piece by piece: a piece is a character or a
maximal invalid part, that is, the longest start of a well-formed sequence that the text does not
complete, or one octet where no sequence can start.  `decode?` refuses a text with an invalid part;
`decodeLossy` puts one U+FFFD in place of each.
-/

namespace Relay.Utf8

open Relay

/-- The octets of a text. -/
def encode (s : String) : Bytes := s.toList.flatMap String.utf8EncodeChar

/-- What stands at the front of a sequence of octets. -/
inductive Piece where
  | char (c : Char)
  | broken
  deriving DecidableEq, Repr, Inhabited

/-- An octet `10xxxxxx`. -/
def isContinuation (b : UInt8) : Bool := 0x80 ≤ b && b ≤ 0xBF

/-- The low six bits of a continuation octet. -/
def payload (b : UInt8) : Nat := b.toNat % 64

/-- The octets allowed after a leading octet; the narrower ranges keep out overlong forms,
surrogates and numbers above U+10FFFF. -/
def isSecond (lead b : UInt8) : Bool :=
  if lead = 0xE0 then 0xA0 ≤ b && b ≤ 0xBF
  else if lead = 0xED then 0x80 ≤ b && b ≤ 0x9F
  else if lead = 0xF0 then 0x90 ≤ b && b ≤ 0xBF
  else if lead = 0xF4 then 0x80 ≤ b && b ≤ 0x8F
  else isContinuation b

/-- How many octets follow a leading octet; `none` where no sequence can start. -/
def following (lead : UInt8) : Option Nat :=
  if lead < 0x80 then some 0
  else if 0xC2 ≤ lead && lead ≤ 0xDF then some 1
  else if 0xE0 ≤ lead && lead ≤ 0xEF then some 2
  else if 0xF0 ≤ lead && lead ≤ 0xF4 then some 3
  else none

/-- The piece that starts with the octet `lead`, and what follows it. -/
def piece (lead : UInt8) (rest : Bytes) : Piece × Bytes :=
  match following lead with
  | none => (.broken, rest)
  | some 0 => (.char (Char.ofNat lead.toNat), rest)
  | some 1 =>
    match rest with
    | b₁ :: r₁ =>
      if isSecond lead b₁ then (.char (Char.ofNat (lead.toNat % 32 * 64 + payload b₁)), r₁)
      else (.broken, rest)
    | [] => (.broken, [])
  | some 2 =>
    match rest with
    | b₁ :: r₁ =>
      if isSecond lead b₁ then
        match r₁ with
        | b₂ :: r₂ =>
          if isContinuation b₂ then
            (.char (Char.ofNat ((lead.toNat % 16 * 64 + payload b₁) * 64 + payload b₂)), r₂)
          else (.broken, r₁)
        | [] => (.broken, [])
      else (.broken, rest)
    | [] => (.broken, [])
  | some _ =>
    match rest with
    | b₁ :: r₁ =>
      if isSecond lead b₁ then
        match r₁ with
        | b₂ :: r₂ =>
          if isContinuation b₂ then
            match r₂ with
            | b₃ :: r₃ =>
              if isContinuation b₃ then
                (.char (Char.ofNat
                  (((lead.toNat % 8 * 64 + payload b₁) * 64 + payload b₂) * 64 + payload b₃)), r₃)
              else (.broken, r₂)
            | [] => (.broken, [])
          else (.broken, r₁)
        | [] => (.broken, [])
      else (.broken, rest)
    | [] => (.broken, [])

theorem length_piece_snd (lead : UInt8) (rest : Bytes) :
    (piece lead rest).2.length ≤ rest.length := by
  unfold piece
  repeat' split
  all_goals simp_all <;> omega

/-- The pieces of a sequence of octets, in order. -/
def pieces : Bytes → List Piece
  | [] => []
  | lead :: rest => (piece lead rest).1 :: pieces (piece lead rest).2
termination_by bs => bs.length
decreasing_by
  have := length_piece_snd lead rest
  simp; omega

/-- The character that stands for an invalid part. -/
def replacement : Char := Char.ofNat 0xFFFD

/-- The character shown for a piece. -/
def Piece.shown : Piece → Char
  | .char c => c
  | .broken => replacement

/-- The text of the octets, with one U+FFFD for each maximal invalid part. -/
def decodeLossy (bs : Bytes) : String := String.ofList ((pieces bs).map Piece.shown)

/-- The character of a well-formed piece. -/
def Piece.char? : Piece → Option Char
  | .char c => some c
  | .broken => none

/-- The text of the octets, if they are well formed. -/
def decode? (bs : Bytes) : Option String := ((pieces bs).mapM Piece.char?).map String.ofList

end Relay.Utf8
