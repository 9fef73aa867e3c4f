/-!
UTF-8 as this library needs it: the bytes of a character, and the reading of arbitrary bytes in
which every malformed stretch becomes one replacement character.
-/
namespace AdventureScript.Text

def utf8Bytes (c : Char) : List UInt8 :=
  String.utf8EncodeChar c

def utf8Length (cs : List Char) : Nat :=
  cs.foldl (· + ·.utf8Size) 0

def replacement : Char := '�'

def isTail (b : UInt8) : Bool :=
  0x80 ≤ b && b ≤ 0xBF

/-- Whether `second` may follow `lead` in a sequence of three or four bytes. The narrowed ranges
keep out overlong forms, surrogates and values above `10FFFF`. -/
def isSecond (lead second : UInt8) : Bool :=
  if lead = 0xE0 then 0xA0 ≤ second && second ≤ 0xBF
  else if lead = 0xED then 0x80 ≤ second && second ≤ 0x9F
  else if lead = 0xF0 then 0x90 ≤ second && second ≤ 0xBF
  else if lead = 0xF4 then 0x80 ≤ second && second ≤ 0x8F
  else isTail second

def tailBits (b : UInt8) : Nat :=
  b.toNat % 64

/-- Reads the first character of `b :: bs`: the character and how many bytes of `bs` belong to it. A
malformed stretch is as long as its bytes still begin some well-formed character. -/
def readChar (b : UInt8) (bs : List UInt8) : Char × Nat :=
  if b < 0x80 then (Char.ofNat b.toNat, 0)
  else if 0xC2 ≤ b && b ≤ 0xDF then
    match bs with
    | b1 :: _ =>
      if isTail b1 then (Char.ofNat (b.toNat % 32 * 64 + tailBits b1), 1) else (replacement, 0)
    | [] => (replacement, 0)
  else if 0xE0 ≤ b && b ≤ 0xEF then
    match bs with
    | b1 :: rest =>
      if isSecond b b1 then
        match rest with
        | b2 :: _ =>
          if isTail b2 then
            (Char.ofNat ((b.toNat % 16 * 64 + tailBits b1) * 64 + tailBits b2), 2)
          else (replacement, 1)
        | [] => (replacement, 1)
      else (replacement, 0)
    | [] => (replacement, 0)
  else if 0xF0 ≤ b && b ≤ 0xF4 then
    match bs with
    | b1 :: rest =>
      if isSecond b b1 then
        match rest with
        | b2 :: rest =>
          if isTail b2 then
            match rest with
            | b3 :: _ =>
              if isTail b3 then
                (Char.ofNat
                  (((b.toNat % 8 * 64 + tailBits b1) * 64 + tailBits b2) * 64 + tailBits b3), 3)
              else (replacement, 2)
            | [] => (replacement, 2)
          else (replacement, 1)
        | [] => (replacement, 1)
      else (replacement, 0)
    | [] => (replacement, 0)
  else (replacement, 0)

def decodeLossy : List UInt8 → List Char
  | [] => []
  | b :: bs => (readChar b bs).1 :: decodeLossy (bs.drop (readChar b bs).2)
termination_by bs => bs.length
decreasing_by simp only [List.length_drop, List.length_cons]; omega

end AdventureScript.Text
