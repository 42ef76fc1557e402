import TokenWalk.Text.Quoted

/-!
# Reading UTF-8

`Utf8.decode` reads a byte sequence as text or names the first defect: the position where it
starts, the bytes it covers and what is wrong with them.  The first byte of a character fixes how
many bytes follow and which range the second one must lie in; the others lie in `80`–`BF`.
-/

namespace TokenWalk.Text.Utf8

/-- What is wrong with a byte sequence. -/
inductive Problem where
  /-- The byte can begin no character. -/
  | startByte
  /-- The next byte cannot go on with the character begun. -/
  | continuationByte
  /-- The bytes run out inside a character. -/
  | unexpectedEnd
  deriving DecidableEq, Repr

/-- A stretch of bytes that is no text: `count` bytes from `start`, the first one `byte`. -/
structure Defect where
  start : Nat
  byte : UInt8
  count : Nat
  problem : Problem
  deriving DecidableEq, Repr

/-- What a first byte announces: how many bytes follow, the range of the second byte, and the bits
the first byte itself gives. -/
structure Lead where
  following : Nat
  low : UInt8
  high : UInt8
  bits : Nat

/-- What byte `b` announces at the start of a character. -/
def lead? (b : UInt8) : Option Lead :=
  let n := b.toNat
  if n < 0x80 then some ⟨0, 0x80, 0xBF, n⟩
  else if n < 0xC2 then none
  else if n < 0xE0 then some ⟨1, 0x80, 0xBF, n - 0xC0⟩
  else if n == 0xE0 then some ⟨2, 0xA0, 0xBF, 0⟩
  else if n == 0xED then some ⟨2, 0x80, 0x9F, n - 0xE0⟩
  else if n < 0xF0 then some ⟨2, 0x80, 0xBF, n - 0xE0⟩
  else if n == 0xF0 then some ⟨3, 0x90, 0xBF, 0⟩
  else if n < 0xF4 then some ⟨3, 0x80, 0xBF, n - 0xF0⟩
  else if n == 0xF4 then some ⟨3, 0x80, 0x8F, n - 0xF0⟩
  else none

/-- Adds the bits of `following` continuation bytes to `bits`, the first of which lies between
`low` and `high`; a failure gives the number of good ones. -/
def continuation (low high : UInt8) :
    (following bits good : Nat) → List UInt8 → Except (Nat × Problem) Nat
  | 0, bits, _, _ => .ok bits
  | _ + 1, _, good, [] => .error (good, .unexpectedEnd)
  | following + 1, bits, good, b :: bs =>
      if low ≤ b && b ≤ high then
        continuation 0x80 0xBF following (bits * 64 + (b.toNat - 0x80)) (good + 1) bs
      else .error (good, .continuationByte)

/-- One character off the front of `b :: bs`, with the number of bytes of `bs` it takes. -/
def first (start : Nat) (b : UInt8) (bs : List UInt8) : Except Defect (Char × Nat) :=
  match lead? b with
  | none => .error ⟨start, b, 1, .startByte⟩
  | some lead =>
      match continuation lead.low lead.high lead.following lead.bits 0 bs with
      | .ok n => .ok (Char.ofNat n, lead.following)
      | .error (good, problem) => .error ⟨start, b, good + 1, problem⟩

/-- Reads on at position `start`, after the characters `read` in reverse order. -/
def decodeFrom (start : Nat) (read : List Char) : List UInt8 → Except Defect (List Char)
  | [] => .ok read.reverse
  | b :: bs =>
      match first start b bs with
      | .error defect => .error defect
      | .ok (c, taken) => decodeFrom (start + 1 + taken) (c :: read) (bs.drop taken)
  termination_by bytes => bytes.length
  decreasing_by simp only [List.length_cons, List.length_drop]; omega

/-- The text a byte sequence stands for. -/
def decode (bytes : List UInt8) : Except Defect (List Char) :=
  decodeFrom 0 [] bytes

/-- The words for a problem. -/
def Problem.message : Problem → String
  | .startByte => "invalid start byte"
  | .continuationByte => "invalid continuation byte"
  | .unexpectedEnd => "unexpected end of data"

/-- The words for a defect: one byte is named, several are given by their positions. -/
def Defect.message (d : Defect) : String :=
  let bytes :=
    if d.count == 1 then
      "byte 0x" ++ String.ofList (hex 2 d.byte.toNat) ++ " in position " ++ toString d.start
    else
      "bytes in position " ++ toString d.start ++ "-" ++ toString (d.start + d.count - 1)
  "'utf-8' codec can't decode " ++ bytes ++ ": " ++ d.problem.message

end TokenWalk.Text.Utf8
