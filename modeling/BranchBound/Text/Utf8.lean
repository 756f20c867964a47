/-!
# UTF-8

`decode` reads a byte sequence as text, or finds where it stops being UTF-8.
Only shortest forms of scalar values are accepted.
-/

namespace BranchBound.Text

def char2? (a b : Nat) : Option Char :=
  if 0xC2 ≤ a ∧ a ≤ 0xDF ∧ 0x80 ≤ b ∧ b ≤ 0xBF then
    some (Char.ofNat ((a - 0xC0) * 64 + (b - 0x80)))
  else none

/-- The character of three bytes, if they encode one; `0xE0` and `0xED` bound the second. -/
def char3? (a b c : Nat) : Option Char :=
  let low := if a = 0xE0 then 0xA0 else 0x80
  let high := if a = 0xED then 0x9F else 0xBF
  if 0xE0 ≤ a ∧ a ≤ 0xEF ∧ low ≤ b ∧ b ≤ high ∧ 0x80 ≤ c ∧ c ≤ 0xBF then
    some (Char.ofNat (((a - 0xE0) * 64 + (b - 0x80)) * 64 + (c - 0x80)))
  else none

/-- The character of four bytes, if they encode one; `0xF0` and `0xF4` bound the second. -/
def char4? (a b c d : Nat) : Option Char :=
  let low := if a = 0xF0 then 0x90 else 0x80
  let high := if a = 0xF4 then 0x8F else 0xBF
  if 0xF0 ≤ a ∧ a ≤ 0xF4 ∧ low ≤ b ∧ b ≤ high ∧ 0x80 ≤ c ∧ c ≤ 0xBF ∧
      0x80 ≤ d ∧ d ≤ 0xBF then
    some (Char.ofNat ((((a - 0xF0) * 64 + (b - 0x80)) * 64 + (c - 0x80)) * 64 + (d - 0x80)))
  else none

/-- Reads `bytes`, whose first has position `start`; fails with the position of the first byte
that begins no character. -/
def decodeFrom (start : Nat) (bytes : List UInt8) : Except Nat (List Char) :=
  match bytes with
  | [] => .ok []
  | a :: rest =>
    if a.toNat < 0x80 then (decodeFrom (start + 1) rest).map (Char.ofNat a.toNat :: ·)
    else match rest with
      | [] => .error start
      | b :: rest =>
        match char2? a.toNat b.toNat with
        | some ch => (decodeFrom (start + 2) rest).map (ch :: ·)
        | none =>
          match rest with
          | [] => .error start
          | c :: rest =>
            match char3? a.toNat b.toNat c.toNat with
            | some ch => (decodeFrom (start + 3) rest).map (ch :: ·)
            | none =>
              match rest with
              | [] => .error start
              | d :: rest =>
                match char4? a.toNat b.toNat c.toNat d.toNat with
                | some ch => (decodeFrom (start + 4) rest).map (ch :: ·)
                | none => .error start

/-- The text of `bytes`, or the length of their longest part from the start that is text. -/
def decode (bytes : List UInt8) : Except Nat (List Char) :=
  decodeFrom 0 bytes

end BranchBound.Text
