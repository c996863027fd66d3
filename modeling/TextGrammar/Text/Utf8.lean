import TextGrammar.Text.Quoted

/-!
# Text in UTF-8

Bytes are decoded one at a time. Between characters a byte is a character of its own or the
lead of one of up to four bytes; the lead settles how many bytes follow and within which bounds
the next of them lies, so that no character has two spellings and none is a surrogate. Bytes
that are no text are refused with the place of the character that fails and the reason.
-/

namespace TextGrammar

/-- Why bytes are no character. -/
inductive Utf8Problem where
  | noLead
  | badContinuation
  | endOfData
deriving DecidableEq, Repr

namespace Utf8Problem

def words : Utf8Problem → String
  | noLead => "invalid start byte"
  | badContinuation => "invalid continuation byte"
  | endOfData => "unexpected end of data"

end Utf8Problem

/-- The refusal of bytes: the lead of the failing character, its offset, and the number of bytes
that were taken for the character. -/
structure Utf8Fault where
  problem : Utf8Problem
  lead : Nat
  offset : Nat
  taken : Nat
deriving DecidableEq, Repr

namespace Utf8Fault

def message (f : Utf8Fault) : String :=
  let subject := if f.taken = 1 then
      "byte 0x" ++ String.ofList (hexPadded 2 f.lead) ++ " in position " ++ toString f.offset
    else
      "bytes in position " ++ toString f.offset ++ "-" ++ toString (f.offset + f.taken - 1)
  "'utf-8' codec can't decode " ++ subject ++ ": " ++ f.problem.words

end Utf8Fault

namespace Utf8

/-- A character of which bytes are missing. -/
structure Pending where
  lead : Nat
  offset : Nat
  taken : Nat
  value : Nat
  missing : Nat
  low : Nat
  high : Nat

namespace Pending

/-- What a lead byte begins. -/
def ofLead? (b offset : Nat) : Option Pending :=
  if b < 0x80 then some ⟨b, offset, 1, b, 0, 0x80, 0xbf⟩
  else if b < 0xc2 then none
  else if b < 0xe0 then some ⟨b, offset, 1, b - 0xc0, 1, 0x80, 0xbf⟩
  else if b < 0xf0 then
    some ⟨b, offset, 1, b - 0xe0, 2, if b = 0xe0 then 0xa0 else 0x80,
      if b = 0xed then 0x9f else 0xbf⟩
  else if b < 0xf5 then
    some ⟨b, offset, 1, b - 0xf0, 3, if b = 0xf0 then 0x90 else 0x80,
      if b = 0xf4 then 0x8f else 0xbf⟩
  else none

/-- The fault of a character that does not come to its end. -/
def fault (p : Pending) (problem : Utf8Problem) : Utf8Fault :=
  ⟨problem, p.lead, p.offset, p.taken⟩

/-- Takes the next byte, if it lies within the bounds. -/
def next? (p : Pending) (b : Nat) : Option Pending :=
  if p.low ≤ b && b ≤ p.high then
    some { p with
      taken := p.taken + 1
      value := p.value * 0x40 + (b - 0x80)
      missing := p.missing - 1
      low := 0x80
      high := 0xbf }
  else none

end Pending

/-- Decodes bytes that begin at an offset, after what is pending. -/
def decodeFrom (offset : Nat) : Option Pending → List UInt8 → Except Utf8Fault (List Char)
  | none, [] => .ok []
  | some p, [] => .error (p.fault .endOfData)
  | none, b :: rest =>
      match Pending.ofLead? b.toNat offset with
      | none => .error ⟨.noLead, b.toNat, offset, 1⟩
      | some p =>
          if p.missing = 0 then
            (decodeFrom (offset + 1) none rest).map (Char.ofNat p.value :: ·)
          else decodeFrom (offset + 1) (some p) rest
  | some p, b :: rest =>
      match p.next? b.toNat with
      | none => .error (p.fault .badContinuation)
      | some p =>
          if p.missing = 0 then
            (decodeFrom (offset + 1) none rest).map (Char.ofNat p.value :: ·)
          else decodeFrom (offset + 1) (some p) rest

def decode (bytes : List UInt8) : Except Utf8Fault (List Char) := decodeFrom 0 none bytes

end Utf8

end TextGrammar
