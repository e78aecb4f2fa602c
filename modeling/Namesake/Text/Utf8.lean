import Namesake.Text.Quoted

/-!
A character is written as one byte, or as a first byte that tells how many continuation bytes
follow.  Overlong forms, surrogates and numbers beyond the last code point are excluded by the
bounds on the second byte.
-/

namespace Namesake.Text.Utf8

inductive Reason where
  | invalidStart
  | invalidContinuation
  | unexpectedEnd
deriving DecidableEq

def Reason.render : Reason → String
  | invalidStart => "invalid start byte"
  | invalidContinuation => "invalid continuation byte"
  | unexpectedEnd => "unexpected end of data"

structure Invalid where
  byte : Nat
  first : Nat
  last : Nat
  reason : Reason
deriving DecidableEq

def Invalid.message (invalid : Invalid) : String :=
  let place :=
    if invalid.first = invalid.last then
      "byte 0x" ++ hexDigits 2 invalid.byte ++ s!" in position {invalid.first}"
    else s!"bytes in position {invalid.first}-{invalid.last}"
  "'utf-8' codec can't decode " ++ place ++ ": " ++ invalid.reason.render

def continuations? (byte : Nat) : Option Nat :=
  if byte < 0x80 then some 0
  else if byte < 0xC2 then none
  else if byte < 0xE0 then some 1
  else if byte < 0xF0 then some 2
  else if byte < 0xF5 then some 3
  else none

def secondBounds (byte : Nat) : Nat × Nat :=
  if byte = 0xE0 then (0xA0, 0xBF)
  else if byte = 0xED then (0x80, 0x9F)
  else if byte = 0xF0 then (0x90, 0xBF)
  else if byte = 0xF4 then (0x80, 0x8F)
  else (0x80, 0xBF)

def leadingBits (byte continuations : Nat) : Nat :=
  match continuations with
  | 0 => byte
  | 1 => byte % 0x20
  | 2 => byte % 0x10
  | _ => byte % 0x08

/-- The code point that continuation bytes complete, or the reason why they do not and how many of
them were read. -/
def complete (point read : Nat) (bounds : Nat × Nat) :
    Nat → List Nat → Except (Reason × Nat) Nat
  | 0, _ => .ok point
  | _ + 1, [] => .error (.unexpectedEnd, read)
  | count + 1, byte :: rest =>
    if bounds.1 ≤ byte && byte ≤ bounds.2 then
      complete (point * 0x40 + byte % 0x40) (read + 1) (0x80, 0xBF) count rest
    else .error (.invalidContinuation, read)

/-- The characters of bytes, of which the first `skip` belong to a character that is read already. -/
def decodeFrom (offset skip : Nat) : List Nat → Except Invalid (List Char)
  | [] => .ok []
  | byte :: rest =>
    match skip, continuations? byte with
    | skip + 1, _ => decodeFrom (offset + 1) skip rest
    | 0, none => .error ⟨byte, offset, offset, .invalidStart⟩
    | 0, some count =>
      match complete (leadingBits byte count) 0 (secondBounds byte) count rest with
      | .error (reason, read) => .error ⟨byte, offset, offset + read, reason⟩
      | .ok point => do
          let others ← decodeFrom (offset + 1) count rest
          return Char.ofNat point :: others

def decode (bytes : List UInt8) : Except Invalid (List Char) :=
  decodeFrom 0 0 (bytes.map UInt8.toNat)

/-- Every line end as a newline: a carriage return counts as one, alone or before a newline. -/
def plainLineEnds : List Char → List Char
  | [] => []
  | '\r' :: '\n' :: rest => '\n' :: plainLineEnds rest
  | '\r' :: rest => '\n' :: plainLineEnds rest
  | char :: rest => char :: plainLineEnds rest

end Namesake.Text.Utf8
