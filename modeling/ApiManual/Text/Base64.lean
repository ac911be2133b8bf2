/-!
# Base 64

Reading bytes from base-64 text.  Characters outside the alphabet are passed over.
A quad that is closed by padding ends the text, whatever follows; a text that ends
inside a quad is refused, and the refusal says how it ends.
-/

namespace ApiManual
namespace Text

/-- Why a base-64 text is refused. -/
inductive Base64Fault where
  /-- The last quad is not filled up. -/
  | padding
  /-- One character is left over after `count - 1` others. -/
  | leftOver (count : Nat)
  deriving DecidableEq, Repr

/-- How the refusal is worded. -/
def Base64Fault.message : Base64Fault → String
  | .padding => "Incorrect padding"
  | .leftOver n =>
    s!"Invalid base64-encoded string: number of data characters ({n}) cannot be 1 more than a multiple of 4"

/-- The six bits of a character of the alphabet. -/
def sextet? (c : Char) : Option Nat :=
  if 'A' ≤ c && c ≤ 'Z' then some (c.toNat - 65)
  else if 'a' ≤ c && c ≤ 'z' then some (c.toNat - 71)
  else if '0' ≤ c && c ≤ '9' then some (c.toNat + 4)
  else if c = '+' then some 62
  else if c = '/' then some 63
  else none

/-- Reads on inside a quad: `held` are the sextets of the quad so far, newest
first, `pads` the padding seen since the last of them, `taken` the bytes read. -/
def decodeBase64From (held : List Nat) (pads : Nat) (taken : List UInt8) :
    List Char → Except Base64Fault (List UInt8)
  | [] =>
    match held with
    | [] => .ok taken.reverse
    | [_] => .error (.leftOver (taken.length / 3 * 4 + 1))
    | _ => .error .padding
  | c :: rest =>
    if c = '=' then
      if 2 ≤ held.length && 4 ≤ held.length + (pads + 1) then .ok taken.reverse
      else decodeBase64From held (if 2 ≤ held.length then pads + 1 else pads) taken rest
    else match sextet? c with
      | none => decodeBase64From held pads taken rest
      | some n =>
        match held with
        | [] => decodeBase64From [n] 0 taken rest
        | [a] => decodeBase64From [n, a] 0 (UInt8.ofNat (a * 4 + n / 16) :: taken) rest
        | [b, a] =>
          decodeBase64From [n, b, a] 0 (UInt8.ofNat (b % 16 * 16 + n / 4) :: taken) rest
        | b :: _ => decodeBase64From [] 0 (UInt8.ofNat (b % 4 * 64 + n) :: taken) rest

/-- The bytes that a base-64 text stands for. -/
def decodeBase64 (cs : List Char) : Except Base64Fault (List UInt8) :=
  decodeBase64From [] 0 [] cs

end Text
end ApiManual
