/-!
# UTF-8

Reading bytes as characters.  Overlong forms, surrogates and numbers beyond the
last code point are refused, and so is a sequence that is cut short.
-/

namespace ApiManual
namespace Text

/-- A byte that continues a character. -/
private def isTail (b : UInt8) : Bool := 0x80 ≤ b && b ≤ 0xBF

/-- The characters that the bytes spell, if they spell any. -/
def decodeUtf8 : List UInt8 → Option (List Char)
  | [] => some []
  | a :: rest =>
    if a < 0x80 then (decodeUtf8 rest).map (Char.ofNat a.toNat :: ·)
    else match rest with
      | b :: rest₁ =>
        if 0xC2 ≤ a && a ≤ 0xDF && isTail b then
          (decodeUtf8 rest₁).map (Char.ofNat ((a.toNat - 0xC0) * 64 + (b.toNat - 0x80)) :: ·)
        else match rest₁ with
          | c :: rest₂ =>
            let n₃ := (a.toNat - 0xE0) * 4096 + (b.toNat - 0x80) * 64 + (c.toNat - 0x80)
            if 0xE0 ≤ a && a ≤ 0xEF && isTail b && isTail c && 0x800 ≤ n₃ &&
                !(0xD800 ≤ n₃ && n₃ ≤ 0xDFFF) then
              (decodeUtf8 rest₂).map (Char.ofNat n₃ :: ·)
            else match rest₂ with
              | d :: rest₃ =>
                let n₄ := (a.toNat - 0xF0) * 262144 + (b.toNat - 0x80) * 4096 +
                  (c.toNat - 0x80) * 64 + (d.toNat - 0x80)
                if 0xF0 ≤ a && a ≤ 0xF4 && isTail b && isTail c && isTail d &&
                    0x10000 ≤ n₄ && n₄ ≤ 0x10FFFF then
                  (decodeUtf8 rest₃).map (Char.ofNat n₄ :: ·)
                else none
              | [] => none
          | [] => none
      | [] => none

/-- The text that the bytes spell, if they spell one. -/
def utf8Text? (bs : List UInt8) : Option String :=
  (decodeUtf8 bs).map String.ofList

end Text
end ApiManual
