import Behh.Std.Bytes

/-!
# Alphabets

The character tables of `src/inc/behh/constants/string_const.hh` that the modelled functions
index.
-/

namespace Behh

/-- `BASE64_CHARS`. -/
def base64Chars : Bytes :=
  str "ABCDEFGHIJKLMNOPQRSTUVWXYZabcdefghijklmnopqrstuvwxyz0123456789+/"

/-- `ALPHANUMERIC`. -/
def alphanumeric : Bytes :=
  str "abcdefghijklmnopqrstuvwxyzABCDEFGHIJKLMNOPQRSTUVWXYZ0123456789"

/-- `ALPHANUMERIC_WITH_SPECIAL_CHARACTER`. -/
def alphanumericWithSpecialCharacter : Bytes :=
  str "abcdefghijklmnopqrstuvwxyzABCDEFGHIJKLMNOPQRSTUVWXYZ0123456789~!@#$%^&*-_=+"

/-- `BASE36_DIGITS`. -/
def base36Digits : Bytes := str "ABCDEFGHIJKLMNOPQRSTUVWXYZ0123456789"

/-- `HEX_DIGITS`. -/
def hexDigitsTable : Bytes := str "ABCDEFGHIJKLMNOPQRSTUVWXYZ0123456789"

end Behh
