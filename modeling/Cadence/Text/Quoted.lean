import Cadence.Text.Hidden

/-! Text between double quotes, in which every character that would not be seen or would end the text
is written as an escape. -/

namespace Cadence.Quoted

/-- A code point in hexadecimal between braces. -/
def codeEscape (character : Char) : List Char :=
  "\\u\x7b".toList ++ Nat.toDigits 16 character.toNat ++ ['\x7d']

def encodeCharacter (character : Char) : List Char :=
  match character with
  | '\x00' => ['\\', '0']
  | '\t' => ['\\', 't']
  | '\r' => ['\\', 'r']
  | '\n' => ['\\', 'n']
  | '"' => ['\\', '"']
  | '\\' => ['\\', '\\']
  | other => if isHidden other then codeEscape other else [other]

def encode (text : String) : String :=
  String.ofList ('"' :: text.toList.flatMap encodeCharacter ++ ['"'])

end Cadence.Quoted
