import SphereLab.Text.Unprintable

/-!
# Quoted texts

Two ways to put a text between double quotes.  `quoteMessage` is used where a message shows
a value that it could not use: a short escape for the common controls, and the code point in
braces for anything else that would not show.  `quoteDocument` is used for strings of an
exported document, which escapes only what it has to.
-/

namespace SphereLab

/-- The lower-case hexadecimal digits of a code point, with no padding. -/
def hexDigits (n : Nat) : List Char := Nat.toDigits 16 n

/-! ## Inside messages -/

/-- One character of a text quoted in a message. -/
def messageEscape (c : Char) : List Char :=
  match c with
  | '"' => ['\\', '"']
  | '\\' => ['\\', '\\']
  | '\n' => ['\\', 'n']
  | '\t' => ['\\', 't']
  | '\r' => ['\\', 'r']
  | '\x00' => ['\\', '0']
  | _ => if isUnprintable c then ['\\', 'u', '\x7b'] ++ hexDigits c.toNat ++ ['\x7d'] else [c]

/-- A text quoted in a message. -/
def quoteMessage (s : String) : String :=
  String.ofList ('"' :: (s.toList.flatMap messageEscape ++ ['"']))

/-! ## Inside exported documents -/

/-- One character of a string in an exported document. -/
def documentEscape (c : Char) : List Char :=
  match c with
  | '"' => ['\\', '"']
  | '\\' => ['\\', '\\']
  | '\n' => ['\\', 'n']
  | '\t' => ['\\', 't']
  | '\r' => ['\\', 'r']
  | '\x08' => ['\\', 'b']
  | '\x0c' => ['\\', 'f']
  | _ =>
    if c.toNat < 0x20 then
      let digits := hexDigits c.toNat
      ['\\', 'u'] ++ List.replicate (4 - digits.length) '0' ++ digits
    else [c]

/-- A string of an exported document. -/
def quoteDocument (s : String) : String :=
  String.ofList ('"' :: (s.toList.flatMap documentEscape ++ ['"']))

end SphereLab
