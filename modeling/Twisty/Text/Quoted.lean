/-! Characters in single quotes, and lists of them in brackets. A quote, a backslash
and the control characters are written so that the text stays on one line and shows
where each character ends. -/

namespace Twisty.Text

/-- The control characters: those below the blank, and U+007F to U+009F. -/
def isControl (c : Char) : Bool :=
  c.toNat < 0x20 || (0x7F ≤ c.toNat && c.toNat ≤ 0x9F)

/-- A character as it stands between single quotes. Control characters without a short
form are named by their code point in hexadecimal. -/
def escaped (c : Char) : List Char :=
  match c with
  | '\x00' => ['\\', '0']
  | '\t' => ['\\', 't']
  | '\r' => ['\\', 'r']
  | '\n' => ['\\', 'n']
  | '\'' => ['\\', '\'']
  | '\\' => ['\\', '\\']
  | c => if isControl c then '\\' :: 'u' :: '\x7b' :: Nat.toDigits 16 c.toNat ++ ['\x7d'] else [c]

def quoted (c : Char) : List Char := '\'' :: escaped c ++ ['\'']

/-- A list such as `['w', 'g']`. -/
def quotedList (cs : List Char) : List Char :=
  '[' :: [',', ' '].intercalate (cs.map quoted) ++ [']']

end Twisty.Text
