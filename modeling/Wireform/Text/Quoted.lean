import Wireform.Text.Hex
import Wireform.Text.Printable

/-!
# Quoted text

The form in which messages show a text that a reader has to see exactly: between double quotes,
with a backslash form for what would be lost or would end the quotes.

* The double quote and the backslash are escaped by a backslash; tab, line feed, carriage return
  and the null character have letter forms (the null character's letter is the digit zero).
* A character that is not plain (`isPlain`) is spelled by its number in hexadecimal.
* Everything else, the apostrophe included, stands for itself.
-/
namespace Wireform.Text

/-- The form of one character inside quotes. -/
def quoteChar (c : Char) : List Char :=
  if c = '"' then ['\\', '"']
  else if c = '\\' then ['\\', '\\']
  else if c = '\t' then ['\\', 't']
  else if c = '\n' then ['\\', 'n']
  else if c = '\r' then ['\\', 'r']
  else if c = Char.ofNat 0 then ['\\', '0']
  else if isPlain c then [c]
  else ['\\', 'u', '\x7b'] ++ hexDigits c.toNat ++ ['\x7d']

/-- A text between double quotes. -/
def quoted (text : String) : String :=
  String.ofList ('"' :: text.toList.flatMap quoteChar ++ ['"'])

end Wireform.Text
