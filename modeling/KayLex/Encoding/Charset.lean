import KayLex.Text.Quoted

/-!
Names of encodings. Letters and digits of a name count, without case, and so does
the full stop; any run of other characters only separates, and none is needed at
the ends. Most encodings go by several names.

Eleven encodings of texts are described here, and the one in which nothing can be
read. A system has many more; their names and their decoders are left to it. The
codings that are not for text at all are known here by their names.
-/

namespace KayLex

/-- The encodings that are described here. -/
inductive Charset where
  | utf8
  /-- UTF-8 with an optional mark in front of the text. -/
  | utf8Marked
  | latin1
  | ascii
  | windows1252
  /-- UTF-16 whose order a mark in front of the text tells. -/
  | utf16
  | utf16Little
  | utf16Big
  /-- UTF-32 whose order a mark in front of the text tells. -/
  | utf32
  | utf32Little
  | utf32Big
  /-- The encoding in which nothing can be read. -/
  | unreadable
  deriving DecidableEq

namespace Charset

/-- What a name can mean. -/
inductive Meaning where
  | text (charset : Charset)
  /-- A coding that is not for text. -/
  | notText
  /-- An encoding that is not described here, or none. -/
  | foreign
  deriving DecidableEq

/-- Folds the characters of a name, with `gap` set when a separator is due before the
next character that counts. -/
def foldFrom (gap : Bool) : List Char → List Char
  | [] => []
  | c :: cs =>
    if c.isAlphanum || c == '.' then
      (if gap then ['_'] else []) ++ c.toLower :: foldFrom false cs
    else foldFrom true cs

/-- The form in which names are compared. -/
def fold (name : String) : String :=
  String.ofList (foldFrom false (name.toList.dropWhile fun c => !(c.isAlphanum || c == '.')))

def aliases : List (String × Meaning) :=
  let of (m : Meaning) (names : List String) := names.map (·, m)
  of (.text utf8) ["u8", "utf", "utf8", "utf8_ucs2", "utf8_ucs4", "cp65001"]
  ++ of (.text latin1)
    ["8859", "cp819", "csisolatin1", "ibm819", "iso8859", "iso8859_1", "iso_8859_1",
     "iso_8859_1_1987", "iso_ir_100", "l1", "latin", "latin1"]
  ++ of (.text ascii)
    ["646", "ansi_x3.4_1968", "ansi_x3_4_1968", "ansi_x3.4_1986", "cp367", "csascii", "ibm367",
     "iso646_us", "iso_646.irv_1991", "iso_ir_6", "us", "us_ascii"]
  ++ of (.text windows1252) ["1252", "windows_1252"]
  ++ of (.text utf16) ["u16", "utf16"]
  ++ of (.text utf16Big) ["unicodebigunmarked", "utf_16be"]
  ++ of (.text utf16Little) ["unicodelittleunmarked", "utf_16le"]
  ++ of (.text utf32) ["u32", "utf32"]
  ++ of (.text utf32Big) ["utf_32be"]
  ++ of (.text utf32Little) ["utf_32le"]
  ++ of .notText
    ["base64", "base_64", "bz2", "hex", "quopri", "quoted_printable", "quotedprintable", "rot13",
     "uu", "zip", "zlib"]

def ownNames : List (String × Meaning) :=
  [("utf_8", .text utf8), ("utf_8_sig", .text utf8Marked), ("latin_1", .text latin1),
   ("ascii", .text ascii), ("cp1252", .text windows1252), ("utf_16", .text utf16),
   ("utf_16_le", .text utf16Little), ("utf_16_be", .text utf16Big), ("utf_32", .text utf32),
   ("utf_32_le", .text utf32Little), ("utf_32_be", .text utf32Big),
   ("undefined", .text unreadable), ("hex_codec", .notText), ("base64_codec", .notText),
   ("bz2_codec", .notText), ("quopri_codec", .notText), ("rot_13", .notText),
   ("uu_codec", .notText), ("zlib_codec", .notText)]

/-- What a name means here; the names of most encodings that a system has are foreign. A full
stop also reads as a separator, but only in names that are not an encoding's own. -/
def ofName (name : String) : Meaning :=
  let folded := fold name
  let unstopped := folded.map fun c => if c = '.' then '_' else c
  let meaning? := (aliases.lookup folded).or ((aliases.lookup unstopped).or
    (ownNames.lookup folded))
  meaning?.getD .foreign

end Charset

end KayLex
