/-!
# Names of characters

The characters that can be written by name: the letters and digits of ASCII, its punctuation, and
a few signs beyond it. Case does not matter in a name.
-/

namespace WorkflowEngine.Literal

/-- The names of the ten digits, behind `DIGIT`. -/
def digitNames : List String :=
  ["ZERO", "ONE", "TWO", "THREE", "FOUR", "FIVE", "SIX", "SEVEN", "EIGHT", "NINE"]

/-- Names of signs and the code points they stand for. -/
def signNames : List (String × Nat) := [
  ("SPACE", 0x20), ("EXCLAMATION MARK", 0x21), ("QUOTATION MARK", 0x22), ("NUMBER SIGN", 0x23),
  ("DOLLAR SIGN", 0x24), ("PERCENT SIGN", 0x25), ("AMPERSAND", 0x26), ("APOSTROPHE", 0x27),
  ("LEFT PARENTHESIS", 0x28), ("RIGHT PARENTHESIS", 0x29), ("ASTERISK", 0x2A),
  ("PLUS SIGN", 0x2B), ("COMMA", 0x2C), ("HYPHEN-MINUS", 0x2D), ("FULL STOP", 0x2E),
  ("SOLIDUS", 0x2F), ("COLON", 0x3A), ("SEMICOLON", 0x3B), ("LESS-THAN SIGN", 0x3C),
  ("EQUALS SIGN", 0x3D), ("GREATER-THAN SIGN", 0x3E), ("QUESTION MARK", 0x3F),
  ("COMMERCIAL AT", 0x40), ("LEFT SQUARE BRACKET", 0x5B), ("REVERSE SOLIDUS", 0x5C),
  ("RIGHT SQUARE BRACKET", 0x5D), ("CIRCUMFLEX ACCENT", 0x5E), ("LOW LINE", 0x5F),
  ("GRAVE ACCENT", 0x60), ("LEFT CURLY BRACKET", 0x7B), ("VERTICAL LINE", 0x7C),
  ("RIGHT CURLY BRACKET", 0x7D), ("TILDE", 0x7E), ("NO-BREAK SPACE", 0xA0), ("CENT SIGN", 0xA2),
  ("POUND SIGN", 0xA3), ("YEN SIGN", 0xA5), ("SECTION SIGN", 0xA7), ("COPYRIGHT SIGN", 0xA9),
  ("REGISTERED SIGN", 0xAE), ("DEGREE SIGN", 0xB0), ("PLUS-MINUS SIGN", 0xB1),
  ("MICRO SIGN", 0xB5), ("LATIN SMALL LETTER SHARP S", 0xDF),
  ("LATIN SMALL LETTER E WITH ACUTE", 0xE9), ("LATIN SMALL LETTER U WITH DIAERESIS", 0xFC),
  ("GREEK SMALL LETTER ALPHA", 0x3B1), ("GREEK SMALL LETTER BETA", 0x3B2),
  ("GREEK SMALL LETTER PI", 0x3C0), ("EN DASH", 0x2013), ("EM DASH", 0x2014),
  ("LEFT SINGLE QUOTATION MARK", 0x2018), ("RIGHT SINGLE QUOTATION MARK", 0x2019),
  ("LEFT DOUBLE QUOTATION MARK", 0x201C), ("RIGHT DOUBLE QUOTATION MARK", 0x201D),
  ("BULLET", 0x2022), ("HORIZONTAL ELLIPSIS", 0x2026), ("EURO SIGN", 0x20AC),
  ("LEFTWARDS ARROW", 0x2190), ("RIGHTWARDS ARROW", 0x2192), ("INFINITY", 0x221E),
  ("BLACK STAR", 0x2605), ("WHITE STAR", 0x2606), ("SNOWMAN", 0x2603), ("CHECK MARK", 0x2713),
  ("BLACK HEART SUIT", 0x2665), ("REPLACEMENT CHARACTER", 0xFFFD), ("GRINNING FACE", 0x1F600),
  ("PILE OF POO", 0x1F4A9)]

/-- The names of the letters of ASCII. -/
def letterNames : List (String × Nat) :=
  (List.range 26).flatMap fun i =>
    let letter := String.ofList [Char.ofNat (65 + i)]
    [("LATIN CAPITAL LETTER " ++ letter, 65 + i), ("LATIN SMALL LETTER " ++ letter, 97 + i)]

/-- The character of a name. -/
def named? (name : String) : Option Char :=
  let upper := String.ofList (name.toList.map fun c =>
    if 'a' ≤ c ∧ c ≤ 'z' then Char.ofNat (c.toNat - 32) else c)
  let digits := digitNames.zipIdx.map fun (d, i) => ("DIGIT " ++ d, 48 + i)
  ((signNames ++ letterNames ++ digits).lookup upper).map Char.ofNat

end WorkflowEngine.Literal
