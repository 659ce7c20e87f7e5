/-!
# Named signs

The code points that have a meaning of their own in a regular expression, usable in patterns.
-/

namespace PatternGrammar.Regex.Sign

@[match_pattern] abbrev tab : Nat := 9
@[match_pattern] abbrev lineFeed : Nat := 10
@[match_pattern] abbrev carriageReturn : Nat := 13
@[match_pattern] abbrev space : Nat := 32
@[match_pattern] abbrev exclamation : Nat := 33
@[match_pattern] abbrev quotation : Nat := 34
@[match_pattern] abbrev numberSign : Nat := 35
@[match_pattern] abbrev dollar : Nat := 36
@[match_pattern] abbrev percent : Nat := 37
@[match_pattern] abbrev ampersand : Nat := 38
@[match_pattern] abbrev apostrophe : Nat := 39
@[match_pattern] abbrev openParen : Nat := 40
@[match_pattern] abbrev closeParen : Nat := 41
@[match_pattern] abbrev star : Nat := 42
@[match_pattern] abbrev plus : Nat := 43
@[match_pattern] abbrev comma : Nat := 44
@[match_pattern] abbrev hyphen : Nat := 45
@[match_pattern] abbrev dot : Nat := 46
@[match_pattern] abbrev colon : Nat := 58
@[match_pattern] abbrev less : Nat := 60
@[match_pattern] abbrev equals : Nat := 61
@[match_pattern] abbrev greater : Nat := 62
@[match_pattern] abbrev question : Nat := 63
@[match_pattern] abbrev upperC : Nat := 67
@[match_pattern] abbrev upperE : Nat := 69
@[match_pattern] abbrev upperP : Nat := 80
@[match_pattern] abbrev upperQ : Nat := 81
@[match_pattern] abbrev upperR : Nat := 82
@[match_pattern] abbrev upperU : Nat := 85
@[match_pattern] abbrev openBracket : Nat := 91
@[match_pattern] abbrev backslash : Nat := 92
@[match_pattern] abbrev closeBracket : Nat := 93
@[match_pattern] abbrev caret : Nat := 94
@[match_pattern] abbrev underscore : Nat := 95
@[match_pattern] abbrev grave : Nat := 96
@[match_pattern] abbrev lowerP : Nat := 112
@[match_pattern] abbrev lowerX : Nat := 120
@[match_pattern] abbrev openBrace : Nat := 123
@[match_pattern] abbrev bar : Nat := 124
@[match_pattern] abbrev closeBrace : Nat := 125

end PatternGrammar.Regex.Sign
