import PatternGrammar.Text.Basic

/-!
# Why a text is no regular expression

A fault has a cause and the byte at which it was found; the words for each cause stand here.
-/

namespace PatternGrammar.Regex

/-- Why a text is no regular expression. -/
inductive SyntaxFault where
  | trailingBackslash
  | trailingControl
  | unknownEscape
  | reversedCounts
  | countTooBig
  | unclosedClass
  | escapeInClass
  | reversedRange
  | nothingToRepeat
  | unknownGroup
  | classOutsideBrackets
  | collatingElement
  | unclosedGroup
  | missingGroup
  | unclosedComment
  | tooDeep
  | tooLarge
  | unmatchedParenthesis
  | unclosedCondition
  | variableLookBehind
  | tooManyBranches
  | assertionExpected
  | digitExpected
  | unknownClass
  | tooComplicatedLookBehind
  | byteInLookBehind
  | codePointTooBig
  | calloutNumberTooBig
  | unclosedCallout
  | unknownNameForm
  | unterminatedName
  | duplicateName
  | nameStartsWithDigit
  | malformedProperty
  | unknownProperty
  | nameTooLong
  | tooManyNames
  | invalidRange
  | tooManyDefined
  | malformedSubroutine
  | malformedRecursion
  | unknownVerb
  | groupNumberTooBig
  | nameExpected
  | secondName
  | nameOfMarkMissing
  | malformedHex
  | controlNotPrintable
  | malformedNameReference
  | newlineInClass
  | surrogate
  | verbNameTooLong
  | digitsMissing
  | malformedVersion
  | calloutDelimiter
  | unterminatedCallout
  | misplacedHyphen
  | malformedOctal
  | octalBraceMissing
  | unsupportedEscape
  | tooLongLookBehind
  | tooManyGroups
  | zeroRelative
  | unknownAssertion
  | atomicAssertionExpected
  | keepOutInLook
  deriving DecidableEq, Repr

/-- The words for a fault. -/
def SyntaxFault.message : SyntaxFault → Text
  | .trailingBackslash => "\\ at end of pattern"
  | .trailingControl => "\\c at end of pattern"
  | .unknownEscape => "unrecognized character follows \\"
  | .reversedCounts => "numbers out of order in \x7b\x7d quantifier"
  | .countTooBig => "number too big in \x7b\x7d quantifier"
  | .unclosedClass => "missing terminating ] for character class"
  | .escapeInClass => "escape sequence is invalid in character class"
  | .reversedRange => "range out of order in character class"
  | .nothingToRepeat => "quantifier does not follow a repeatable item"
  | .unknownGroup => "unrecognized character after (? or (?-"
  | .classOutsideBrackets => "POSIX named classes are supported only within a class"
  | .collatingElement => "POSIX collating elements are not supported"
  | .unclosedGroup => "missing closing parenthesis"
  | .missingGroup => "reference to non-existent subpattern"
  | .unclosedComment => "missing ) after (?# comment"
  | .tooDeep => "parentheses are too deeply nested"
  | .tooLarge => "regular expression is too large"
  | .unmatchedParenthesis => "unmatched closing parenthesis"
  | .unclosedCondition => "missing closing parenthesis for condition"
  | .variableLookBehind => "lookbehind assertion is not fixed length"
  | .tooManyBranches => "conditional subpattern contains more than two branches"
  | .assertionExpected => "assertion expected after (?( or (?(?C)"
  | .digitExpected => "digit expected after (?+ or (?-"
  | .unknownClass => "unknown POSIX class name"
  | .tooComplicatedLookBehind => "lookbehind is too complicated"
  | .byteInLookBehind => "\\C is not allowed in a lookbehind assertion in UTF-8 mode"
  | .codePointTooBig => "character code point value in \\x\x7b\x7d or \\o\x7b\x7d is too large"
  | .calloutNumberTooBig => "number after (?C is greater than 255"
  | .unclosedCallout => "closing parenthesis for (?C expected"
  | .unknownNameForm => "unrecognized character after (?P"
  | .unterminatedName => "syntax error in subpattern name (missing terminator?)"
  | .duplicateName => "two named subpatterns have the same name (PCRE2_DUPNAMES not set)"
  | .nameStartsWithDigit => "subpattern name must start with a non-digit"
  | .malformedProperty => "malformed \\P or \\p sequence"
  | .unknownProperty => "unknown property after \\P or \\p"
  | .nameTooLong => "subpattern name is too long (maximum 32 code units)"
  | .tooManyNames => "too many named subpatterns (maximum 10000)"
  | .invalidRange => "invalid range in character class"
  | .tooManyDefined => "DEFINE subpattern contains more than one branch"
  | .malformedSubroutine =>
      "\\g is not followed by a braced, angle-bracketed, or quoted name/number or by a plain number"
  | .malformedRecursion => "(?R (recursive pattern call) must be followed by a closing parenthesis"
  | .unknownVerb => "(*VERB) not recognized or malformed"
  | .groupNumberTooBig => "subpattern number is too big"
  | .nameExpected => "subpattern name expected"
  | .secondName => "different names for subpatterns of the same number are not allowed"
  | .nameOfMarkMissing => "(*MARK) must have an argument"
  | .malformedHex => "non-hex character in \\x\x7b\x7d (closing brace missing?)"
  | .controlNotPrintable => "\\c must be followed by a printable ASCII character"
  | .malformedNameReference => "\\k is not followed by a braced, angle-bracketed, or quoted name"
  | .newlineInClass => "\\N is not supported in a class"
  | .surrogate => "disallowed Unicode code point (>= 0xd800 && <= 0xdfff)"
  | .verbNameTooLong => "name is too long in (*MARK), (*PRUNE), (*SKIP), or (*THEN)"
  | .digitsMissing => "digits missing in \\x\x7b\x7d or \\o\x7b\x7d or \\N\x7bU+\x7d"
  | .malformedVersion => "syntax error or number too big in (?(VERSION condition"
  | .calloutDelimiter => "unrecognized string delimiter follows (?C"
  | .unterminatedCallout => "missing terminating delimiter for callout with string argument"
  | .misplacedHyphen => "invalid hyphen in option setting"
  | .malformedOctal => "non-octal character in \\o\x7b\x7d (closing brace missing?)"
  | .octalBraceMissing => "missing opening brace after \\o"
  | .unsupportedEscape => "PCRE2 does not support \\F, \\L, \\l, \\N\x7bname\x7d, \\U, or \\u"
  | .tooLongLookBehind => "lookbehind assertion is too long"
  | .tooManyGroups => "too many capturing groups (maximum 65535)"
  | .zeroRelative => "a relative value of zero is not allowed"
  | .unknownAssertion => "(*alpha_assertion) not recognized"
  | .atomicAssertionExpected => "atomic assertion expected after (?( or (?(?C)"
  | .keepOutInLook =>
      "\\K is not allowed in lookarounds (but see PCRE2_EXTRA_ALLOW_LOOKAROUND_BSK)"

/-- A fault and the byte at which it was found. -/
structure SyntaxError where
  fault : SyntaxFault
  offset : Nat
  deriving DecidableEq, Repr

end PatternGrammar.Regex
