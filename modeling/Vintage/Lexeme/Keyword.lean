import Vintage.Lexeme.Kind
import Vintage.Text.Ascii

/-!
# Words and signs with a meaning of their own

* `wordKind` — the kind of a word; words that are no keywords are identifiers.
* `signKind?` — the longest operator that the text starts with.
-/

namespace Vintage.Lexeme

/-- The keywords in lower case; keywords are recognised in any case. -/
def keywords : List (String × LexemeKind) :=
  [("abstract", .kwAbstract), ("array", .kwArray), ("as", .kwAs), ("break", .kwBreak),
   ("callable", .kwCallable), ("case", .kwCase), ("catch", .kwCatch), ("class", .kwClass),
   ("clone", .kwClone), ("const", .kwConst), ("continue", .kwContinue), ("declare", .kwDeclare),
   ("default", .kwDefault), ("do", .kwDo), ("echo", .kwEcho), ("else", .kwElse),
   ("elseif", .kwElseIf), ("empty", .kwEmpty), ("enddeclare", .kwEndDeclare),
   ("endfor", .kwEndFor), ("endforeach", .kwEndForeach), ("endif", .kwEndIf),
   ("endswitch", .kwEndSwitch), ("endwhile", .kwEndWhile), ("enum", .kwEnum), ("eval", .kwEval),
   ("exit", .kwExit), ("die", .kwDie), ("extends", .kwExtends), ("final", .kwFinal),
   ("finally", .kwFinally), ("fn", .kwFn), ("for", .kwFor), ("foreach", .kwForeach),
   ("function", .kwFunction), ("global", .kwGlobal), ("goto", .kwGoto),
   ("__halt_compiler", .kwHaltCompiler), ("if", .kwIf), ("implements", .kwImplements),
   ("include", .kwInclude), ("include_once", .kwIncludeOnce), ("instanceof", .kwInstanceof),
   ("insteadof", .kwInsteadof), ("interface", .kwInterface), ("isset", .kwIsset),
   ("list", .kwList), ("and", .kwAnd), ("or", .kwOr), ("xor", .kwXor),
   ("match", .kwMatch), ("namespace", .kwNamespace), ("new", .kwNew),
   ("print", .kwPrint), ("private", .kwPrivate), ("protected", .kwProtected),
   ("public", .kwPublic), ("readonly", .kwReadonly), ("require", .kwRequire),
   ("require_once", .kwRequireOnce), ("return", .kwReturn), ("static", .kwStatic),
   ("switch", .kwSwitch), ("throw", .kwThrow), ("trait", .kwTrait), ("try", .kwTry),
   ("unset", .kwUnset), ("use", .kwUse), ("var", .kwVar), ("while", .kwWhile),
   ("yield", .kwYield), ("from", .kwFrom), ("self", .kwSelf), ("parent", .kwParent),
   ("true", .kwTrue), ("false", .kwFalse), ("null", .kwNull), ("__class__", .classConstant),
   ("__trait__", .traitConstant), ("__function__", .functionConstant),
   ("__method__", .methodConstant), ("__line__", .lineConstant), ("__file__", .fileConstant),
   ("__dir__", .dirConstant), ("__namespace__", .namespaceConstant),
   ("__property__", .propertyConstant)]

/-- The kind of a word. -/
def wordKind (word : String) : LexemeKind :=
  (keywords.lookup (Text.lower word)).getD .identifier

/-- The operators of three characters. -/
def tripleSigns : List (String × LexemeKind) :=
  [("!==", .operator), ("??=", .operator), ("?->", .nullsafeOperator), ("===", .operator),
   ("...", .ellipsis), ("<=>", .operator), ("<<=", .operator), (">>=", .operator),
   ("**=", .operator)]

/-- The operators of two characters. -/
def doubleSigns : List (String × LexemeKind) :=
  [("!=", .operator), ("&&", .operator), ("&=", .operator), (".=", .operator), ("??", .operator),
   ("?>", .closeTag), ("=>", .doubleArrow), ("==", .operator), ("++", .operator),
   ("+=", .operator), ("%=", .operator), ("--", .operator), ("->", .objectOperator),
   ("-=", .operator), ("<<", .operator), ("<=", .operator), ("<>", .operator), (">>", .operator),
   (">=", .operator), ("::", .doubleColon), ("#[", .attributeStart), ("|=", .operator),
   ("||", .operator), ("/=", .operator), ("^=", .operator), ("**", .operator), ("*=", .operator),
   ("|>", .operator)]

/-- The kind of the sign among `signs` that the text starts with. -/
def signKind? (signs : List (String × LexemeKind)) (cs : List Char) : Option LexemeKind :=
  (signs.find? fun (sign, _) => sign.toList.isPrefixOf cs).map (·.2)

/-- The signs of one character that end no other rule. -/
def singleKind? : Char → Option LexemeKind
  | '$' => some .dollar
  | '&' => some .ampersand
  | '?' => some .questionMark
  | '=' => some .equal
  | ':' => some .colon
  | '|' => some .bitwiseOr
  | '!' | '+' | '%' | '-' | '<' | '>' | '^' | '*' | '/' => some .operator
  | _ => none

/-- The brackets and separators, which are never part of a longer sign. -/
def separatorKind? : Char → Option LexemeKind
  | ';' => some .semicolon
  | ',' => some .comma
  | ')' => some .closeParen
  | '[' => some .openSquare
  | ']' => some .closeSquare
  | '{' => some .openBrace
  | '}' => some .closeBrace
  | '~' | '@' => some .operator
  | _ => none

end Vintage.Lexeme
