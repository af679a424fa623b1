import Vintage.Token.Kind

/-!
# Kinds of lexemes

A lexer tells more kinds apart than tokens have: the three forms of a comment, the words `true` and
`self`, the single magic constants, the keywords `exit` and `die`.

* `LexemeKind.tokenKind` — the kind of the token that a lexeme of its own stands for.
-/

namespace Vintage

namespace Lexeme

/-- How the body of a here document is read. -/
inductive DocumentKind where
  /-- with interpolations -/
  | heredoc
  /-- as it stands -/
  | nowdoc
deriving DecidableEq, Repr

end Lexeme

/-- What a lexeme is. -/
inductive LexemeKind where
  /-- text outside PHP tags -/
  | inlineText
  /-- a first line that starts with `#!` -/
  | shebang
  /-- the mark `<?php` -/
  | openTag
  /-- the mark `<?` -/
  | shortOpenTag
  /-- the mark `<?=` -/
  | echoTag
  /-- the mark `?>` -/
  | closeTag
  | whitespace
  /-- a comment after `//` -/
  | lineComment
  /-- a comment after `#` -/
  | hashComment
  /-- a comment between `/*` and `*/` -/
  | blockComment
  /-- a comment between `/**` and `*/` -/
  | docComment
  /-- a word that is no keyword -/
  | identifier
  | kwSelf
  | kwParent
  | kwTrue
  | kwFalse
  | kwNull
  | kwFrom
  /-- a word between square brackets inside a string -/
  | offsetName
  /-- the word after `${` inside a string -/
  | embeddedName
  /-- a word after `$` -/
  | variableName
  | integer
  /-- a number between square brackets inside a string -/
  | offsetNumber
  | float
  /-- a string literal without interpolation -/
  | quotedText
  /-- a string literal without interpolation that is never closed -/
  | unclosedText
  /-- a piece of a string with interpolation -/
  | textPart
  | classConstant
  | traitConstant
  | functionConstant
  | methodConstant
  | lineConstant
  | fileConstant
  | dirConstant
  | namespaceConstant
  | propertyConstant
  | kwAbstract
  | kwArray
  | kwAs
  | kwBreak
  | kwCallable
  | kwCase
  | kwCatch
  | kwClass
  | kwClone
  | kwConst
  | kwContinue
  | kwDeclare
  | kwDefault
  | kwDo
  | kwEcho
  | kwElse
  | kwElseIf
  | kwEmpty
  | kwEndDeclare
  | kwEndFor
  | kwEndForeach
  | kwEndIf
  | kwEndSwitch
  | kwEndWhile
  | kwEnum
  | kwEval
  | kwExit
  | kwDie
  | kwExtends
  | kwFinal
  | kwFinally
  | kwFn
  | kwFor
  | kwForeach
  | kwFunction
  | kwGlobal
  | kwGoto
  | kwHaltCompiler
  | kwIf
  | kwImplements
  | kwInclude
  | kwIncludeOnce
  | kwInstanceof
  | kwInsteadof
  | kwInterface
  | kwIsset
  | kwList
  | kwAnd
  | kwOr
  | kwXor
  | kwMatch
  | kwNamespace
  | kwNew
  | kwPrint
  | kwPrivate
  /-- the words `private(set)` -/
  | kwPrivateSet
  | kwProtected
  /-- the words `protected(set)` -/
  | kwProtectedSet
  | kwPublic
  /-- the words `public(set)` -/
  | kwPublicSet
  | kwReadonly
  | kwRequire
  | kwRequireOnce
  | kwReturn
  | kwStatic
  | kwSwitch
  | kwThrow
  | kwTrait
  | kwTry
  | kwUnset
  | kwUse
  | kwVar
  | kwWhile
  | kwYield
  | openParen
  | closeParen
  | openBrace
  | closeBrace
  | openSquare
  | closeSquare
  | semicolon
  | comma
  | colon
  | doubleColon
  | objectOperator
  | nullsafeOperator
  | doubleArrow
  | nsSeparator
  | equal
  | questionMark
  | ampersand
  | bitwiseOr
  | ellipsis
  /-- the mark `#[` -/
  | attributeStart
  /-- a lone `$` -/
  | dollar
  /-- the mark `${` -/
  | dollarBrace
  /-- the mark `"` of a string with interpolation -/
  | doubleQuote
  /-- the mark of a shell command -/
  | backtick
  /-- the opening line of a here document -/
  | documentStart (kind : Lexeme.DocumentKind)
  /-- the closing label of a here document -/
  | documentEnd
  /-- a name such as `Foo\Bar` -/
  | qualifiedName
  /-- a name such as `\Foo` or `\Foo\Bar` -/
  | globalName
  /-- a cast, or an arithmetic, comparison or assignment operator -/
  | operator
deriving DecidableEq, Repr

namespace LexemeKind

/-- The kind of the token that a lexeme stands for, unless it is put together with others or taken
apart. -/
def tokenKind : LexemeKind → TokenKind
  | .inlineText | .shebang => .inlineHtml
  | .openTag | .shortOpenTag => .openTag
  | .echoTag => .openTagWithEcho
  | .closeTag => .closeTag
  | .whitespace => .whitespace
  | .lineComment | .hashComment | .blockComment => .comment
  | .docComment => .docComment
  | .identifier | .kwSelf | .kwParent | .kwTrue | .kwFalse | .kwNull | .kwFrom | .offsetName
  | .embeddedName => .name
  | .variableName => .variableName
  | .integer | .offsetNumber => .integer
  | .float => .float
  | .quotedText | .unclosedText | .textPart => .quotedText
  | .classConstant | .traitConstant | .functionConstant | .methodConstant | .lineConstant
  | .fileConstant | .dirConstant | .namespaceConstant | .propertyConstant => .magicConstant
  | .kwAbstract => .kwAbstract
  | .kwArray => .kwArray
  | .kwAs => .kwAs
  | .kwBreak => .kwBreak
  | .kwCallable => .kwCallable
  | .kwCase => .kwCase
  | .kwCatch => .kwCatch
  | .kwClass => .kwClass
  | .kwClone => .kwClone
  | .kwConst => .kwConst
  | .kwContinue => .kwContinue
  | .kwDeclare => .kwDeclare
  | .kwDefault => .kwDefault
  | .kwDo => .kwDo
  | .kwEcho => .kwEcho
  | .kwElse => .kwElse
  | .kwElseIf => .kwElseIf
  | .kwEmpty => .kwEmpty
  | .kwEndDeclare => .kwEndDeclare
  | .kwEndFor => .kwEndFor
  | .kwEndForeach => .kwEndForeach
  | .kwEndIf => .kwEndIf
  | .kwEndSwitch => .kwEndSwitch
  | .kwEndWhile => .kwEndWhile
  | .kwEnum => .kwEnum
  | .kwEval => .kwEval
  | .kwExit | .kwDie => .kwExit
  | .kwExtends => .kwExtends
  | .kwFinal => .kwFinal
  | .kwFinally => .kwFinally
  | .kwFn => .kwFn
  | .kwFor => .kwFor
  | .kwForeach => .kwForeach
  | .kwFunction => .kwFunction
  | .kwGlobal => .kwGlobal
  | .kwGoto => .kwGoto
  | .kwHaltCompiler => .kwHaltCompiler
  | .kwIf => .kwIf
  | .kwImplements => .kwImplements
  | .kwInclude => .kwInclude
  | .kwIncludeOnce => .kwIncludeOnce
  | .kwInstanceof => .kwInstanceof
  | .kwInsteadof => .kwInsteadof
  | .kwInterface => .kwInterface
  | .kwIsset => .kwIsset
  | .kwList => .kwList
  | .kwAnd | .kwOr | .kwXor => .kwLogicalOperator
  | .kwMatch => .kwMatch
  | .kwNamespace => .kwNamespace
  | .kwNew => .kwNew
  | .kwPrint => .kwPrint
  | .kwPrivate | .kwPrivateSet => .kwPrivate
  | .kwProtected | .kwProtectedSet => .kwProtected
  | .kwPublic | .kwPublicSet => .kwPublic
  | .kwReadonly => .kwReadonly
  | .kwRequire => .kwRequire
  | .kwRequireOnce => .kwRequireOnce
  | .kwReturn => .kwReturn
  | .kwStatic => .kwStatic
  | .kwSwitch => .kwSwitch
  | .kwThrow => .kwThrow
  | .kwTrait => .kwTrait
  | .kwTry => .kwTry
  | .kwUnset => .kwUnset
  | .kwUse => .kwUse
  | .kwVar => .kwVar
  | .kwWhile => .kwWhile
  | .kwYield => .kwYield
  | .openParen => .openParen
  | .closeParen => .closeParen
  | .openBrace => .openBrace
  | .closeBrace => .closeBrace
  | .openSquare => .openSquare
  | .closeSquare => .closeSquare
  | .semicolon => .semicolon
  | .comma => .comma
  | .colon => .colon
  | .doubleColon => .doubleColon
  | .objectOperator => .objectOperator
  | .nullsafeOperator => .nullsafeOperator
  | .doubleArrow => .doubleArrow
  | .nsSeparator => .nsSeparator
  | .equal => .equal
  | .questionMark => .questionMark
  | .ampersand => .ampersand
  | .bitwiseOr => .bitwiseOr
  | .ellipsis => .ellipsis
  | .attributeStart => .attributeStart
  | .dollar | .dollarBrace => .dollar
  | .doubleQuote | .backtick | .documentStart _ | .documentEnd | .qualifiedName | .globalName
  | .operator => .operator

end LexemeKind

end Vintage
