/-!
# Kinds of tokens

The kinds form a closed set: layout, names and literals, keywords, punctuation. An interpolated
string or a here document is one token.

* `TokenKind.isLayout` — white space and comments, the tokens without meaning.
* `TokenKind.ownsScope` — keywords that may own a block in braces.
* `TokenKind.isReserved` — keywords that may also serve as plain names.
* `TokenKind.isMemberAccess` — `->`, `?->` and `::`.
-/

namespace Vintage

/-- The kind of a token. -/
inductive TokenKind where
  /-- text outside PHP tags -/
  | inlineHtml
  /-- the token `<?php` or `<?` -/
  | openTag
  /-- the token `<?=` -/
  | openTagWithEcho
  /-- the token `?>` -/
  | closeTag
  | whitespace
  | comment
  /-- the token `/** … */` -/
  | docComment
  /-- a bare identifier: function, constant or class name -/
  | name
  /-- the token `$name` -/
  | variableName
  | integer
  | float
  /-- a string literal without interpolation -/
  | quotedText
  /-- a double-quoted string with interpolation -/
  | interpolatedText
  | heredoc
  | nowdoc
  /-- a string in backticks -/
  | shellCommand
  /-- the token `__DIR__`, `__CLASS__` and the like -/
  | magicConstant
  | kwAbstract
  | kwArray
  | kwAs
  | kwBreak
  | kwCallable
  | kwCase
  | kwCatch
  | kwClass
  | kwClone
  | kwConst
  | kwContinue
  | kwDeclare
  | kwDefault
  | kwDo
  | kwEcho
  | kwElse
  | kwElseIf
  | kwEmpty
  | kwEndDeclare
  | kwEndFor
  | kwEndForeach
  | kwEndIf
  | kwEndSwitch
  | kwEndWhile
  | kwEnum
  | kwEval
  | kwExit
  | kwExtends
  | kwFinal
  | kwFinally
  | kwFn
  | kwFor
  | kwForeach
  | kwFunction
  | kwGlobal
  | kwGoto
  | kwHaltCompiler
  | kwIf
  | kwImplements
  | kwInclude
  | kwIncludeOnce
  | kwInstanceof
  | kwInsteadof
  | kwInterface
  | kwIsset
  | kwList
  | kwLogicalOperator
  | kwMatch
  | kwNamespace
  | kwNew
  | kwPrint
  | kwPrivate
  | kwProtected
  | kwPublic
  | kwReadonly
  | kwRequire
  | kwRequireOnce
  | kwReturn
  | kwStatic
  | kwSwitch
  | kwThrow
  | kwTrait
  | kwTry
  | kwUnset
  | kwUse
  | kwVar
  | kwWhile
  | kwYield
  | openParen
  | closeParen
  | openBrace
  | closeBrace
  | openSquare
  | closeSquare
  | semicolon
  | comma
  | colon
  | doubleColon
  | objectOperator
  | nullsafeOperator
  | doubleArrow
  | nsSeparator
  | equal
  | questionMark
  | ampersand
  | bitwiseOr
  | ellipsis
  /-- the token `#[` -/
  | attributeStart
  /-- a lone `$`, or `${` -/
  | dollar
  /-- any other operator, casts included -/
  | operator
deriving DecidableEq, Repr

namespace TokenKind

/-- All kinds, in the order of their declaration. -/
def all : List TokenKind :=
  [.inlineHtml, .openTag, .openTagWithEcho, .closeTag, .whitespace, .comment, .docComment, .name,
   .variableName, .integer, .float, .quotedText, .interpolatedText, .heredoc, .nowdoc,
   .shellCommand, .magicConstant, .kwAbstract, .kwArray, .kwAs, .kwBreak, .kwCallable, .kwCase,
   .kwCatch, .kwClass, .kwClone, .kwConst, .kwContinue, .kwDeclare, .kwDefault, .kwDo, .kwEcho,
   .kwElse, .kwElseIf, .kwEmpty, .kwEndDeclare, .kwEndFor, .kwEndForeach, .kwEndIf, .kwEndSwitch,
   .kwEndWhile, .kwEnum, .kwEval, .kwExit, .kwExtends, .kwFinal, .kwFinally, .kwFn, .kwFor,
   .kwForeach, .kwFunction, .kwGlobal, .kwGoto, .kwHaltCompiler, .kwIf, .kwImplements, .kwInclude,
   .kwIncludeOnce, .kwInstanceof, .kwInsteadof, .kwInterface, .kwIsset, .kwList,
   .kwLogicalOperator, .kwMatch, .kwNamespace, .kwNew, .kwPrint, .kwPrivate, .kwProtected,
   .kwPublic, .kwReadonly, .kwRequire, .kwRequireOnce, .kwReturn, .kwStatic, .kwSwitch, .kwThrow,
   .kwTrait, .kwTry, .kwUnset, .kwUse, .kwVar, .kwWhile, .kwYield, .openParen, .closeParen,
   .openBrace, .closeBrace, .openSquare, .closeSquare, .semicolon, .comma, .colon, .doubleColon,
   .objectOperator, .nullsafeOperator, .doubleArrow, .nsSeparator, .equal, .questionMark,
   .ampersand, .bitwiseOr, .ellipsis, .attributeStart, .dollar, .operator]

/-- The label of a kind in listings. -/
def label : TokenKind → String
  | .inlineHtml => "InlineHtml"
  | .openTag => "OpenTag"
  | .openTagWithEcho => "OpenTagWithEcho"
  | .closeTag => "CloseTag"
  | .whitespace => "Whitespace"
  | .comment => "Comment"
  | .docComment => "DocComment"
  | .name => "String"
  | .variableName => "Variable"
  | .integer => "LNumber"
  | .float => "DNumber"
  | .quotedText => "ConstantEncapsedString"
  | .interpolatedText => "DoubleQuotedString"
  | .heredoc => "Heredoc"
  | .nowdoc => "Nowdoc"
  | .shellCommand => "Backtick"
  | .magicConstant => "MagicConstant"
  | .kwAbstract => "Abstract"
  | .kwArray => "Array"
  | .kwAs => "As"
  | .kwBreak => "Break"
  | .kwCallable => "Callable"
  | .kwCase => "Case"
  | .kwCatch => "Catch"
  | .kwClass => "Class"
  | .kwClone => "Clone"
  | .kwConst => "Const"
  | .kwContinue => "Continue"
  | .kwDeclare => "Declare"
  | .kwDefault => "Default"
  | .kwDo => "Do"
  | .kwEcho => "Echo"
  | .kwElse => "Else"
  | .kwElseIf => "ElseIf"
  | .kwEmpty => "Empty"
  | .kwEndDeclare => "EndDeclare"
  | .kwEndFor => "EndFor"
  | .kwEndForeach => "EndForeach"
  | .kwEndIf => "EndIf"
  | .kwEndSwitch => "EndSwitch"
  | .kwEndWhile => "EndWhile"
  | .kwEnum => "Enum"
  | .kwEval => "Eval"
  | .kwExit => "Exit"
  | .kwExtends => "Extends"
  | .kwFinal => "Final"
  | .kwFinally => "Finally"
  | .kwFn => "Fn"
  | .kwFor => "For"
  | .kwForeach => "Foreach"
  | .kwFunction => "Function"
  | .kwGlobal => "Global"
  | .kwGoto => "Goto"
  | .kwHaltCompiler => "HaltCompiler"
  | .kwIf => "If"
  | .kwImplements => "Implements"
  | .kwInclude => "Include"
  | .kwIncludeOnce => "IncludeOnce"
  | .kwInstanceof => "Instanceof"
  | .kwInsteadof => "Insteadof"
  | .kwInterface => "Interface"
  | .kwIsset => "Isset"
  | .kwList => "List"
  | .kwLogicalOperator => "LogicalOperator"
  | .kwMatch => "Match"
  | .kwNamespace => "Namespace"
  | .kwNew => "New"
  | .kwPrint => "Print"
  | .kwPrivate => "Private"
  | .kwProtected => "Protected"
  | .kwPublic => "Public"
  | .kwReadonly => "Readonly"
  | .kwRequire => "Require"
  | .kwRequireOnce => "RequireOnce"
  | .kwReturn => "Return"
  | .kwStatic => "Static"
  | .kwSwitch => "Switch"
  | .kwThrow => "Throw"
  | .kwTrait => "Trait"
  | .kwTry => "Try"
  | .kwUnset => "Unset"
  | .kwUse => "Use"
  | .kwVar => "Var"
  | .kwWhile => "While"
  | .kwYield => "Yield"
  | .openParen => "OpenParenthesis"
  | .closeParen => "CloseParenthesis"
  | .openBrace => "OpenCurlyBracket"
  | .closeBrace => "CloseCurlyBracket"
  | .openSquare => "OpenSquareBracket"
  | .closeSquare => "CloseSquareBracket"
  | .semicolon => "Semicolon"
  | .comma => "Comma"
  | .colon => "Colon"
  | .doubleColon => "DoubleColon"
  | .objectOperator => "ObjectOperator"
  | .nullsafeOperator => "NullsafeObjectOperator"
  | .doubleArrow => "DoubleArrow"
  | .nsSeparator => "NsSeparator"
  | .equal => "Equal"
  | .questionMark => "QuestionMark"
  | .ampersand => "Ampersand"
  | .bitwiseOr => "BitwiseOr"
  | .ellipsis => "Ellipsis"
  | .attributeStart => "AttributeStart"
  | .dollar => "Dollar"
  | .operator => "Operator"

/-- The kind with the given label. -/
def ofLabel? (s : String) : Option TokenKind := all.find? (·.label == s)

/-- Tokens without meaning: white space and comments. -/
def isLayout : TokenKind → Bool
  | .whitespace | .comment | .docComment => true
  | _ => false

/-- Keywords that may own a block in braces. -/
def ownsScope : TokenKind → Bool
  | .kwClass | .kwInterface | .kwTrait | .kwEnum | .kwFunction | .kwFn | .kwNamespace | .kwIf
  | .kwElse | .kwElseIf | .kwWhile | .kwDo | .kwFor | .kwForeach | .kwSwitch | .kwMatch | .kwTry
  | .kwCatch | .kwFinally | .kwDeclare => true
  | _ => false

/-- Keywords that are plain names after `->`, `?->`, `::` and in declarations. -/
def isReserved : TokenKind → Bool
  | .kwAbstract | .kwArray | .kwAs | .kwBreak | .kwCallable | .kwCase | .kwCatch | .kwClass
  | .kwClone | .kwConst | .kwContinue | .kwDeclare | .kwDefault | .kwDo | .kwEcho | .kwElse
  | .kwElseIf | .kwEmpty | .kwEndDeclare | .kwEndFor | .kwEndForeach | .kwEndIf | .kwEndSwitch
  | .kwEndWhile | .kwEnum | .kwEval | .kwExit | .kwExtends | .kwFinal | .kwFinally | .kwFn
  | .kwFor | .kwForeach | .kwFunction | .kwGlobal | .kwGoto | .kwIf | .kwImplements | .kwInclude
  | .kwIncludeOnce | .kwInstanceof | .kwInsteadof | .kwInterface | .kwIsset | .kwList
  | .kwLogicalOperator | .kwMatch | .kwNamespace | .kwNew | .kwPrint | .kwPrivate | .kwProtected
  | .kwPublic | .kwReadonly | .kwRequire | .kwRequireOnce | .kwReturn | .kwStatic | .kwSwitch
  | .kwThrow | .kwTrait | .kwTry | .kwUnset | .kwUse | .kwVar | .kwWhile | .kwYield => true
  | _ => false

/-- Literals of text. -/
def isTextLiteral : TokenKind → Bool
  | .quotedText | .interpolatedText | .heredoc | .nowdoc => true
  | _ => false

/-- The operators that select a member: `->`, `?->` and `::`. -/
def isMemberAccess : TokenKind → Bool
  | .objectOperator | .nullsafeOperator | .doubleColon => true
  | _ => false

end TokenKind

end Vintage
