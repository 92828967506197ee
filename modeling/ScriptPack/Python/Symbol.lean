/-!
The symbols of the Python grammar. Terminals are the kinds of token that a reader of source text can
meet; nonterminals are the kinds of phrase. Sets of terminals are kept as the bits of one number,
because a parser asks for unions and membership at every step.
-/

namespace ScriptPack.Python

inductive Terminal
  | kwAnd | kwAs | kwAssert | kwAsync | kwAwait | kwBreak | kwCase | kwClass | kwContinue | kwDef
  | kwDel | kwElif | kwElse | kwExcept | kwExec | kwFalse | kwFinally | kwFor | kwFrom | kwFuture
  | kwGlobal | kwIf | kwImport | kwIn | kwIs | kwLambda | kwMatch | kwNone | kwNonlocal | kwNot
  | kwOr | kwPass | kwPrint | kwRaise | kwReturn | kwTrue | kwTry | kwType | kwUnderscore | kwWhile
  | kwWith | kwYield
  | bangEquals | percent | percentEquals | ampersand | ampersandEquals | leftParen | rightParen
  | star | doubleStar | doubleStarEquals | starEquals | plus | plusEquals | comma | minus
  | minusEquals | arrow | dot | ellipsis | slash | doubleSlash | doubleSlashEquals | slashEquals
  | colon | colonEquals | semicolon | less | leftShift | leftShiftEquals | lessEquals | lessGreater
  | equals | doubleEquals | greater | greaterEquals | rightShift | rightShiftEquals | atSign
  | atEquals | leftBracket | rightBracket | caret | caretEquals | leftBrace | bar | barEquals
  | rightBrace | tilde | exceptStar
  | identifier | integer | float | newline | indent | dedent | stringStart | stringContent
  | doubledBrace | stringEnd | escape | loneBackslash | formatText | conversion | endOfText
  deriving DecidableEq, Repr

namespace Terminal

def count : Nat := Terminal.endOfText.ctorIdx + 1

/-- The reserved and soft keywords with their spelling. -/
def keywords : List (String × Terminal) :=
  [("and", kwAnd), ("as", kwAs), ("assert", kwAssert), ("async", kwAsync), ("await", kwAwait),
    ("break", kwBreak), ("case", kwCase), ("class", kwClass), ("continue", kwContinue),
    ("def", kwDef), ("del", kwDel), ("elif", kwElif), ("else", kwElse), ("except", kwExcept),
    ("exec", kwExec), ("False", kwFalse), ("finally", kwFinally), ("for", kwFor),
    ("from", kwFrom), ("__future__", kwFuture), ("global", kwGlobal), ("if", kwIf),
    ("import", kwImport), ("in", kwIn), ("is", kwIs), ("lambda", kwLambda), ("match", kwMatch),
    ("None", kwNone), ("nonlocal", kwNonlocal), ("not", kwNot), ("or", kwOr), ("pass", kwPass),
    ("print", kwPrint), ("raise", kwRaise), ("return", kwReturn), ("True", kwTrue),
    ("try", kwTry), ("type", kwType), ("_", kwUnderscore), ("while", kwWhile), ("with", kwWith),
    ("yield", kwYield)]

/-- The operators and delimiters with their spelling, longer spellings first, so that the first one
that fits is the longest one that fits. -/
def signs : List (List Char × Terminal) :=
  [("**=".toList, doubleStarEquals), ("...".toList, ellipsis), ("//=".toList, doubleSlashEquals),
    ("<<=".toList, leftShiftEquals), (">>=".toList, rightShiftEquals), ("!=".toList, bangEquals),
    ("%=".toList, percentEquals), ("&=".toList, ampersandEquals), ("**".toList, doubleStar),
    ("*=".toList, starEquals), ("+=".toList, plusEquals), ("-=".toList, minusEquals),
    ("->".toList, arrow), ("//".toList, doubleSlash), ("/=".toList, slashEquals),
    (":=".toList, colonEquals), ("<<".toList, leftShift), ("<=".toList, lessEquals),
    ("<>".toList, lessGreater), ("==".toList, doubleEquals), (">=".toList, greaterEquals),
    (">>".toList, rightShift), ("@=".toList, atEquals), ("^=".toList, caretEquals),
    ("|=".toList, barEquals), ("%".toList, percent), ("&".toList, ampersand),
    ("(".toList, leftParen), (")".toList, rightParen), ("*".toList, star), ("+".toList, plus),
    (",".toList, comma), ("-".toList, minus), (".".toList, dot), ("/".toList, slash),
    (":".toList, colon), (";".toList, semicolon), ("<".toList, less), ("=".toList, equals),
    (">".toList, greater), ("@".toList, atSign), ("[".toList, leftBracket),
    ("]".toList, rightBracket), ("^".toList, caret), ("\x7b".toList, leftBrace),
    ("|".toList, bar), ("\x7d".toList, rightBrace), ("~".toList, tilde)]

def isKeyword (t : Terminal) : Bool :=
  t.ctorIdx < bangEquals.ctorIdx

end Terminal

/-- A set of terminals: terminal number `i` is in it when bit `i` is set. -/
structure TokenSet where
  bits : Nat
  deriving DecidableEq, Repr

namespace TokenSet

def empty : TokenSet := ⟨0⟩

def singleton (t : Terminal) : TokenSet := ⟨1 <<< t.ctorIdx⟩

def union (a b : TokenSet) : TokenSet := ⟨a.bits ||| b.bits⟩

def contains (s : TokenSet) (t : Terminal) : Bool := s.bits.testBit t.ctorIdx

instance : Union TokenSet := ⟨union⟩

instance : EmptyCollection TokenSet := ⟨empty⟩

end TokenSet

/-- The kinds of phrase. A name that begins with `more` stands for one or more continuations of a
list, each with the separator in front of it. -/
inductive Nonterminal
  | document | statements | statement | simpleStatements | moreSimpleStatements
  | importStatement | dots | relativeImport | futureImport | importFrom | importList | moreImports
  | aliasedImport | wildcard
  | printStatement | chevron | assertStatement | expressionStatement | namedExpression
  | returnStatement | deleteStatement | raiseStatement | passStatement | breakStatement
  | continueStatement | globalStatement | nonlocalStatement | moreNames | execStatement | typeAlias
  | ifStatement | elifClauses | elifClause | elseClause | matchStatement | matchBlock | caseClauses
  | caseClause | moreCasePatterns | forStatement | whileStatement | tryStatement | exceptClauses
  | exceptClause | exceptGroups | exceptGroup | finallyClause | withStatement | withClause
  | withItem | moreWithItems | functionDefinition | parameters | parameterList | moreParameters
  | classDefinition | decorated | decorators | decorator | block
  | lambdaParameters | listSplat | dictionarySplat | typeParameter | moreTypes
  | parenthesizedSplat | argumentList | moreArguments | expressionList | moreExpressions
  | dottedName | moreNameParts
  | casePattern | simplePattern | asCasePattern | unionPattern | morePatternChoices
  | listCasePattern | tupleCasePattern | dictPattern | moreDictPatterns | keyValuePattern
  | keywordPattern | splatPattern | classPattern | complexPattern
  | patternItems | morePatterns | parameter | keywordSeparator | positionalSeparator | pattern
  | tuplePattern | listPattern | defaultParameter | typedDefaultParameter | listSplatPattern
  | dictionarySplatPattern | typedParameter
  | asPattern | comprehensionSource | expression | primary | notOperator | booleanOperator
  | binaryOperator | unaryOperator | notIn | isNot | comparison | moreComparisons | lambda
  | comprehensionLambda | assignment | augmentedAssignment | patternList | rightHandSide
  | yieldExpression | attribute | subscript | moreSubscripts | slice | call
  | type | splatType | genericType | unionType | constrainedType | memberType | keywordArgument
  | list | set | tuple | dictionary | moreDictionaryItems | pair | listComprehension
  | dictionaryComprehension | setComprehension | generator | comprehensionClauses
  | moreComprehensionClauses | parenthesized | collectionElements | moreCollectionElements
  | forInClause | moreComprehensionSources | ifClause | conditional | concatenatedString
  | moreStrings | string | stringParts | stringText | stringPieces | interpolation
  | interpolated | formatSpecifier | formatParts | awaitExpression
  deriving DecidableEq, Repr

namespace Nonterminal

def count : Nat := Nonterminal.awaitExpression.ctorIdx + 1

def all : List Nonterminal := (List.range count).map Nonterminal.ofNat

end Nonterminal

inductive Symbol
  | terminal (t : Terminal)
  | nonterminal (x : Nonterminal)
  deriving DecidableEq, Repr

namespace Symbol

/-- Terminals are numbered first and nonterminals after them. -/
def index : Symbol → Nat
  | .terminal t => t.ctorIdx
  | .nonterminal x => Terminal.count + x.ctorIdx

def count : Nat := Terminal.count + Nonterminal.count

end Symbol

end ScriptPack.Python
