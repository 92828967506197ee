import ScriptPack.Python.Symbol

/-!
The grammar of Python source text, as one list of alternatives for each nonterminal. It is wider
than the language of any one release: it takes the statements of both major versions, blocks without
a statement, and commas at the end of most lists. Where two readings of the same text compete, the
rank of a step (how tightly it binds, and to which side) decides between them.
-/

namespace ScriptPack.Python

inductive Side
  | left | right
  deriving DecidableEq, Repr

/-- A symbol on the right-hand side of a production, with the rank that it has there. -/
structure Step where
  symbol : Symbol
  level : Option Int
  side : Option Side
  deriving DecidableEq, Repr

/-- The alternatives of a nonterminal, each a sequence of steps. -/
abbrev Body := List (List Step)

namespace Grammar

open Terminal (kwAnd kwAs kwAssert kwAsync kwAwait kwBreak kwCase kwClass kwContinue kwDef kwDel
  kwElif kwElse kwExcept kwExec kwFalse kwFinally kwFor kwFrom kwFuture kwGlobal kwIf kwImport kwIn
  kwIs kwLambda kwMatch kwNone kwNonlocal kwNot kwOr kwPass kwPrint kwRaise kwReturn kwTrue kwTry
  kwType kwUnderscore kwWhile kwWith kwYield
  comma colon semicolon dot star doubleStar equals leftParen rightParen leftBracket rightBracket
  leftBrace rightBrace identifier)

def t (x : Terminal) : Body := [[⟨.terminal x, none, none⟩]]

def n (x : Nonterminal) : Body := [[⟨.nonterminal x, none, none⟩]]

def seq (parts : List Body) : Body :=
  parts.foldr (fun part rest => part.flatMap fun a => rest.map (a ++ ·)) [[]]

def oneOf (choices : List Body) : Body := choices.flatten

def opt (body : Body) : Body := body ++ [[]]

/-- Gives a rank to every step that has none yet. -/
def ranked (level : Int) (side : Option Side) (body : Body) : Body :=
  body.map fun steps => steps.map fun s =>
    { s with level := s.level <|> some level, side := s.side <|> side }

/-- One or more copies of `body`, as the alternatives of the nonterminal `x` that names the
repetition. -/
def repeated (x : Nonterminal) (body : Body) : Body := oneOf [body, seq [n x, body]]

/-- Items with commas between them; `more` names what follows the first item. -/
def listed (item : Body) (more : Nonterminal) : Body := seq [item, opt (n more)]

/-- As `listed`, with an optional comma at the end. -/
def listedLoosely (item : Body) (more : Nonterminal) : Body :=
  seq [listed item more, opt (t comma)]

def expression : Body := n .expression

def expressions : Body := oneOf [expression, n .expressionList]

/-- Words that are names wherever they are not taken as keywords. -/
def softWord : Body :=
  oneOf
    [ranked (-3) none (oneOf [t kwPrint, t kwExec, t kwAsync, t kwAwait, t kwMatch]), t kwType]

def simpleStatement : Body :=
  oneOf [n .futureImport, n .importStatement, n .importFrom, n .printStatement,
    n .assertStatement, n .expressionStatement, n .returnStatement, n .deleteStatement,
    n .raiseStatement, n .passStatement, n .breakStatement, n .continueStatement,
    n .globalStatement, n .nonlocalStatement, n .execStatement, n .typeAlias]

def compoundStatement : Body :=
  oneOf [n .ifStatement, n .forStatement, n .whileStatement, n .tryStatement, n .withStatement,
    n .functionDefinition, n .classDefinition, n .decorated, n .matchStatement]

def suite : Body :=
  oneOf [n .simpleStatements, seq [t .indent, n .block], t .newline]

def leftHandSide : Body := oneOf [n .pattern, n .patternList]

def importItem : Body := oneOf [n .dottedName, n .aliasedImport]

def importItems : Body :=
  oneOf [n .importList, seq [t leftParen, n .importList, t rightParen]]

def argument : Body :=
  oneOf [expression, n .listSplat, n .dictionarySplat, n .parenthesizedSplat, n .keywordArgument]

def collectionElement : Body :=
  oneOf [expression, n .yieldExpression, n .listSplat, n .parenthesizedSplat]

def dictionaryItem : Body := oneOf [n .pair, n .dictionarySplat]

def dictPatternItem : Body := oneOf [n .keyValuePattern, n .splatPattern]

def casePatterns : Body := opt (listedLoosely (n .casePattern) .moreCasePatterns)

def number : Body := oneOf [t .integer, t .float]

def splatTarget : Body := oneOf [t identifier, softWord, n .subscript, n .attribute]

def binary (sign : Terminal) (level : Int) (side : Side) : Body :=
  ranked level (some side) (seq [n .primary, t sign, n .primary])

/-- The alternatives of each nonterminal. -/
def rule : Nonterminal → Body
  | .document => oneOf [t .endOfText, seq [n .statements, t .endOfText]]
  | .statements => repeated .statements (n .statement)
  | .statement => oneOf [n .simpleStatements, compoundStatement]
  | .simpleStatements =>
    seq [simpleStatement, opt (n .moreSimpleStatements), opt (t semicolon), t .newline]
  | .moreSimpleStatements =>
    repeated .moreSimpleStatements (seq [t semicolon, simpleStatement])
  | .importStatement => seq [t kwImport, n .importList]
  | .dots => repeated .dots (t dot)
  | .relativeImport => seq [n .dots, opt (n .dottedName)]
  | .futureImport => seq [t kwFrom, t kwFuture, t kwImport, importItems]
  | .importFrom =>
    seq [t kwFrom, oneOf [n .relativeImport, n .dottedName], t kwImport,
      oneOf [n .wildcard, importItems]]
  | .importList => listedLoosely importItem .moreImports
  | .moreImports => repeated .moreImports (seq [t comma, importItem])
  | .aliasedImport => seq [n .dottedName, t kwAs, t identifier]
  | .wildcard => t star
  | .printStatement =>
    oneOf
      [ranked 1 none (seq [t kwPrint, listedLoosely (n .chevron) .moreExpressions]),
      ranked (-3) none (seq [t kwPrint, listedLoosely expression .moreExpressions])]
  | .chevron => seq [t .rightShift, expression]
  | .assertStatement => seq [t kwAssert, listed expression .moreExpressions]
  | .expressionStatement =>
    oneOf [listedLoosely expression .moreExpressions, n .assignment, n .augmentedAssignment,
      n .yieldExpression]
  | .namedExpression => seq [oneOf [t identifier, softWord], t .colonEquals, expression]
  | .returnStatement => seq [t kwReturn, opt expressions]
  | .deleteStatement => seq [t kwDel, expressions]
  | .raiseStatement => seq [t kwRaise, opt expressions, opt (seq [t kwFrom, expression])]
  | .passStatement => ranked 0 (some .left) (t kwPass)
  | .breakStatement => ranked 0 (some .left) (t kwBreak)
  | .continueStatement => ranked 0 (some .left) (t kwContinue)
  | .globalStatement => seq [t kwGlobal, listed (t identifier) .moreNames]
  | .nonlocalStatement => seq [t kwNonlocal, listed (t identifier) .moreNames]
  | .moreNames => repeated .moreNames (seq [t comma, t identifier])
  | .execStatement =>
    seq [t kwExec, oneOf [n .string, t identifier],
      opt (seq [t kwIn, listed expression .moreExpressions])]
  | .typeAlias => seq [t kwType, n .type, t equals, n .type]
  | .ifStatement =>
    seq [t kwIf, expression, t colon, suite, opt (n .elifClauses), opt (n .elseClause)]
  | .elifClauses => repeated .elifClauses (n .elifClause)
  | .elifClause => seq [t kwElif, expression, t colon, suite]
  | .elseClause => seq [t kwElse, t colon, suite]
  | .matchStatement =>
    seq [t kwMatch, listedLoosely expression .moreExpressions, t colon, n .matchBlock]
  | .matchBlock => oneOf [seq [t .indent, opt (n .caseClauses), t .dedent], t .newline]
  | .caseClauses => repeated .caseClauses (n .caseClause)
  | .caseClause =>
    seq [t kwCase, listedLoosely (n .casePattern) .moreCasePatterns, opt (n .ifClause), t colon,
      suite]
  | .moreCasePatterns => repeated .moreCasePatterns (seq [t comma, n .casePattern])
  | .forStatement =>
    seq [opt (t kwAsync), t kwFor, leftHandSide, t kwIn, expressions, t colon, suite,
      opt (n .elseClause)]
  | .whileStatement => seq [t kwWhile, expression, t colon, suite, opt (n .elseClause)]
  | .tryStatement =>
    seq [t kwTry, t colon, suite,
      oneOf
        [seq [n .exceptClauses, opt (n .elseClause), opt (n .finallyClause)],
        seq [n .exceptGroups, opt (n .elseClause), opt (n .finallyClause)],
        n .finallyClause]]
  | .exceptClauses => repeated .exceptClauses (n .exceptClause)
  | .exceptClause =>
    seq [t kwExcept,
      opt (seq [expression, opt (seq [oneOf [t kwAs, t comma], expression])]),
      t colon, suite]
  | .exceptGroups => repeated .exceptGroups (n .exceptGroup)
  | .exceptGroup =>
    seq [t .exceptStar, expression, opt (seq [t kwAs, expression]), t colon, suite]
  | .finallyClause => seq [t kwFinally, t colon, suite]
  | .withStatement => seq [opt (t kwAsync), t kwWith, n .withClause, t colon, suite]
  | .withClause =>
    oneOf
      [listedLoosely (n .withItem) .moreWithItems,
      seq [t leftParen, listedLoosely (n .withItem) .moreWithItems, t rightParen]]
  | .withItem => expression
  | .moreWithItems => repeated .moreWithItems (seq [t comma, n .withItem])
  | .functionDefinition =>
    seq [opt (t kwAsync), t kwDef, t identifier, opt (n .typeParameter), n .parameters,
      opt (seq [t .arrow, n .type]), t colon, suite]
  | .parameters => seq [t leftParen, opt (n .parameterList), t rightParen]
  | .parameterList => listedLoosely (n .parameter) .moreParameters
  | .moreParameters => repeated .moreParameters (seq [t comma, n .parameter])
  | .classDefinition =>
    seq [t kwClass, t identifier, opt (n .typeParameter), opt (n .argumentList), t colon, suite]
  | .decorated => seq [n .decorators, oneOf [n .classDefinition, n .functionDefinition]]
  | .decorators => repeated .decorators (n .decorator)
  | .decorator => seq [t .atSign, expression, t .newline]
  | .block => seq [opt (n .statements), t .dedent]
  | .lambdaParameters => n .parameterList
  | .listSplat => seq [t star, expression]
  | .dictionarySplat => seq [t doubleStar, expression]
  | .typeParameter => seq [t leftBracket, listedLoosely (n .type) .moreTypes, t rightBracket]
  | .moreTypes => repeated .moreTypes (seq [t comma, n .type])
  | .parenthesizedSplat =>
    ranked 1 none
      (seq [t leftParen, oneOf [n .parenthesizedSplat, n .listSplat], t rightParen])
  | .argumentList =>
    seq [t leftParen, opt (listed argument .moreArguments), opt (t comma), t rightParen]
  | .moreArguments => repeated .moreArguments (seq [t comma, argument])
  | .expressionList =>
    ranked 0 (some .right)
      (seq [expression, oneOf [t comma, seq [n .moreExpressions, opt (t comma)]]])
  | .moreExpressions => repeated .moreExpressions (seq [t comma, expression])
  | .dottedName => ranked 1 none (seq [t identifier, opt (n .moreNameParts)])
  | .moreNameParts => repeated .moreNameParts (seq [t dot, t identifier])
  | .casePattern =>
    ranked 1 none (oneOf [n .asCasePattern, n .keywordPattern, n .simplePattern])
  | .simplePattern =>
    ranked 1 none
      (oneOf [n .classPattern, n .splatPattern, n .unionPattern, n .listCasePattern,
        n .tupleCasePattern, n .dictPattern, n .string, n .concatenatedString, t kwTrue,
        t kwFalse, t kwNone, seq [opt (t .minus), number], n .complexPattern, n .dottedName,
        t kwUnderscore])
  | .asCasePattern => seq [n .casePattern, t kwAs, t identifier]
  | .unionPattern => ranked 0 (some .right) (seq [n .simplePattern, n .morePatternChoices])
  | .morePatternChoices =>
    repeated .morePatternChoices (ranked 0 (some .left) (seq [t .bar, n .simplePattern]))
  | .listCasePattern => seq [t leftBracket, casePatterns, t rightBracket]
  | .tupleCasePattern => seq [t leftParen, casePatterns, t rightParen]
  | .dictPattern =>
    seq [t leftBrace, opt (listedLoosely dictPatternItem .moreDictPatterns), t rightBrace]
  | .moreDictPatterns => repeated .moreDictPatterns (seq [t comma, dictPatternItem])
  | .keyValuePattern => seq [n .simplePattern, t colon, n .casePattern]
  | .keywordPattern => seq [t identifier, t equals, n .simplePattern]
  | .splatPattern =>
    ranked 1 none (seq [oneOf [t star, t doubleStar], oneOf [t identifier, t kwUnderscore]])
  | .classPattern => seq [n .dottedName, t leftParen, casePatterns, t rightParen]
  | .complexPattern =>
    ranked 1 none (seq [opt (t .minus), number, oneOf [t .plus, t .minus], number])
  | .patternItems => listedLoosely (n .pattern) .morePatterns
  | .morePatterns => repeated .morePatterns (seq [t comma, n .pattern])
  | .parameter =>
    oneOf [t identifier, n .typedParameter, n .defaultParameter, n .typedDefaultParameter,
      n .listSplatPattern, n .tuplePattern, n .keywordSeparator, n .positionalSeparator,
      n .dictionarySplatPattern]
  | .keywordSeparator => t star
  | .positionalSeparator => t .slash
  | .pattern =>
    oneOf [t identifier, softWord, n .subscript, n .attribute, n .listSplatPattern,
      n .tuplePattern, n .listPattern]
  | .tuplePattern => seq [t leftParen, opt (n .patternItems), t rightParen]
  | .listPattern => seq [t leftBracket, opt (n .patternItems), t rightBracket]
  | .defaultParameter =>
    seq [oneOf [t identifier, n .tuplePattern], t equals, expression]
  | .typedDefaultParameter =>
    ranked (-1) none (seq [t identifier, t colon, n .type, t equals, expression])
  | .listSplatPattern => seq [t star, splatTarget]
  | .dictionarySplatPattern => seq [t doubleStar, splatTarget]
  | .typedParameter =>
    ranked (-1) none
      (seq [oneOf [t identifier, n .listSplatPattern, n .dictionarySplatPattern], t colon,
        n .type])
  | .asPattern => ranked 0 (some .left) (seq [expression, t kwAs, expression])
  | .comprehensionSource => oneOf [expression, n .comprehensionLambda]
  | .expression =>
    oneOf [n .comparison, n .notOperator, n .booleanOperator, n .lambda, n .primary,
      n .conditional, n .namedExpression, n .asPattern]
  | .primary =>
    oneOf [n .awaitExpression, n .binaryOperator, t identifier, softWord, n .string,
      n .concatenatedString, number, t kwTrue, t kwFalse, t kwNone, n .unaryOperator,
      n .attribute, n .subscript, n .call, n .list, n .listComprehension, n .dictionary,
      n .dictionaryComprehension, n .set, n .setComprehension, n .tuple, n .parenthesized,
      n .generator, t .ellipsis, n .listSplatPattern]
  | .notOperator => ranked 12 none (seq [t kwNot, expression])
  | .booleanOperator =>
    oneOf [ranked 11 (some .left) (seq [expression, t kwAnd, expression]),
      ranked 10 (some .left) (seq [expression, t kwOr, expression])]
  | .binaryOperator =>
    oneOf [binary .plus 18 .left, binary .minus 18 .left, binary .star 19 .left,
      binary .atSign 19 .left, binary .slash 19 .left, binary .percent 19 .left,
      binary .doubleSlash 19 .left, binary .doubleStar 21 .right, binary .bar 14 .left,
      binary .ampersand 15 .left, binary .caret 16 .left, binary .leftShift 17 .left,
      binary .rightShift 17 .left]
  | .unaryOperator => ranked 20 none (seq [oneOf [t .plus, t .minus, t .tilde], n .primary])
  | .notIn => seq [t kwNot, t kwIn]
  | .isNot => seq [t kwIs, t kwNot]
  | .comparison => ranked 13 (some .left) (seq [n .primary, n .moreComparisons])
  | .moreComparisons =>
    repeated .moreComparisons
      (seq [oneOf [t .less, t .lessEquals, t .doubleEquals, t .bangEquals, t .greaterEquals,
        t .greater, t .lessGreater, t kwIn, n .notIn, t kwIs, n .isNot], n .primary])
  | .lambda =>
    ranked (-2) none (seq [t kwLambda, opt (n .lambdaParameters), t colon, expression])
  | .comprehensionLambda =>
    seq [t kwLambda, opt (n .lambdaParameters), t colon, n .comprehensionSource]
  | .assignment =>
    seq [leftHandSide,
      oneOf [seq [t equals, n .rightHandSide], seq [t colon, n .type],
        seq [t colon, n .type, t equals, n .rightHandSide]]]
  | .augmentedAssignment =>
    seq [leftHandSide,
      oneOf [t .plusEquals, t .minusEquals, t .starEquals, t .slashEquals, t .atEquals,
        t .doubleSlashEquals, t .percentEquals, t .doubleStarEquals, t .rightShiftEquals,
        t .leftShiftEquals, t .ampersandEquals, t .caretEquals, t .barEquals],
      n .rightHandSide]
  | .patternList =>
    seq [n .pattern, oneOf [t comma, seq [n .morePatterns, opt (t comma)]]]
  | .rightHandSide =>
    oneOf [expression, n .expressionList, n .assignment, n .augmentedAssignment, n .patternList,
      n .yieldExpression]
  | .yieldExpression =>
    ranked 0 (some .right)
      (seq [t kwYield, oneOf [seq [t kwFrom, expression], opt expressions]])
  | .attribute => ranked 22 none (seq [n .primary, t dot, t identifier])
  | .subscript =>
    ranked 22 none
      (seq [n .primary, t leftBracket,
        listedLoosely (oneOf [expression, n .slice]) .moreSubscripts, t rightBracket])
  | .moreSubscripts =>
    repeated .moreSubscripts (seq [t comma, oneOf [expression, n .slice]])
  | .slice =>
    seq [opt expression, t colon, opt expression, opt (seq [t colon, opt expression])]
  | .call => ranked 22 none (seq [n .primary, oneOf [n .generator, n .argumentList]])
  | .type =>
    oneOf [ranked 1 none expression, n .splatType, n .genericType, n .unionType,
      n .constrainedType, n .memberType]
  | .splatType => ranked 1 none (seq [oneOf [t star, t doubleStar], t identifier])
  | .genericType => ranked 1 none (seq [t identifier, n .typeParameter])
  | .unionType => ranked 0 (some .left) (seq [n .type, t .bar, n .type])
  | .constrainedType => ranked 0 (some .right) (seq [n .type, t colon, n .type])
  | .memberType => seq [n .type, t dot, t identifier]
  | .keywordArgument => seq [oneOf [t identifier, softWord], t equals, expression]
  | .list => seq [t leftBracket, opt (n .collectionElements), t rightBracket]
  | .set => seq [t leftBrace, n .collectionElements, t rightBrace]
  | .tuple => seq [t leftParen, opt (n .collectionElements), t rightParen]
  | .dictionary =>
    seq [t leftBrace, opt (listed dictionaryItem .moreDictionaryItems), opt (t comma),
      t rightBrace]
  | .moreDictionaryItems => repeated .moreDictionaryItems (seq [t comma, dictionaryItem])
  | .pair => seq [expression, t colon, expression]
  | .listComprehension =>
    seq [t leftBracket, expression, n .comprehensionClauses, t rightBracket]
  | .dictionaryComprehension =>
    seq [t leftBrace, n .pair, n .comprehensionClauses, t rightBrace]
  | .setComprehension => seq [t leftBrace, expression, n .comprehensionClauses, t rightBrace]
  | .generator => seq [t leftParen, expression, n .comprehensionClauses, t rightParen]
  | .comprehensionClauses => seq [n .forInClause, opt (n .moreComprehensionClauses)]
  | .moreComprehensionClauses =>
    repeated .moreComprehensionClauses (oneOf [n .forInClause, n .ifClause])
  | .parenthesized =>
    ranked 1 none
      (seq [t leftParen, oneOf [expression, n .yieldExpression], t rightParen])
  | .collectionElements => listedLoosely collectionElement .moreCollectionElements
  | .moreCollectionElements => repeated .moreCollectionElements (seq [t comma, collectionElement])
  | .forInClause =>
    ranked 0 (some .left)
      (seq [opt (t kwAsync), t kwFor, leftHandSide, t kwIn,
        listedLoosely (n .comprehensionSource) .moreComprehensionSources])
  | .moreComprehensionSources =>
    repeated .moreComprehensionSources (seq [t comma, n .comprehensionSource])
  | .ifClause => seq [t kwIf, expression]
  | .conditional =>
    ranked (-1) (some .right) (seq [expression, t kwIf, expression, t kwElse, expression])
  | .concatenatedString => seq [n .string, n .moreStrings]
  | .moreStrings => repeated .moreStrings (n .string)
  | .string => seq [t .stringStart, opt (n .stringParts), t .stringEnd]
  | .stringParts => repeated .stringParts (oneOf [n .interpolation, n .stringText])
  | .stringText => ranked 0 (some .right) (n .stringPieces)
  | .stringPieces =>
    repeated .stringPieces
      (oneOf [t .doubledBrace, t .escape, t .loneBackslash, t .stringContent])
  | .interpolation =>
    seq [t leftBrace, n .interpolated, opt (t equals), opt (t .conversion),
      opt (n .formatSpecifier), t rightBrace]
  | .interpolated =>
    oneOf [expression, n .expressionList, n .patternList, n .yieldExpression]
  | .formatSpecifier => seq [t colon, opt (n .formatParts)]
  | .formatParts => repeated .formatParts (oneOf [t .formatText, n .interpolation])
  | .awaitExpression => ranked 20 none (seq [t kwAwait, n .primary])

end Grammar

structure Production where
  number : Nat
  head : Nonterminal
  steps : List Step
  deriving Repr

namespace Production

/-- How tightly a finished production binds: the level of its last step. -/
def level (p : Production) : Int := (p.steps.getLast?.bind (·.level)).getD 0

def side (p : Production) : Option Side := p.steps.getLast?.bind (·.side)

/-- Whether the production adds one more item to a repetition: it then begins with its own head. -/
def isRepetition (p : Production) : Bool :=
  p.steps.head?.map (·.symbol) == some (.nonterminal p.head)

end Production

namespace Grammar

def numbered (pairs : List (Nonterminal × List Step)) : List Production :=
  pairs.zipIdx.map fun ((head, steps), i) => ⟨i, head, steps⟩

/-- All productions, each with a number of its own. -/
def productions : List Production :=
  numbered (Nonterminal.all.flatMap fun x => (rule x).eraseDups.map fun steps => (x, steps))

end Grammar

end ScriptPack.Python
