import SparqlFormat.Grammar.Rule
import SparqlFormat.Grammar.Terminal

/-!
# The grammar of queries and updates

The productions of the SPARQL 1.1 grammar over tokens. A nonterminal is kept where the grammar is
recursive or where a production says something of its own; classes of terminals and short
alternatives are abbreviations. Rules outside the productions (scopes, undeclared prefixes,
labels used twice) are not part of the grammar.

Empty brackets are one token here, so an empty set of negated paths is that token.
-/

namespace SparqlFormat.Grammar

/-- The nonterminals. -/
inductive Nonterminal
  | query
  | update
  | prologue
  | selectQuery
  | subSelect
  | selectClause
  | constructQuery
  | describeQuery
  | askQuery
  | datasetClause
  | whereClause
  | solutionModifier
  | groupClause
  | groupCondition
  | havingClause
  | orderClause
  | orderCondition
  | limitOffsetClauses
  | valuesClause
  | updateOperation
  | load
  | clear
  | create
  | transfer
  | insertOperation
  | deleteOperation
  | withOperation
  | usingClause
  | graphOrDefault
  | graphRef
  | graphRefAll
  | quads
  | quadBlock
  | quadsNotTriples
  | triplesTemplate
  | groupGraphPattern
  | groupGraphPatternBody
  | triplesBlock
  | graphPatternNotTriples
  | filter
  | bind
  | inlineData
  | dataBlock
  | dataBlockValue
  | groupOrUnion
  | constraint
  | functionCall
  | argumentList
  | expressionList
  | triplesSameSubject
  | propertyList
  | objectList
  | triplesSameSubjectPath
  | propertyListPath
  | objectListPath
  | pathAlternative
  | pathSequence
  | pathElement
  | pathPrimary
  | negatedPropertySet
  | negatedProperty
  | triplesNode
  | triplesNodePath
  | graphNode
  | graphNodePath
  | graphTerm
  | expression
  | conjunction
  | relation
  | sum
  | product
  | unary
  | primary
  | bracketted
  | builtInCall
  | aggregate
  | nameOrCall
  | literal

/-- A right-hand side. -/
abbrev Production := Rule Nonterminal Terminal

/-- A mark as a right-hand side. -/
def mark (m : Mark) : Production := .terminal (.mark m)

/-- A keyword as a right-hand side. -/
def word (w : String) : Production := .terminal (.word w.toList)

/-- A nonterminal as a right-hand side. -/
def call (n : Nonterminal) : Production := .call n

/-- A resource named by identifier or prefixed name. -/
def name : Production := .alt (.terminal .iri) (.terminal .prefixedName)

/-- A variable. -/
def var : Production := .terminal .var

/-- A variable or a resource. -/
def varOrName : Production := .alt var name

/-- The predicate of a triple in a template. -/
def verb : Production := .alt varOrName (word "A")

/-- A variable or a constant. -/
def varOrTerm : Production := .alt var (call .graphTerm)

/-- One of several keywords. -/
def anyWord (ws : List String) : Production := .oneOf (ws.map word)

/-- A rule between parentheses. -/
def inParens (r : Production) : Production := .row [mark .openParen, r, mark .closeParen]

/-- A rule between braces. -/
def inBraces (r : Production) : Production := .row [mark .openBrace, r, mark .closeBrace]

/-- A rule between brackets. -/
def inBrackets (r : Production) : Production := .row [mark .openBracket, r, mark .closeBracket]

/-- Expressions with commas between them, one more than given. -/
def expressions : Nat → Production
  | 0 => call .expression
  | n + 1 => .row [call .expression, mark .comma, expressions n]

/-- A function of a fixed number of arguments, one more than given. -/
def function (ws : List String) (more : Nat) : Production :=
  .seq (anyWord ws) (inParens (expressions more))

/-- A function of a fixed number of arguments, one more than given, and an optional last one. -/
def functionWithOption (w : String) (more : Nat) : Production :=
  .seq (word w)
    (inParens (.seq (expressions more) (.opt (.seq (mark .comma) (call .expression)))))

/-- A bracketed expression that gets a name. -/
def named : Production :=
  inParens (.row [call .expression, word "AS", var])

/-! ## Productions -/

/-- The right-hand side of each nonterminal. -/
def production : Nonterminal → Production
  | .query =>
    .row
      [call .prologue,
       .oneOf [call .selectQuery, call .constructQuery, call .describeQuery, call .askQuery],
       call .valuesClause]
  | .update =>
    .seq (call .prologue)
      (.opt (.seq (call .updateOperation) (.opt (.seq (mark .semicolon) (call .update)))))
  | .prologue =>
    .star
      (.alt (.seq (word "BASE") (.terminal .iri))
        (.row [word "PREFIX", .terminal .declaredPrefix, .terminal .iri]))
  | .selectQuery =>
    .row
      [call .selectClause, .star (call .datasetClause), call .whereClause, call .solutionModifier]
  | .subSelect =>
    .row [call .selectClause, call .whereClause, call .solutionModifier, call .valuesClause]
  | .selectClause =>
    .row
      [word "SELECT", .opt (anyWord ["DISTINCT", "REDUCED"]),
       .alt (.plus (.alt var named)) (mark .star)]
  | .constructQuery =>
    .seq (word "CONSTRUCT")
      (.alt
        (.row
          [inBraces (.opt (call .triplesTemplate)), .star (call .datasetClause),
           call .whereClause, call .solutionModifier])
        (.row
          [.star (call .datasetClause), word "WHERE", inBraces (.opt (call .triplesTemplate)),
           call .solutionModifier]))
  | .describeQuery =>
    .row
      [word "DESCRIBE", .alt (.plus varOrName) (mark .star), .star (call .datasetClause),
       .opt (call .whereClause), call .solutionModifier]
  | .askQuery =>
    .row [word "ASK", .star (call .datasetClause), call .whereClause, call .solutionModifier]
  | .datasetClause => .row [word "FROM", .opt (word "NAMED"), name]
  | .whereClause => .seq (.opt (word "WHERE")) (call .groupGraphPattern)
  | .solutionModifier =>
    .row
      [.opt (call .groupClause), .opt (call .havingClause), .opt (call .orderClause),
       .opt (call .limitOffsetClauses)]
  | .groupClause => .row [word "GROUP", word "BY", .plus (call .groupCondition)]
  | .groupCondition =>
    .oneOf
      [call .builtInCall, call .functionCall,
       inParens (.seq (call .expression) (.opt (.seq (word "AS") var))), var]
  | .havingClause => .seq (word "HAVING") (.plus (call .constraint))
  | .orderClause => .row [word "ORDER", word "BY", .plus (call .orderCondition)]
  | .orderCondition =>
    .oneOf
      [.seq (anyWord ["ASC", "DESC"]) (call .bracketted), call .constraint, var]
  | .limitOffsetClauses =>
    let limit : Production := .seq (word "LIMIT") (.terminal .unsignedInteger)
    let offset : Production := .seq (word "OFFSET") (.terminal .unsignedInteger)
    .alt (.seq limit (.opt offset)) (.seq offset (.opt limit))
  | .valuesClause => .opt (call .inlineData)
  | .updateOperation =>
    .oneOf
      [call .load, call .clear, call .create, call .transfer, call .insertOperation,
       call .deleteOperation, call .withOperation]
  | .load =>
    .row
      [word "LOAD", .opt (word "SILENT"), name, .opt (.seq (word "INTO") (call .graphRef))]
  | .clear =>
    .row [anyWord ["CLEAR", "DROP"], .opt (word "SILENT"), call .graphRefAll]
  | .create => .row [word "CREATE", .opt (word "SILENT"), call .graphRef]
  | .transfer =>
    .row
      [anyWord ["ADD", "MOVE", "COPY"], .opt (word "SILENT"), call .graphOrDefault, word "TO",
       call .graphOrDefault]
  | .insertOperation =>
    .seq (word "INSERT")
      (.alt (.seq (word "DATA") (call .quadBlock))
        (.row
          [call .quadBlock, .star (call .usingClause), word "WHERE", call .groupGraphPattern]))
  | .deleteOperation =>
    .seq (word "DELETE")
      (.oneOf
        [.seq (word "DATA") (call .quadBlock), .seq (word "WHERE") (call .quadBlock),
         .row
          [call .quadBlock, .opt (.seq (word "INSERT") (call .quadBlock)),
           .star (call .usingClause), word "WHERE", call .groupGraphPattern]])
  | .withOperation =>
    .row
      [word "WITH", name,
       .alt
        (.row
          [word "DELETE", call .quadBlock, .opt (.seq (word "INSERT") (call .quadBlock))])
        (.seq (word "INSERT") (call .quadBlock)),
       .star (call .usingClause), word "WHERE", call .groupGraphPattern]
  | .usingClause => .row [word "USING", .opt (word "NAMED"), name]
  | .graphOrDefault => .alt (word "DEFAULT") (.seq (.opt (word "GRAPH")) name)
  | .graphRef => .seq (word "GRAPH") name
  | .graphRefAll => .alt (call .graphRef) (anyWord ["DEFAULT", "NAMED", "ALL"])
  | .quads =>
    .seq (.opt (call .triplesTemplate))
      (.star
        (.row
          [call .quadsNotTriples, .opt (mark .dot), .opt (call .triplesTemplate)]))
  | .quadBlock => inBraces (call .quads)
  | .quadsNotTriples =>
    .row [word "GRAPH", varOrName, inBraces (.opt (call .triplesTemplate))]
  | .triplesTemplate =>
    .seq (call .triplesSameSubject) (.opt (.seq (mark .dot) (.opt (call .triplesTemplate))))
  | .groupGraphPattern => inBraces (.alt (call .subSelect) (call .groupGraphPatternBody))
  | .groupGraphPatternBody =>
    .seq (.opt (call .triplesBlock))
      (.star
        (.row
          [call .graphPatternNotTriples, .opt (mark .dot), .opt (call .triplesBlock)]))
  | .triplesBlock =>
    .seq (call .triplesSameSubjectPath) (.opt (.seq (mark .dot) (.opt (call .triplesBlock))))
  | .graphPatternNotTriples =>
    .oneOf
      [call .groupOrUnion, .seq (anyWord ["OPTIONAL", "MINUS"]) (call .groupGraphPattern),
       .row [word "GRAPH", varOrName, call .groupGraphPattern],
       .row [word "SERVICE", .opt (word "SILENT"), varOrName, call .groupGraphPattern],
       call .filter, call .bind, call .inlineData]
  | .filter => .seq (word "FILTER") (call .constraint)
  | .bind => .seq (word "BIND") named
  | .inlineData => .seq (word "VALUES") (call .dataBlock)
  | .dataBlock =>
    .alt (.seq var (inBraces (.star (call .dataBlockValue))))
      (.seq (.alt (mark .emptyParens) (inParens (.star var)))
        (inBraces
          (.star (.alt (inParens (.star (call .dataBlockValue))) (mark .emptyParens)))))
  | .dataBlockValue => .oneOf [name, call .literal, word "UNDEF"]
  | .groupOrUnion => .separated (word "UNION") (call .groupGraphPattern)
  | .constraint => .oneOf [call .bracketted, call .builtInCall, call .functionCall]
  | .functionCall => .seq name (call .argumentList)
  | .argumentList =>
    .alt (mark .emptyParens)
      (inParens (.seq (.opt (word "DISTINCT")) (.separated (mark .comma) (call .expression))))
  | .expressionList =>
    .alt (mark .emptyParens) (inParens (.separated (mark .comma) (call .expression)))
  | .triplesSameSubject =>
    .alt (.seq varOrTerm (call .propertyList))
      (.seq (call .triplesNode) (.opt (call .propertyList)))
  | .propertyList =>
    .row
      [verb, call .objectList,
       .star (.seq (mark .semicolon) (.opt (.seq verb (call .objectList))))]
  | .objectList => .separated (mark .comma) (call .graphNode)
  | .triplesSameSubjectPath =>
    .alt (.seq varOrTerm (call .propertyListPath))
      (.seq (call .triplesNodePath) (.opt (call .propertyListPath)))
  | .propertyListPath =>
    let verbPath : Production := .alt (call .pathAlternative) var
    .row
      [verbPath, call .objectListPath,
       .star (.seq (mark .semicolon) (.opt (.seq verbPath (call .objectList))))]
  | .objectListPath => .separated (mark .comma) (call .graphNodePath)
  | .pathAlternative => .separated (mark .bar) (call .pathSequence)
  | .pathSequence => .separated (mark .slash) (.seq (.opt (mark .caret)) (call .pathElement))
  | .pathElement =>
    .seq (call .pathPrimary) (.opt (.oneOf [mark .question, mark .star, mark .plus]))
  | .pathPrimary =>
    .oneOf
      [name, word "A", .seq (mark .bang) (call .negatedPropertySet),
       inParens (call .pathAlternative)]
  | .negatedPropertySet =>
    .oneOf
      [call .negatedProperty, mark .emptyParens,
       inParens (.separated (mark .bar) (call .negatedProperty))]
  | .negatedProperty => .seq (.opt (mark .caret)) (.alt name (word "A"))
  | .triplesNode =>
    .alt (inParens (.plus (call .graphNode))) (inBrackets (call .propertyList))
  | .triplesNodePath =>
    .alt (inParens (.plus (call .graphNodePath))) (inBrackets (call .propertyListPath))
  | .graphNode => .alt varOrTerm (call .triplesNode)
  | .graphNodePath => .alt varOrTerm (call .triplesNodePath)
  | .graphTerm =>
    .oneOf
      [name, call .literal, .terminal .blankNode, mark .emptyBrackets, mark .emptyParens]
  | .expression => .separated (mark .either) (call .conjunction)
  | .conjunction => .separated (mark .both) (call .relation)
  | .relation =>
    .seq (call .sum)
      (.opt
        (.alt
          (.seq
            (.oneOf
              ([.equal, .notEqual, .below, .above, .atMost, .atLeast].map mark))
            (call .sum))
          (.row [.opt (word "NOT"), word "IN", call .expressionList])))
  | .sum =>
    .seq (call .product)
      (.star
        (.alt (.seq (.alt (mark .plus) (mark .minus)) (call .product))
          (.seq (.terminal .signedNumber)
            (.star (.seq (.alt (mark .star) (mark .slash)) (call .unary))))))
  | .product =>
    .seq (call .unary) (.star (.seq (.alt (mark .star) (mark .slash)) (call .unary)))
  | .unary =>
    .seq (.opt (.oneOf [mark .bang, mark .plus, mark .minus])) (call .primary)
  | .primary =>
    .oneOf [call .bracketted, call .builtInCall, call .nameOrCall, call .literal, var]
  | .bracketted => inParens (call .expression)
  | .builtInCall =>
    .oneOf
      [call .aggregate,
       function
        ["STR", "LANG", "DATATYPE", "IRI", "URI", "ABS", "CEIL", "FLOOR", "ROUND", "STRLEN",
         "UCASE", "LCASE", "ENCODE_FOR_URI", "YEAR", "MONTH", "DAY", "HOURS", "MINUTES",
         "SECONDS", "TIMEZONE", "TZ", "MD5", "SHA1", "SHA256", "SHA384", "SHA512", "ISIRI",
         "ISURI", "ISBLANK", "ISLITERAL", "ISNUMERIC"] 0,
       function
        ["LANGMATCHES", "CONTAINS", "STRSTARTS", "STRENDS", "STRBEFORE", "STRAFTER", "STRLANG",
         "STRDT", "SAMETERM"] 1,
       function ["IF"] 2,
       functionWithOption "REGEX" 1, functionWithOption "SUBSTR" 1,
       functionWithOption "REPLACE" 2,
       .seq (word "BOUND") (inParens var),
       .seq (word "BNODE") (.alt (inParens (call .expression)) (mark .emptyParens)),
       .seq (anyWord ["RAND", "NOW", "UUID", "STRUUID"]) (mark .emptyParens),
       .seq (anyWord ["CONCAT", "COALESCE"]) (call .expressionList),
       .row [.opt (word "NOT"), word "EXISTS", call .groupGraphPattern]]
  | .aggregate =>
    .oneOf
      [.seq (word "COUNT")
        (inParens
          (.seq (.opt (word "DISTINCT")) (.alt (mark .star) (call .expression)))),
       .seq (anyWord ["SUM", "MIN", "MAX", "AVG", "SAMPLE"])
        (inParens (.seq (.opt (word "DISTINCT")) (call .expression))),
       .seq (word "GROUP_CONCAT")
        (inParens
          (.row
            [.opt (word "DISTINCT"), call .expression,
             .opt
              (.row
                [mark .semicolon, word "SEPARATOR", mark .equal, .terminal .string])]))]
  | .nameOrCall => .seq name (.opt (call .argumentList))
  | .literal =>
    .oneOf
      [.seq (.terminal .string)
        (.opt (.alt (.terminal .language) (.seq (mark .typed) name))),
       .terminal .number, .terminal .boolean]

/-- The nonterminals that cover nothing. -/
def mayVanish : Nonterminal → Bool
  | .update | .prologue | .solutionModifier | .valuesClause | .quads | .groupGraphPatternBody =>
    true
  | _ => false

/-- The grammar of the query language over its tokens. -/
def sparql : System Nonterminal Terminal Token where
  production := production
  covers := Terminal.covers
  vanishes := mayVanish
  depth := 9

end SparqlFormat.Grammar
