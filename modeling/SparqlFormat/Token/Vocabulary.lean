/-!
# The words of the language

Keywords are written in upper case here and read in either case. They fall into built-in
functions, aggregates and clause words; `keywords` is all of them. The word `a`, short for the
type predicate, is apart: it is read in lower case only and kept as the keyword `A`.
-/

namespace SparqlFormat

/-- A list of words as lists of characters. -/
def words (ws : List String) : List (List Char) :=
  ws.map String.toList

/-- The built-in functions. -/
def functionWords : List (List Char) :=
  words
    ["STR", "LANG", "LANGMATCHES", "DATATYPE", "BOUND", "IRI", "URI", "BNODE",
     "RAND", "ABS", "CEIL", "FLOOR", "ROUND", "CONCAT", "STRLEN", "UCASE",
     "LCASE", "ENCODE_FOR_URI", "CONTAINS", "STRSTARTS", "STRENDS", "STRBEFORE",
     "STRAFTER", "YEAR", "MONTH", "DAY", "HOURS", "MINUTES", "SECONDS",
     "TIMEZONE", "TZ", "NOW", "UUID", "STRUUID", "MD5", "SHA1", "SHA256",
     "SHA384", "SHA512", "COALESCE", "IF", "STRLANG", "STRDT", "SAMETERM",
     "SUBSTR", "REPLACE", "ISIRI", "ISURI", "ISBLANK", "ISLITERAL", "ISNUMERIC",
     "REGEX"]

/-- The set functions of grouped queries. -/
def aggregateWords : List (List Char) :=
  words ["COUNT", "SUM", "MIN", "MAX", "AVG", "SAMPLE", "GROUP_CONCAT"]

/-- The words that build clauses and updates. -/
def clauseWords : List (List Char) :=
  words
    ["ADD", "ALL", "AS", "ASC", "ASK", "BASE", "BIND", "BY", "CLEAR",
     "CONSTRUCT", "COPY", "CREATE", "DATA", "DEFAULT", "DELETE", "DESC",
     "DESCRIBE", "DISTINCT", "DROP", "EXISTS", "FILTER", "FROM", "GRAPH",
     "GROUP", "HAVING", "IN", "INSERT", "INTO", "LIMIT", "LOAD", "MINUS",
     "MOVE", "NAMED", "NOT", "OFFSET", "OPTIONAL", "ORDER", "PREFIX",
     "REDUCED", "SELECT", "SEPARATOR", "SERVICE", "SILENT", "TO", "UNDEF",
     "UNION", "USING", "VALUES", "WHERE", "WITH"]

/-- Every keyword. -/
def keywords : List (List Char) :=
  clauseWords ++ functionWords ++ aggregateWords

/-- The keyword that the lone letter `a` stands for. -/
def typeWord : List Char := ['A']

/-- The two words that are literals, in the case they are kept in. -/
def booleanWords : List (List Char) :=
  words ["true", "false"]

end SparqlFormat
