import SchemaCompiler.Module.Grammar.CasePattern
import SchemaCompiler.Module.Grammar.FormattedLiteral

/-! The grammar of module texts. `Phrase.rule` says how a phrase is made of others, and
`isModuleText` tells whether a text is a module: a sequence of statements. -/

namespace SchemaCompiler

namespace Phrase

open Token

def rule (derive : Derive) : Phrase → List Token → Derived
  | .expression => expressionRule derive
  | .namedExpression => namedExpressionRule derive
  | .disjunction => chain derive .inversion .disjunction fun ts =>
      afterWord "or" ts <|> afterWord "and" ts
  | .inversion => inversionRule derive
  | .comparison => chain derive .sum .comparison afterComparison
  | .sum => chain derive .operand .sum afterBinary
  | .operand => operandRule derive
  | .primary => primaryRule derive
  | .atom => atomRule derive
  | .trailers role => trailersRule derive role
  | .starExpression => starRule derive .expression
  | .starNamed => starRule derive .namedExpression
  | .starExpressions => starExpressionsRule derive
  | .elements close roles => elementsRule derive close roles
  | .parenthesized => parenthesizedRule derive
  | .bracketed => bracketedRule derive
  | .braced => bracedRule derive
  | .tableItems => itemsRule derive .tableItem .tableItems
  | .tableItem => tableItemRule derive
  | .setItems => itemsRule derive .starNamed .setItems
  | .clauses => clausesRule derive
  | .targets roles => targetsRule derive roles
  | .target => targetRule derive
  | .arguments phase first => argumentsRule derive phase first
  | .slices => slicesRule derive
  | .slice => sliceRule derive
  | .parameters annotated close state => parametersRule derive annotated close state
  | .typeHint starred => typeHintRule derive starred
  | .yielded => yieldedRule derive
  | .literals bytes => literalsRule derive bytes
  | .simpleLine => simpleLineRule derive
  | .simple => simpleRule derive
  | .assigned role => assignedRule derive role
  | .dottedName => dottedNameRule derive
  | .importItems => importItemsRule derive
  | .importNames close => importNamesRule derive close
  | .nameList => nameListRule derive
  | .block => blockRule derive
  | .statements => statementsRule derive
  | .statement => statementRule derive
  | .compound first => compoundRule derive first
  | .ifRest => ifRestRule derive
  | .handlers grouped => handlersRule derive grouped
  | .withItems => withItemsRule derive
  | .withItem => withItemRule derive
  | .cases => casesRule derive
  | .patterns first => patternsRule derive first
  | .pattern => patternRule derive
  | .closedPattern => closedPatternRule derive
  | .sequencePattern close first => sequencePatternRule derive close first
  | .tablePattern => tablePatternRule derive
  | .classPattern named => classPatternRule derive named

/-- Derives a phrase with at most `depth` phrases inside one another. -/
def derive : (depth : Nat) → Phrase → List Token → Derived
  | 0, _, _ => none
  | depth + 1, p, ts => rule (derive depth) p ts

end Phrase

/-- Whether a text is a module. A phrase without a token of its own stands inside less than sixteen
others of its kind, so the length of the text bounds the depth of the phrases. -/
def isModuleText (text : String) : Bool :=
  match Token.ofChars? text.toList with
  | some ts =>
    (Phrase.derive (16 * (text.length + 1)) .statements ts).any fun (_, rest) => rest = []
  | none => false

end SchemaCompiler
