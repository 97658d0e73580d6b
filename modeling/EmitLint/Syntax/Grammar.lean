/-
# Nonterminals

The rules of the grammar refer to each other in circles.  What closes the
circles is listed here: a `Nonterminal α` names a construct that is parsed
to an `α`, and a `Grammar` has a parser for each of them.  Every rule takes
a grammar and asks it for the parts of its construct, so the rules can be
spread over modules; `Syntax.Parse` ties them together.
-/
import EmitLint.Syntax.Parser

namespace EmitLint.Syntax

/-- The constructs that others can contain. -/
inductive Nonterminal : Type → Type
  /-- An expression in which commas can stand. -/
  | expression : Nonterminal Expr
  /-- An expression without commas.  The flag tells whether an arrow function
  in it can name its type, which it cannot before the colon of a
  conditional. -/
  | assignment (arrowType : Bool) : Nonterminal Expr
  /-- An operand of a binary operator that binds as tightly as the level. -/
  | operand (level : Nat) : Nonterminal Expr
  /-- The operand of a sign or a word such as `typeof`. -/
  | unary : Nonterminal Expr
  /-- A call, a member of something, or something simpler. -/
  | leftHandSide : Nonterminal Expr
  /-- What a `new` creates. -/
  | constructed : Nonterminal Expr
  /-- An element or fragment of JSX from behind its first bracket up to its
  last, by the expressions embedded in it. -/
  | markup : Nonterminal (List Expr)
  /-- A name, or a pattern in brackets or braces. -/
  | pattern : Nonterminal Pattern
  /-- The parameters of a function, with their parentheses. -/
  | parameters : Nonterminal (List Pattern)
  /-- Statements in braces. -/
  | block : Nonterminal (List Stmt)
  /-- The body of a function, with its braces. -/
  | body : Nonterminal (List Stmt)
  /-- A statement.  The flag tells whether it is all that a branch, a loop or a
  label has. -/
  | statement (alone : Bool) : Nonterminal Stmt
  /-- A class behind the word `class`. -/
  | classTail : Nonterminal Class
  | type : Nonterminal Unit
  /-- The members of an interface, with their braces. -/
  | typeMembers : Nonterminal Unit

/-- A parser for every construct. -/
structure Grammar where
  rule : {α : Type} → Nonterminal α → Parser α

namespace Grammar

/-- An expression without commas. -/
def item (g : Grammar) : Parser Expr := g.rule (.assignment true)

/-- An expression without commas, where `in` is an operator. -/
def value (g : Grammar) : Parser Expr := Parser.withIn g.item

/-- An expression, where `in` is an operator. -/
def anything (g : Grammar) : Parser Expr := Parser.withIn (g.rule .expression)

end Grammar
end EmitLint.Syntax
