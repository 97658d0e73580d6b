/-
# Syntax trees of scripts

What a script looks like once it is parsed.  Every place where an expression
or a statement can stand is kept: also defaults of parameters, computed keys,
targets of assignments, decorators, and what is embedded in JSX.  Dropped are
types, of which a call keeps only whether it has type arguments, directives,
and the names that imports and exports list.

Three conventions keep the tree small.  Parentheses and the type wrappers
`as`, `satisfies`, `!` and `<T>` are all `wrapped` nodes.  An optional chain
is a `chain` node around ordinary calls and member accesses, of which those
with `?.` are marked.  A pattern, in a declaration as in an assignment, is a
`Pattern`; one that is not taken apart holds a name or an expression.
-/
import EmitLint.Text.Span

namespace EmitLint.Syntax

/-- What can stand around an expression without changing its value. -/
inductive Wrapper
  | parens
  | asType
  | satisfies
  | nonNull
  | assertion
deriving DecidableEq, Repr

mutual

/-- An expression. -/
inductive Expr
  /-- An identifier. -/
  | name (span : Span) (text : String)
  | null (span : Span)
  | string (span : Span) (value : String)
  /-- A number, by the decimal text of its value. -/
  | number (span : Span) (text : String)
  /-- An expression without parts: `this`, `true`, a regular expression, … -/
  | atom (span : Span)
  /-- A template; `head` is its text up to the first substitution, unless an
  escape in it has no meaning. -/
  | template (span : Span) (head : Option String) (parts : List Expr)
  | tagged (span : Span) (tag : Expr) (parts : List Expr)
  | array (span : Span) (elements : List Element)
  | object (span : Span) (properties : List Property)
  | function (span : Span) (fn : Function)
  | arrow (span : Span) (fn : Function)
  | classExpr (span : Span) (cls : Class)
  | call (span : Span) (optional : Bool) (callee : Expr) (typeArgs : Bool)
      (args : List Element)
  | new (span : Span) (callee : Expr) (args : List Element)
  | member (span : Span) (optional : Bool) (object : Expr) (property : String)
  | index (span : Span) (optional : Bool) (object : Expr) (key : Expr)
  | privateMember (span : Span) (optional : Bool) (object : Expr) (field : String)
  | chain (span : Span) (body : Expr)
  | importCall (span : Span) (args : List Expr)
  | unary (span : Span) (op : String) (arg : Expr)
  | update (span : Span) (op : String) (target : Expr)
  | binary (span : Span) (op : String) (left right : Expr)
  /-- The test `#field in right`. -/
  | privateIn (span : Span) (field : String) (right : Expr)
  | conditional (span : Span) (test yes no : Expr)
  | assign (span : Span) (op : String) (target : Pattern) (value : Expr)
  | sequence (span : Span) (items : List Expr)
  | await (span : Span) (arg : Expr)
  | yield (span : Span) (arg : Option Expr)
  | wrapped (span : Span) (wrapper : Wrapper) (inner : Expr)
  /-- Type arguments without a call. -/
  | instantiation (span : Span) (inner : Expr)
  /-- A JSX element or fragment, by the expressions embedded in it. -/
  | jsx (span : Span) (embedded : List Expr)

/-- An element of an array, or an argument of a call, where no holes occur. -/
inductive Element
  | item (value : Expr)
  | spread (span : Span) (value : Expr)
  | hole (span : Span)

/-- A property of an object literal, a method included. -/
inductive Property
  | entry (span : Span) (key : Key) (value : Expr)
  | spread (span : Span) (value : Expr)

/-- The key of a property or of a class member: a name, a private name, or an
expression, which without brackets around it is a string or a number. -/
inductive Key
  | name (span : Span) (text : String)
  | privateName (span : Span) (text : String)
  | expr (bracketed : Bool) (value : Expr)

/-- Parameters and body of a function.  A body that is a mere expression, as
an arrow function can have, is one expression statement; a function that is
only declared has an empty body. -/
inductive Function
  | mk (params : List Pattern) (body : List Stmt)

inductive Class
  | mk (decorators : List Expr) (superclass : Option Expr) (members : List Member)

/-- A member of a class. -/
inductive Member
  | method (decorators : List Expr) (key : Key) (fn : Function)
  | field (decorators : List Expr) (key : Key) (value : Option Expr)
  | accessor (decorators : List Expr) (key : Key) (value : Option Expr)
  | staticBlock (body : List Stmt)
  /-- A member that only concerns types. -/
  | signature

/-- What a declaration or an assignment can bind. -/
inductive Pattern
  | name (span : Span) (text : String)
  | target (target : Expr)
  | object (entries : List Pattern)
  | entry (key : Key) (value : Pattern)
  | array (items : List Pattern)
  | hole
  | rest (inner : Pattern)
  | withDefault (inner : Pattern) (value : Expr)
  | decorated (decorators : List Expr) (inner : Pattern)

/-- A statement. -/
inductive Stmt
  | expression (span : Span) (value : Expr)
  | variableDecl (span : Span) (declarators : List Declarator)
  | functionDecl (span : Span) (fn : Function)
  | classDecl (span : Span) (cls : Class)
  /-- The export of an expression as default. -/
  | exportDefault (span : Span) (value : Expr)
  /-- The export of a declaration, as default or by its names. -/
  | exportDecl (span : Span) (declaration : Stmt)
  /-- The statement `export = value`. -/
  | exportAssign (span : Span) (value : Expr)
  | returns (span : Span) (value : Option Expr)
  | block (span : Span) (body : List Stmt)
  | ifElse (span : Span) (test : Expr) (yes : Stmt) (no : Option Stmt)
  | forLoop (span : Span) (init : Option Stmt) (test update : Option Expr) (body : Stmt)
  | forIn (span : Span) (left : Pattern) (right : Expr) (body : Stmt)
  | forOf (span : Span) (left : Pattern) (right : Expr) (body : Stmt)
  | whileLoop (span : Span) (test : Expr) (body : Stmt)
  | doWhile (span : Span) (body : Stmt) (test : Expr)
  | switch (span : Span) (subject : Expr) (cases : List Case)
  /-- The parts that a `try` lacks are empty. -/
  | tryCatch (span : Span) (body : List Stmt) (param : Option Pattern)
      (handler finalizer : List Stmt)
  | labeled (span : Span) (label : String) (body : Stmt)
  | throws (span : Span) (value : Expr)
  | withObject (span : Span) (object : Expr) (body : Stmt)
  /-- An enumeration, by the values that its members are given. -/
  | enumeration (span : Span) (values : List Expr)
  /-- The body of a namespace or of a declared module. -/
  | scope (span : Span) (body : List Stmt)
  /-- A statement that holds neither expressions nor statements. -/
  | inert (span : Span)

/-- A declared variable with its initial value. -/
inductive Declarator
  | mk (target : Pattern) (init : Option Expr)

/-- A case of a `switch`; the default has no test. -/
inductive Case
  | mk (test : Option Expr) (body : List Stmt)

end

instance : Inhabited Expr := ⟨.null default⟩
instance : Inhabited Stmt := ⟨.inert default⟩
instance : Inhabited Pattern := ⟨.hole⟩

/-- A parsed script. -/
structure Program where
  body : List Stmt
deriving Inhabited

namespace Expr

/-- Where an expression stands. -/
def span : Expr → Span
  | name s _ | null s | string s _ | number s _ | atom s | template s _ _ | tagged s _ _
  | array s _ | object s _ | function s _ | arrow s _ | classExpr s _ | call s _ _ _ _
  | new s _ _ | member s _ _ _ | index s _ _ _ | privateMember s _ _ _ | chain s _
  | importCall s _ | unary s _ _ | update s _ _ | binary s _ _ _ | privateIn s _ _
  | conditional s _ _ _ | assign s _ _ _ | sequence s _ | await s _ | yield s _
  | wrapped s _ _ | instantiation s _ | jsx s _ => s

/-- An expression without the wrappers around it. -/
def unwrap : Expr → Expr
  | wrapped _ _ inner => inner.unwrap
  | e => e

/-- The outermost node is no wrapper. -/
def IsBare : Expr → Prop
  | wrapped .. => False
  | _ => True

theorem unwrap_isBare : ∀ e : Expr, e.unwrap.IsBare
  | wrapped _ _ inner => by rw [unwrap]; exact unwrap_isBare inner
  | name .. | null .. | string .. | number .. | atom .. | template .. | tagged ..
  | array .. | object .. | function .. | arrow .. | classExpr .. | call .. | new ..
  | member .. | index .. | privateMember .. | chain .. | importCall .. | unary ..
  | update .. | binary .. | privateIn .. | conditional .. | assign .. | sequence ..
  | await .. | yield .. | instantiation .. | jsx .. => trivial

end Expr

/-- Where an element stands. -/
def Element.span : Element → Span
  | item value => value.span
  | spread s _ => s
  | hole s => s

/-- Where a property stands. -/
def Property.span : Property → Span
  | entry s _ _ => s
  | spread s _ => s

namespace Stmt

/-- Where a statement stands. -/
def span : Stmt → Span
  | expression s _ | variableDecl s _ | functionDecl s _ | classDecl s _ | exportDefault s _
  | exportDecl s _ | exportAssign s _ | returns s _ | block s _ | ifElse s _ _ _
  | forLoop s _ _ _ _ | forIn s _ _ _ | forOf s _ _ _ | whileLoop s _ _ | doWhile s _ _
  | switch s _ _ | tryCatch s _ _ _ _ | labeled s _ _ | throws s _ | withObject s _ _
  | enumeration s _ | scope s _ | inert s => s

end Stmt
end EmitLint.Syntax
