/-
# Where components declare their emits

There are two kinds of `Site`: an options object, whose `emits` property
counts, and a call of the macro `defineEmits`.

An object is an options object if it is exported as default by a component
file, or handed to one of the functions that define or register a component:

    defineComponent({ … })        defineNuxtComponent({ … })
    createApp({ … })              new Vue({ … })
    x.component('name', { … })    x.mixin({ … })             Vue.extend({ … })

The first four take it as their first argument, the others as their last.
Parentheses and type wrappers around it do not matter, and neither do they
around the receiver of a method; the name of a function stands bare.

`sites` walks a program from left to right.  The walk goes into statements,
bodies of functions and classes, and the expressions listed in `Expr.sites`;
it does not go into patterns, keys, decorators, tagged templates or JSX.
-/
import EmitLint.ScriptKind
import EmitLint.Syntax.Tree

namespace EmitLint.Component

open Syntax

/-- A place where a component declares its emits. -/
inductive Site
  /-- An options object. -/
  | options (span : Span) (properties : List Property)
  /-- A call of `defineEmits`, with type arguments alone or with arguments. -/
  | emitsCall (span : Span) (typeOnly : Bool) (args : List Element)

namespace Site

/-- Where the object or the call stands. -/
def span : Site → Span
  | options s _ => s
  | emitsCall s _ _ => s

/-- The emits are declared by a type, so none exists at run time. -/
def typeOnly : Site → Bool
  | options .. => false
  | emitsCall _ t _ => t

end Site

/-- What a walk takes for a site. -/
structure Mode where
  kind : ScriptKind
  /-- An object that is exported as default is a component. -/
  componentFile : Bool
deriving DecidableEq, Repr

/-! ## Calls that name a component -/

/-- The object literal that an expression is, but for wrappers. -/
def objectSite (e : Expr) : List Site :=
  match e.unwrap with
  | .object s ps => [.options s ps]
  | _ => []

/-- The object literal that an argument is. -/
def argumentSite : Option Element → List Site
  | some (.item e) => objectSite e
  | _ => []

/-- Functions that take a component as their first argument. -/
def definers : List String := ["defineComponent", "defineNuxtComponent", "createApp"]

/-- The method takes a component as its last argument. -/
def isRegistration (receiver method : String) : Bool :=
  method == "component" || method == "mixin" || (receiver == "Vue" && method == "extend")

/-- The site that a call is. -/
def callSite (m : Mode) (span : Span) (callee : Expr) (typeArgs : Bool) (args : List Element) :
    List Site :=
  match callee with
  | .name _ f =>
      if f = "defineEmits" then
        if m.kind.isSetup then [.emitsCall span (args.isEmpty && typeArgs) args] else []
      else if f ∈ definers then argumentSite args.head?
      else []
  | .member _ _ object method =>
      match object.unwrap with
      | .name _ receiver =>
          if isRegistration receiver method then argumentSite args.getLast? else []
      | _ => []
  | _ => []

/-- The site that a `new` expression is. -/
def newSite (callee : Expr) (args : List Element) : List Site :=
  match callee with
  | .name _ "Vue" => argumentSite args.head?
  | _ => []

/-! ## The walk -/

mutual

/-- The sites in an expression. -/
def exprSites (m : Mode) : Expr → List Site
  | .call s _ callee typeArgs args =>
      callSite m s callee typeArgs args ++ exprSites m callee ++ elementsSites m args
  | .new _ callee args => newSite callee args ++ exprSites m callee ++ elementsSites m args
  | .function _ fn | .arrow _ fn => functionSites m fn
  | .classExpr _ cls => classSites m cls
  | .member _ _ object _ => exprSites m object
  | .index _ _ object key => exprSites m object ++ exprSites m key
  | .chain _ (.privateMember _ _ object _) => exprSites m object
  | .chain _ body => exprSites m body
  | .object _ properties => propertiesSites m properties
  | .array _ elements => elementsSites m elements
  | .template _ _ parts => exprsSites m parts
  | .conditional _ test yes no => exprSites m test ++ exprSites m yes ++ exprSites m no
  | .binary _ _ left right => exprSites m left ++ exprSites m right
  | .unary _ _ arg => exprSites m arg
  | .sequence _ items => exprsSites m items
  | .assign _ _ _ value => exprSites m value
  | .await _ arg => exprSites m arg
  | .yield _ arg => optionSites m arg
  | .wrapped _ _ inner => exprSites m inner
  | .name .. | .null .. | .string .. | .number .. | .atom .. => []
  | .tagged .. | .privateMember .. | .importCall .. | .update .. | .privateIn ..
  | .instantiation .. | .jsx .. => []

/-- The sites in an expression that may be absent. -/
def optionSites (m : Mode) : Option Expr → List Site
  | none => []
  | some e => exprSites m e

def exprsSites (m : Mode) : List Expr → List Site
  | [] => []
  | e :: es => exprSites m e ++ exprsSites m es

def elementSites (m : Mode) : Element → List Site
  | .item value => exprSites m value
  | .spread _ value => exprSites m value
  | .hole _ => []

def elementsSites (m : Mode) : List Element → List Site
  | [] => []
  | e :: es => elementSites m e ++ elementsSites m es

def propertySites (m : Mode) : Property → List Site
  | .entry _ _ value => exprSites m value
  | .spread _ value => exprSites m value

def propertiesSites (m : Mode) : List Property → List Site
  | [] => []
  | p :: ps => propertySites m p ++ propertiesSites m ps

/-- The sites in the body of a function. -/
def functionSites (m : Mode) : Function → List Site
  | .mk _ body => stmtsSites m body

def classSites (m : Mode) : Syntax.Class → List Site
  | .mk _ superclass members => optionSites m superclass ++ membersSites m members

def memberSites (m : Mode) : Member → List Site
  | .method _ _ fn => functionSites m fn
  | .field _ _ value => optionSites m value
  | .staticBlock body => stmtsSites m body
  | .accessor .. | .signature => []

def membersSites (m : Mode) : List Member → List Site
  | [] => []
  | e :: es => memberSites m e ++ membersSites m es

/-- The sites in a statement. -/
def stmtSites (m : Mode) : Stmt → List Site
  | .expression _ value => exprSites m value
  | .variableDecl _ declarators => declaratorsSites m declarators
  | .functionDecl _ fn => functionSites m fn
  | .classDecl _ cls => classSites m cls
  | .exportDefault _ value =>
      (if m.componentFile then objectSite value else []) ++ exprSites m value
  | .exportDecl _ declaration => stmtSites m declaration
  | .returns _ value => optionSites m value
  | .block _ body => stmtsSites m body
  | .ifElse _ test yes no => exprSites m test ++ stmtSites m yes ++ optionStmtSites m no
  | .forLoop _ init test update body =>
      optionStmtSites m init ++ optionSites m test ++ optionSites m update ++ stmtSites m body
  | .forIn _ _ right body => exprSites m right ++ stmtSites m body
  | .forOf _ _ right body => exprSites m right ++ stmtSites m body
  | .whileLoop _ test body => exprSites m test ++ stmtSites m body
  | .doWhile _ body test => stmtSites m body ++ exprSites m test
  | .switch _ subject cases => exprSites m subject ++ casesSites m cases
  | .tryCatch _ body _ handler finalizer =>
      stmtsSites m body ++ stmtsSites m handler ++ stmtsSites m finalizer
  | .labeled _ _ body => stmtSites m body
  | .throws _ value => exprSites m value
  | .exportAssign .. | .withObject .. | .enumeration .. | .scope .. | .inert _ => []

def optionStmtSites (m : Mode) : Option Stmt → List Site
  | none => []
  | some s => stmtSites m s

def stmtsSites (m : Mode) : List Stmt → List Site
  | [] => []
  | s :: ss => stmtSites m s ++ stmtsSites m ss

def declaratorSites (m : Mode) : Declarator → List Site
  | .mk _ init => optionSites m init

def declaratorsSites (m : Mode) : List Declarator → List Site
  | [] => []
  | d :: ds => declaratorSites m d ++ declaratorsSites m ds

def caseSites (m : Mode) : Case → List Site
  | .mk test body => optionSites m test ++ stmtsSites m body

def casesSites (m : Mode) : List Case → List Site
  | [] => []
  | c :: cs => caseSites m c ++ casesSites m cs

end

/-- The sites of a program, in the order of the walk. -/
def sites (m : Mode) (program : Program) : List Site := stmtsSites m program.body

end EmitLint.Component
