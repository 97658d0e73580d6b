/-
# Rewriting a tree in some places

Two trees that differ in a few places only are compared without a word about
the many places where they agree.  `head` is a node by itself, with its spans
forgotten and a blank in place of each part; two nodes of one head differ in
their parts and in where they stand, and in nothing else; they `Agree` under a
relation that holds between their parts.  `Rewritten` says that a tree comes
from another one by replacing some nodes, spans aside.
-/
import EmitLint.Proofs.Syntax.Node
import Mathlib.Data.List.Forall2

namespace EmitLint.Syntax

instance : Inhabited Element := ⟨.hole default⟩
instance : Inhabited Property := ⟨.spread default default⟩
instance : Inhabited Key := ⟨.name default default⟩
instance : Inhabited Function := ⟨.mk [] []⟩
instance : Inhabited Class := ⟨.mk [] none []⟩
instance : Inhabited Member := ⟨.signature⟩
instance : Inhabited Declarator := ⟨.mk default none⟩
instance : Inhabited Case := ⟨.mk none []⟩

/-! ## Heads -/

/-- As many blanks as there are parts. -/
def blanks {α : Type} [Inhabited α] (parts : List α) : List α := parts.map fun _ => default

/-- A blank, if there is a part. -/
def blank? {α : Type} [Inhabited α] (part : Option α) : Option α := part.map fun _ => default

def exprHead : Expr → Expr
  | .name _ text => .name default text
  | .null _ => .null default
  | .string _ value => .string default value
  | .number _ text => .number default text
  | .atom _ => .atom default
  | .template _ head parts => .template default head (blanks parts)
  | .tagged _ _ parts => .tagged default default (blanks parts)
  | .array _ elements => .array default (blanks elements)
  | .object _ properties => .object default (blanks properties)
  | .function _ _ => .function default default
  | .arrow _ _ => .arrow default default
  | .classExpr _ _ => .classExpr default default
  | .call _ o _ typeArgs args => .call default o default typeArgs (blanks args)
  | .new _ _ args => .new default default (blanks args)
  | .member _ o _ property => .member default o default property
  | .index _ o _ _ => .index default o default default
  | .privateMember _ o _ field => .privateMember default o default field
  | .chain _ _ => .chain default default
  | .importCall _ args => .importCall default (blanks args)
  | .unary _ op _ => .unary default op default
  | .update _ op _ => .update default op default
  | .binary _ op _ _ => .binary default op default default
  | .privateIn _ field _ => .privateIn default field default
  | .conditional _ _ _ _ => .conditional default default default default
  | .assign _ op _ _ => .assign default op default default
  | .sequence _ items => .sequence default (blanks items)
  | .await _ _ => .await default default
  | .yield _ arg => .yield default (blank? arg)
  | .wrapped _ wrapper _ => .wrapped default wrapper default
  | .instantiation _ _ => .instantiation default default
  | .jsx _ embedded => .jsx default (blanks embedded)

def elementHead : Element → Element
  | .item _ => .item default
  | .spread _ _ => .spread default default
  | .hole _ => .hole default

def propertyHead : Property → Property
  | .entry _ _ _ => .entry default default default
  | .spread _ _ => .spread default default

def keyHead : Key → Key
  | .name _ text => .name default text
  | .privateName _ text => .privateName default text
  | .expr bracketed _ => .expr bracketed default

def classHead : Class → Class
  | .mk decorators superclass members =>
      .mk (blanks decorators) (blank? superclass) (blanks members)

def memberHead : Member → Member
  | .method decorators _ _ => .method (blanks decorators) default default
  | .field decorators _ value => .field (blanks decorators) default (blank? value)
  | .accessor decorators _ value => .accessor (blanks decorators) default (blank? value)
  | .staticBlock body => .staticBlock (blanks body)
  | .signature => .signature

def patternHead : Pattern → Pattern
  | .name _ text => .name default text
  | .target _ => .target default
  | .object entries => .object (blanks entries)
  | .entry _ _ => .entry default default
  | .array items => .array (blanks items)
  | .hole => .hole
  | .rest _ => .rest default
  | .withDefault _ _ => .withDefault default default
  | .decorated decorators _ => .decorated (blanks decorators) default

def stmtHead : Stmt → Stmt
  | .expression _ _ => .expression default default
  | .variableDecl _ declarators => .variableDecl default (blanks declarators)
  | .functionDecl _ _ => .functionDecl default default
  | .classDecl _ _ => .classDecl default default
  | .exportDefault _ _ => .exportDefault default default
  | .exportDecl _ _ => .exportDecl default default
  | .exportAssign _ _ => .exportAssign default default
  | .returns _ value => .returns default (blank? value)
  | .block _ body => .block default (blanks body)
  | .ifElse _ _ _ no => .ifElse default default default (blank? no)
  | .forLoop _ init test update _ =>
      .forLoop default (blank? init) (blank? test) (blank? update) default
  | .forIn _ _ _ _ => .forIn default default default default
  | .forOf _ _ _ _ => .forOf default default default default
  | .whileLoop _ _ _ => .whileLoop default default default
  | .doWhile _ _ _ => .doWhile default default default
  | .switch _ _ cases => .switch default default (blanks cases)
  | .tryCatch _ body param handler finalizer =>
      .tryCatch default (blanks body) (blank? param) (blanks handler) (blanks finalizer)
  | .labeled _ label _ => .labeled default label default
  | .throws _ _ => .throws default default
  | .withObject _ _ _ => .withObject default default default
  | .enumeration _ values => .enumeration default (blanks values)
  | .scope _ body => .scope default (blanks body)
  | .inert _ => .inert default

/-- A node by itself: its spans are forgotten, its parts blank. -/
def Node.head : Node → Node
  | .script body => .script (blanks body)
  | .expr e => .expr (exprHead e)
  | .element e => .element (elementHead e)
  | .property p => .property (propertyHead p)
  | .key k => .key (keyHead k)
  | .function (.mk params body) => .function (.mk (blanks params) (blanks body))
  | .cls c => .cls (classHead c)
  | .member m => .member (memberHead m)
  | .pattern p => .pattern (patternHead p)
  | .stmt s => .stmt (stmtHead s)
  | .declarator (.mk _ init) => .declarator (.mk default (blank? init))
  | .case (.mk test body) => .case (.mk (blank? test) (blanks body))

namespace Node

/-- The parts of a node, without their positions. -/
def parts (n : Node) : List Node := n.children.map (·.2)

@[simp] theorem map_fst_partsAt {α : Type} (p : Position) (mk : α → Node) (as : List α) :
    (partsAt p mk as).map (·.1) = List.replicate as.length p := by
  induction as with
  | nil => rfl
  | cons a as ih => exact congrArg (p :: ·) ih

@[simp] theorem length_blanks {α : Type} [Inhabited α] (as : List α) :
    (blanks as).length = as.length := List.length_map _

@[simp] theorem length_blank? {α : Type} [Inhabited α] (a : Option α) :
    (blank? a).toList.length = a.toList.length := by
  cases a <;> rfl

/-- The head of a node tells the positions of its parts. -/
theorem positions_head (n : Node) :
    n.head.children.map (·.1) = n.children.map (·.1) := by
  cases n with
  | script body => simp [head, children]
  | expr e => cases e <;> simp [head, exprHead, children, exprChildren]
  | element e => cases e <;> simp [head, elementHead, children, elementChildren]
  | property p => cases p <;> simp [head, propertyHead, children, propertyChildren]
  | key k => cases k <;> simp [head, keyHead, children, keyChildren]
  | function fn => cases fn; simp [head, children, functionChildren]
  | cls c => cases c; simp [head, classHead, children, classChildren]
  | member m => cases m <;> simp [head, memberHead, children, memberChildren]
  | pattern p => cases p <;> simp [head, patternHead, children, patternChildren]
  | stmt s => cases s <;> simp [head, stmtHead, children, stmtChildren]
  | declarator d => cases d; simp [head, children]
  | case c => cases c; simp [head, children]

@[simp] theorem map_snd_partsAt {α : Type} (p : Position) (mk : α → Node) (as : List α) :
    (partsAt p mk as).map (·.2) = as.map mk :=
  List.map_map

/-- Children that agree in their positions are compared by what they are. -/
theorem forall₂_of_fst_of_snd {R : Node → Node → Prop} {cs ds : List (Position × Node)}
    (hfst : cs.map (·.1) = ds.map (·.1)) (hsnd : List.Forall₂ R (cs.map (·.2)) (ds.map (·.2))) :
    List.Forall₂ (fun c d => c.1 = d.1 ∧ R c.2 d.2) cs ds := by
  induction cs generalizing ds with
  | nil =>
      obtain rfl : ds = [] := List.map_eq_nil_iff.mp hfst.symm
      exact .nil
  | cons c cs ih =>
      cases ds with
      | nil => exact absurd hfst (List.cons_ne_nil _ _)
      | cons d ds =>
          obtain ⟨hc, hcs⟩ := List.cons.inj hfst
          obtain ⟨hd, hds⟩ := List.forall₂_cons.mp hsnd
          exact .cons ⟨hc, hd⟩ (ih hcs hds)

end Node

/-! ## Nodes of one head -/

theorem isBare_exprHead (e : Expr) : (exprHead e).IsBare ↔ e.IsBare := by
  cases e <;> exact Iff.rfl

theorem expr_of_head {e : Expr} {n : Node} (h : (Node.expr e).head = n.head) :
    ∃ e', n = .expr e' ∧ exprHead e = exprHead e' := by
  cases n with
  | expr e' => exact ⟨e', rfl, Node.expr.inj h⟩
  | function fn | declarator fn | case fn => cases fn; cases h
  | _ => cases h

theorem stmt_of_head {s : Stmt} {n : Node} (h : (Node.stmt s).head = n.head) :
    ∃ s', n = .stmt s' ∧ stmtHead s = stmtHead s' := by
  cases n with
  | stmt s' => exact ⟨s', rfl, Node.stmt.inj h⟩
  | function fn | declarator fn | case fn => cases fn; cases h
  | _ => cases h

/-- The nodes are of one head, and their parts are related. -/
structure Agree (R : Node → Node → Prop) (n n' : Node) : Prop where
  head : n.head = n'.head
  parts : List.Forall₂ R n.parts n'.parts

namespace Agree
variable {R : Node → Node → Prop} {n n' : Node}

/-- The parts have the same positions. -/
theorem children (h : Agree R n n') :
    List.Forall₂ (fun c c' => c.1 = c'.1 ∧ R c.2 c'.2) n.children n'.children := by
  refine Node.forall₂_of_fst_of_snd ?_ h.parts
  rw [← Node.positions_head, h.head, Node.positions_head]

theorem converse (h : Agree R n n') : Agree (fun x x' => R x' x) n' n :=
  ⟨h.head.symm, h.parts.flip⟩

theorem object {s : Span} {ps : List Property} {e' : Expr}
    (h : Agree R (.expr (.object s ps)) (.expr e')) : ∃ s' ps', e' = .object s' ps' ∧
      List.Forall₂ (fun p p' => R (.property p) (.property p')) ps ps' := by
  obtain ⟨hhead, hparts⟩ := h
  cases e' with
  | object s' ps' =>
      refine ⟨s', ps', rfl, ?_⟩
      simpa [Node.parts, Node.children, exprChildren] using hparts
  | _ => cases hhead

theorem array {s : Span} {els : List Element} {e' : Expr}
    (h : Agree R (.expr (.array s els)) (.expr e')) : ∃ s' els', e' = .array s' els' ∧
      List.Forall₂ (fun a a' => R (.element a) (.element a')) els els' := by
  obtain ⟨hhead, hparts⟩ := h
  cases e' with
  | array s' els' =>
      refine ⟨s', els', rfl, ?_⟩
      simpa [Node.parts, Node.children, exprChildren] using hparts
  | _ => cases hhead

end Agree

/-! ## Rewriting -/

/-- The second tree comes from the first one by putting another node, one that
may replace it, for every redex that is not inside of a redex.  Spans may
differ everywhere. -/
inductive Rewritten (IsRedex : Node → Prop) (Replaces : Node → Node → Prop) :
    Node → Node → Prop
  | here {n n' : Node} : IsRedex n → Replaces n n' → Rewritten IsRedex Replaces n n'
  | inside {n n' : Node} : ¬ IsRedex n → n.head = n'.head →
      List.Forall₂ (Rewritten IsRedex Replaces) n.parts n'.parts →
      Rewritten IsRedex Replaces n n'

namespace Rewritten
variable {IsRedex : Node → Prop} {Replaces : Node → Node → Prop} {n n' : Node}

theorem of_not_redex (h : Rewritten IsRedex Replaces n n') (hn : ¬ IsRedex n) :
    Agree (Rewritten IsRedex Replaces) n n' := by
  cases h with
  | here hredex _ => exact absurd hredex hn
  | inside _ hhead hparts => exact ⟨hhead, hparts⟩

end Rewritten
end EmitLint.Syntax
