/-
# Nodes of a syntax tree

The tree of a script is made of eleven kinds of parts that contain each
other.  `Node` puts them into one type, and `children` lists the parts of a
node in the order of the text, each with the `Position` that it takes.  What
holds of every place in a tree can then be said and proved once, and not
once for every kind.

Main definitions: `places` lists all nodes of a tree, each with the trail of
positions that leads to it.  Main statement: `induction_children` (what a
node has as soon as its children have it, all nodes have).
-/
import EmitLint.Syntax.Tree

namespace EmitLint.Syntax

/-- Which part of a node a child is. -/
inductive Position
  /-- A part that is none of those below. -/
  | part
  /-- The callee of a call or of a `new`. -/
  | callee
  /-- What an optional chain is wrapped around. -/
  | chained
  | parameter
  /-- A pattern that is declared, assigned or caught, and the parts of a pattern. -/
  | binding
  | key
  /-- The expression that a key is. -/
  | keyValue
  | decorator
  /-- The tag of a tagged template, and its substitutions. -/
  | tagged
  /-- The initial value of an accessor. -/
  | accessor
  /-- The object of a private member. -/
  | privateObject
  /-- The object of which a test asks whether it has a private member. -/
  | privateTest
  | importArgument
  /-- The operand of `++` and `--`. -/
  | updated
  /-- What type arguments without a call are put behind. -/
  | instantiated
  /-- An expression inside of JSX. -/
  | embedded
  /-- The value of `export =`. -/
  | exported
  /-- Object and body of a `with` statement. -/
  | withPart
  /-- The value of a member of an enumeration. -/
  | enumValue
  /-- A statement inside of a namespace. -/
  | scopeBody
deriving DecidableEq, Repr

/-- A part of a script, of any kind. -/
inductive Node
  | script (body : List Stmt)
  | expr (e : Expr)
  | element (e : Element)
  | property (p : Property)
  | key (k : Key)
  | function (fn : Function)
  | cls (c : Class)
  | member (m : Member)
  | pattern (p : Pattern)
  | stmt (s : Stmt)
  | declarator (d : Declarator)
  | case (c : Case)

/-- The whole of a program. -/
def Program.root (p : Program) : Node := .script p.body

/-! ## Children -/

/-- Parts that share a position. -/
def partsAt {α : Type} (p : Position) (mk : α → Node) (parts : List α) : List (Position × Node) :=
  parts.map fun a => (p, mk a)

def exprChildren : Expr → List (Position × Node)
  | .name .. | .null .. | .string .. | .number .. | .atom .. => []
  | .template _ _ parts => partsAt .part .expr parts
  | .tagged _ tag parts => (.tagged, .expr tag) :: partsAt .tagged .expr parts
  | .array _ elements => partsAt .part .element elements
  | .object _ properties => partsAt .part .property properties
  | .function _ fn | .arrow _ fn => [(.part, .function fn)]
  | .classExpr _ cls => [(.part, .cls cls)]
  | .call _ _ callee _ args | .new _ callee args =>
      (.callee, .expr callee) :: partsAt .part .element args
  | .member _ _ object _ => [(.part, .expr object)]
  | .index _ _ object key => [(.part, .expr object), (.part, .expr key)]
  | .privateMember _ _ object _ => [(.privateObject, .expr object)]
  | .chain _ body => [(.chained, .expr body)]
  | .importCall _ args => partsAt .importArgument .expr args
  | .unary _ _ arg | .await _ arg => [(.part, .expr arg)]
  | .update _ _ target => [(.updated, .expr target)]
  | .binary _ _ left right => [(.part, .expr left), (.part, .expr right)]
  | .privateIn _ _ right => [(.privateTest, .expr right)]
  | .conditional _ test yes no => [(.part, .expr test), (.part, .expr yes), (.part, .expr no)]
  | .assign _ _ target value => [(.binding, .pattern target), (.part, .expr value)]
  | .sequence _ items => partsAt .part .expr items
  | .yield _ arg => partsAt .part .expr arg.toList
  | .wrapped _ _ inner => [(.part, .expr inner)]
  | .instantiation _ inner => [(.instantiated, .expr inner)]
  | .jsx _ embedded => partsAt .embedded .expr embedded

def elementChildren : Element → List (Position × Node)
  | .item value | .spread _ value => [(.part, .expr value)]
  | .hole _ => []

def propertyChildren : Property → List (Position × Node)
  | .entry _ key value => [(.key, .key key), (.part, .expr value)]
  | .spread _ value => [(.part, .expr value)]

def keyChildren : Key → List (Position × Node)
  | .name .. | .privateName .. => []
  | .expr _ value => [(.keyValue, .expr value)]

def functionChildren : Function → List (Position × Node)
  | .mk params body => partsAt .parameter .pattern params ++ partsAt .part .stmt body

def classChildren : Class → List (Position × Node)
  | .mk decorators superclass members =>
      partsAt .decorator .expr decorators ++ partsAt .part .expr superclass.toList ++
        partsAt .part .member members

def memberChildren : Member → List (Position × Node)
  | .method decorators key fn =>
      partsAt .decorator .expr decorators ++ [(.key, .key key), (.part, .function fn)]
  | .field decorators key value =>
      partsAt .decorator .expr decorators ++ (.key, .key key) :: partsAt .part .expr value.toList
  | .accessor decorators key value =>
      partsAt .decorator .expr decorators ++
        (.key, .key key) :: partsAt .accessor .expr value.toList
  | .staticBlock body => partsAt .part .stmt body
  | .signature => []

def patternChildren : Pattern → List (Position × Node)
  | .name .. | .hole => []
  | .target target => [(.binding, .expr target)]
  | .object items | .array items => partsAt .binding .pattern items
  | .entry key value => [(.key, .key key), (.binding, .pattern value)]
  | .rest inner => [(.binding, .pattern inner)]
  | .withDefault inner value => [(.binding, .pattern inner), (.binding, .expr value)]
  | .decorated decorators inner =>
      partsAt .decorator .expr decorators ++ [(.binding, .pattern inner)]

def stmtChildren : Stmt → List (Position × Node)
  | .expression _ value | .exportDefault _ value | .throws _ value => [(.part, .expr value)]
  | .variableDecl _ declarators => partsAt .part .declarator declarators
  | .functionDecl _ fn => [(.part, .function fn)]
  | .classDecl _ cls => [(.part, .cls cls)]
  | .exportDecl _ declaration => [(.part, .stmt declaration)]
  | .exportAssign _ value => [(.exported, .expr value)]
  | .returns _ value => partsAt .part .expr value.toList
  | .block _ body => partsAt .part .stmt body
  | .ifElse _ test yes no =>
      [(.part, .expr test), (.part, .stmt yes)] ++ partsAt .part .stmt no.toList
  | .forLoop _ init test update body =>
      partsAt .part .stmt init.toList ++ partsAt .part .expr test.toList ++
        partsAt .part .expr update.toList ++ [(.part, .stmt body)]
  | .forIn _ left right body | .forOf _ left right body =>
      [(.binding, .pattern left), (.part, .expr right), (.part, .stmt body)]
  | .whileLoop _ test body => [(.part, .expr test), (.part, .stmt body)]
  | .doWhile _ body test => [(.part, .stmt body), (.part, .expr test)]
  | .switch _ subject cases => (.part, .expr subject) :: partsAt .part .case cases
  | .tryCatch _ body param handler finalizer =>
      partsAt .part .stmt body ++ partsAt .binding .pattern param.toList ++
        partsAt .part .stmt handler ++ partsAt .part .stmt finalizer
  | .labeled _ _ body => [(.part, .stmt body)]
  | .withObject _ object body => [(.withPart, .expr object), (.withPart, .stmt body)]
  | .enumeration _ values => partsAt .enumValue .expr values
  | .scope _ body => partsAt .scopeBody .stmt body
  | .inert _ => []

/-- The parts of a node, in the order of the text. -/
def Node.children : Node → List (Position × Node)
  | .script body => partsAt .part .stmt body
  | .expr e => exprChildren e
  | .element e => elementChildren e
  | .property p => propertyChildren p
  | .key k => keyChildren k
  | .function fn => functionChildren fn
  | .cls c => classChildren c
  | .member m => memberChildren m
  | .pattern p => patternChildren p
  | .stmt s => stmtChildren s
  | .declarator (.mk target init) =>
      (.binding, .pattern target) :: partsAt .part .expr init.toList
  | .case (.mk test body) => partsAt .part .expr test.toList ++ partsAt .part .stmt body

/-! ## Children are smaller

All recursion over nodes ends because a child is smaller than its node. -/

theorem mem_partsAt {α : Type} {p : Position} {mk : α → Node} {parts : List α}
    {c : Position × Node} : c ∈ partsAt p mk parts ↔ ∃ a ∈ parts, (p, mk a) = c :=
  List.mem_map

/-- Every one of these nodes is smaller than the bound. -/
def Below (bound : Nat) (cs : List (Position × Node)) : Prop := ∀ c ∈ cs, sizeOf c.2 < bound

section Below
variable {bound : Nat}

@[simp] theorem below_nil : Below bound [] := fun _ h => absurd h List.not_mem_nil

@[simp] theorem below_cons {c : Position × Node} {cs : List (Position × Node)} :
    Below bound (c :: cs) ↔ sizeOf c.2 < bound ∧ Below bound cs :=
  List.forall_mem_cons

@[simp] theorem below_append {as bs : List (Position × Node)} :
    Below bound (as ++ bs) ↔ Below bound as ∧ Below bound bs :=
  List.forall_mem_append

variable {α : Type} [SizeOf α] {p : Position} {mk : α → Node}

theorem below_partsAt {parts : List α} (hmk : ∀ a, sizeOf (mk a) = 1 + sizeOf a)
    (h : sizeOf parts < bound) : Below bound (partsAt p mk parts) := by
  intro c hc
  obtain ⟨a, ha, rfl⟩ := mem_partsAt.mp hc
  have hlt := List.sizeOf_lt_of_mem ha
  show sizeOf (mk a) < bound
  rw [hmk]
  omega

theorem below_partsAt_option {part : Option α} (hmk : ∀ a, sizeOf (mk a) = 1 + sizeOf a)
    (h : sizeOf part < bound) : Below bound (partsAt p mk part.toList) := by
  cases part with
  | none => exact below_nil
  | some a =>
      have ha : sizeOf (some a) = 1 + sizeOf a := rfl
      rw [Option.toList_some, partsAt, List.map_singleton, below_cons, hmk]
      exact ⟨by omega, below_nil⟩

end Below

namespace Node

theorem below_children (n : Node) : Below (sizeOf n) n.children := by
  cases n with
  | script body => exact below_partsAt (fun _ => rfl) (by simp)
  | expr e =>
      cases e <;> simp +arith [children, exprChildren, below_partsAt, below_partsAt_option]
  | element e => cases e <;> simp +arith [children, elementChildren]
  | property p => cases p <;> simp +arith [children, propertyChildren]
  | key k => cases k <;> simp +arith [children, keyChildren]
  | function fn => cases fn; simp +arith [children, functionChildren, below_partsAt]
  | cls c => cases c; simp +arith [children, classChildren, below_partsAt, below_partsAt_option]
  | member m =>
      cases m <;> simp +arith [children, memberChildren, below_partsAt, below_partsAt_option]
  | pattern p => cases p <;> simp +arith [children, patternChildren, below_partsAt]
  | stmt s =>
      cases s <;> simp +arith [children, stmtChildren, below_partsAt, below_partsAt_option]
  | declarator d => cases d; simp +arith [children, below_partsAt_option]
  | case c => cases c; simp +arith [children, below_partsAt, below_partsAt_option]

theorem sizeOf_child {n : Node} {c : Position × Node} (h : c ∈ n.children) :
    sizeOf c.2 < sizeOf n :=
  below_children n c h

/-- What a node has as soon as all smaller nodes have it, every node has. -/
theorem induction_size {motive : Node → Prop}
    (step : ∀ n, (∀ x, sizeOf x < sizeOf n → motive x) → motive n) (n : Node) : motive n :=
  step n fun x _ => induction_size step x
termination_by sizeOf n

/-- What a node has as soon as its children have it, every node has. -/
theorem induction_children {motive : Node → Prop}
    (step : ∀ n, (∀ c ∈ n.children, motive c.2) → motive n) (n : Node) : motive n :=
  induction_size (fun n ih => step n fun c hc => ih c.2 (sizeOf_child hc)) n

/-! ## All places of a tree -/

/-- The nodes of a tree in the order of the text, each with the positions that
lead to it from the root. -/
def places (n : Node) : List (List Position × Node) :=
  ([], n) :: n.children.attach.flatMap fun c =>
    c.1.2.places.map fun place => (c.1.1 :: place.1, place.2)
termination_by sizeOf n
decreasing_by exact sizeOf_child c.2

theorem places_eq (n : Node) :
    n.places = ([], n) :: n.children.flatMap fun c =>
      c.2.places.map fun place => (c.1 :: place.1, place.2) := by
  rw [places, List.flatMap_subtype (g := fun c : Position × Node =>
    c.2.places.map fun place => (c.1 :: place.1, place.2)) (by simp), List.unattach_attach]

theorem self_mem_places (n : Node) : ([], n) ∈ n.places := by
  rw [places_eq]
  exact List.mem_cons_self

theorem mem_places_of_child {n c x : Node} {p : Position} {trail : List Position}
    (hc : (p, c) ∈ n.children) (hx : (trail, x) ∈ c.places) : (p :: trail, x) ∈ n.places := by
  rw [places_eq]
  refine List.mem_cons_of_mem _ (List.mem_flatMap.mpr ⟨(p, c), hc, ?_⟩)
  exact List.mem_map.mpr ⟨(trail, x), hx, rfl⟩

/-- A node and all that is below it, in the order of the text. -/
def nodes (n : Node) : List Node := n.places.map (·.2)

theorem nodes_eq (n : Node) : n.nodes = n :: n.children.flatMap fun c => c.2.nodes := by
  rw [nodes, places_eq, List.map_cons, List.map_flatMap]
  simp only [List.map_map, Function.comp_def, nodes]

section Kinds

theorem nodes_script (body : List Stmt) :
    (script body).nodes = script body :: body.flatMap fun s => (stmt s).nodes := by
  rw [nodes_eq, children, partsAt, List.flatMap_map]

theorem nodes_expr (e : Expr) :
    (expr e).nodes = expr e :: (exprChildren e).flatMap fun c => c.2.nodes := nodes_eq _

theorem nodes_element (a : Element) :
    (element a).nodes = element a :: (elementChildren a).flatMap fun c => c.2.nodes := nodes_eq _

theorem nodes_property (p : Property) :
    (property p).nodes = property p :: (propertyChildren p).flatMap fun c => c.2.nodes := nodes_eq _

theorem nodes_key (k : Key) :
    (key k).nodes = key k :: (keyChildren k).flatMap fun c => c.2.nodes := nodes_eq _

theorem nodes_function (fn : Function) :
    (function fn).nodes = function fn :: (functionChildren fn).flatMap fun c => c.2.nodes :=
  nodes_eq _

theorem nodes_stmt (s : Stmt) :
    (stmt s).nodes = stmt s :: (stmtChildren s).flatMap fun c => c.2.nodes := nodes_eq _

end Kinds

theorem mem_nodes {n x : Node} : x ∈ n.nodes ↔ x = n ∨ ∃ c ∈ n.children, x ∈ c.2.nodes := by
  rw [nodes_eq, List.mem_cons, List.mem_flatMap]

theorem self_mem_nodes (n : Node) : n ∈ n.nodes := mem_nodes.mpr (.inl rfl)

theorem mem_nodes_of_child {n x : Node} {c : Position × Node} (hc : c ∈ n.children)
    (hx : x ∈ c.2.nodes) : x ∈ n.nodes :=
  mem_nodes.mpr (.inr ⟨c, hc, hx⟩)

theorem child_mem_nodes {n x : Node} {p : Position} (h : (p, x) ∈ n.children) : x ∈ n.nodes :=
  mem_nodes_of_child h (self_mem_nodes x)

theorem mem_nodes_trans {n x y : Node} (hx : x ∈ n.nodes) (hy : y ∈ x.nodes) : y ∈ n.nodes := by
  induction n using induction_children with
  | step n ih =>
      rcases mem_nodes.mp hx with rfl | ⟨c, hc, hxc⟩
      · exact hy
      · exact mem_nodes_of_child hc (ih c hc hxc)

end Node

/-! ## Wrappers -/

namespace Expr

theorem unwrap_of_isBare {e : Expr} (h : e.IsBare) : e.unwrap = e := by
  cases e <;> first | rfl | exact h.elim

theorem unwrap_unwrap (e : Expr) : e.unwrap.unwrap = e.unwrap :=
  unwrap_of_isBare e.unwrap_isBare

/-- What bare expressions have, and a wrapper does not take away, every
expression has. -/
theorem induction_unwrap {motive : Expr → Prop} (bare : ∀ e, e.IsBare → motive e)
    (wrapped : ∀ s w inner, motive inner → motive (.wrapped s w inner)) (e : Expr) : motive e := by
  fun_induction unwrap e with
  | case1 s w inner ih => exact wrapped s w inner ih
  | case2 e hnot =>
      refine bare e ?_
      cases e with
      | wrapped s w inner => exact hnot s w inner rfl
      | _ => trivial

theorem unwrap_mem_nodes (e : Expr) : Node.expr e.unwrap ∈ (Node.expr e).nodes := by
  induction e using induction_unwrap with
  | bare e hbare =>
      rw [unwrap_of_isBare hbare]
      exact Node.self_mem_nodes _
  | wrapped s w inner ih => exact Node.mem_nodes_of_child List.mem_cons_self ih

end Expr
end EmitLint.Syntax
