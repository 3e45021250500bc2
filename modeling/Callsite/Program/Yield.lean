import Callsite.Program.Tree

/-!
# Yields of a body

A method takes a block exactly when its body yields or it declares a block
parameter.  The yields that count are those of the body itself: nested methods,
classes, libraries and function literals have yields of their own.  A function
passed with `&` is not looked at.
-/

namespace Callsite

mutual

/-- The number of values of each `yield` in an expression, in the order they are written. -/
def Expr.yieldArities : Expr → List Nat
  | ⟨form, _⟩ => form.yieldArities

/-- The numbers of values that are yielded somewhere in a form. -/
def Form.yieldArities : Form → List Nat
  | .yield args => args.length :: Expr.yieldAritiesOf args
  | .array items => Expr.yieldAritiesOf items
  | .seq items => Expr.yieldAritiesOf items
  | .assign _ value => value.yieldArities
  | .call call => call.yieldArities
  | .branch test yes no => test.yieldArities ++ yes.yieldArities ++ no.yieldArities
  | .classOf value => value.yieldArities
  | _ => []

/-- The yields of a call: its receiver, its arguments and the body of its literal block. -/
def Call.yieldArities : Call → List Nat
  | ⟨receiver, _, args, block, _, _⟩ =>
    Expr.yieldAritiesOf? receiver ++ Expr.yieldAritiesOf args ++ Block.yieldAritiesOf? block

def Block.yieldAritiesOf? : Option Block → List Nat
  | none => []
  | some ⟨_, body⟩ => Expr.yieldAritiesOf? body

def Expr.yieldAritiesOf? : Option Expr → List Nat
  | none => []
  | some e => e.yieldArities

def Expr.yieldAritiesOf : List Expr → List Nat
  | [] => []
  | e :: es => e.yieldArities ++ Expr.yieldAritiesOf es

end

/-- The largest number of values yielded at once, if the expression yields at all. -/
def Expr.maxYield (e : Expr) : Option Nat :=
  e.yieldArities.max?

/-- The largest number of values the method yields; a declared block that is never
yielded to counts as yielding no values. -/
def MethodDecl.yields (d : MethodDecl) : Option Nat :=
  match d.blockParam, d.body.bind Expr.maxYield with
  | some _, none => some 0
  | _, yields => yields

end Callsite
