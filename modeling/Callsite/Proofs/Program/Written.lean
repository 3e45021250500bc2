import Callsite.Program.Tree

/-!
# Programs as they are written

Short forms for expressions without places, for the programs that examples are about.
-/

namespace Callsite.Written

/-- Expressions without a source. -/
def program (exprs : List Expr) : Program :=
  ⟨exprs, none⟩

def int (value : Int64) : Expr :=
  .generated (.int value)

def str (text : String) : Expr :=
  .generated (.str text)

def var (name : String) : Expr :=
  .generated (.var name)

/-- A class or a library, as a value. -/
def path (name : String) : Expr :=
  .generated (.path (.named name))

def assign (name : String) (value : Expr) : Expr :=
  .generated (.assign name value)

def either (yes no : Expr) : Expr :=
  .generated (.branch (.generated (.bool true)) yes no)

def never : Expr :=
  .generated (.primitive (.named "NoReturn"))

def ask (name : String) (args : List Expr) : Expr :=
  .generated (.call (.plain none name args))

def send (receiver : Expr) (name : String) (args : List Expr) : Expr :=
  .generated (.call (.plain (some receiver) name args))

def new (cls : String) : Expr :=
  send (path cls) "new" []

def methodDecl (name : String) (params : List Param) (body : Expr) : Expr :=
  .generated (.method (.generated name params body))

/-- A method that yields to the block it declares. -/
def yielding (name : String) (declared : BlockParam) (values : List Expr) : Expr :=
  .generated (.method
    ⟨name, [], some (.generated (.yield values)), some declared, false, .absent⟩)

/-- A call with a block that takes nothing. -/
def taking (receiver : Option Expr) (name : String) (body : Expr) : Expr :=
  .generated (.call ⟨receiver, name, [], some ⟨[], some body⟩, none, false⟩)

def classDecl (name : String) (parent : Option String) (body : List Expr) : Expr :=
  .generated (.classDecl ⟨name, parent.map .named, false, [], body⟩)

def abstractClass (name : String) (parent : Option String) (body : List Expr) : Expr :=
  .generated (.classDecl ⟨name, parent.map .named, true, [], body⟩)

/-- A library with one function `f`, which returns an integer. -/
def libraryDecl (name : String) (params : List (String × TypeExpr)) (variadic : Bool) : Expr :=
  .generated (.library ⟨name, [⟨"f", params, some (.named "Int32"), variadic⟩], []⟩)

end Callsite.Written
