import Callsite.Inference.Walk

/-!
# Checking programs

The engine is built up from fuel: each level lets expressions and calls start
those of the level below.  A program is checked by walking through its
expressions in order.
-/

namespace Callsite

namespace Engine

/-- The engine that has no fuel left. -/
def exhausted : Engine where
  budget := 0
  visit := fun _ _ => throw .outOfFuel
  recalculate := fun _ => throw .outOfFuel

/-- The engine with the given number of levels. -/
def ofFuel : Nat → Engine
  | 0 => exhausted
  | fuel + 1 =>
    { budget := fuel
      visit := fun scope expr => Infer.visitWith (ofFuel fuel) scope expr
      recalculate := fun call => Infer.recalculateWith (ofFuel fuel) call }

/-- More levels than any program gets to. -/
def fuelSupply : Nat := 0x1000000000000

end Engine

/-- Look at the expressions of a program in order. -/
def Infer.checkWith (engine : Engine) (program : Program) : Infer (List NodeId) :=
  program.exprs.mapM (engine.visit .root)

namespace Session

/-- Check a program, going on from a session.  The new session comes back also after a
failure. -/
def check (s : Session) (program : Program) : Except Halt (List NodeId) × Session :=
  match Infer.checkWith (.ofFuel Engine.fuelSupply) program s with
  | .ok nodes s' => (.ok nodes, s')
  | .error halt s' => (.error halt, s')

end Session

end Callsite
