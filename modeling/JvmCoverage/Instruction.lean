/-!
# Instructions

The events of a method that a class file reader delivers: line markers and instructions. Accesses of
local variables, jumps, calls and instructions without operand carry what the idioms of a compiler
are made of; the other kinds only say that there was code. `Instruction.signal` sorts the events
into the few categories that a line filter tells apart.
-/

set_option autoImplicit false
set_option relaxedAutoImplicit false

namespace JvmCoverage

namespace Opcode

def getStatic : UInt8 := 0xb2

def athrow : UInt8 := 0xbf

end Opcode

/-- The direction of an access to a local variable. -/
inductive AccessKind
  | load
  | store
  deriving DecidableEq, Repr

/-- The jump instructions. -/
inductive JumpKind
  | goto
  | jsr
  | ifNull
  | ifNonNull
  | ifEq
  | ifNe
  | ifLt
  | ifGe
  | ifGt
  | ifLe
  | ifICmpEq
  | ifICmpNe
  | ifICmpLt
  | ifICmpGe
  | ifICmpGt
  | ifICmpLe
  | ifACmpEq
  | ifACmpNe
  deriving DecidableEq, Repr

/-- The jump has two outcomes. -/
def JumpKind.isConditional : JumpKind → Bool
  | goto | jsr => false
  | _ => true

/-- The ways to call a method. -/
inductive InvokeKind
  | invokeVirtual
  | invokeSpecial
  | invokeStatic
  | invokeInterface
  deriving DecidableEq, Repr

/-- A call of a method. -/
structure MethodCall where
  kind : InvokeKind
  /-- The owner in internal form, with slashes. -/
  owner : String
  name : String
  descriptor : String
  /-- The owner is an interface. -/
  onInterface : Bool
  deriving DecidableEq, Repr

/-- The call is of a method with this name and descriptor, whatever its owner. -/
def MethodCall.calls (call : MethodCall) (name descriptor : String) : Bool :=
  call.name = name && call.descriptor = descriptor

/-- An event of a method. -/
inductive Instruction
  /-- The code that follows belongs to this source line. -/
  | marker (line : UInt32)
  | access (kind : AccessKind) (reference : Bool) (slot : UInt16)
  | jump (kind : JumpKind) (target : UInt32)
  | call (call : MethodCall)
  /-- An instruction without operand. -/
  | plain (opcode : UInt8)
  | int (opcode : UInt8) (operand : Int32)
  | field (opcode : UInt8) (owner name : String)
  | iinc (slot : UInt16) (increment : Int16)
  | invokeDynamic (name : String)
  | tableSwitch (min max : Int32)
  | lookupSwitch (keys : List Int32)
  | type (opcode : UInt8) (typeName : String)
  | multiANewArray (descriptor : String) (dims : UInt8)
  | ldc (value : String)
  deriving DecidableEq, Repr

namespace Instruction

def aload (slot : UInt16) : Instruction := .access .load true slot

def astore (slot : UInt16) : Instruction := .access .store true slot

def iload (slot : UInt16) : Instruction := .access .load false slot

def istore (slot : UInt16) : Instruction := .access .store false slot

/-- A jump whose target does not matter. -/
def jumpAnywhere (kind : JumpKind) : Instruction := .jump kind 0

def invokeVirtual (owner name descriptor : String) : Instruction :=
  .call { kind := .invokeVirtual, owner, name, descriptor, onInterface := false }

def invokeInterface (owner name descriptor : String) : Instruction :=
  .call { kind := .invokeInterface, owner, name, descriptor, onInterface := true }

def invokeStatic (owner name descriptor : String) : Instruction :=
  .call { kind := .invokeStatic, owner, name, descriptor, onInterface := false }

def getStatic (owner name : String) : Instruction := .field Opcode.getStatic owner name

end Instruction

/-- What a line filter is told. -/
inductive Signal
  /-- A source line starts, and the one before it is complete. -/
  | line (number : UInt32)
  | access (kind : AccessKind) (reference : Bool)
  | jump (kind : JumpKind)
  | call (call : MethodCall)
  | plain (opcode : UInt8)
  /-- Any instruction that no idiom is made of. -/
  | other (instruction : Instruction)
  /-- The method ends. -/
  | finish
  deriving DecidableEq, Repr

def Instruction.signal : Instruction → Signal
  | .marker line => .line line
  | .access kind reference _ => .access kind reference
  | .jump kind _ => .jump kind
  | .call invoked => .call invoked
  | .plain opcode => .plain opcode
  | instruction => .other instruction

end JvmCoverage
