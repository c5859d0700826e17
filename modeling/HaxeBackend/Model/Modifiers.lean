/-!
# Modifiers and markers

Access and property flags of classes and members, and the markers that ask for companions of a class.
-/

namespace HaxeBackend

/-- A set of flags, held as the bits of the class-file format. -/
structure Modifiers where
  bits : UInt32
  deriving DecidableEq, Repr

namespace Modifiers

/-- The bits that stand for a flag. -/
def defined : UInt32 := 0x77ff

/-- Bits without a meaning are dropped. -/
def ofBits (bits : UInt32) : Modifiers := ⟨bits &&& defined⟩

def isPrivate (m : Modifiers) : Bool := m.bits &&& 0x0002 != 0

def isStatic (m : Modifiers) : Bool := m.bits &&& 0x0008 != 0

def isNative (m : Modifiers) : Bool := m.bits &&& 0x0100 != 0

def isAbstract (m : Modifiers) : Bool := m.bits &&& 0x0400 != 0

/-- Public alone. -/
def standard : Modifiers := ⟨0x0001⟩

end Modifiers

/-- What the front end found out about a class. -/
structure Markers where
  /-- Members are bound to a dynamic native library. -/
  nativeBound : Bool := false
  /-- There is a static-initializer method. -/
  hasStaticInit : Bool := false
  /-- The interface is meant to be functional. -/
  functionalInterface : Bool := false
  /-- The interface declares an annotation type. -/
  annotationType : Bool := false
  deriving DecidableEq, Repr

/-- The markers as bits, in the order of the fields. -/
def Markers.bits (m : Markers) : Nat :=
  m.nativeBound.toNat + 2 * m.hasStaticInit.toNat + 4 * m.functionalInterface.toNat + 8 * m.annotationType.toNat

end HaxeBackend
