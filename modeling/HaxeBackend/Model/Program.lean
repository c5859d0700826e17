import HaxeBackend.Model.ClassModel

/-!
# Programs

A program is a list of classes with distinct names.  Its look-ups follow the class hierarchy, which may lead out of
the program or round in circles: names that no class has are skipped, and no class is visited twice.
-/

namespace HaxeBackend

/-- The root of the class hierarchy. -/
def objectClass : Name := "java.lang.Object"

/-- The class of string constants. -/
def stringClass : Name := "java.lang.String"

structure Program where
  classes : List ClassModel
  distinct : (classes.map ClassModel.name).Nodup

/-- A method and the class that declares it. -/
structure MethodEntry where
  owner : ClassModel
  method : Method

/-- A field and the class that declares it. -/
structure FieldEntry where
  owner : ClassModel
  field : Field

namespace Program

def empty : Program := ⟨[], List.nodup_nil⟩

/-- Adds a class whose name is still free. -/
def add (p : Program) (c : ClassModel) (fresh : c.name ∉ p.classes.map ClassModel.name) : Program where
  classes := p.classes ++ [c]
  distinct := by
    rw [List.map_append, List.nodup_append]
    refine ⟨p.distinct, by simp, ?_⟩
    intro a ha b hb hab
    simp only [List.map_cons, List.map_nil, List.mem_singleton] at hb
    exact fresh (hb ▸ hab ▸ ha)

def find? (p : Program) (name : Name) : Option ClassModel :=
  p.classes.find? fun c => c.name == name

/-- The position of a class. -/
def index? (p : Program) (name : Name) : Option Nat :=
  p.classes.findIdx? fun c => c.name == name

/-! ### The hierarchy -/

/-- Whether a class of this name is in the list. -/
def named (classes : List ClassModel) (name : Name) : Bool :=
  classes.any fun c => c.name == name

/-- The superclass, when the program has it. -/
def superclass? (p : Program) (c : ClassModel) : Option ClassModel :=
  c.superclass.bind p.find?

/-- The class and its superclasses, nearest first, up to the first that repeats.  At most `fuel` classes; as many
as the program has are enough. -/
def chainFrom (p : Program) : Nat → List ClassModel → Option ClassModel → List ClassModel
  | 0, _, _ => []
  | _, _, none => []
  | fuel + 1, seen, some c =>
    if named seen c.name then [] else c :: p.chainFrom fuel (c :: seen) (p.superclass? c)

/-- The interfaces among `names` that are in the program and not yet in `seen`, each once. -/
def freshInterfaces (p : Program) (seen : List ClassModel) : List Name → List ClassModel
  | [] => []
  | name :: names =>
    match p.find? name with
    | some i =>
      if named seen i.name then p.freshInterfaces seen names
      else i :: p.freshInterfaces (i :: seen) names
    | none => p.freshInterfaces seen names

/-- Visits `todo` from the front and appends the interfaces that each class brings in.  Every class is visited at
most once, so a `fuel` of as many as the program has is enough. -/
def closeInterfaces (p : Program) : Nat → List ClassModel → List ClassModel → List ClassModel
  | _, done, [] => done
  | 0, done, todo => done ++ todo
  | fuel + 1, done, c :: todo =>
    p.closeInterfaces fuel (done ++ [c]) (todo ++ p.freshInterfaces (done ++ c :: todo) c.interfaces)

/-- The class, then its superclasses, then every interface that any of them brings in, breadth first. -/
def ancestors (p : Program) (name : Name) : List ClassModel :=
  p.closeInterfaces p.classes.length [] (p.chainFrom p.classes.length [] (p.find? name))

/-- Strict superclasses, nearest first, at most as many as the program has classes. -/
def superclasses (p : Program) (c : ClassModel) : List ClassModel :=
  go p.classes.length (p.superclass? c)
where
  /-- A superclass and those above it. -/
  go : Nat → Option ClassModel → List ClassModel
    | 0, _ => []
    | _, none => []
    | fuel + 1, some c => c :: go fuel (p.superclass? c)

/-! ### Members -/

/-- The first declaration among the ancestors. -/
def getMethod? (p : Program) (className name : Name) (type : MethodTy) : Option MethodEntry :=
  (p.ancestors className).findSome? fun c => (c.findMethod? name type).map fun m => ⟨c, m⟩

def getField? (p : Program) (className name : Name) (type : Ty) : Option FieldEntry :=
  (p.ancestors className).findSome? fun c => (c.findField? name type).map fun f => ⟨c, f⟩

/-- Resolution of calls that are not virtual.  Constructors and private methods belong to the named class; any
other method is the nearest in the superclass chain that has a body, or else the nearest declaration.

A walk up the chain that only stops at its end or at a body does not stop in a chain that is a cycle without one.  Here
it stops after as many classes as the program has (`superclasses`), and the nearest declaration is taken. -/
def resolveSpecial? (p : Program) (r : MethodRef) : Option MethodEntry :=
  match p.find? r.owner with
  | none => none
  | some owner =>
    let declared := owner.findMethod? r.name r.type
    if r.name == constructorName || declared.any (·.modifiers.isPrivate) then
      declared.map fun m => ⟨owner, m⟩
    else
      let withBody := (owner :: p.superclasses owner).findSome? fun c =>
        ((c.findMethod? r.name r.type).filter Method.hasBody).map fun m => (⟨c, m⟩ : MethodEntry)
      withBody <|> p.getMethod? r.owner r.name r.type

/-- Resolution of a call by its kind. -/
def resolve? (p : Program) (r : MethodRef) (special : Bool) : Option MethodEntry :=
  if special then p.resolveSpecial? r else p.getMethod? r.owner r.name r.type

/-- The instance methods of interfaces: neither static nor a constructor. -/
def isInstanceMethod (m : Method) : Bool := !m.isStatic && !isSpecialName m.name

/-- Keeps the first entry of each name and type. -/
def distinctEntries (seen : List (Name × MethodTy)) : List MethodEntry → List MethodEntry
  | [] => []
  | e :: entries =>
    let key := (e.method.name, e.method.type)
    if seen.contains key then distinctEntries seen entries
    else e :: distinctEntries (key :: seen) entries

/-- The instance methods an implementation must provide: those of all interfaces among the ancestors, the nearest
declaration of each name and type. -/
def methodsToImplement (p : Program) (name : Name) : List MethodEntry :=
  let interfaces := (p.ancestors name).filter ClassModel.isInterface
  distinctEntries [] (interfaces.flatMap fun c => (c.methods.filter isInstanceMethod).map fun m => ⟨c, m⟩)

def abstractMethods (p : Program) (name : Name) : List MethodEntry :=
  (p.methodsToImplement name).filter fun e => !e.method.hasBody

/-- Whether a strict superclass declares a method that this one replaces. -/
def isOverriding (p : Program) (className name : Name) (type : MethodTy) : Bool :=
  !isSpecialName name &&
    match p.find? className with
    | none => false
    | some c => (p.superclasses c).any fun s => (s.findMethod? name type).any Method.isOverridable

/-- Whether `sub` is `sup` or inherits from it. -/
def isSubclassOf (p : Program) (sub sup : Name) : Bool :=
  (p.find? sup).isSome && named (p.ancestors sub) sup

end Program

end HaxeBackend
