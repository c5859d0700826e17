/-!
# Generation options
-/

namespace HaxeBackend

/-- What the generated units are compiled for. -/
inductive Subtarget where
  | cpp
  | windows
  | linux
  | mac
  | android
  | js
  | neko
  | php
  | python
  | cs
  | java
  | hl
  | lua
  deriving DecidableEq, Repr

namespace Subtarget

def all : List Subtarget :=
  [cpp, windows, linux, mac, android, js, neko, php, python, cs, java, hl, lua]

def name : Subtarget → String
  | cpp => "cpp"
  | windows => "windows"
  | linux => "linux"
  | mac => "mac"
  | android => "android"
  | js => "js"
  | neko => "neko"
  | php => "php"
  | python => "python"
  | cs => "cs"
  | java => "java"
  | hl => "hl"
  | lua => "lua"

/-- The subtargets compiled through C++, where labels and jumps can be written. -/
def isCppFamily : Subtarget → Bool
  | cpp | windows | linux | mac | android => true
  | _ => false

/-- The subtarget of this name, in any case of its letters. -/
def ofName? (s : String) : Option Subtarget :=
  all.find? fun t => t.name == s.map Char.toLower

/-- What is said about a name that no subtarget has. -/
def unknownMessage (s : String) : String := s!"unknown subtarget `{s}`"

theorem mem_all (t : Subtarget) : t ∈ all := by
  cases t <;> decide

end Subtarget

structure GenOptions where
  subtarget : Subtarget := .cpp
  /-- Allow labels and jumps where the subtarget has them. -/
  nativeGoto : Bool := false
  /-- Generate classes side by side; the output is the same. -/
  parallel : Bool := true
  sourceMaps : Bool := true
  /-- Emit the registration of classes for reflection. -/
  reflection : Bool := true
  /-- The directory in front of every written path. -/
  outPrefix : String := ""
  deriving DecidableEq, Repr

/-- Whether labels and jumps may be written. -/
def GenOptions.supportsGoto (o : GenOptions) : Bool := o.nativeGoto && o.subtarget.isCppFamily

end HaxeBackend
