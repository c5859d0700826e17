import HaxeBackend.Store.Basic

/-!
# Files in memory
-/

namespace HaxeBackend

/-- Files in the order of their paths. -/
structure MemoryStore where
  files : List (String × String) := []
  deriving DecidableEq, Repr

namespace MemoryStore

/-- Puts a file at its place, over one of the same path. -/
def insert (path text : String) : List (String × String) → List (String × String)
  | [] => [(path, text)]
  | file :: rest =>
    if file.1 = path then (path, text) :: rest
    else if path < file.1 then (path, text) :: file :: rest
    else file :: insert path text rest

def write (s : MemoryStore) (path text : String) : MemoryStore := ⟨insert path text s.files⟩

def get? (s : MemoryStore) (path : String) : Option String := s.files.lookup path

def paths (s : MemoryStore) : List String := s.files.map Prod.fst

def size (s : MemoryStore) : Nat := s.files.length

/-- Takes every file except those that `refuses` gives a reason for. -/
def writer (refuses : String → Option String) : FileWriter MemoryStore := fun s path text =>
  match refuses path with
  | some reason => (.error reason, s)
  | none => (.ok (), s.write path text)

end MemoryStore

end HaxeBackend
