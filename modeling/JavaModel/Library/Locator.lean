import JavaModel.FileTree

/-!
Where the source of a class may be found. By convention the file of a class is named for it and
stands in a directory for each segment of its package; a nested class may be in the file of one
around it.
-/

namespace JavaModel

/-- The path of segments below each other. -/
def pathOfSegments (segments : List String) : FilePath :=
  segments.foldl (fun (path : FilePath) s => path.join ⟨s⟩) ⟨""⟩

/-- The files that may declare a class, by its full name: a path for each leading run of segments,
the longest first. -/
def candidatePaths (fullName extension : String) : List FilePath :=
  let segments := Name.segments fullName
  (List.range segments.length).reverse.map fun n =>
    (pathOfSegments (segments.take (n + 1))).withExtension extension

/-- Source texts by path. -/
structure MemoryFiles where
  files : List (FilePath × String)
deriving Repr, Inhabited

namespace MemoryFiles

def empty : MemoryFiles := ⟨[]⟩

/-- The text under a path. -/
def text? (m : MemoryFiles) (p : FilePath) : Option String :=
  (m.files.find? fun f => f.1.same p).map Prod.snd

/-- Puts a text under a path, in place of one that is there. -/
def insert (m : MemoryFiles) (p : FilePath) (text : String) : MemoryFiles :=
  if (m.text? p).isSome then ⟨m.files.map fun f => if f.1.same p then (f.1, text) else f⟩
  else ⟨m.files ++ [(p, text)]⟩

/-- Puts a text where the class with a full name is looked for first. -/
def insertClass (m : MemoryFiles) (fullName text : String) : MemoryFiles :=
  m.insert ((candidatePaths fullName "java").headD ⟨""⟩) text

end MemoryFiles

/-- A place to look for sources: a directory with files of one extension, or texts in memory. -/
inductive Locator where
  | directory (root : FilePath) (extension : String)
  | memory (files : MemoryFiles)
deriving Repr, Inhabited

namespace Locator

/-- The files that may declare a class and are there, the most specific first. -/
def candidates (l : Locator) (tree : FileTree) (fullName : String) : List FilePath :=
  match l with
  | directory root extension =>
    ((candidatePaths fullName extension).map root.join).filter tree.hasFile
  | memory files => (candidatePaths fullName "java").filter fun p => (files.text? p).isSome

/-- The text of a file. -/
def read (l : Locator) (tree : FileTree) (p : FilePath) : Except ReadFault String :=
  match l with
  | directory _ _ => tree.read p
  | memory files =>
    match files.text? p with
    | some text => .ok text
    | none => .error .notFound

end Locator

end JavaModel
