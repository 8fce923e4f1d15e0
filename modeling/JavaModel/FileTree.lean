import JavaModel.SourceError

/-!
The files that a session can read: a directory tree below one root, which does not change. Of what
stands around the root only the directories on the way up from it are known. A path is looked up
name by name; names and paths have a greatest length.
-/

namespace JavaModel

/-- Where a file or a directory stands below the root. -/
abbrev Place := List String

/-- What a path leads to. -/
inductive Target where
  /-- A place below the root, where a file or a directory is. -/
  | below (place : Place)
  /-- A directory that the root is in, the top one included. -/
  | above
deriving DecidableEq, Repr, Inhabited

/-- Files and directories below a root. A directory is there when it is listed or holds something.
-/
structure FileTree where
  root : FilePath
  files : List (Place × ByteArray)
  directories : List Place
deriving Inhabited

namespace FileTree

def empty (root : FilePath) : FileTree := ⟨root, [], []⟩

/-- The places that components lead through from a place, in order. -/
def trail (place : Place) : List FilePath.Component → List Place
  | [] => []
  | .name n :: cs => (place ++ [n]) :: trail (place ++ [n]) cs
  | .parent :: cs => place.dropLast :: trail place.dropLast cs
  | _ :: cs => trail place cs

/-- Makes a directory at a path from the root, and every directory on the way to it. -/
def makeDirectory (t : FileTree) (p : FilePath) : FileTree :=
  { t with directories := t.directories ++ trail [] p.components }

/-- Writes a file at a path from the root, and makes every directory on the way to it. -/
def write (t : FileTree) (p : FilePath) (bytes : ByteArray) : FileTree :=
  let places := trail [] p.components
  let place := places.getLast?.getD []
  { t with
    directories := t.directories ++ places.dropLast,
    files := (t.files.filter fun f => f.1 ≠ place) ++ [(place, bytes)] }

/-- The bytes of the file at a place. -/
def bytes? (t : FileTree) (place : Place) : Option ByteArray :=
  (t.files.find? fun f => f.1 = place).map Prod.snd

def isFile (t : FileTree) (place : Place) : Bool := (t.bytes? place).isSome

def isDirectory (t : FileTree) (place : Place) : Bool :=
  place = [] || t.directories.any place.isPrefixOf ||
    t.files.any fun f => f.1 ≠ place && place.isPrefixOf f.1

/-- The number of bytes that a name in a directory may have. -/
def nameLimit : Nat := 255

/-- The number of bytes that a path may have. -/
def pathLimit : Nat := 4095

/-- Whether a path is too long to be looked up, wherever it leads. -/
def isTooLong (p : FilePath) : Bool := pathLimit < p.text.utf8ByteSize

/-- Goes on along components from a directory above the root. No name is known there, and the top
directory is its own parent. -/
def followAbove : List FilePath.Component → Except ReadFault Target
  | [] => .ok .above
  | .name n :: _ => .error (if nameLimit < n.utf8ByteSize then .nameTooLong else .notFound)
  | _ :: cs => followAbove cs

/-- Goes on along components from a place below the root. -/
def follow (t : FileTree) (place : Place) : List FilePath.Component → Except ReadFault Target
  | [] => if t.isFile place || t.isDirectory place then .ok (.below place) else .error .notFound
  | c :: cs =>
    if t.isFile place then .error .notDirectory
    else if !t.isDirectory place then .error .notFound
    else match c with
      | .root => followAbove cs
      | .here => follow t place cs
      | .parent => if place = [] then followAbove cs else follow t place.dropLast cs
      | .name n =>
        if nameLimit < n.utf8ByteSize then .error .nameTooLong else follow t (place ++ [n]) cs

/-- Whether a path's text ends in a way that only a directory's may. -/
def endsAsDirectory (p : FilePath) : Bool :=
  match p.text.toList.reverse with
  | '/' :: _ => true
  | '.' :: '/' :: _ => true
  | _ => false

/-- What a path leads to. One that does not begin at the root begins at the top directory. -/
def locate (t : FileTree) (p : FilePath) : Except ReadFault Target := do
  if p.text.contains '\x00' then .error .nulInPath
  if isTooLong p then .error .nameTooLong
  let parts := p.components
  let base := t.root.components
  let target ←
    if base.isPrefixOf parts then t.follow [] (parts.drop base.length) else followAbove parts
  match target with
  | .below place =>
    if endsAsDirectory p && t.isFile place then .error .notDirectory else .ok target
  | .above => .ok target

/-- Whether a path leads to a file. -/
def hasFile (t : FileTree) (p : FilePath) : Bool :=
  match t.locate p with
  | .ok (.below place) => t.isFile place
  | _ => false

/-- The text of the file that a path leads to. -/
def read (t : FileTree) (p : FilePath) : Except ReadFault String := do
  match ← t.locate p with
  | .above => .error .isDirectory
  | .below place =>
    match t.bytes? place with
    | none => .error .isDirectory
    | some bytes =>
      match String.fromUTF8? bytes with
      | some text => .ok text
      | none => .error .notText

/-- Whether a place comes before another when each directory lists its entries by name. -/
def comesBefore : Place → Place → Bool
  | [], _ => true
  | _ :: _, [] => false
  | a :: as, b :: bs => if a = b then comesBefore as bs else decide (a < b)

/-- What is at and below a place, each directory before its entries and those by name. The names
lead on from the place. -/
def contents (t : FileTree) (place : Place) : List (List String) :=
  let below := (t.directories ++ t.files.map Prod.fst).filterMap fun q =>
    if place.isPrefixOf q then some (q.drop place.length) else none
  let entries := below.flatMap fun names => (List.range (names.length + 1)).map names.take
  entries.eraseDups.mergeSort comesBefore

/-- What a walk from a path meets: known files, and paths at which it can go no further. Every
directory's entries come by name. A file is met without being opened, a directory is opened. -/
def walk (t : FileTree) (p : FilePath) : List (Except (FilePath × ReadFault) FilePath) :=
  match t.locate p with
  | .error fault => [.error (p, fault)]
  | .ok .above => []
  | .ok (.below place) =>
    let pathTo (names : List String) : FilePath := names.foldl (fun path n => path.join ⟨n⟩) p
    (t.contents place).filterMap fun names =>
      if isTooLong (pathTo names.dropLast) then none
      else if t.isFile (place ++ names) then some (.ok (pathTo names))
      else if isTooLong (pathTo names) then some (.error (pathTo names, .nameTooLong))
      else none

end FileTree

end JavaModel
