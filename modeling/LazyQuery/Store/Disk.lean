import LazyQuery.Store.Database

/-!
# Database files

A `Disk` names the databases that exist, all in one directory. Opening a file that does not exist
creates it. Deleting a file takes its name away only: a connection that is open keeps the database,
which can still be read but no longer written.

A name is followed in two ways. The store goes by its parts alone (`fileNamed?`), so that `a/../b`
stands for `b` whether or not there is an `a`; to ask whether there is something at a name
(`exists?`), every part on the way must exist.
-/

set_option autoImplicit false

namespace LazyQuery

open Sql

/-- The number of a database. -/
abbrev DatabaseId := Nat

/-- The place of a database file. -/
inductive DiskPath
  /-- A file given by a user. -/
  | named (name : String)
  /-- A file of the store's own, by its number. -/
  | temporary (number : Nat)
  deriving DecidableEq, Inhabited

/-! ## Names -/

/-- The most bytes of a file name. -/
def longestFileName : Nat := 255

/-- What is added to the name of a database file for the journal that a change is kept in. -/
def journalSuffix : String := "-journal"

/-- Can a file have the name? -/
def isFileName (name : String) : Bool :=
  name.utf8ByteSize ≤ longestFileName && !name.toList.contains '\x00'

/-- Does a part of a name stay where it is? -/
def staysPut (part : String) : Bool := part.isEmpty || part == "."

/-- The parts of a name. -/
def nameParts (name : String) : List String := name.splitOn "/"

/-- The file that the store takes a name for, unless the name leads out of the directory or stands
for the directory itself. -/
def fileNamed? (name : String) : Option String :=
  let step (place : List String) (part : String) : Option (List String) :=
    if staysPut part then some place
    else if part == ".." then place.tail?
    else if isFileName part then some (part :: place)
    else none
  if name.startsWith "/" then none
  else
    match (nameParts name).foldlM step [] with
    | some [file] => some file
    | _ => none

namespace DiskPath

/-- The place of the file that the store opens. -/
def file? : DiskPath → Option DiskPath
  | named name => (fileNamed? name).map named
  | temporary n => some (temporary n)

/-- Can the file be changed? There must be room for the name of its journal. -/
def takesChanges : DiskPath → Bool
  | named name => (fileNamed? name).any fun file => isFileName (file ++ journalSuffix)
  | temporary _ => true

end DiskPath

/-- Files and the databases in them. -/
structure Disk where
  files : List (DiskPath × DatabaseId)
  databases : Array Database
  /-- How many files of the store's own have been made. -/
  temporaries : Nat
  /-- The plans by which the queries of new databases are carried out. -/
  plans : Query → Plan
  deriving Inhabited

namespace Disk

/-- A disk without files, with plans for the queries of its databases. -/
def new (plans : Query → Plan) : Disk := ⟨[], #[], 0, plans⟩

/-- A disk without files. -/
def empty : Disk := new fun _ => .nestedLoop

/-- The database in a file. -/
def databaseIn (d : Disk) (file : DiskPath) : Option DatabaseId :=
  (d.files.find? (·.1 == file)).map (·.2)

/-- The database that is opened at a place. -/
def lookup (d : Disk) (p : DiskPath) : Option DatabaseId := p.file?.bind d.databaseIn

/-- Is there something at the end of the parts of a name? Of what lies outside, only the directory
around this one is known. -/
def reaches (d : Disk) : List String → Bool
  | [] => true
  | part :: rest =>
    if staysPut part then d.reaches rest
    else if part == ".." then rest.all fun p => staysPut p || p == ".."
    else rest.isEmpty && (d.databaseIn (.named part)).isSome

/-- Is there something at the place? -/
def exists? (d : Disk) : DiskPath → Bool
  | .named name => d.reaches (nameParts name)
  | .temporary n => (d.databaseIn (.temporary n)).isSome

/-- Open the database at a place, creating it if there is none. -/
def open? (d : Disk) (p : DiskPath) : Option (DatabaseId × Disk) :=
  p.file?.map fun file =>
    match d.databaseIn file with
    | some id => (id, d)
    | none =>
      let id := d.databases.size
      (id, { d with files := (file, id) :: d.files, databases := d.databases.push (.new d.plans) })

/-- Delete the file at a place, if there is something there. -/
def delete (d : Disk) (p : DiskPath) : Disk :=
  if d.exists? p then { d with files := d.files.filter fun f => some f.1 != p.file? } else d

/-- The database of a number. -/
def database (d : Disk) (id : DatabaseId) : Database := (d.databases[id]?).getD .empty

/-- Replace a database. -/
def write (d : Disk) (id : DatabaseId) (db : Database) : Disk :=
  { d with databases := d.databases.setIfInBounds id db }

/-- A new place for a file of the store's own. -/
def temporary (d : Disk) : DiskPath × Disk :=
  (.temporary d.temporaries, { d with temporaries := d.temporaries + 1 })

end Disk
end LazyQuery
