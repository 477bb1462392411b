import FeaturesOS.FileSystem.Fisopfs
import FeaturesOS.FileSystem.Contents
import FeaturesOS.FileSystem.Path

/-!
# Volumes

What a mounted file system is to its users: a tree of directories and files, each
under the names that lead to it, and the answer that each call gets.  Nothing here
depends on slots, on the bitmap or on the text of a directory.
-/

namespace FeaturesOS.FileSystem

open CString

/-- The names that lead from `/` to a thing. -/
abbrev Names := List (List UInt8)

inductive Node where
  | directory
  | file (data : List UInt8)
deriving DecidableEq

/-- A directory or a file with what the calls tell about it. -/
structure Thing where
  node : Node
  owner : UInt32
  group : UInt32
  lastAccess : UInt64
  lastModification : UInt64
  creationTime : UInt64
deriving DecidableEq

/-- A tree of things: each lies in a directory, and the root is one. -/
structure Volume where
  find : Names → Option Thing
  root : ∃ thing, find [] = some thing ∧ thing.node = .directory
  parents : ∀ front name thing, find (front ++ [name]) = some thing →
    ∃ directory, find front = some directory ∧ directory.node = .directory

/-- The names in a path; `none` where one of them is no component. -/
def namesOf (path : List UInt8) : Option Names :=
  if path = [slash] then some []
  else if WellNamed path then some (path.tail.splitOn slash)
  else none

/-- The path with the names. -/
def pathOf (names : Names) : List UInt8 :=
  if names = [] then [slash] else renderPath names

/-- What a call hands back besides its `int`. -/
structure Reply where
  result : Int
  stat : Option Stat
  names : List (List UInt8)
  bytes : List UInt8

def Reply.plain (result : Int) : Reply :=
  { result, stat := none, names := [], bytes := [] }

/-- The attributes of a thing.  The size of a directory is left open. -/
structure Thing.Described (thing : Thing) (stat : Stat) : Prop where
  nlink : stat.nlink = if thing.node = .directory then 2 else 1
  mode : stat.mode =
    if thing.node = .directory then directoryMode else regularMode
  size : ∀ data, thing.node = .file data → stat.size.toInt = data.length
  uid : stat.uid = thing.owner
  gid : stat.gid = thing.group
  atime : stat.atime = thing.lastAccess
  mtime : stat.mtime = thing.lastModification
  ctime : stat.ctime = thing.creationTime

namespace Volume

def lookup (volume : Volume) (path : AbsolutePath) : Option Thing :=
  (namesOf path.bytes).bind volume.find

/-- `name` is in the directory with these names. -/
def Holds (volume : Volume) (names : Names) (name : List UInt8) : Prop :=
  volume.find (names ++ [name]) ≠ none

/-- `next` differs from the volume in what the names lead to. -/
def Changes (volume next : Volume) (names : Names) (thing : Option Thing) :
    Prop :=
  next.find = Function.update volume.find names thing

/-- There are as many things as a table has slots. -/
def Full (volume : Volume) : Prop :=
  ∃ all : List Names, all.Nodup ∧ all.length = inodesAmount ∧
    ∀ names, names ∈ all ↔ volume.find names ≠ none

end Volume

/-- The thing that a creation adds. -/
def Thing.new (ambient : Ambient) (node : Node) : Thing :=
  { node
    owner := ambient.uid
    group := ambient.gid
    lastAccess := ambient.now
    lastModification := ambient.now
    creationTime := ambient.now }

/-- The calls that look for a thing that is there already. -/
def Call.LooksFor : Call → Prop
  | .mkdir _ _ | .create _ _ => False
  | _ => True

/-- The calls on files only. -/
def Call.OnFile : Call → Prop
  | .read _ _ _ | .write _ _ _ | .truncate _ _ | .unlink _ => True
  | _ => False

/-- The calls on directories only. -/
def Call.OnDirectory : Call → Prop
  | .readdir _ | .rmdir _ => True
  | _ => False

/-- What a creation leaves at the names. -/
inductive Call.Creates : Call → Node → Prop where
  | mkdir (path : AbsolutePath) (mode : UInt32) :
      Creates (.mkdir path mode) .directory
  | create (path : AbsolutePath) (mode : UInt32) :
      Creates (.create path mode) (.file [])

/-- What a call does to a volume, and the answer to it. -/
inductive Answers (ambient : Ambient) (volume : Volume) :
    Call → Reply → Volume → Prop where
  | absent {call : Call} :
      call.LooksFor → volume.lookup call.path = none →
      Answers ambient volume call (.plain (-enoent)) volume
  | isDirectory {call : Call} {thing : Thing} :
      call.OnFile → volume.lookup call.path = some thing →
      thing.node = .directory →
      Answers ambient volume call (.plain (-eisdir)) volume
  | notDirectory {call : Call} {thing : Thing} {data : List UInt8} :
      call.OnDirectory → volume.lookup call.path = some thing →
      thing.node = .file data →
      Answers ambient volume call (.plain (-enotdir)) volume
  | getattr {path : AbsolutePath} {thing : Thing} {stat : Stat} :
      volume.lookup path = some thing → thing.Described stat →
      Answers ambient volume (.getattr path)
        { Reply.plain 0 with stat := some stat } volume
  | readdir {path : AbsolutePath} {thing : Thing} {names : Names}
      {entries : List (List UInt8)} :
      namesOf path.bytes = some names → volume.find names = some thing →
      thing.node = .directory → entries.Nodup →
      (∀ name, name ∈ entries ↔ volume.Holds names name) →
      Answers ambient volume (.readdir path)
        { Reply.plain 0 with names := entries } volume
  | read {path : AbsolutePath} {size offset : Nat} {names : Names}
      {thing : Thing} {data : List UInt8} {next : Volume} :
      namesOf path.bytes = some names → volume.find names = some thing →
      thing.node = .file data →
      volume.Changes next names
        (some { thing with lastAccess := ambient.now }) →
      Answers ambient volume (.read path size offset)
        { Reply.plain (readFrom data size offset).length with
          bytes := readFrom data size offset } next
  | write {path : AbsolutePath} {buffer : List UInt8} {offset : Nat}
      {names : Names} {thing : Thing} {data : List UInt8} {next : Volume} :
      namesOf path.bytes = some names → volume.find names = some thing →
      thing.node = .file data →
      volume.Changes next names
        (some { thing with
          node := .file (written data buffer offset)
          lastModification := ambient.now }) →
      Answers ambient volume (.write path buffer offset)
        (.plain buffer.length) next
  | truncate {path : AbsolutePath} {size : Nat} {names : Names}
      {thing : Thing} {data : List UInt8} {next : Volume} :
      namesOf path.bytes = some names → volume.find names = some thing →
      thing.node = .file data →
      volume.Changes next names
        (some { thing with
          node := .file (truncated data size)
          lastModification := ambient.now }) →
      Answers ambient volume (.truncate path size) (.plain 0) next
  | utimens {path : AbsolutePath} {accessed modified : UInt64}
      {names : Names} {thing : Thing} {next : Volume} :
      namesOf path.bytes = some names → volume.find names = some thing →
      volume.Changes next names
        (some { thing with
          lastAccess := accessed
          lastModification := modified }) →
      Answers ambient volume (.utimens path accessed modified) (.plain 0) next
  | unlink {path : AbsolutePath} {names : Names} {thing : Thing}
      {data : List UInt8} {next : Volume} :
      namesOf path.bytes = some names → volume.find names = some thing →
      thing.node = .file data →
      volume.Changes next names none →
      Answers ambient volume (.unlink path) (.plain 0) next
  | notEmpty {path : AbsolutePath} {names : Names} {thing : Thing}
      {name : List UInt8} :
      namesOf path.bytes = some names → volume.find names = some thing →
      thing.node = .directory → volume.Holds names name →
      Answers ambient volume (.rmdir path) (.plain (-enotempty)) volume
  | rmdir {path : AbsolutePath} {names : Names} {thing : Thing}
      {next : Volume} :
      namesOf path.bytes = some names → volume.find names = some thing →
      thing.node = .directory → (∀ name, ¬ volume.Holds names name) →
      volume.Changes next names none →
      Answers ambient volume (.rmdir path) (.plain 0) next
  | tooLong {call : Call} {node : Node} :
      call.Creates node → maxPath ≤ call.path.bytes.length →
      Answers ambient volume call (.plain (-enametoolong)) volume
  | full {call : Call} {node : Node} :
      call.Creates node → call.path.bytes.length < maxPath → volume.Full →
      Answers ambient volume call (.plain (-enospc)) volume
  | creates {call : Call} {node : Node} {names : Names} {next : Volume} :
      call.Creates node → call.path.bytes.length < maxPath → ¬ volume.Full →
      namesOf call.path.bytes = some names → volume.find names = none →
      volume.Changes next names (some (.new ambient node)) →
      Answers ambient volume call (.plain 0) next

/-! ## Names and paths -/

variable {path : List UInt8} {names : Names}

theorem wellNamed_pathOf (nonempty : names ≠ [])
    (named : ∀ name ∈ names, Component name) : WellNamed (pathOf names) := by
  refine ⟨names.dropLast, names.getLast nonempty, ?_, ?_, ?_⟩
  · exact fun name member => named name (List.dropLast_subset _ member)
  · exact named _ (List.getLast_mem nonempty)
  · rw [List.dropLast_concat_getLast, pathOf, if_neg nonempty]

theorem namesOf_pathOf (named : ∀ name ∈ names, Component name) :
    namesOf (pathOf names) = some names := by
  cases names with
  | nil => rfl
  | cons first rest =>
      have wellNamed := wellNamed_pathOf (List.cons_ne_nil first rest) named
      unfold namesOf
      rw [if_neg wellNamed.ne_slash, if_pos wellNamed, pathOf,
        if_neg (List.cons_ne_nil first rest), renderPath_cons, List.tail_cons,
        List.splitOn_intercalate slash
          (fun name member => (named name member).noSlash)
          (List.cons_ne_nil first rest)]

theorem pathOf_of_namesOf (isNames : namesOf path = some names) :
    pathOf names = path ∧ ∀ name ∈ names, Component name := by
  unfold namesOf at isNames
  split at isNames
  · rename_i root
    cases isNames
    exact ⟨root.symm, fun _ member => nomatch member⟩
  · split at isNames
    · rename_i wellNamed
      cases isNames
      obtain ⟨absolute, named⟩ := wellNamed_iff.mp wellNamed
      refine ⟨?_, named⟩
      obtain ⟨first, others, split⟩ :=
        List.exists_cons_of_ne_nil (List.splitOn_ne_nil slash path.tail)
      obtain ⟨rest, rfl⟩ : ∃ rest, path = slash :: rest := by
        cases path with
        | nil => cases absolute
        | cons byte rest => exact ⟨rest, by rw [Option.some.inj absolute]⟩
      rw [List.tail_cons] at split ⊢
      rw [pathOf, if_neg (by rw [split]; exact List.cons_ne_nil _ _), split,
        renderPath_cons, ← split, List.intercalate_splitOn]
    · cases isNames

theorem pathOf_inj {other : Names} (named : ∀ name ∈ names, Component name)
    (named' : ∀ name ∈ other, Component name) :
    pathOf names = pathOf other ↔ names = other := by
  constructor
  · intro same
    have back := namesOf_pathOf named
    rw [same, namesOf_pathOf named'] at back
    exact (Option.some.inj back).symm
  · rintro rfl
    rfl

/-- The two sides of the last name. -/
theorem pathOf_concat {name : List UInt8}
    (named : ∀ part ∈ names ++ [name], Component part) :
    baseName (pathOf (names ++ [name])) = name ∧
      parentPath (pathOf (names ++ [name])) = pathOf names := by
  have component := named name (by simp)
  have nonempty : names ++ [name] ≠ [] := by simp
  rw [pathOf, if_neg nonempty, renderPath_concat,
    baseName_append _ component.noSlash, parentPath_append _ component.noSlash]
  refine ⟨rfl, ?_⟩
  unfold pathOf
  cases names with
  | nil => rfl
  | cons first rest =>
      rw [if_neg (List.cons_ne_nil first rest), if_neg]
      rw [renderPath_cons]
      exact List.cons_ne_nil _ _

end FeaturesOS.FileSystem
