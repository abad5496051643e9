import CommentErasure.Failure
import CommentErasure.FileTree.Basic

/-!
# Looking up a path

A path is a byte string of names between slashes.  `Layout.resolve` walks it, from the root of the
machine if it begins with a slash and from the top directory of the tree otherwise, one name after
the other: `.` stays, `..` goes up, a link is replaced by the names of its target, and every name
but the last must be a directory.  The contents of files play no part.

* `Layout.walk`: the number of links that are followed is bounded over the whole walk, which is
  also why the walk ends;
* `Layout.has_of_walk`: what a walk comes to is there.
-/

namespace CommentErasure

namespace Path

/-! ## Names and limits -/

def slash : UInt8 := 0x2F

def nul : UInt8 := 0

def here : Bytes := [0x2E]

def above : Bytes := [0x2E, 0x2E]

/-- No path is as long as this. -/
def lengthBound : Nat := 4096

def maxNameLength : Nat := 255

def maxLinks : Nat := 40

/-- The pieces between the slashes of a path.  Those of slashes in a row are empty. -/
def split : Bytes → List Bytes
  | [] => [[]]
  | byte :: rest =>
      match split rest with
      | [] => [[byte]]
      | piece :: others =>
          if byte = slash then
            [] :: piece :: others
          else
            (byte :: piece) :: others

def pieces (path : Bytes) : List Bytes :=
  (split path).filter (· ≠ [])

/-- The names that a path goes through.  A slash at the end counts as a further `.`, so that it asks
for a directory. -/
def names (path : Bytes) : List Bytes :=
  if path.getLast? = some slash then pieces path ++ [here] else pieces path

/-- What makes a path unfit for any walk.  A NUL byte counts before all else. -/
def flaw? (path : Bytes) : Option Cause :=
  if nul ∈ path then
    some .nulByte
  else if path = [] then
    some .notFound
  else if lengthBound ≤ path.length then
    some .nameTooLong
  else
    none

example : names (Utf8.encode "//a/./b//".toList) = [[0x61], here, [0x62], here] := by decide

/-- The directory in which a path begins that is given in this one. -/
def start (place : Location) (path : Bytes) : Location :=
  if path.head? = some slash then [] else place

end Path

/-- What a path leads to.  A directory may lie outside the tree. -/
inductive Node where
  | file (id : FileId)
  | directory (place : Location)
  deriving DecidableEq, Repr

namespace Layout

/-- What is at a place of the machine.  Outside the tree, that is only the directories above it. -/
def entryAt? (layout : Layout) (place : Location) : Option Entry :=
  if layout.top <+: place then
    layout.lookup? (place.drop layout.top.length)
  else if place <+: layout.top then
    some .directory
  else
    none

/-- Go on from a node through the names that are left.  At a link, `expand` takes over, with the
directory and the target of the link and the names behind it. -/
def follow
    (layout : Layout)
    (expand : Location → Bytes → List Bytes → Except Cause Node) :
    Node → List Bytes → Except Cause Node
  | node, [] => .ok node
  | .file _, _ :: _ => .error .notADirectory
  | .directory place, name :: rest =>
      if name = Path.here then
        layout.follow expand (.directory place) rest
      else if name = Path.above then
        layout.follow expand (.directory place.dropLast) rest
      else if Path.maxNameLength < name.length then
        .error .nameTooLong
      else
        match layout.entryAt? (place ++ [name]) with
        | none => .error .notFound
        | some (.file id) => layout.follow expand (.file id) rest
        | some .directory => layout.follow expand (.directory (place ++ [name])) rest
        | some (.link target) => expand place target rest

/-- Walk from a directory through names, following at most `links` links. -/
def walk (layout : Layout) (links : Nat) (place : Location) (names : List Bytes) :
    Except Cause Node :=
  match links with
  | 0 => layout.follow (fun _ _ _ => .error .linkLoop) (.directory place) names
  | links + 1 =>
      layout.follow
        (fun place target rest =>
          layout.walk links (Path.start place target) (Path.names target ++ rest))
        (.directory place) names

def resolve (layout : Layout) (path : Bytes) : Except Cause Node :=
  match Path.flaw? path with
  | some cause => .error cause
  | none => layout.walk Path.maxLinks (Path.start layout.top path) (Path.names path)

def fileAt (layout : Layout) (path : Bytes) : Except Cause FileId :=
  match layout.resolve path with
  | .error cause => .error cause
  | .ok (.directory _) => .error .isADirectory
  | .ok (.file id) => .ok id

/-! ## Places -/

theorem entryAt?_append (layout : Layout) (location : Location) :
    layout.entryAt? (layout.top ++ location) = layout.lookup? location := by
  rw [entryAt?, if_pos (List.prefix_append layout.top location), List.drop_left]

theorem entryAt?_of_isPrefix
    {layout : Layout} {place : Location}
    (isAbove : place <+: layout.top) :
    layout.entryAt? place = some .directory := by
  by_cases isTop : layout.top <+: place
  · have samePlace : layout.top ++ [] = place := by
      rw [List.append_nil]
      exact isTop.eq_of_length_le isAbove.length_le
    rw [← samePlace, entryAt?_append, lookup?_nil]
  · rw [entryAt?, if_neg isTop, if_pos isAbove]

theorem entryAt?_nil (layout : Layout) : layout.entryAt? [] = some .directory :=
  entryAt?_of_isPrefix List.nil_prefix

theorem entryAt?_dropLast
    {layout : Layout} {place : Location}
    (isDirectory : layout.entryAt? place = some .directory) :
    layout.entryAt? place.dropLast = some .directory := by
  by_cases inside : layout.top <+: place
  · obtain ⟨location, rfl⟩ := inside
    by_cases isTop : location = []
    · rw [isTop, List.append_nil]
      exact entryAt?_of_isPrefix (List.dropLast_prefix layout.top)
    · rw [entryAt?_append] at isDirectory
      rw [List.dropLast_append_of_ne_nil isTop, entryAt?_append]
      exact lookup?_dropLast isDirectory
  · by_cases isAbove : place <+: layout.top
    · exact entryAt?_of_isPrefix ((List.dropLast_prefix place).trans isAbove)
    · rw [entryAt?, if_neg inside, if_neg isAbove] at isDirectory
      cases isDirectory

theorem exists_lookup?_of_entryAt?
    {layout : Layout} {place : Location} {id : FileId}
    (found : layout.entryAt? place = some (.file id)) :
    ∃ location, layout.lookup? location = some (.file id) := by
  by_cases inside : layout.top <+: place
  · rw [entryAt?, if_pos inside] at found
    exact ⟨_, found⟩
  · rw [entryAt?, if_neg inside] at found
    split at found <;> cases found

/-! ## Where a walk may lead -/

/-- A node is there: a directory in its place, and a file under a name. -/
def Has (layout : Layout) : Node → Prop
  | .file id => ∃ location, layout.lookup? location = some (.file id)
  | .directory place => layout.entryAt? place = some .directory

theorem has_of_follow
    {layout : Layout} {expand : Location → Bytes → List Bytes → Except Cause Node}
    (expands :
      ∀ place target rest node,
        layout.Has (.directory place) →
        expand place target rest = .ok node →
        layout.Has node)
    {start reached : Node} {names : List Bytes}
    (isThere : layout.Has start)
    (leads : layout.follow expand start names = .ok reached) :
    layout.Has reached := by
  induction names generalizing start with
  | nil =>
      cases start <;> cases leads <;> exact isThere
  | cons name rest inductionHypothesis =>
      cases start with
      | file id =>
          cases leads
      | directory place =>
          rw [follow] at leads
          split at leads
          · exact inductionHypothesis isThere leads
          · split at leads
            · refine inductionHypothesis ?_ leads
              exact entryAt?_dropLast isThere
            · split at leads
              · cases leads
              · split at leads
                · cases leads
                · rename_i found
                  refine inductionHypothesis ?_ leads
                  exact exists_lookup?_of_entryAt? found
                · rename_i found
                  refine inductionHypothesis ?_ leads
                  exact found
                · exact expands _ _ _ _ isThere leads

theorem has_start
    {layout : Layout} {place : Location}
    (isThere : layout.Has (.directory place)) (path : Bytes) :
    layout.Has (.directory (Path.start place path)) := by
  rw [Path.start]
  split
  · exact entryAt?_nil layout
  · exact isThere

theorem has_of_walk
    {layout : Layout} {links : Nat} {place : Location} {names : List Bytes} {reached : Node}
    (isThere : layout.Has (.directory place))
    (leads : layout.walk links place names = .ok reached) :
    layout.Has reached := by
  induction links generalizing place names reached with
  | zero =>
      rw [walk] at leads
      refine has_of_follow ?_ isThere leads
      intro place target rest node _ expanded
      cases expanded
  | succ links inductionHypothesis =>
      rw [walk] at leads
      refine has_of_follow ?_ isThere leads
      intro place target rest node placeThere expanded
      exact inductionHypothesis (has_start placeThere target) expanded

theorem has_top (layout : Layout) : layout.Has (.directory layout.top) :=
  entryAt?_of_isPrefix (List.prefix_refl layout.top)

theorem has_of_resolve
    {layout : Layout} {path : Bytes} {reached : Node}
    (leads : layout.resolve path = .ok reached) :
    layout.Has reached := by
  rw [resolve] at leads
  split at leads
  · cases leads
  · exact has_of_walk (has_start layout.has_top path) leads

theorem exists_lookup?_of_fileAt
    {layout : Layout} {path : Bytes} {id : FileId}
    (leads : layout.fileAt path = .ok id) :
    ∃ location, layout.lookup? location = some (.file id) := by
  rw [fileAt] at leads
  split at leads
  · cases leads
  · cases leads
  · rename_i resolved
    cases leads
    exact has_of_resolve resolved

end Layout

namespace FileTree

theorem stored_of_fileAt
    {tree : FileTree} {path : Bytes} {id : FileId}
    (leads : tree.fileAt path = .ok id) :
    id < tree.files.length := by
  obtain ⟨location, found⟩ := Layout.exists_lookup?_of_fileAt leads
  exact tree.stored_of_lookup? found id rfl

end FileTree

end CommentErasure
