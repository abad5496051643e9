import CommentErasure.Text.Utf8

/-!
# File trees

A file tree is a set of named entries and a store of regular files.  Entries refer to files by
number, so one file may have several names, and a change of its content shows under each of them.
Both parts carry what makes them well-formed: the entries, that no two are in one place and that
each is in a directory, and the tree, that every number is that of a file.
-/

namespace CommentErasure

/-- A place, by the names of the directories on the way to it and then its own. -/
abbrev Location := List Bytes

abbrev FileId := Nat

structure Access where
  readable : Bool := true
  writable : Bool := true
  deriving DecidableEq, Repr

structure File where
  content : Bytes
  access : Access := {}
  deriving DecidableEq, Repr

/-- What a name stands for.  A link holds the path it was given, which may lead nowhere. -/
inductive Entry where
  | file (id : FileId)
  | directory
  | link (target : Bytes)
  deriving DecidableEq, Repr

def Entry.id? : Entry → Option FileId
  | .file id => some id
  | _ => none

/-- What is at a location below the top directory.  That directory itself is always there and has
no entry of its own. -/
def entryAmong? (entries : List (Location × Entry)) (location : Location) : Option Entry :=
  if location = [] then some .directory else entries.lookup location

/-- The names of a tree.  Locations count from the top directory, and `top` is where that is, from
the root of the machine.  As no path spells the empty name, one that begins at the root or climbs
above the top of a tree does not come back into it, unless `top` says where it is. -/
structure Layout where
  entries : List (Location × Entry) := []
  top : Location := [[]]
  distinct : (entries.map Prod.fst).Nodup := by decide
  enclosed :
    ∀ slot ∈ entries,
      slot.1 ≠ [] ∧ entryAmong? entries slot.1.dropLast = some .directory := by decide
  deriving DecidableEq, Repr

structure FileTree extends Layout where
  files : List File := []
  stored : ∀ slot ∈ entries, ∀ id ∈ slot.2.id?, id < files.length := by decide
  deriving DecidableEq, Repr

namespace Layout

def lookup? (layout : Layout) (location : Location) : Option Entry :=
  entryAmong? layout.entries location

@[simp]
theorem lookup?_nil (layout : Layout) : layout.lookup? [] = some .directory := rfl

theorem mem_entries_of_lookup?
    {layout : Layout} {location : Location} {entry : Entry}
    (below : location ≠ [])
    (found : layout.lookup? location = some entry) :
    (location, entry) ∈ layout.entries := by
  rw [lookup?, entryAmong?, if_neg below, List.lookup_eq_some_iff] at found
  obtain ⟨earlier, later, whole, _⟩ := found
  rw [whole]
  exact List.mem_append_right earlier List.mem_cons_self

theorem lookup?_dropLast
    {layout : Layout} {location : Location} {entry : Entry}
    (found : layout.lookup? location = some entry) :
    layout.lookup? location.dropLast = some .directory := by
  by_cases isTop : location = []
  · rw [isTop]
    rfl
  · exact (layout.enclosed _ (mem_entries_of_lookup? isTop found)).2

end Layout

namespace FileTree

def file? (tree : FileTree) (id : FileId) : Option File :=
  tree.files[id]?

theorem stored_of_lookup?
    {tree : FileTree} {location : Location} {entry : Entry}
    (found : tree.lookup? location = some entry) :
    ∀ id ∈ entry.id?, id < tree.files.length := by
  intro id isFile
  by_cases isTop : location = []
  · rw [isTop, Layout.lookup?_nil] at found
    cases found
    cases isFile
  · exact tree.stored _ (Layout.mem_entries_of_lookup? isTop found) id isFile

def changeFile (tree : FileTree) (id : FileId) (change : File → File) : FileTree :=
  { tree with
    files := tree.files.modify id change
    stored := by
      rw [List.length_modify]
      exact tree.stored }

def setContent (tree : FileTree) (id : FileId) (content : Bytes) : FileTree :=
  tree.changeFile id fun file => { file with content }

@[simp]
theorem toLayout_setContent (tree : FileTree) (id : FileId) (content : Bytes) :
    (tree.setContent id content).toLayout = tree.toLayout := rfl

theorem file?_setContent (tree : FileTree) (id other : FileId) (content : Bytes) :
    (tree.setContent id content).file? other =
      if id = other then
        (tree.file? other).map fun file => { file with content }
      else
        tree.file? other := by
  simp only [file?, setContent, changeFile, List.getElem?_modify]
  split <;> simp

theorem eq_of_same_files
    {left right : FileTree}
    (sameLayout : left.toLayout = right.toLayout)
    (sameFiles : ∀ id, left.file? id = right.file? id) :
    left = right := by
  rcases left with ⟨leftLayout, leftFiles⟩
  rcases right with ⟨rightLayout, rightFiles⟩
  cases sameLayout
  cases List.ext_getElem? sameFiles
  rfl

end FileTree

end CommentErasure
