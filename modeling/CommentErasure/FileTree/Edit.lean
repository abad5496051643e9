import CommentErasure.FileTree.Lookup

/-!
# Editing a file tree

The operations by which a tree is built.  Each takes paths; a new entry goes where the path
without its last name leads to.  An operation that cannot be done gives the cause, and every tree
that comes of one is well-formed again.

* `FileTree.createFile` takes the place of a file or link that is there; other new entries need
  a free name.
* `FileTree.addName` does not follow a link: it gives the link itself a further name.
* `FileTree.setAccess` is for files only.  Directories can be read and searched throughout, and
  to change that is denied.
-/

namespace CommentErasure

namespace Layout

/-- A name in a directory of a tree, whether or not something has it. -/
structure Slot (layout : Layout) where
  directory : Location
  name : Bytes
  isDirectory : layout.lookup? directory = some .directory

def Slot.location {layout : Layout} (slot : layout.Slot) : Location :=
  slot.directory ++ [slot.name]

theorem Slot.location_ne_nil {layout : Layout} (slot : layout.Slot) : slot.location ≠ [] :=
  List.append_ne_nil_of_right_ne_nil _ (List.cons_ne_nil _ _)

/-- The slot in which an entry of this path is, or would be put. -/
def slotOf (layout : Layout) (path : Bytes) : Except Cause layout.Slot := do
  if let some cause := Path.flaw? path then
    throw cause
  let pieces := Path.pieces path
  match leads : layout.walk Path.maxLinks (Path.start layout.top path) pieces.dropLast with
  | .error cause => throw cause
  | .ok (.file _) => throw .notADirectory
  | .ok (.directory place) =>
      if inside : layout.top <+: place then
        match pieces.getLast? with
        | none => throw .alreadyExists
        | some name =>
            if name = Path.here ∨ name = Path.above then
              throw .alreadyExists
            if Path.maxNameLength < name.length then
              throw .nameTooLong
            return ⟨place.drop layout.top.length, name, by
              have isThere := has_of_walk (has_start layout.has_top path) leads
              rwa [Has, entryAt?, if_pos inside] at isThere⟩
      else
        throw .permissionDenied

/-! ## One entry less -/

theorem lookup_filter_ne
    {entries : List (Location × Entry)} {location other : Location}
    (different : other ≠ location) :
    (entries.filter (·.1 ≠ location)).lookup other = entries.lookup other := by
  induction entries with
  | nil =>
      rfl
  | cons slot rest inductionHypothesis =>
      obtain ⟨place, entry⟩ := slot
      by_cases isOther : other = place
      · have stays : place ≠ location := isOther ▸ different
        simp [stays, isOther]
      · have passesOver : (other == place) = false := beq_false_of_ne isOther
        by_cases isRemoved : place = location
        · simpa [isRemoved, List.lookup_cons, beq_false_of_ne different] using inductionHypothesis
        · simpa [isRemoved, List.lookup_cons, passesOver] using inductionHypothesis

theorem entryAmong?_filter_ne
    {entries : List (Location × Entry)} {location other : Location}
    (different : other ≠ location) :
    entryAmong? (entries.filter (·.1 ≠ location)) other = entryAmong? entries other := by
  rw [entryAmong?, entryAmong?, lookup_filter_ne different]

/-- Leave out what is at a location.  A directory may have other entries in it and has to stay. -/
def without
    (layout : Layout) (location : Location)
    (notDirectory : layout.lookup? location ≠ some .directory) : Layout where
  entries := layout.entries.filter (·.1 ≠ location)
  top := layout.top
  distinct := layout.distinct.sublist (List.Sublist.map _ List.filter_sublist)
  enclosed := by
    intro slot member
    have enclosed := layout.enclosed slot (List.mem_filter.mp member).1
    have notParent : slot.1.dropLast ≠ location := by
      intro isParent
      exact notDirectory (isParent ▸ enclosed.2)
    exact ⟨enclosed.1, (entryAmong?_filter_ne notParent).trans enclosed.2⟩

theorem lookup?_without_self
    {layout : Layout} {location : Location}
    (notDirectory : layout.lookup? location ≠ some .directory) :
    (layout.without location notDirectory).lookup? location = none := by
  have below : location ≠ [] := by
    intro isTop
    rw [isTop] at notDirectory
    exact notDirectory layout.lookup?_nil
  rw [lookup?, entryAmong?, if_neg below, List.lookup_eq_none_iff]
  intro slot member
  have stays : slot.1 ≠ location := by
    simpa using (List.mem_filter.mp member).2
  exact bne_iff_ne.mpr stays.symm

def Slot.cleared
    {layout : Layout} (slot : layout.Slot)
    (notDirectory : layout.lookup? slot.location ≠ some .directory) :
    (layout.without slot.location notDirectory).Slot where
  directory := slot.directory
  name := slot.name
  isDirectory := by
    have notSelf : slot.directory ≠ slot.location := by
      intro isSelf
      exact notDirectory (isSelf ▸ slot.isDirectory)
    exact (entryAmong?_filter_ne notSelf).trans slot.isDirectory

/-! ## One entry more -/

theorem entryAmong?_append
    {entries further : List (Location × Entry)} {location : Location} {entry : Entry}
    (found : entryAmong? entries location = some entry) :
    entryAmong? (entries ++ further) location = some entry := by
  by_cases isTop : location = []
  · rw [entryAmong?, if_pos isTop] at found ⊢
    exact found
  · rw [entryAmong?, if_neg isTop] at found ⊢
    rw [List.lookup_append, found, Option.some_or]

def withEntry
    (layout : Layout) (slot : layout.Slot) (entry : Entry)
    (isFree : layout.lookup? slot.location = none) : Layout where
  entries := layout.entries ++ [(slot.location, entry)]
  top := layout.top
  distinct := by
    have absent : slot.location ∉ layout.entries.map Prod.fst := by
      intro member
      rw [lookup?, entryAmong?, if_neg slot.location_ne_nil, List.lookup_eq_none_iff] at isFree
      obtain ⟨taken, isTaken, sameLocation⟩ := List.mem_map.mp member
      exact bne_iff_ne.mp (isFree taken isTaken) sameLocation.symm
    rw [List.map_append, List.map_singleton, List.nodup_append]
    refine ⟨layout.distinct, List.pairwise_singleton _ _, ?_⟩
    intro old isOld new isNew same
    have isTaken : old = slot.location := same.trans (List.mem_singleton.mp isNew)
    exact absent (isTaken ▸ isOld)
  enclosed := by
    intro other member
    rcases List.mem_append.mp member with isOld | isNew
    · have enclosed := layout.enclosed other isOld
      exact ⟨enclosed.1, entryAmong?_append enclosed.2⟩
    · rw [List.mem_singleton.mp isNew]
      refine ⟨slot.location_ne_nil, ?_⟩
      rw [Slot.location, List.dropLast_concat]
      exact entryAmong?_append slot.isDirectory

end Layout

namespace FileTree

/-- Put a further file into the store, as yet without a name. -/
def withFile (tree : FileTree) (file : File) : FileTree :=
  { tree with
    files := tree.files ++ [file]
    stored := by
      intro slot member id isFile
      rw [List.length_append]
      exact Nat.lt_add_right _ (tree.stored slot member id isFile) }

theorem length_lt_withFile (tree : FileTree) (file : File) :
    tree.files.length < (tree.withFile file).files.length := by
  simp [withFile]

def without
    (tree : FileTree) (location : Location)
    (notDirectory : tree.lookup? location ≠ some .directory) : FileTree :=
  { tree.toLayout.without location notDirectory with
    files := tree.files
    stored := by
      intro slot member
      exact tree.stored slot (List.mem_filter.mp member).1 }

def withEntry
    (tree : FileTree) (slot : tree.Slot) (entry : Entry)
    (isFree : tree.lookup? slot.location = none)
    (isStored : ∀ id ∈ entry.id?, id < tree.files.length) : FileTree :=
  { tree.toLayout.withEntry slot entry isFree with
    files := tree.files
    stored := by
      intro other member
      rcases List.mem_append.mp member with isOld | isNew
      · exact tree.stored other isOld
      · rw [List.mem_singleton.mp isNew]
        exact isStored }

def addEntry
    (tree : FileTree) (path : Bytes) (entry : Entry)
    (isStored : ∀ id ∈ entry.id?, id < tree.files.length) : Except Cause FileTree := do
  let slot ← tree.slotOf path
  if isFree : tree.lookup? slot.location = none then
    return tree.withEntry slot entry isFree isStored
  else
    throw .alreadyExists

/-- Make a new regular file.  Other names of a file that stood there before keep that file. -/
def createFile (tree : FileTree) (path : Bytes) (file : File) : Except Cause FileTree := do
  let slot ← tree.slotOf path
  if notDirectory : tree.lookup? slot.location ≠ some .directory then
    let cleared := (tree.withFile file).without slot.location notDirectory
    return cleared.withEntry (slot.cleared notDirectory) (.file tree.files.length)
      (Layout.lookup?_without_self notDirectory) (by
        rintro id ⟨⟩
        exact tree.length_lt_withFile file)
  else
    throw .isADirectory

def createDirectory (tree : FileTree) (path : Bytes) : Except Cause FileTree :=
  tree.addEntry path .directory (by simp [Entry.id?])

def createLink (tree : FileTree) (path target : Bytes) : Except Cause FileTree := do
  if let some cause := Path.flaw? target then
    throw cause
  tree.addEntry path (.link target) (by simp [Entry.id?])

/-- Give the file or link that is named `target` a further name. -/
def addName (tree : FileTree) (path target : Bytes) : Except Cause FileTree := do
  let named ← tree.slotOf target
  match found : tree.lookup? named.location with
  | none => throw .notFound
  | some .directory => throw (.other "Operation not permitted (os error 1)".toList)
  | some entry => tree.addEntry path entry (tree.stored_of_lookup? found)

/-- Remove the file or link at a path.  Other names of the same file remain. -/
def removeEntry (tree : FileTree) (path : Bytes) : Except Cause FileTree := do
  let slot ← tree.slotOf path
  if (tree.lookup? slot.location).isNone then
    throw .notFound
  if notDirectory : tree.lookup? slot.location ≠ some .directory then
    return tree.without slot.location notDirectory
  else
    throw .isADirectory

def setAccess (tree : FileTree) (path : Bytes) (access : Access) : Except Cause FileTree := do
  match ← tree.resolve path with
  | .directory _ => throw .permissionDenied
  | .file id => return tree.changeFile id fun file => { file with access }

end FileTree

end CommentErasure
