import DocumentMapper.Text.Split

/-!
# Dirty paths

The paths of a document that have changed, as dotted texts in code point order. A path stands for
everything below it: marking a path below a recorded one changes nothing, and marking a path drops
the recorded ones below it.
-/

namespace DocumentMapper

open Text

/-- Whether `p` is a proper dotted ancestor of `q`. -/
def isAbove (p q : String) : Bool :=
  (p.toList ++ ['.']).isPrefixOf q.toList

/-- The proper dotted ancestors of a path, from the shortest on. -/
def ancestors (path : String) : List String :=
  (beginnings '.' path.toList).map String.ofList

/-- Recorded paths. -/
structure DirtyPaths where
  paths : List String
deriving DecidableEq

namespace DirtyPaths

/-- No path. -/
def empty : DirtyPaths := ⟨[]⟩

instance : Inhabited DirtyPaths := ⟨empty⟩

/-- Whether the path itself is recorded. -/
def contains (d : DirtyPaths) (path : String) : Bool :=
  d.paths.contains path

/-- Whether the path or one of its ancestors is recorded. -/
def covers (d : DirtyPaths) (path : String) : Bool :=
  d.contains path || (ancestors path).any d.contains

/-- Whether nothing is recorded. -/
def isEmpty (d : DirtyPaths) : Bool :=
  d.paths.isEmpty

/-- Puts a path at its place in the order. -/
def insertOrdered (path : String) : List String → List String
  | [] => [path]
  | p :: rest => if path < p then path :: p :: rest else p :: insertOrdered path rest

/-- Records a path. The empty path is none. -/
def mark (d : DirtyPaths) (path : String) : DirtyPaths :=
  if path.isEmpty || d.covers path then d
  else ⟨insertOrdered path (d.paths.filter fun p => !isAbove path p)⟩

/-- Records several paths. -/
def markAll (d : DirtyPaths) (paths : List String) : DirtyPaths :=
  paths.foldl mark d

@[simp] theorem mem_insertOrdered {p path : String} {ps : List String} :
    p ∈ insertOrdered path ps ↔ p = path ∨ p ∈ ps := by
  induction ps with
  | nil => simp [insertOrdered]
  | cons q rest ih =>
    by_cases h : path < q
    · simp [insertOrdered, h]
    · simp only [insertOrdered, h, ↓reduceIte, List.mem_cons, ih]
      exact or_left_comm

/-- A recorded path is covered. -/
theorem covers_of_mem {d : DirtyPaths} {path : String} (h : path ∈ d.paths) :
    d.covers path = true := by
  rw [covers, contains, List.contains_iff_mem.mpr h, Bool.true_or]

/-- A marked path is covered. -/
theorem covers_mark_self (d : DirtyPaths) {path : String} (h : path.isEmpty = false) :
    (d.mark path).covers path = true := by
  unfold mark
  rw [h, Bool.false_or]
  split
  · assumption
  · exact covers_of_mem (mem_insertOrdered.mpr (.inl rfl))

end DirtyPaths

end DocumentMapper
