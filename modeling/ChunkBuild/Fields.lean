/-!
# Ordered fields

Named values in the order in which the names first came. Writing to a name that is present keeps
its place.
-/
namespace ChunkBuild

abbrev Fields (α : Type) := List (String × α)

namespace Fields

variable {α : Type}

def get? : Fields α → String → Option α
  | [], _ => none
  | (k, v) :: r, name => if k = name then some v else get? r name

/-- Sets the value of a name, at the end when the name is new. -/
def put : Fields α → String → α → Fields α
  | [], name, x => [(name, x)]
  | (k, v) :: r, name, x => if k = name then (k, x) :: r else (k, v) :: put r name x

def erase (fs : Fields α) (name : String) : Fields α := fs.filter fun f => f.1 ≠ name

def putAll (fs new : Fields α) : Fields α := new.foldl (fun acc f => put acc f.1 f.2) fs

def has (fs : Fields α) (name : String) : Bool := (get? fs name).isSome

theorem get?_put_self (fs : Fields α) (name : String) (x : α) :
    get? (put fs name x) name = some x := by
  induction fs with
  | nil => simp [put, get?]
  | cons f r ih =>
    obtain ⟨k, v⟩ := f
    by_cases h : k = name <;> simp [put, get?, h, ih]

theorem get?_put_of_ne {fs : Fields α} {name other : String} {x : α} (h : name ≠ other) :
    get? (put fs name x) other = get? fs other := by
  induction fs with
  | nil => simp [put, get?, h]
  | cons f r ih =>
    obtain ⟨k, v⟩ := f
    by_cases hk : k = name
    · subst hk; simp [put, get?, h]
    · by_cases ho : k = other
      · subst ho; simp [put, hk, get?]
      · simp [put, hk, get?, ho, ih]

end Fields

end ChunkBuild
