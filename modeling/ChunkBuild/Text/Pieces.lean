import ChunkBuild.Text.Half
/-!
# Splitting, joining and replacing

Occurrences of a pattern are found from left to right and do not overlap. While an occurrence is
being passed over, a counter says how many of its characters remain, so that every function here
recurses on the text itself.
-/
namespace ChunkBuild.Text

def consFirst (c : Char) : List (List Char) → List (List Char)
  | [] => [[c]]
  | p :: ps => (c :: p) :: ps

/-- Splits at each occurrence of `sep`, with `skip` characters of one still to pass over. -/
def splitFrom (sep : List Char) : Nat → List Char → List (List Char)
  | _, [] => [[]]
  | skip + 1, _ :: r => splitFrom sep skip r
  | 0, c :: r =>
    if sep.isPrefixOf (c :: r) then [] :: splitFrom sep (sep.length - 1) r
    else consFirst c (splitFrom sep 0 r)

/-- The pieces between the occurrences of a non-empty separator; always at least one. -/
def splitOn (sep s : List Char) : List (List Char) := splitFrom sep 0 s

def replaceFrom (pat new : List Char) : Nat → List Char → List Char
  | _, [] => []
  | skip + 1, _ :: r => replaceFrom pat new skip r
  | 0, c :: r =>
    if pat.isPrefixOf (c :: r) then new ++ replaceFrom pat new (pat.length - 1) r
    else c :: replaceFrom pat new 0 r

def replaceAll (pat new s : List Char) : List Char := replaceFrom pat new 0 s

def occursIn (pat : List Char) : List Char → Bool
  | [] => pat.isEmpty
  | c :: r => pat.isPrefixOf (c :: r) || occursIn pat r

def after? : (pat s : List Char) → Option (List Char)
  | [], s => some s
  | _ :: _, [] => none
  | p :: ps, c :: r => if p = c then after? ps r else none

/-- The text before and after the last occurrence of a non-empty separator. -/
def cutLast (sep : List Char) : List Char → Option (List Char × List Char)
  | [] => none
  | c :: r =>
    match cutLast sep r with
    | some (a, b) => some (c :: a, b)
    | none => (after? sep (c :: r)).map fun b => ([], b)

def split (sep s : String) : List String := (splitOn sep.toList s.toList).map String.ofList

def replace (pat new s : String) : String :=
  String.ofList (replaceAll pat.toList new.toList s.toList)

def join (sep : String) : List String → String
  | [] => ""
  | [s] => s
  | s :: t :: r => s ++ sep ++ join sep (t :: r)

/-- The pieces of a text, the last ones left together when there are more than `most`. -/
def splitAtMost (most : Nat) (sep s : String) : List String :=
  let all := split sep s
  if all.length ≤ most then all
  else all.take (most - 1) ++ [join sep (all.drop (most - 1))]

def contains (pat s : String) : Bool := occursIn pat.toList s.toList

def startsWith (pat s : String) : Bool := pat.toList.isPrefixOf s.toList

def count (c : Char) (s : String) : Nat := s.toList.count c

/-- The text filled up with spaces at its end to a width counted in code points. -/
def padEnd (width : Nat) (s : String) : String :=
  s ++ String.ofList (List.replicate (width - size s.toList) ' ')

theorem splitFrom_ne_nil (sep s : List Char) (k : Nat) : splitFrom sep k s ≠ [] := by
  fun_induction splitFrom sep k s with
  | case1 => simp
  | case2 _ _ _ ih => exact ih
  | case3 => simp
  | case4 c r _ ih => cases h : splitFrom sep 0 r <;> simp [consFirst]

theorem after?_eq_some_iff {pat s rest : List Char} :
    after? pat s = some rest ↔ s = pat ++ rest := by
  induction pat generalizing s with
  | nil => simp [after?, eq_comm]
  | cons p ps ih =>
    cases s with
    | nil => simp [after?]
    | cons c r =>
      by_cases h : p = c
      · simp [after?, h, ih]
      · simp [after?, h, Ne.symm h]

end ChunkBuild.Text
