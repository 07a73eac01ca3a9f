import N8n.Library.Doubles

/-!
# Array extensions

`chunk` of the extensions for arrays in expressions. Its loop counts in the numbers of the language,
as its step is the number that the expression gives.
-/

namespace N8n

open Doubles

/-- An array has fewer than `2 ^ 32` elements. -/
structure JsArray (α : Type*) where
  items : List α
  length_lt : items.length < 2 ^ 32

/-- An argument of an extension: a number, or something else. -/
inductive ExtraArg
  | number (value : Number)
  | other

variable {α : Type*}

/-- The index that an argument of `slice` stands for. Negative ones count from the end. -/
def relativeIndex (length : ℕ) : Number → ℕ
  | .nan => 0
  | .infinity negative => if negative then 0 else length
  | .finite value _ =>
    if value < 0 then (length + ⌈value⌉).toNat else min ⌊value⌋.toNat length

def slice (value : List α) (start stop : Number) : List α :=
  let first := relativeIndex value.length start
  (value.drop first).take (relativeIndex value.length stop - first)

/-- The size of the chunks, where it is not rejected. -/
def chunkSize (extraArgs : List ExtraArg) : Except String Number :=
  match extraArgs.head? with
  | some (.number (.finite value h)) =>
    if value = 0 then .error "chunk(): expected non-zero numeric arg, e.g. .chunk(5)"
    else .ok (.finite value h)
  | some (.number size) => .ok size
  | _ => .error "chunk(): expected non-zero numeric arg, e.g. .chunk(5)"

/-- The loop from an index on. None if the fuel does not do. -/
def chunksFrom (value : List α) (chunkSize : Number) : ℕ → Number → Option (List (List α))
  | 0, _ => none
  | fuel + 1, i =>
    if i.lt (.ofNat value.length) then
      (chunksFrom value chunkSize fuel (i.add chunkSize)).map
        (slice value i (i.add chunkSize) :: ·)
    else some []

def chunk (fuel : ℕ) (value : JsArray α) (extraArgs : List ExtraArg) :
    Except String (Option (List (List α))) :=
  match chunkSize extraArgs with
  | .error message => .error message
  | .ok size => .ok (chunksFrom value.items size fuel (.ofNat 0))

end N8n
