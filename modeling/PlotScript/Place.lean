/-! Places in a sequence. A place at or above zero counts from the front; a place below zero
counts back from the end, so that the last item is at minus one. -/

namespace PlotScript.Place

/-- The index of a place in a sequence of the given size. -/
def index? (size : Nat) (place : Int) : Option Nat :=
  let index := if 0 ≤ place then place else place + size
  if 0 ≤ index ∧ index < size then some index.toNat else none

def get? {α : Type} (xs : Array α) (place : Int) : Option α :=
  (index? xs.size place).bind fun i => xs[i]?

def erase? {α : Type} (xs : Array α) (place : Int) : Option (Array α) :=
  (index? xs.size place).map fun i => xs.eraseIdxIfInBounds i

/-- Puts `block` in front of the item at `place`, the block's last item first. A place that
counts from the end moves along with every item put in, so there the block comes out turned
around. -/
def splice {α : Type} (xs : Array α) (place : Int) (block : List α) : Array α :=
  if 0 ≤ place then
    xs.extract 0 place.toNat ++ block.toArray ++ xs.extract place.toNat xs.size
  else
    let i := (place + xs.size).toNat
    xs.extract 0 i ++ block.reverse.toArray ++ xs.extract i xs.size

@[simp] theorem index?_natCast (size i : Nat) :
    index? size (i : Int) = if i < size then some i else none := by
  simp [index?]

@[simp] theorem get?_natCast {α : Type} (xs : Array α) (i : Nat) : get? xs (i : Int) = xs[i]? := by
  rw [get?, index?_natCast]
  split
  · rfl
  · next h => simp [Array.getElem?_eq_none (Nat.le_of_not_lt h)]

/-- At a place counted from the front the block goes in as it is. -/
theorem toList_splice_natCast {α : Type} (xs : Array α) (i : Nat) (block : List α) :
    (splice xs (i : Int) block).toList = xs.toList.take i ++ block ++ xs.toList.drop i := by
  have hlen : (xs.toList.drop i).length ≤ xs.size - i := by simp
  simp [splice, List.take_of_length_le hlen]

end PlotScript.Place
