/-!
# A sort by pivots

`sortBy` sorts in place of equal elements only as long as a list is short or sorted already. A longer list is split at
a pivot, and the split moves equal elements around: those in front of the pivot keep their order, those behind it are
turned by one place with each element that is dealt out (`deal`).

* `split` deals a list out by a test;
* `pivotPlace` is the median of three places, or of three medians where the list is long;
* `quick` splits until the parts are short; parts that keep splitting badly are sorted as if they were short.
-/

namespace ScriptBundler.Sorting

variable {α : Type}

/-- Deals an element to one of two parts; the second part is turned by one place. -/
def deal (test : α → Bool) (parts : List α × List α) (x : α) : List α × List α :=
  let turned := parts.2.drop 1 ++ parts.2.take 1
  if test x then (parts.1 ++ [x], turned) else (parts.1, x :: turned)

/-- Deals a list out, its first element last. -/
def split (test : α → Bool) (xs : List α) : List α × List α :=
  (xs.drop 1 ++ xs.take 1).foldl (deal test) ([], [])

/-- Whether the element at one place is less than that at another. -/
def lessAt (less : α → α → Bool) (xs : Array α) (i j : Nat) : Bool :=
  match xs[i]?, xs[j]? with
  | some a, some b => less a b
  | _, _ => false

/-- The place of the median of three. -/
def median (less : α → α → Bool) (xs : Array α) (i j k : Nat) : Nat :=
  let x := lessAt less xs i j
  if x = lessAt less xs i k then
    if lessAt less xs j k = x then j else k
  else i

/-- The place of the median of three, each taken as a median of its own while stretches of `n` are long; the first
argument bounds how often. -/
def medianOf (less : α → α → Bool) (xs : Array α) : Nat → Nat → Nat → Nat → Nat → Nat
  | 0, _, i, j, k => median less xs i j k
  | fuel + 1, n, i, j, k =>
    if n * 8 ≥ 64 then
      let m := n / 8
      let inner (i : Nat) : Nat := medianOf less xs fuel m i (i + m * 4) (i + m * 7)
      median less xs (inner i) (inner j) (inner k)
    else median less xs i j k

/-- Where the pivot of a list stands. -/
def pivotPlace (less : α → α → Bool) (xs : Array α) : Nat :=
  let n := xs.size / 8
  if xs.size < 64 then median less xs 0 (n * 4) (n * 7) else medianOf less xs xs.size n 0 (n * 4) (n * 7)

/-- The list without the element at a place, into which the first element goes. -/
def without (xs : List α) (place : Nat) : List α :=
  match place, xs with
  | 0, xs => xs.drop 1
  | _, [] => []
  | n + 1, x :: xs => xs.set n x

/-- Puts the last element in front. -/
def lastFirst (xs : List α) : List α := xs.drop (xs.length - 1) ++ xs.take (xs.length - 1)

/-- Sorts; equal elements stay in their order. -/
def stable (less : α → α → Bool) (xs : List α) : List α := xs.mergeSort fun a b => !less b a

/-- Sorts by pivots. No element is less than `floor`; the first argument bounds the splits. -/
def quick (less : α → α → Bool) : Nat → Option α → List α → List α
  | 0, _, xs => stable less xs
  | limit + 1, floor, xs =>
    if xs.length ≤ 32 then stable less xs
    else
      let place := pivotPlace less xs.toArray
      match xs[place]? with
      | none => stable less xs
      | some pivot =>
        let rest := without xs place
        if floor.any fun f => !less f pivot then
          let (equal, greater) := split (fun x => !less pivot x) rest
          lastFirst equal ++ pivot :: quick less limit none greater
        else
          let (smaller, others) := split (fun x => less x pivot) rest
          quick less limit floor (lastFirst smaller) ++ pivot :: quick less limit (some pivot) others

/-- Whether each element and the next pass a test. -/
def chain (r : α → α → Bool) : List α → Bool
  | x :: y :: rest => r x y && chain r (y :: rest)
  | _ => true

/-- Sorts. -/
def sortBy (less : α → α → Bool) (xs : List α) : List α :=
  if xs.length ≤ 20 then stable less xs
  else if chain (fun a b => !less b a) xs then xs
  else if chain (fun a b => less b a) xs then xs.reverse
  else quick less (2 * Nat.log2 xs.length) none xs

end ScriptBundler.Sorting
